/-
  A FORBID POLICY IN DOUBT (`vellaveto-engine/src/abac.rs`: `compile_resource`, `matches_resource`,
  `evaluate`).

  SPEC.  A Forbid policy is IN DOUBT for a request when its principal, action and conditions match
  and it has path patterns, but one of the patterns is no glob or one of the target paths cannot be
  normalized: nobody can tell whether the path part matches.  Failing closed means that such a
  request is not allowed.

  RESULT.  The engine answers "does not match" in both cases (`AppliesTo.compiles`,
  `AppliesTo.exists_path`): fine for a Permit, which then allows less, and wrong for a Forbid, which
  then denies less.  `forbid_in_doubt_fails_closed_iff` is what remains: a request is kept from being
  allowed exactly when another Forbid applies to it, or no Permit does.
-/
import Vellaveto.Engine.Abac

namespace Vellaveto.Abac

open Vellaveto.Lib

section InDoubt

variable (ext : AbacExternals) (policies : List AbacPolicy) (entities : List AbacEntity)
  (engine : AbacEngine) (action : Action) (ctx : AbacEvalContext)

/-- A Forbid policy of which the path part cannot be decided for this request. -/
structure ForbidInDoubt (p : AbacPolicy) : Prop where
  forbids : p.effect = .forbid
  principalMatches :
    matchesPrincipal ext (compilePrincipal ext p.principal) ctx (.fromConfig ext entities) = true
  actionMatches : matchesAction ext (compileAction ext p.action) action = true
  conditionsHold : evaluateConditions ext (p.compiled ext).conditions ctx = true
  hasPathPatterns : p.resource.pathPatterns ≠ []
  inDoubt :
    (∃ path ∈ action.targetPaths, ∃ e,
      Path.normalizePathBounded path Path.defaultMaxPathDecodeIterations = .error e) ∨
    ∃ pattern ∈ p.resource.pathPatterns, ext.globBuild pattern = none

/-- Fail closed: with a Forbid policy in doubt the request is not allowed. -/
def FailsClosed : Prop :=
  (∃ p ∈ policies, ForbidInDoubt ext entities action ctx p) →
    ∀ id, engine.evaluate ext action ctx ≠ .allow id

end InDoubt

/-! ## What an error does to a policy -/

variable {ext : AbacExternals} {policies : List AbacPolicy} {entities : List AbacEntity}
  {engine : AbacEngine} {action : Action} {ctx : AbacEvalContext} {p : AbacPolicy}

/-- A pattern fails to compile when it has a metacharacter and is no glob. -/
theorem compile_eq_none_iff {pattern : String} :
    CompiledPathMatcher.compile ext pattern = none ↔
      hasGlobMeta pattern = true ∧ ext.globBuild pattern = none := by
  rw [CompiledPathMatcher.compile]
  cases hasGlobMeta pattern <;> simp

/-- A policy that applies has path patterns that all compile.  So a policy with a pattern that does
    not compile applies to nothing, a Forbid as well as a Permit. -/
theorem AbacPolicy.AppliesTo.compiles (h : p.AppliesTo ext entities action ctx) {pattern : String}
    (hpattern : pattern ∈ p.resource.pathPatterns) :
    CompiledPathMatcher.compile ext pattern ≠ none := by
  intro hnone
  have hresource := h.resourceMatches
  have hfailed : (compileResource ext p.resource).pathCompileFailed = true := by
    refine List.any_eq_true.mpr ⟨pattern, hpattern, ?_⟩
    rw [hnone]
    rfl
  rw [matchesResource, hfailed] at hresource
  cases hresource

/-- A policy with path patterns that applies does so through a target path that was normalized. -/
theorem AbacPolicy.AppliesTo.exists_path (h : p.AppliesTo ext entities action ctx)
    (hne : p.resource.pathPatterns ≠ []) :
    ∃ path ∈ action.targetPaths, ∃ normalized,
      Path.normalizePathBounded path Path.defaultMaxPathDecodeIterations = .ok normalized := by
  have hresource := h.resourceMatches
  -- the matchers are not empty, since the first pattern has compiled
  have hmatchers : (compileResource ext p.resource).pathMatchers.isEmpty = false := by
    obtain ⟨pattern, hpattern⟩ := List.exists_mem_of_ne_nil _ hne
    obtain ⟨m, hm⟩ := Option.ne_none_iff_exists'.mp (h.compiles hpattern)
    have hmem : m ∈ (compileResource ext p.resource).pathMatchers :=
      List.mem_filterMap.mpr ⟨pattern, hpattern, hm⟩
    cases hlist : (compileResource ext p.resource).pathMatchers with
    | nil =>
      rw [hlist] at hmem
      cases hmem
    | cons _ _ => rfl
  rw [matchesResource, hmatchers] at hresource
  simp only [Bool.and_eq_true, Bool.false_or] at hresource
  obtain ⟨path, hpath, hmatches⟩ := List.any_eq_true.mp hresource.1.1.2
  refine ⟨path, hpath, ?_⟩
  rw [pathMatches] at hmatches
  cases hnorm : Path.normalizePathBounded path Path.defaultMaxPathDecodeIterations with
  | ok normalized => exact ⟨normalized, rfl⟩
  | error e =>
    rw [hnorm] at hmatches
    cases hmatches

/-! ## Exactly when the engine fails closed

  The concrete policies below: everything is permitted, except a path.  One of the two Forbid policies
  names its path exactly; the other has a pattern with an unclosed bracket. -/

/-- The externals on plain text; a glob with an unclosed bracket is not valid. -/
def plainAbacExternals : AbacExternals where
  toExternals := plainExternals
  globBuild := fun pattern =>
    if pattern.toList.contains '[' && !pattern.toList.contains ']' then none
    else some fun s => s == pattern
  escapeDebug := id
  debugString := fun s => "\"" ++ s ++ "\""

def permitAll : AbacPolicy := { id := "permit-all", description := "", effect := .permit }

def forbidShadow : AbacPolicy :=
  { id := "forbid-shadow", description := "", effect := .forbid, priority := 100,
    resource := { pathPatterns := ["/etc/shadow"] } }

def forbidBroken : AbacPolicy :=
  { id := "forbid-etc", description := "", effect := .forbid, priority := 100,
    resource := { pathPatterns := ["/etc/[a-z*"] } }

def reading (paths : List String) : Action :=
  ⟨"filesystem", "read", .object [], paths, [], []⟩

def someAgent : AbacEvalContext := { evalCtx := {}, principalType := "Agent", principalId := "a" }

theorem exists_accepted {policies : List AbacPolicy}
    (h : (AbacEngine.new plainAbacExternals policies []).toBool = true) :
    ∃ engine, AbacEngine.new plainAbacExternals policies [] = .ok engine := by
  cases hnew : AbacEngine.new plainAbacExternals policies [] with
  | ok engine => exact ⟨engine, rfl⟩
  | error e =>
    rw [hnew] at h
    cases h

theorem permitAll_applies (action : Action) :
    permitAll.AppliesTo plainAbacExternals [] action someAgent :=
  ⟨rfl, rfl, rfl, rfl⟩

/-- With a Forbid policy that is in doubt and does not apply, what `permitAll` permits is allowed. -/
theorem not_failsClosed (hnew : AbacEngine.new plainAbacExternals [permitAll, p] [] = .ok engine)
    (hdoubt : ForbidInDoubt plainAbacExternals [] action someAgent p)
    (hforbid : ¬p.AppliesTo plainAbacExternals [] action someAgent) :
    ¬FailsClosed plainAbacExternals [permitAll, p] [] engine action someAgent := by
  intro hclosed
  have hnone : ¬∃ q ∈ [permitAll, p], q.effect = .forbid ∧
      q.AppliesTo plainAbacExternals [] action someAgent := by
    rintro ⟨q, hq, heffect, happlies⟩
    rcases List.mem_pair.mp hq with rfl | rfl
    · cases heffect
    · exact hforbid happlies
  obtain ⟨id, hallow⟩ := (evaluate_allows_iff hnew action someAgent).mpr
    ⟨hnone, permitAll, by simp, rfl, permitAll_applies action⟩
  exact hclosed ⟨p, by simp, hdoubt⟩ id hallow

theorem nul_not_normalized :
    Path.normalizePathBounded "/etc/shadow%00" Path.defaultMaxPathDecodeIterations =
      .error (.pathNormalization "decoded path contains null byte") := by
  decide +kernel

/-- **Failing closed.**  For an accepted policy set and a request, the engine fails closed exactly
    when no Forbid policy is in doubt, or a Forbid policy applies nevertheless, or no Permit policy
    applies. -/
theorem forbid_in_doubt_fails_closed_iff
    (h : AbacEngine.new ext policies entities = .ok engine) (action : Action)
    (ctx : AbacEvalContext) :
    FailsClosed ext policies entities engine action ctx ↔
      (¬∃ p ∈ policies, ForbidInDoubt ext entities action ctx p) ∨
      (∃ p ∈ policies, p.effect = .forbid ∧ p.AppliesTo ext entities action ctx) ∨
      ¬∃ p ∈ policies, p.effect = .permit ∧ p.AppliesTo ext entities action ctx := by
  have hallows := evaluate_allows_iff h action ctx
  rw [FailsClosed, ← not_exists, hallows]
  constructor
  · intro hclosed
    by_cases hdoubt : ∃ p ∈ policies, ForbidInDoubt ext entities action ctx p
    · right
      exact not_and_or.mp (hclosed hdoubt) |>.imp_left not_not.mp
    · exact Or.inl hdoubt
  · rintro (hnone | hforbid | hpermit) hdoubt ⟨hno, hyes⟩
    · exact hnone hdoubt
    · exact hno hforbid
    · exact hpermit hyes

/-- A second path, which does match, saves the day. -/
theorem forbid_in_doubt_fails_closed_second_path :
    ∃ engine, AbacEngine.new plainAbacExternals [permitAll, forbidShadow] [] = .ok engine ∧
      FailsClosed plainAbacExternals [permitAll, forbidShadow] [] engine
        (reading ["/etc/shadow%00", "/etc/shadow"]) someAgent := by
  have hok : (AbacEngine.new plainAbacExternals [permitAll, forbidShadow] []).toBool = true := by
    decide +kernel
  obtain ⟨engine, hnew⟩ := exists_accepted hok
  refine ⟨engine, hnew, (forbid_in_doubt_fails_closed_iff hnew _ _).mpr (.inr (.inl ?_))⟩
  exact ⟨forbidShadow, by simp, rfl, ⟨rfl, rfl, by decide +kernel, rfl⟩⟩

/-- An encoded NUL after the forbidden path, or a pattern that is no glob, and the request is
    allowed. -/
theorem forbid_in_doubt_fails_open :
    (∃ engine, AbacEngine.new plainAbacExternals [permitAll, forbidShadow] [] = .ok engine ∧
      ¬FailsClosed plainAbacExternals [permitAll, forbidShadow] [] engine
        (reading ["/etc/shadow%00"]) someAgent) ∧
    ∃ engine, AbacEngine.new plainAbacExternals [permitAll, forbidBroken] [] = .ok engine ∧
      ¬FailsClosed plainAbacExternals [permitAll, forbidBroken] [] engine
        (reading ["/etc/passwd"]) someAgent := by
  constructor
  · have hok : (AbacEngine.new plainAbacExternals [permitAll, forbidShadow] []).toBool = true := by
      decide +kernel
    obtain ⟨engine, hnew⟩ := exists_accepted hok
    refine ⟨engine, hnew, not_failsClosed hnew ?_ ?_⟩
    · exact ⟨rfl, rfl, rfl, rfl, by simp [forbidShadow],
        .inl ⟨"/etc/shadow%00", by simp [reading], _, nul_not_normalized⟩⟩
    · intro happlies
      obtain ⟨path, hpath, normalized, hok⟩ := happlies.exists_path (by simp [forbidShadow])
      rw [List.mem_singleton.mp hpath, nul_not_normalized] at hok
      cases hok
  · have hok : (AbacEngine.new plainAbacExternals [permitAll, forbidBroken] []).toBool = true := by
      decide +kernel
    obtain ⟨engine, hnew⟩ := exists_accepted hok
    have hmem : "/etc/[a-z*" ∈ forbidBroken.resource.pathPatterns := by simp [forbidBroken]
    refine ⟨engine, hnew, not_failsClosed hnew ?_ ?_⟩
    · exact ⟨rfl, rfl, rfl, rfl, List.ne_nil_of_mem hmem, .inr ⟨_, hmem, rfl⟩⟩
    · intro happlies
      exact happlies.compiles hmem (compile_eq_none_iff.mpr ⟨rfl, rfl⟩)

/-! ## More Forbid policies -/

/-- **More Forbid policies never widen access.**  Whatever is added to an accepted policy set, at whatever
    place and priority, if all of it is Forbid policies then what is still allowed was allowed before,
    and what was denied is still denied. -/
theorem added_forbids_only_restrict {policies' : List AbacPolicy} {engine' : AbacEngine}
    (h : AbacEngine.new ext policies entities = .ok engine)
    (h' : AbacEngine.new ext policies' entities = .ok engine') (hsub : policies ⊆ policies')
    (hadded : ∀ p ∈ policies', p ∉ policies → p.effect = .forbid) (action : Action)
    (ctx : AbacEvalContext) :
    ((∃ id, engine'.evaluate ext action ctx = .allow id) →
        ∃ id, engine.evaluate ext action ctx = .allow id) ∧
      ((∃ id reason, engine.evaluate ext action ctx = .deny id reason) →
        ∃ id reason, engine'.evaluate ext action ctx = .deny id reason) := by
  rw [evaluate_allows_iff h, evaluate_allows_iff h', evaluate_denies_iff h, evaluate_denies_iff h']
  constructor
  · rintro ⟨hnone, p, hp, hpermit, happlies⟩
    refine ⟨fun ⟨q, hq, hforbid⟩ => hnone ⟨q, hsub hq, hforbid⟩, p, ?_, hpermit, happlies⟩
    -- a Permit that applies is none of those added
    by_contra hold
    rw [hadded p hp hold] at hpermit
    cases hpermit
  · rintro ⟨p, hp, hforbid⟩
    exact ⟨p, hsub hp, hforbid⟩

/-- With `forbidShadow` put in front, reading its path is denied, and nothing new is allowed. -/
theorem added_forbids_only_restrict_shadow : ∃ engine engine',
    AbacEngine.new plainAbacExternals [permitAll] [] = .ok engine ∧
      AbacEngine.new plainAbacExternals [forbidShadow, permitAll] [] = .ok engine' ∧
      (∃ id reason, engine'.evaluate plainAbacExternals (reading ["/etc/shadow"]) someAgent =
        .deny id reason) ∧
      ((∃ id, engine'.evaluate plainAbacExternals (reading ["/etc/passwd"]) someAgent = .allow id) →
        ∃ id, engine.evaluate plainAbacExternals (reading ["/etc/passwd"]) someAgent = .allow id) := by
  obtain ⟨engine, hnew⟩ := @exists_accepted [permitAll] (by decide +kernel)
  obtain ⟨engine', hnew'⟩ := @exists_accepted [forbidShadow, permitAll] (by decide +kernel)
  refine ⟨engine, engine', hnew, hnew', ?_, ?_⟩
  · exact (evaluate_denies_iff hnew' _ _).mpr
      ⟨forbidShadow, List.mem_cons_self, rfl, ⟨rfl, rfl, by decide +kernel, rfl⟩⟩
  · refine (added_forbids_only_restrict hnew hnew' (List.subset_cons_self _ _) ?_ _ someAgent).1
    intro p hp hne
    rcases List.mem_pair.mp hp with rfl | rfl
    · rfl
    · exact absurd List.mem_cons_self hne

end Vellaveto.Abac
