/-
  INVALID TOOL NAMES: the action that stands for one, and what policies make of it
  (`extract_action` of `vellaveto-mcp/src/extractor.rs`, `evaluate_action` of the engine).

  PROGRAM.      A tool name that fails validation is not an error: `extract_action` returns an ordinary
                action with the marker `<invalid>` as tool and function, the arguments as they
                came and no targets.

  SPEC.         The marker is never allowed.

  CORRECTNESS.
    1. `applyCompiledPolicy_invalid`    what ONE policy that matches decides about the marker: without
                                        targets only its allowlists, its context conditions and its
                                        own type matter;
    2. `invalid_name_not_allowed_iff`   the engine does not allow the marker exactly when every policy
                                        that would let it through comes after one that settles it;
    3. `wildcard_allows_invalid_name`   a wildcard Allow policy matches the marker and allows it.
-/
import Vellaveto.Engine.OrderIndependence
import Vellaveto.Mcp.Extractor

namespace Vellaveto.Extractor

open Vellaveto.Lib

variable {κ : Type}

/-! ## The marker -/

/-- The action of every invalid tool name. -/
def invalidAction (arguments : Json) : Action := Action.new "<invalid>" "<invalid>" arguments

theorem extractAction_invalid {ext : Externals} {toolName : String} {arguments : Json}
    {action : Action} (hinvalid : (Action.validated toolName "*" arguments).isOk = false)
    (haction : extractAction ext toolName arguments = some action) :
    action = invalidAction arguments := by
  rw [extractAction] at haction
  cases hvalidated : Action.validated toolName "*" arguments with
  | ok a =>
    rw [hvalidated] at hinvalid
    cases hinvalid
  | error e =>
    rw [hvalidated] at haction
    obtain ⟨-, -, rfl⟩ := Option.map_eq_some_iff.mp haction
    rfl

/-! ## One policy -/

/-- Does the policy list allowed paths or allowed domains? -/
def hasAllowlist (cp : CompiledPolicy κ) : Bool :=
  (cp.compiledPathRules.any fun rules => !rules.allowed.isEmpty) ||
    cp.compiledNetworkRules.any fun rules => !rules.allowedDomains.isEmpty

/-- Without targets, only an allowlist makes a rule check deny. -/
theorem checkRules_invalid_eq_none_iff (ext : Externals) (settings : Settings) (arguments : Json)
    (cp : CompiledPolicy κ) :
    checkRules ext settings (invalidAction arguments) cp = none ↔ hasAllowlist cp = false := by
  have hpath : checkPathRules settings (invalidAction arguments) cp = none ↔
      (cp.compiledPathRules.any fun rules => !rules.allowed.isEmpty) = false := by
    rw [checkPathRules]
    cases cp.compiledPathRules with
    | none => simp
    | some rules =>
      by_cases hallowed : rules.allowed.isEmpty = true
      · simp [hallowed, invalidAction, Action.new]
      · simp [hallowed, invalidAction, Action.new]
  have hnetwork : checkNetworkRules ext (invalidAction arguments) cp = none ↔
      (cp.compiledNetworkRules.any fun rules => !rules.allowedDomains.isEmpty) = false := by
    rw [checkNetworkRules]
    cases cp.compiledNetworkRules with
    | none => simp
    | some rules =>
      by_cases hallowed : rules.allowedDomains.isEmpty = true
      · simp [hallowed, invalidAction, Action.new]
      · simp [hallowed, invalidAction, Action.new]
  have hip : checkIpRules ext (invalidAction arguments) cp = none := by
    rw [checkIpRules]
    cases cp.compiledIpRules with
    | none => rfl
    | some rules => rfl
  rw [checkRules, hip, Option.or_none, Option.or_eq_none_iff, hpath, hnetwork, hasAllowlist,
    Bool.or_eq_false_iff]

/-- Is the decision left to the policy's own type: no allowlist, no context condition? -/
def leavesToType (cp : CompiledPolicy κ) : Bool :=
  !hasAllowlist cp && cp.conditions.contextConditions.isEmpty

/-- What the type of a policy says about the marker. -/
def typeDecision (ext : Externals) (settings : Settings) (arguments : Json)
    (cp : CompiledPolicy κ) : Except EngineError (Option Verdict) :=
  match cp.policy.policyType with
  | .allow => .ok (some .allow)
  | .deny => .ok (some (.deny cp.policy.denyReason))
  | .conditional _ => evaluateCompiledConditions ext settings (invalidAction arguments) cp

theorem checkContext_eq_none_iff (cp : CompiledPolicy κ) :
    checkContext cp = none ↔ cp.conditions.contextConditions.isEmpty = true := by
  rw [checkContext]
  cases cp.conditions.contextConditions with
  | nil => simp
  | cons c cs => simp

/-- **One policy on the marker**: it denies for an allowlist or a context condition, and otherwise
    does what its type says. -/
theorem applyCompiledPolicy_invalid (ext : Externals) (settings : Settings) (arguments : Json)
    (cp : CompiledPolicy κ) :
    (leavesToType cp = true ∧ applyCompiledPolicy ext settings (invalidAction arguments) cp =
      typeDecision ext settings arguments cp) ∨
    (leavesToType cp = false ∧ ∃ reason,
      applyCompiledPolicy ext settings (invalidAction arguments) cp =
        .ok (some (.deny reason))) := by
  have hrules := checkRules_invalid_eq_none_iff ext settings arguments cp
  have hcontext := checkContext_eq_none_iff cp
  rw [applyCompiledPolicy]
  cases hr : checkRules ext settings (invalidAction arguments) cp with
  | some v =>
    have hdenies : v.kind = .deny := denies_checkRules ext settings (invalidAction arguments) cp v hr
    cases v with
    | deny reason =>
      refine .inr ⟨?_, reason, rfl⟩
      have hlist : hasAllowlist cp = true := by
        rw [hr] at hrules
        simpa using hrules
      simp [leavesToType, hlist]
    | allow => cases hdenies
    | requireApproval reason => cases hdenies
  | none =>
    have hlist : hasAllowlist cp = false := hrules.mp hr
    cases hc : checkContext cp with
    | none =>
      refine .inl ⟨?_, rfl⟩
      simp [leavesToType, hlist, hcontext.mp hc]
    | some v =>
      have hsome : cp.conditions.contextConditions.isEmpty = false := by
        rw [hc] at hcontext
        simpa using hcontext
      have hdeny : ∃ reason, v = .deny reason := by
        rw [checkContext] at hc
        split at hc
        · cases hc
        · exact ⟨_, (Option.some.inj hc).symm⟩
      obtain ⟨reason, rfl⟩ := hdeny
      refine .inr ⟨?_, reason, rfl⟩
      simp [leavesToType, hsome]

/-! ## The policy set -/

/-- The policy matches the marker and allows it: an Allow policy, or a conditional one whose
    conditions allow the arguments, with neither allowlists nor context conditions. -/
def LetsInvalidThrough (ext : Externals) (settings : Settings) (arguments : Json)
    (cp : CompiledPolicy κ) : Prop :=
  cp.toolMatcher.matchesNormalized (ext.normalizeFull "<invalid>") (ext.normalizeFull "<invalid>") =
    true ∧ leavesToType cp = true ∧ typeDecision ext settings arguments cp = .ok (some .allow)

/-- The policy matches the marker and does not pass it on: only a conditional policy whose conditions
    do not fire does that. -/
def SettlesInvalid (ext : Externals) (settings : Settings) (arguments : Json)
    (cp : CompiledPolicy κ) : Prop :=
  cp.toolMatcher.matchesNormalized (ext.normalizeFull "<invalid>") (ext.normalizeFull "<invalid>") =
    true ∧ (leavesToType cp = true → typeDecision ext settings arguments cp ≠ .ok none)

section Policy

variable {ext : Externals} {settings : Settings} {arguments : Json} {cp : CompiledPolicy κ}

theorem ask_eq_allow_iff :
    askCompiledPolicy ext settings (invalidAction arguments) cp = .ok (some .allow) ↔
      LetsInvalidThrough ext settings arguments cp := by
  rw [askCompiledPolicy, LetsInvalidThrough]
  by_cases hm : cp.matchesAction ext (invalidAction arguments) = true
  · rw [if_pos hm]
    have hm' : cp.toolMatcher.matchesNormalized (ext.normalizeFull "<invalid>")
        (ext.normalizeFull "<invalid>") = true := hm
    rcases applyCompiledPolicy_invalid ext settings arguments cp with ⟨hl, h⟩ | ⟨hl, reason, h⟩
    · simp [h, hl, hm']
    · simp [h, hl]
  · rw [if_neg hm]
    have hm' : ¬cp.toolMatcher.matchesNormalized (ext.normalizeFull "<invalid>")
        (ext.normalizeFull "<invalid>") = true := hm
    simp [hm']

theorem ask_ne_pass_iff :
    askCompiledPolicy ext settings (invalidAction arguments) cp ≠ .ok none ↔
      SettlesInvalid ext settings arguments cp := by
  rw [askCompiledPolicy, SettlesInvalid]
  by_cases hm : cp.matchesAction ext (invalidAction arguments) = true
  · rw [if_pos hm]
    have hm' : cp.toolMatcher.matchesNormalized (ext.normalizeFull "<invalid>")
        (ext.normalizeFull "<invalid>") = true := hm
    rcases applyCompiledPolicy_invalid ext settings arguments cp with ⟨hl, h⟩ | ⟨hl, reason, h⟩
    · simp [h, hl, hm']
    · simp [h, hl, hm']
  · rw [if_neg hm]
    have hm' : ¬cp.toolMatcher.matchesNormalized (ext.normalizeFull "<invalid>")
        (ext.normalizeFull "<invalid>") = true := hm
    simp [hm']

end Policy

/-- **When an invalid name is not allowed.**  For every policy set that compiles, every tool name that
    validation rejects and all arguments: the verdict is not Allow exactly when each policy that
    would let the marker through comes, in the order of evaluation, after one that settles it. -/
theorem invalid_name_not_allowed_iff (env : CompileEnv κ) (strictMode : Bool)
    (policies : List Policy) (engine : PolicyEngine κ)
    (hengine : PolicyEngine.withPolicies env strictMode policies = .ok engine)
    (toolName : String) (arguments : Json) (action : Action)
    (hinvalid : (Action.validated toolName "*" arguments).isOk = false)
    (haction : extractAction env.toExternals toolName arguments = some action) :
    engine.evaluateAction env.toExternals action [] ≠ .ok .allow ↔
      ∀ before cp after, engine.compiledPolicies = before ++ cp :: after →
        LetsInvalidThrough env.toExternals engine.toSettings arguments cp →
        ∃ q ∈ before, SettlesInvalid env.toExternals engine.toSettings arguments q := by
  cases extractAction_invalid hinvalid haction
  have hscan : engine.evaluateAction env.toExternals (invalidAction arguments) [] = .ok .allow ↔
      firstDecision (askCompiledPolicy env.toExternals engine.toSettings (invalidAction arguments))
        engine.compiledPolicies = .ok (some .allow) := by
    rw [evaluateAction_compiled hengine]
    cases hcompiled : engine.compiledPolicies with
    | nil => simp [firstDecision]
    | cons cp cps =>
      rw [if_neg (by simp), linearScan]
      cases firstDecision (askCompiledPolicy env.toExternals engine.toSettings
        (invalidAction arguments)) (cp :: cps) with
      | error e => simp [orNoMatch, Except.map]
      | ok d => cases d <;> simp [orNoMatch, Except.map]
  rw [ne_eq, hscan, firstDecision_eq_some_iff]
  constructor
  · intro hnot before cp after hsplit hcp
    by_contra hnone
    refine hnot ⟨before, cp, after, hsplit, ask_eq_allow_iff.mpr hcp, fun q hq => ?_⟩
    by_contra hpass
    exact hnone ⟨q, hq, ask_ne_pass_iff.mp hpass⟩
  · rintro hall ⟨before, cp, after, hsplit, hcp, hpass⟩
    obtain ⟨q, hq, hsettles⟩ := hall before cp after hsplit (ask_eq_allow_iff.mp hcp)
    exact ask_ne_pass_iff.mpr hsettles (hpass q hq)

/-! ## A wildcard policy -/

/-- A tool name with the Arabic number sign, a format character that `normalize_method` keeps. -/
def numberSignName : String := String.ofList ['a', Char.ofNat 0x600]

/-- A policy that allows everything. -/
def allowAll : Policy := ⟨"*", "all", .allow, 1, none, none⟩

/-- A policy that denies the marker. -/
def denyInvalid : Policy := ⟨"<invalid>", "no invalid names", .deny, 5, none, none⟩

/-- With a denial of the marker in front, whatever lets the marker through comes too late. -/
theorem invalid_name_not_allowed_iff_denied :
    ∃ engine, PolicyEngine.withPolicies plainEnv true [allowAll, denyInvalid] = .ok engine ∧
      ∀ before cp after, engine.compiledPolicies = before ++ cp :: after →
        LetsInvalidThrough plainExternals engine.toSettings (.object []) cp →
        ∃ q ∈ before, SettlesInvalid plainExternals engine.toSettings (.object []) q := by
  have hverdict : (PolicyEngine.withPolicies plainEnv true [allowAll, denyInvalid]).toOption.map
      (fun engine => (engine.evaluateAction plainExternals (invalidAction (.object [])) []).toOption) =
      some (some (.deny denyInvalid.denyReason)) := by decide +kernel
  rcases hengine : PolicyEngine.withPolicies plainEnv true [allowAll, denyInvalid] with e | engine
  · rw [hengine] at hverdict
    cases hverdict
  · refine ⟨engine, rfl, (invalid_name_not_allowed_iff plainEnv true _ engine hengine numberSignName
      (.object []) (invalidAction (.object [])) (by decide +kernel) (by decide +kernel)).mp ?_⟩
    intro hallow
    rw [hengine] at hverdict
    have hsame : (engine.evaluateAction plainExternals (invalidAction (.object [])) []).toOption =
        some (.deny denyInvalid.denyReason) := Option.some.inj hverdict
    have hallow' : engine.evaluateAction plainExternals (invalidAction (.object [])) [] =
        .ok .allow := hallow
    rw [hallow'] at hsame
    cases hsame

/-- A wildcard Allow policy allows a call with an invalid tool name. -/
theorem wildcard_allows_invalid_name :
    (Action.validated numberSignName "*" (.object [])).isOk = false ∧
    (normalizeMethod plainExternals numberSignName = numberSignName) ∧
    (extractAction plainExternals numberSignName (.object [])).map (fun action =>
      (PolicyEngine.withPolicies plainEnv true [allowAll]).toOption.map fun engine =>
        (engine.evaluateAction plainExternals action []).toOption) =
      some (some (some .allow)) := by
  decide +kernel

end Vellaveto.Extractor
