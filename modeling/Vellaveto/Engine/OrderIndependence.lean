/-
  ORDER INDEPENDENCE of evaluation, and who decides.

  SPEC.  A policy set is a SET: the order in which its policies are listed must not matter, whether
  they are passed ad hoc or compiled.  An action is allowed only if, in the order of policies, the
  first policy that matches and gives a verdict allows it.

  CORRECTNESS.  `evaluation_order_independent`, for policies with distinct ids.  Compiled engines of
  permuted lists even have the SAME compiled policies (`compiledPolicies_perm_eq`), because a
  compiled policy is determined by its policy.
-/
import Vellaveto.Engine.Evaluate

namespace Vellaveto

open Vellaveto.Lib

variable {κ : Type}

/-! ## Compilation keeps the policy -/

/-- The parts of a compiled policy. -/
theorem compileSinglePolicy_eq_ok {env : CompileEnv κ} {strictMode : Bool} {policy : Policy}
    {cp : CompiledPolicy κ} (h : compileSinglePolicy env strictMode policy = .ok cp) :
    cp.policy = policy ∧ cp.toolMatcher = .compile env.toExternals policy.id ∧
      compilePolicyConditions env strictMode policy = .ok cp.conditions ∧
      compileOptional (compilePathRules env policy) policy.pathRules = .ok cp.compiledPathRules ∧
      compileOptional (compileNetworkRules policy) policy.networkRules =
        .ok cp.compiledNetworkRules ∧
      compileOptional (compileIpRules env policy) (policy.networkRules.bind NetworkRules.ipRules) =
        .ok cp.compiledIpRules := by
  rw [compileSinglePolicy] at h
  split at h
  · cases h
  · obtain ⟨conditions, hconditions, h⟩ := bind_eq_ok_iff.mp h
    obtain ⟨pathRules, hpath, h⟩ := bind_eq_ok_iff.mp h
    obtain ⟨networkRules, hnetwork, h⟩ := bind_eq_ok_iff.mp h
    obtain ⟨ipRules, hip, h⟩ := bind_eq_ok_iff.mp h
    cases h
    exact ⟨rfl, rfl, hconditions, hpath, hnetwork, hip⟩

theorem compileSinglePolicy_policy {env : CompileEnv κ} {strictMode : Bool} {policy : Policy}
    {cp : CompiledPolicy κ} (h : compileSinglePolicy env strictMode policy = .ok cp) :
    cp.policy = policy := (compileSinglePolicy_eq_ok h).1

/-- Compilation of a set succeeds exactly when that of every policy does. -/
theorem compilePolicies_isOk_iff (env : CompileEnv κ) (policies : List Policy) (strictMode : Bool) :
    (∃ compiled, compilePolicies env policies strictMode = .ok compiled) ↔
      ∀ p ∈ policies, ∃ cp, compileSinglePolicy env strictMode p = .ok cp := by
  rw [compilePolicies]
  constructor
  · rintro ⟨compiled, h⟩ p hp
    split at h
    · rename_i hnone
      cases hres : compileSinglePolicy env strictMode p with
      | ok cp => exact ⟨cp, rfl⟩
      | error e =>
        -- an error of `p` would be among the errors of the set
        rw [List.isEmpty_iff, List.filterMap_eq_nil_iff] at hnone
        have hno := hnone _ (List.mem_map.mpr ⟨p, hp, hres⟩)
        cases hno
    · cases h
  · intro hall
    refine ⟨_, if_pos ?_⟩
    rw [List.isEmpty_iff, List.filterMap_eq_nil_iff]
    intro r hr
    obtain ⟨p, hp, rfl⟩ := List.mem_map.mp hr
    obtain ⟨cp, hcp⟩ := hall p hp
    rw [hcp]

/-- The compiled forms, in the order of the list, belong to its policies. -/
theorem map_policy_compiled {env : CompileEnv κ} {strictMode : Bool} {policies : List Policy}
    (hall : ∀ p ∈ policies, ∃ cp, compileSinglePolicy env strictMode p = .ok cp) :
    ((policies.map (compileSinglePolicy env strictMode)).filterMap Except.toOption).map
      CompiledPolicy.policy = policies := by
  induction policies with
  | nil => rfl
  | cons p policies ih =>
    obtain ⟨cp, hcp⟩ := hall p List.mem_cons_self
    have hrest := ih fun q hq => hall q (List.mem_cons_of_mem p hq)
    have hsome : (compileSinglePolicy env strictMode p).toOption = some cp := by rw [hcp]; rfl
    rw [List.map_cons, List.filterMap_cons_some hsome, List.map_cons, hrest,
      compileSinglePolicy_policy hcp]

/-- What a successful compilation returns: the compiled form of every policy, in the order of
    policies. -/
theorem compilePolicies_eq_ok {env : CompileEnv κ} {policies : List Policy} {strictMode : Bool}
    {compiled : List (CompiledPolicy κ)}
    (h : compilePolicies env policies strictMode = .ok compiled) :
    compiled.map CompiledPolicy.policy = sortPolicies policies ∧
      ∀ cp ∈ compiled, compileSinglePolicy env strictMode cp.policy = .ok cp := by
  have hall := (compilePolicies_isOk_iff env policies strictMode).mp ⟨compiled, h⟩
  have hpolicies := map_policy_compiled hall
  rw [compilePolicies] at h
  split at h
  · cases h
    refine ⟨?_, fun cp hcp => ?_⟩
    · rw [List.map_insertionSort compiledLe policyLe _ _ fun a _ b _ => Iff.rfl, hpolicies,
        sortPolicies]
    · rw [List.mem_insertionSort] at hcp
      obtain ⟨r, hr, hcp⟩ := List.mem_filterMap.mp hcp
      obtain ⟨p, -, rfl⟩ := List.mem_map.mp hr
      cases hres : compileSinglePolicy env strictMode p with
      | error e => rw [hres] at hcp; cases hcp
      | ok cp' =>
        rw [hres] at hcp
        cases hcp
        rw [compileSinglePolicy_policy hres]
        exact hres
  · cases h

/-- Compiling permuted lists with distinct ids gives the same compiled policies. -/
theorem compiledPolicies_perm_eq {env : CompileEnv κ} {strictMode : Bool}
    {policies policies' : List Policy} (hids : (policies.map Policy.id).Nodup)
    (hperm : policies.Perm policies') {compiled compiled' : List (CompiledPolicy κ)}
    (h : compilePolicies env policies strictMode = .ok compiled)
    (h' : compilePolicies env policies' strictMode = .ok compiled') : compiled = compiled' := by
  obtain ⟨hmap, hof⟩ := compilePolicies_eq_ok h
  obtain ⟨hmap', hof'⟩ := compilePolicies_eq_ok h'
  -- both are the list of compiled forms of one and the same sorted list
  have hok : ∀ l : List (CompiledPolicy κ),
      (∀ cp ∈ l, compileSinglePolicy env strictMode cp.policy = .ok cp) →
      l.map Except.ok = (l.map CompiledPolicy.policy).map (compileSinglePolicy env strictMode) := by
    intro l hl
    rw [List.map_map]
    exact List.map_congr_left fun cp hcp => (hl cp hcp).symm
  have heq : compiled.map (Except.ok (ε := PolicyValidationError)) = compiled'.map Except.ok := by
    rw [hok compiled hof, hok compiled' hof', hmap, hmap', sortPolicies_perm_eq hids hperm]
  exact List.map_injective_iff.mpr (fun a b hab => Except.ok.inj hab) heq

/-! ## Who decides -/

/-- Only a conditional policy passes the question on. -/
theorem conditional_of_pass {ext : Externals} {settings : Settings} {action : Action}
    {policy : Policy} (h : Legacy.applyPolicy ext settings policy action = .ok none) :
    ∃ conditions, policy.policyType = .conditional conditions := by
  obtain ⟨-, htype⟩ := orAsk_eq_none_iff.mp h
  cases hp : policy.policyType with
  | allow => rw [hp] at htype; cases htype
  | deny => rw [hp] at htype; cases htype
  | conditional conditions => exact ⟨conditions, rfl⟩

theorem conditional_of_compiled_pass {ext : Externals} {settings : Settings} {action : Action}
    {cp : CompiledPolicy κ} (h : applyCompiledPolicy ext settings action cp = .ok none) :
    ∃ conditions, cp.policy.policyType = .conditional conditions := by
  obtain ⟨-, htype⟩ := orAsk_eq_none_iff.mp h
  cases hp : cp.policy.policyType with
  | allow => rw [hp] at htype; cases htype
  | deny => rw [hp] at htype; cases htype
  | conditional conditions => exact ⟨conditions, rfl⟩

/-- An action is allowed only by a decision. -/
theorem orNoMatch_eq_allow {d : Except EngineError (Option Verdict)}
    (h : orNoMatch d = .ok .allow) : d = .ok (some .allow) := by
  rcases d with e | (_ | v)
  · cases h
  · cases h
  · cases h
    rfl

/-- What an allowed action says about a list of rules of which only the applicable ones are
    applied: an applicable rule allowed it, and every applicable rule before it passed. -/
theorem allowed_by_first {α : Type} {applicable : α → Bool}
    {apply : α → Except EngineError (Option Verdict)} {rules : List α}
    (h : orNoMatch (firstDecision (fun r => if applicable r then apply r else .ok none) rules) =
      .ok .allow) :
    ∃ before r after, rules = before ++ r :: after ∧ applicable r = true ∧
      apply r = .ok (some .allow) ∧
      ∀ b ∈ before, applicable b = true → apply b = .ok none := by
  obtain ⟨before, r, after, hsplit, hr, hbefore⟩ :=
    firstDecision_eq_some_iff.mp (orNoMatch_eq_allow h)
  have happ : applicable r = true := by
    by_contra hnot
    rw [if_neg hnot] at hr
    cases hr
  rw [if_pos happ] at hr
  refine ⟨before, r, after, hsplit, happ, hr, fun b hb hb' => ?_⟩
  have hpass := hbefore b hb
  rwa [if_pos hb'] at hpass

/-! ## Evaluation -/

/-- Ad hoc evaluation goes over the sorted policies, whichever path it takes. -/
theorem evaluateAction_adHoc (ext : Externals) (action : Action) {engine : PolicyEngine κ}
    (hnone : engine.compiledPolicies = []) (policies : List Policy) :
    engine.evaluateAction ext action policies =
      if policies.isEmpty then .ok (.deny "No policies defined")
      else orNoMatch (firstDecision (Legacy.askPolicy ext engine.toSettings action)
        (sortPolicies policies)) := by
  rw [PolicyEngine.evaluateAction, hnone, if_neg (by simp)]
  by_cases hempty : policies.isEmpty = true
  · rw [if_pos hempty, if_pos hempty]
  · rw [if_neg hempty, if_neg hempty]
    by_cases hsorted : isSorted policies = true
    · rw [if_pos hsorted, sortPolicies_eq_self hsorted]
    · rw [if_neg hsorted]

/-- Compiled evaluation is a linear scan. -/
theorem evaluateAction_compiled {env : CompileEnv κ} {strictMode : Bool} {policies : List Policy}
    {engine : PolicyEngine κ}
    (hengine : PolicyEngine.withPolicies env strictMode policies = .ok engine) (action : Action) :
    engine.evaluateAction env.toExternals action [] =
      if engine.compiledPolicies.isEmpty then .ok (.deny "No policies defined")
      else linearScan env.toExternals engine.toSettings action engine.compiledPolicies := by
  obtain ⟨-, hindexed, -⟩ := withPolicies_eq_ok hengine
  rw [PolicyEngine.evaluateAction]
  by_cases hempty : engine.compiledPolicies.isEmpty = true
  · rw [if_neg (by simp [hempty]), if_pos hempty]
    rfl
  · rw [if_pos (by simp [hempty]), if_neg hempty, evaluateWithCompiled_eq, linearScan,
      firstDecision_candidates hindexed]
    exact fun cp hcp => askCompiledPolicy_pass env.toExternals action engine.toSettings hcp

/-- **Order does not matter, and the first verdict decides.**  For policies with distinct ids and
    every permutation of them:

    1. passed ad hoc, both lists give the same result;
    2. one compiles exactly when the other does, and the engines give the same result;
    3. if an action is allowed, then in the order of policies the deciding policy matches it and
       every earlier policy that matches it is a conditional one that gave no verdict. -/
theorem evaluation_order_independent (env : CompileEnv κ) (strictMode : Bool)
    (policies policies' : List Policy) (hids : (policies.map Policy.id).Nodup)
    (hperm : policies.Perm policies') (action : Action) :
    (PolicyEngine.new κ strictMode).evaluateAction env.toExternals action policies =
        (PolicyEngine.new κ strictMode).evaluateAction env.toExternals action policies' ∧
      ((∃ engine, PolicyEngine.withPolicies env strictMode policies = .ok engine) ↔
        ∃ engine, PolicyEngine.withPolicies env strictMode policies' = .ok engine) ∧
      (∀ engine engine', PolicyEngine.withPolicies env strictMode policies = .ok engine →
        PolicyEngine.withPolicies env strictMode policies' = .ok engine' →
        engine.evaluateAction env.toExternals action [] =
          engine'.evaluateAction env.toExternals action []) ∧
      ((PolicyEngine.new κ strictMode).evaluateAction env.toExternals action policies = .ok .allow →
        ∃ before p after, sortPolicies policies = before ++ p :: after ∧
          Legacy.matchesAction env.toExternals action p = true ∧
          Legacy.applyPolicy env.toExternals (PolicyEngine.new κ strictMode).toSettings p action =
            .ok (some .allow) ∧
          ∀ q ∈ before, Legacy.matchesAction env.toExternals action q = true →
            (∃ conditions, q.policyType = .conditional conditions) ∧
            Legacy.applyPolicy env.toExternals (PolicyEngine.new κ strictMode).toSettings q
              action = .ok none) ∧
      ∀ engine, PolicyEngine.withPolicies env strictMode policies = .ok engine →
        engine.compiledPolicies.map CompiledPolicy.policy = sortPolicies policies ∧
        (engine.evaluateAction env.toExternals action [] = .ok .allow →
          ∃ before cp after, engine.compiledPolicies = before ++ cp :: after ∧
            cp.matchesAction env.toExternals action = true ∧
            applyCompiledPolicy env.toExternals engine.toSettings action cp = .ok (some .allow) ∧
            ∀ b ∈ before, b.matchesAction env.toExternals action = true →
              (∃ conditions, b.policy.policyType = .conditional conditions) ∧
              applyCompiledPolicy env.toExternals engine.toSettings action b = .ok none) := by
  have hsame : sortPolicies policies = sortPolicies policies' := sortPolicies_perm_eq hids hperm
  have hcompiles : ∀ l : List Policy,
      (∃ engine, PolicyEngine.withPolicies env strictMode l = .ok engine) ↔
        ∀ p ∈ l, ∃ cp, compileSinglePolicy env strictMode p = .ok cp := by
    intro l
    rw [← compilePolicies_isOk_iff, PolicyEngine.withPolicies]
    cases compilePolicies env l strictMode with
    | error e => constructor <;> rintro ⟨x, hx⟩ <;> cases hx
    | ok compiled => exact ⟨fun _ => ⟨_, rfl⟩, fun _ => ⟨_, rfl⟩⟩
  refine ⟨?_, ?_, ?_, ?_, ?_⟩
  · have hempty : policies.isEmpty = policies'.isEmpty := by
      rw [Bool.eq_iff_iff, List.isEmpty_iff_length_eq_zero, List.isEmpty_iff_length_eq_zero,
        hperm.length_eq]
    rw [evaluateAction_adHoc _ _ rfl, evaluateAction_adHoc _ _ rfl, hsame, hempty]
  · rw [hcompiles, hcompiles]
    exact forall_congr' fun p => by rw [hperm.mem_iff]
  · intro engine engine' hengine hengine'
    obtain ⟨hc, -, hsettings⟩ := withPolicies_eq_ok hengine
    obtain ⟨hc', -, hsettings'⟩ := withPolicies_eq_ok hengine'
    rw [evaluateAction_compiled hengine, evaluateAction_compiled hengine',
      compiledPolicies_perm_eq hids hperm hc hc', hsettings, hsettings']
  · intro hallow
    rw [evaluateAction_adHoc _ _ rfl] at hallow
    split at hallow
    · cases hallow
    · obtain ⟨before, p, after, hsplit, hmatch, happly, hbefore⟩ := allowed_by_first hallow
      refine ⟨before, p, after, hsplit, hmatch, happly, fun q hq hmq => ?_⟩
      exact ⟨conditional_of_pass (hbefore q hq hmq), hbefore q hq hmq⟩
  · intro engine hengine
    obtain ⟨hc, -, -⟩ := withPolicies_eq_ok hengine
    refine ⟨(compilePolicies_eq_ok hc).1, fun hallow => ?_⟩
    rw [evaluateAction_compiled hengine] at hallow
    split at hallow
    · cases hallow
    · obtain ⟨before, cp, after, hsplit, hmatch, happly, hbefore⟩ := allowed_by_first hallow
      refine ⟨before, cp, after, hsplit, hmatch, happly, fun b hb hmb => ?_⟩
      exact ⟨conditional_of_compiled_pass (hbefore b hb hmb), hbefore b hb hmb⟩

/-- A denial and a permission for the same tool, listed in either order. -/
theorem evaluation_order_independent_bash :
    (PolicyEngine.new Json false).evaluateAction plainExternals (Action.new "bash" "run" .null)
        [⟨"bash", "allow", .allow, 1, none, none⟩, ⟨"bash:*", "deny", .deny, 1, none, none⟩] =
      (PolicyEngine.new Json false).evaluateAction plainExternals (Action.new "bash" "run" .null)
        [⟨"bash:*", "deny", .deny, 1, none, none⟩, ⟨"bash", "allow", .allow, 1, none, none⟩] :=
  (evaluation_order_independent plainEnv false _ _ (by decide) (List.Perm.swap _ _ _)
    (Action.new "bash" "run" .null)).1

end Vellaveto
