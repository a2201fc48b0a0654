/-
  TRACED EVALUATION (`vellaveto-engine/src/traced.rs`).

  PROGRAM.  `evaluateActionTraced` visits the same policies as `evaluateAction` and records for each
  of them what was checked.  It is the production path: every evaluation with a context goes through
  it.  Constraints are evaluated by `evaluateCompiledConstraintTraced`, which asks
  `constraintMatchesValue` first.

  SPEC.  Tracing must not decide: both evaluations fail, or both give a verdict of the same kind.

  CORRECTNESS.  They do NOT always agree.  `divergentTest` lists the tests (a constraint and a value)
  on which the two value checks differ:
    1. strings that `eq` and `one_of` take for equal only after normalization (and, on `*`, `ne` and
       `none_of`);
    2. a `regex` that does not match a string that is no path;
    3. on `*`, with another action than `deny`: a glob on what is no path, a domain operator on what
       is no domain.
  `traced_agrees`: the list is exact test by test, and the two evaluations agree on every action
  whose evaluation gets to no divergent test.
-/
import Vellaveto.Engine.OrderIndependence

namespace Vellaveto

open Vellaveto.Lib

variable {κ : Type}

/-! ## Trace records of an evaluation -/

/-- `ActionSummary`. -/
structure ActionSummary where
  tool : String
  function : String
  paramCount : Nat
  paramKeys : List String
deriving DecidableEq, Repr

/-- `PolicyMatch`. -/
structure PolicyMatch where
  policyId : String
  policyName : String
  policyType : String
  priority : Int
  toolMatched : Bool
  constraintResults : List ConstraintResult
  verdictContribution : Option Verdict
deriving DecidableEq, Repr

/-- `EvaluationTrace`, without the duration. -/
structure EvaluationTrace where
  actionSummary : ActionSummary
  policiesChecked : Nat
  policiesMatched : Nat
  policyMatches : List PolicyMatch
  verdict : Verdict
deriving DecidableEq, Repr

/-- The summary of an action. -/
def Action.summary (action : Action) : ActionSummary :=
  let members := action.parameters.asObject.getD []
  ⟨action.tool, action.function, members.length, members.map Prod.fst⟩

/-- `policy_type_str`. -/
def PolicyType.typeStr : PolicyType → String
  | .allow => "allow"
  | .deny => "deny"
  | .conditional _ => "conditional"

/-- The record of a policy. -/
def CompiledPolicy.record (cp : CompiledPolicy κ) (toolMatched : Bool)
    (constraintResults : List ConstraintResult) (verdict : Option Verdict) : PolicyMatch :=
  ⟨cp.policy.id, cp.policy.name, cp.policy.policyType.typeStr, cp.policy.priority, toolMatched,
    constraintResults, verdict⟩

section Traced

variable (ext : Externals)

section Policies

variable (settings : Settings) (action : Action)

/-- `apply_compiled_policy_traced`. -/
def applyCompiledPolicyTraced (cp : CompiledPolicy κ) :
    Except EngineError (Option Verdict × List ConstraintResult) :=
  match (checkRules ext settings action cp).or (checkContext cp) with
  | some denial => .ok (some denial, [])
  | none =>
    match cp.policy.policyType with
    | .allow => .ok (some .allow, [])
    | .deny => .ok (some (.deny cp.policy.denyReason), [])
    | .conditional _ => evaluateCompiledConditionsTraced ext settings action cp

/-- The loop over the visited policies, with their records. -/
def tracedPolicyLoop :
    List (CompiledPolicy κ) → List PolicyMatch →
      Except EngineError (Option Verdict × List PolicyMatch)
  | [], records => .ok (none, records)
  | cp :: cps, records =>
    if cp.matchesAction ext action then
      match applyCompiledPolicyTraced ext settings action cp with
      | .error e => .error e
      | .ok (some v, results) => .ok (some v, records ++ [cp.record true results (some v)])
      | .ok (none, results) => tracedPolicyLoop cps (records ++ [cp.record true results none])
    else tracedPolicyLoop cps (records ++ [cp.record false [] none])

end Policies

/-- `evaluate_action_traced`. -/
def PolicyEngine.evaluateActionTraced (engine : PolicyEngine κ) (action : Action) :
    Except EngineError (Verdict × EvaluationTrace) :=
  if engine.compiledPolicies.isEmpty then
    let verdict := Verdict.deny "No policies defined"
    .ok (verdict, ⟨action.summary, 0, 0, [], verdict⟩)
  else
    let visited := (engine.collectCandidateIndices (ext.normalizeFull action.tool)).map
      engine.policyAt
    (tracedPolicyLoop ext engine.toSettings action visited []).map fun r =>
      let verdict := r.1.getD (.deny "No matching policy")
      (verdict, ⟨action.summary, r.2.length, r.2.countP PolicyMatch.toolMatched, r.2, verdict⟩)

/-- `evaluate_with_context` without a context: the verdict of the traced evaluation. -/
def PolicyEngine.evaluateWithContext (engine : PolicyEngine κ) (action : Action) :
    Except EngineError Verdict :=
  (engine.evaluateActionTraced ext action).map Prod.fst

/-! ## The verdict of a traced evaluation -/

/-- One policy of the traced loop. -/
def askCompiledPolicyTraced (settings : Settings) (action : Action) (cp : CompiledPolicy κ) :
    Except EngineError (Option Verdict) :=
  if cp.matchesAction ext action then
    (applyCompiledPolicyTraced ext settings action cp).map Prod.fst
  else .ok none

theorem verdict_tracedPolicyLoop (settings : Settings) (action : Action)
    (cps : List (CompiledPolicy κ)) (records : List PolicyMatch) :
    (tracedPolicyLoop ext settings action cps records).map Prod.fst =
      firstDecision (askCompiledPolicyTraced ext settings action) cps := by
  induction cps generalizing records with
  | nil => rfl
  | cons cp cps ih =>
    rw [tracedPolicyLoop, firstDecision, askCompiledPolicyTraced]
    by_cases hm : cp.matchesAction ext action = true
    · rw [if_pos hm, if_pos hm]
      rcases applyCompiledPolicyTraced ext settings action cp with e | ⟨_ | v, results⟩
      · rfl
      · exact ih _
      · rfl
    · rw [if_neg hm, if_neg hm, orAsk_pass]
      exact ih _

/-- The conditions of a policy, traced or not, are one decision list. -/
theorem verdict_conditions (traced : Bool) (settings : Settings) (action : Action)
    (cp : CompiledPolicy κ) :
    (if traced then (evaluateCompiledConditionsTraced ext settings action cp).map Prod.fst
      else evaluateCompiledConditions ext settings action cp) =
      conditionsDecision (askConstraint ext settings traced cp.policy action) action cp := by
  cases traced with
  | false => exact verdict_core ext settings action cp none
  | true =>
    rw [if_pos rfl, ← Option.isSome_some (a := ([] : List ConstraintResult)),
      ← verdict_core ext settings action cp (some []), evaluateCompiledConditionsTraced]
    cases evaluateCompiledConditionsCore ext settings action cp (some []) <;> rfl

/-- Applying a policy, traced or not: rules and context, then its type. -/
theorem verdict_applyCompiledPolicyTraced (settings : Settings) (action : Action)
    (cp : CompiledPolicy κ) :
    (applyCompiledPolicyTraced ext settings action cp).map Prod.fst =
      orAsk (.ok ((checkRules ext settings action cp).or (checkContext cp)))
        (match cp.policy.policyType with
          | .allow => .ok (some .allow)
          | .deny => .ok (some (.deny cp.policy.denyReason))
          | .conditional _ =>
            conditionsDecision (askConstraint ext settings true cp.policy action) action cp) := by
  rw [applyCompiledPolicyTraced]
  cases (checkRules ext settings action cp).or (checkContext cp) with
  | some denial => rfl
  | none =>
    rw [orAsk_pass, ← verdict_conditions ext true]
    cases cp.policy.policyType <;> rfl

theorem applyCompiledPolicy_eq (settings : Settings) (action : Action) (cp : CompiledPolicy κ) :
    applyCompiledPolicy ext settings action cp =
      orAsk (.ok ((checkRules ext settings action cp).or (checkContext cp)))
        (match cp.policy.policyType with
          | .allow => .ok (some .allow)
          | .deny => .ok (some (.deny cp.policy.denyReason))
          | .conditional _ =>
            conditionsDecision (askConstraint ext settings false cp.policy action) action cp) := by
  rw [applyCompiledPolicy, ← verdict_conditions ext false]
  rfl

/-- A traced evaluation decides as a scan over all compiled policies. -/
theorem verdict_evaluateActionTraced {engine : PolicyEngine κ} (hindexed : engine.Indexed)
    (action : Action) :
    engine.evaluateWithContext ext action =
      if engine.compiledPolicies.isEmpty then .ok (.deny "No policies defined")
      else orNoMatch (firstDecision (askCompiledPolicyTraced ext engine.toSettings action)
        engine.compiledPolicies) := by
  rw [PolicyEngine.evaluateWithContext, PolicyEngine.evaluateActionTraced]
  by_cases hempty : engine.compiledPolicies.isEmpty = true
  · rw [if_pos hempty, if_pos hempty]
    rfl
  · have hpass : ∀ cp : CompiledPolicy κ, mayMatch (ext.normalizeFull action.tool) cp = false →
        askCompiledPolicyTraced ext engine.toSettings action cp = .ok none := by
      intro cp hcp
      rw [askCompiledPolicyTraced, if_neg]
      intro hm
      rw [mayMatch_of_matches ext action hm] at hcp
      cases hcp
    rw [if_neg hempty, if_neg hempty, ← firstDecision_candidates hindexed _ _ hpass,
      ← firstDecision_map engine.policyAt, ← verdict_tracedPolicyLoop ext _ _ _ []]
    dsimp only
    rcases tracedPolicyLoop ext engine.toSettings action
      ((engine.collectCandidateIndices (ext.normalizeFull action.tool)).map engine.policyAt) []
      with e | ⟨v, records⟩
    · rfl
    · rfl

/-- Decisions that agree give verdicts that agree. -/
theorem outcome_orNoMatch {d d' : Except EngineError (Option Verdict)}
    (h : decided Verdict.kind d = decided Verdict.kind d') :
    outcome Verdict.kind (orNoMatch d) = outcome Verdict.kind (orNoMatch d') := by
  have hkind : ∀ d : Except EngineError (Option Verdict),
      outcome Verdict.kind (orNoMatch d) =
        (decided Verdict.kind d).map fun k => k.getD .deny := by
    rintro (e | (_ | v)) <;> rfl
  rw [hkind, hkind, h]

/-! ## Divergent tests -/

section Divergence

variable (settings : Settings)

/-- The string is no path. -/
def isNoPath (s : String) : Bool :=
  !(Path.normalizePathBounded s settings.maxPathDecodeIterations).isOk

/-- Two different strings with the same normal form. -/
def onlyNormalizedEq (s : String) (expected : Json) : Bool :=
  match expected with
  | .string t => decide (s ≠ t) && ext.normalizeFull s == ext.normalizeFull t
  | _ => false

/-- The string is not in the list, but a string with the same normal form is. -/
def onlyNormalizedMem (s : String) (values : List Json) : Bool :=
  !values.contains (.string s) && values.any (onlyNormalizedEq ext s)

/-- The tests on which the two value checks differ.  `wildcard` tells a test of the scan for `*`
    from one of a named parameter. -/
def divergentTest (wildcard : Bool) (constraint : CompiledConstraint) (value : Json) : Bool :=
  match value with
  | .string s =>
    match constraint.op with
    | .eq expected => onlyNormalizedEq ext s expected
    | .oneOf values => onlyNormalizedMem ext s values
    | .ne expected => wildcard && onlyNormalizedEq ext s expected
    | .noneOf values => wildcard && onlyNormalizedMem ext s values
    | .regex matcher _ => !matcher s && isNoPath settings s
    | .glob .. => wildcard && decide (constraint.onMatch ≠ "deny") && isNoPath settings s
    | .notGlob .. => wildcard && decide (constraint.onMatch ≠ "deny") && isNoPath settings s
    | .domainMatch .. =>
      wildcard && decide (constraint.onMatch ≠ "deny") &&
        isUnnormalizable ext (Domain.extractDomain ext s)
    | .domainNotIn .. =>
      wildcard && decide (constraint.onMatch ≠ "deny") &&
        isUnnormalizable ext (Domain.extractDomain ext s)
  | _ => false

/-- The traced test of a value: of the scan for `*`, or of a named parameter. -/
def tracedTest (policy : Policy) (wildcard : Bool) (path : String)
    (constraint : CompiledConstraint) (value : Json) : Except EngineError (Option Verdict) :=
  if constraintMatchesValue ext settings value constraint then
    if wildcard then fire constraint.onMatch (triggeredReason policy path)
    else evaluateCompiledConstraintValue ext settings policy path constraint.onMatch value constraint
  else .ok none

/-! ### What firing looks like from outside -/

theorem decided_fire (onMatch reason reason' : String) :
    decided Verdict.kind (fire onMatch reason) = decided Verdict.kind (fire onMatch reason') := by
  rw [fire, fire, makeConstraintVerdict, makeConstraintVerdict]
  split
  · rfl
  · split
    · rfl
    · split <;> rfl

theorem decided_fire_ne_pass (onMatch reason : String) :
    decided Verdict.kind (fire onMatch reason) ≠ some none := by
  rw [fire, makeConstraintVerdict]
  split
  · simp [Except.map]
  · split
    · simp [Except.map]
    · split <;> simp [Except.map]

theorem decided_fire_eq_deny_iff (onMatch reason : String) :
    decided Verdict.kind (fire onMatch reason) = some (some .deny) ↔ onMatch = "deny" := by
  rw [fire, makeConstraintVerdict]
  split
  · rename_i hdeny
    simp [hdeny, Except.map, Verdict.kind]
  · rename_i hdeny
    split
    · simp [hdeny, Except.map, Verdict.kind]
    · split <;> simp [hdeny, Except.map, Verdict.kind]

/-- A test that fires when `b` holds, where the traced check says `b'`. -/
theorem agree_firing_iff {b b' wildcard : Bool} {onMatch reason reason' : String}
    {u : Except EngineError (Option Verdict)}
    (hu : u = if b = true then fire onMatch reason else .ok none) :
    decided Verdict.kind u = decided Verdict.kind
        (if b' = true then (if wildcard = true then fire onMatch reason' else u) else .ok none) ↔
      (b = true → b' = true) ∧ (wildcard = true → b' = true → b = true) := by
  have hne := decided_fire_ne_pass onMatch reason
  have hne' := decided_fire_ne_pass onMatch reason'
  have heq := decided_fire onMatch reason reason'
  subst hu
  cases b <;> cases b' <;> cases wildcard
  · simp
  · simp
  · simp
  · simpa using fun h => hne' h.symm
  · simpa using hne
  · simpa using hne
  · simp
  · simpa using heq

/-- A test that denies by itself, where the traced check says `b'`. -/
theorem agree_denied_iff {b' wildcard : Bool} {onMatch reason' : String}
    {u : Except EngineError (Option Verdict)} (hu : decided Verdict.kind u = some (some .deny)) :
    decided Verdict.kind u = decided Verdict.kind
        (if b' = true then (if wildcard = true then fire onMatch reason' else u) else .ok none) ↔
      b' = true ∧ (wildcard = true → onMatch = "deny") := by
  have hdeny := decided_fire_eq_deny_iff onMatch reason'
  rw [hu]
  cases b' <;> cases wildcard
  · simp
  · simp
  · simpa using hu.symm
  · simpa using eq_comm.trans hdeny

/-! ### Comparing strings -/

theorem normalizedEq_string (s : String) (expected : Json) :
    normalizedEq ext (.string s) expected =
      (decide (.string s = expected) || onlyNormalizedEq ext s expected) := by
  cases expected with
  | string t =>
    by_cases hst : s = t
    · subst hst
      simp [normalizedEq, onlyNormalizedEq]
    · simp [normalizedEq, onlyNormalizedEq, hst]
  | null => simp [normalizedEq, onlyNormalizedEq, Json.asStr]
  | bool b => simp [normalizedEq, onlyNormalizedEq, Json.asStr]
  | number n => simp [normalizedEq, onlyNormalizedEq, Json.asStr]
  | array xs => simp [normalizedEq, onlyNormalizedEq, Json.asStr]
  | object ms => simp [normalizedEq, onlyNormalizedEq, Json.asStr]

theorem normalizedMem_string (s : String) (values : List Json) :
    normalizedMem ext values (.string s) = values.any (normalizedEq ext (.string s)) := by
  rw [normalizedMem, Json.asStr_string]
  refine congrArg values.any (funext fun v => ?_)
  cases v with
  | string t => simp [normalizedEq, Bool.beq_comm]
  | null => simp [normalizedEq, Json.asStr]
  | bool b => simp [normalizedEq, Json.asStr]
  | number n => simp [normalizedEq, Json.asStr]
  | array xs => simp [normalizedEq, Json.asStr]
  | object ms => simp [normalizedEq, Json.asStr]

theorem contains_eq_any (value : Json) (values : List Json) :
    values.contains value = values.any fun v => decide (value = v) := by
  rw [Bool.eq_iff_iff, List.any_eq_true]
  simp

theorem normalizedMem_eq (s : String) (values : List Json) :
    normalizedMem ext values (.string s) =
      (values.contains (.string s) || values.any (onlyNormalizedEq ext s)) := by
  rw [normalizedMem_string, contains_eq_any, Bool.eq_iff_iff]
  simp only [List.any_eq_true, normalizedEq_string, Bool.or_eq_true]
  constructor
  · rintro ⟨v, hv, heq | honly⟩
    · exact Or.inl ⟨v, hv, heq⟩
    · exact Or.inr ⟨v, hv, honly⟩
  · rintro (⟨v, hv, heq⟩ | ⟨v, hv, honly⟩)
    · exact ⟨v, hv, Or.inl heq⟩
    · exact ⟨v, hv, Or.inr honly⟩

/-! ### Test by test -/

/-- The two checks of a value agree. -/
def TestAgrees (policy : Policy) (wildcard : Bool) (path : String)
    (constraint : CompiledConstraint) (value : Json) : Prop :=
  decided Verdict.kind (evaluateCompiledConstraintValue ext settings policy path constraint.onMatch
      value constraint) =
    decided Verdict.kind (tracedTest ext settings policy wildcard path constraint value)

/-- A path operator: both checks use the glob on a path; what is no path is denied by one and
    matched by the other. -/
theorem agrees_path_iff {policy : Policy} {wildcard : Bool} {path : String}
    {constraint : CompiledConstraint} {s : String} (test : String → Bool) (reason : String)
    (hu : evaluateCompiledConstraintValue ext settings policy path constraint.onMatch (.string s)
        constraint =
      withPath settings s fun normalized =>
        if test normalized then fire constraint.onMatch reason else .ok none)
    (ht : constraintMatchesValue ext settings (.string s) constraint =
      match Path.normalizePathBounded s settings.maxPathDecodeIterations with
      | .ok normalized => test normalized
      | .error _ => true) :
    TestAgrees ext settings policy wildcard path constraint (.string s) ↔
      (wildcard && decide (constraint.onMatch ≠ "deny") && isNoPath settings s) = false := by
  rw [TestAgrees, tracedTest, ht, isNoPath]
  rw [withPath] at hu
  cases hpath : Path.normalizePathBounded s settings.maxPathDecodeIterations with
  | ok normalized =>
    rw [hpath] at hu
    rw [agree_firing_iff hu]
    simp [Except.isOk, Except.toBool]
  | error e =>
    rw [hpath] at hu
    have hdenied : decided Verdict.kind (evaluateCompiledConstraintValue ext settings policy path
        constraint.onMatch (.string s) constraint) = some (some .deny) := by rw [hu]; rfl
    rw [agree_denied_iff hdenied]
    cases wildcard <;> simp [Except.isOk, Except.toBool]

/-- A domain operator. -/
theorem agrees_domain_iff {policy : Policy} {wildcard : Bool} {path : String}
    {constraint : CompiledConstraint} {s : String} (test : Bool) (reason denied : String)
    (hu : evaluateCompiledConstraintValue ext settings policy path constraint.onMatch (.string s)
        constraint =
      if isUnnormalizable ext (Domain.extractDomain ext s) then fire "deny" denied
      else if test then fire constraint.onMatch reason else .ok none)
    (ht : constraintMatchesValue ext settings (.string s) constraint =
      if isUnnormalizable ext (Domain.extractDomain ext s) then true else test) :
    TestAgrees ext settings policy wildcard path constraint (.string s) ↔
      (wildcard && decide (constraint.onMatch ≠ "deny") &&
        isUnnormalizable ext (Domain.extractDomain ext s)) = false := by
  rw [TestAgrees, tracedTest, ht]
  cases hdom : isUnnormalizable ext (Domain.extractDomain ext s) with
  | false =>
    rw [hdom, if_neg (by simp)] at hu
    rw [agree_firing_iff hu]
    simp
  | true =>
    rw [hdom, if_pos rfl] at hu
    have hdenied : decided Verdict.kind (evaluateCompiledConstraintValue ext settings policy path
        constraint.onMatch (.string s) constraint) = some (some .deny) := by rw [hu]; rfl
    rw [agree_denied_iff hdenied]
    cases wildcard <;> simp

/-- A value operator, which fires when `b` holds, where the traced check says `b'`. -/
theorem agrees_value_iff {policy : Policy} {wildcard : Bool} {path : String}
    {constraint : CompiledConstraint} {value : Json} (b b' : Bool) (reason : String)
    (hu : evaluateCompiledConstraintValue ext settings policy path constraint.onMatch value
        constraint = if b = true then fire constraint.onMatch reason else .ok none)
    (ht : constraintMatchesValue ext settings value constraint = b') :
    TestAgrees ext settings policy wildcard path constraint value ↔
      (b = true → b' = true) ∧ (wildcard = true → b' = true → b = true) := by
  rw [TestAgrees, tracedTest, ht]
  exact agree_firing_iff hu

/-- A positive operator: `x` is the plain comparison, `z` what normalization adds. -/
theorem positive_operator_iff (x z wildcard : Bool) :
    ((x || z) = true → x = true) ∧ (wildcard = true → x = true → (x || z) = true) ↔
      (!x && z) = false := by
  cases x <;> cases z <;> cases wildcard <;> simp

/-- A negated operator. -/
theorem negated_operator_iff (x z wildcard : Bool) :
    ((!(x || z)) = true → (!x) = true) ∧ (wildcard = true → (!x) = true → (!(x || z)) = true) ↔
      (wildcard && (!x && z)) = false := by
  cases x <;> cases z <;> cases wildcard <;> simp

theorem onlyNormalizedEq_eq (s : String) (expected : Json) :
    onlyNormalizedEq ext s expected =
      (!decide (Json.string s = expected) && onlyNormalizedEq ext s expected) := by
  cases expected with
  | string t =>
    by_cases hst : s = t
    · simp [onlyNormalizedEq, hst]
    · simp [hst]
  | null => rfl
  | bool b => rfl
  | number n => rfl
  | array xs => rfl
  | object ms => rfl

/-- The allowlist operators fire in the second branch. -/
theorem ite_swap {α : Type} (b : Bool) (x y : α) :
    (if b = true then x else y) = if (!b) = true then y else x := by
  cases b <;> rfl

theorem agrees_notGlob_iff (policy : Policy) (wildcard : Bool) (path param onMatch onMissing : String)
    (matchers : List (String × TextMatcher)) (s : String) :
    TestAgrees ext settings policy wildcard path ⟨param, onMatch, onMissing, .notGlob matchers⟩
        (.string s) ↔
      (wildcard && decide (onMatch ≠ "deny") && isNoPath settings s) = false := by
  have hu : evaluateCompiledConstraintValue ext settings policy path onMatch (.string s)
      ⟨param, onMatch, onMissing, .notGlob matchers⟩ =
    withPath settings s fun normalized =>
      if (!matchers.any fun m => m.2 normalized) then
        fire onMatch s!"Parameter '{path}' path not in allowlist (policy '{policy.name}')"
      else .ok none := congrArg (withPath settings s) (funext fun _ => ite_swap _ _ _)
  exact agrees_path_iff ext settings (fun n => !matchers.any fun m => m.2 n) _ hu rfl

theorem agrees_domainNotIn_iff (policy : Policy) (wildcard : Bool)
    (path param onMatch onMissing : String) (patterns : List String) (s : String) :
    TestAgrees ext settings policy wildcard path ⟨param, onMatch, onMissing, .domainNotIn patterns⟩
        (.string s) ↔
      (wildcard && decide (onMatch ≠ "deny") &&
        isUnnormalizable ext (Domain.extractDomain ext s)) = false := by
  have hu : evaluateCompiledConstraintValue ext settings policy path onMatch (.string s)
      ⟨param, onMatch, onMissing, .domainNotIn patterns⟩ =
    if isUnnormalizable ext (Domain.extractDomain ext s) then
      fire "deny" (s!"Parameter '{path}' domain cannot be normalized (IDNA failure) " ++
        s!"(policy '{policy.name}')")
    else if (!patterns.any fun p =>
        Domain.matchDomainPattern ext (Domain.extractDomain ext s) p) then
      fire onMatch s!"Parameter '{path}' domain not in allowlist (policy '{policy.name}')"
    else .ok none := by
    rw [← ite_swap]
    rfl
  exact agrees_domain_iff ext settings (!patterns.any fun p =>
    Domain.matchDomainPattern ext (Domain.extractDomain ext s) p) _ _ hu rfl

/-- A regex is matched against the raw value, then against the path; the traced check takes the raw
    value for the path when there is none. -/
theorem agrees_regex_iff (policy : Policy) (wildcard : Bool) (path param onMatch onMissing : String)
    (matcher : TextMatcher) (pattern s : String) :
    TestAgrees ext settings policy wildcard path
        ⟨param, onMatch, onMissing, .regex matcher pattern⟩ (.string s) ↔
      (!matcher s && isNoPath settings s) = false := by
  have ht : constraintMatchesValue ext settings (.string s)
      ⟨param, onMatch, onMissing, .regex matcher pattern⟩ =
    if matcher s then true
    else
      let normalized :=
        match Path.normalizePathBounded s settings.maxPathDecodeIterations with
        | .ok normalized => normalized
        | .error _ => s
      decide (normalized ≠ s) && matcher normalized := rfl
  have hu : evaluateCompiledConstraintValue ext settings policy path onMatch (.string s)
      ⟨param, onMatch, onMissing, .regex matcher pattern⟩ =
    if matcher s then
      fire onMatch s!"Parameter '{path}' matches constraint (policy '{policy.name}')"
    else
      match Path.normalizePathBounded s settings.maxPathDecodeIterations with
      | .ok normalized =>
        if normalized ≠ s ∧ matcher normalized then
          fire onMatch s!"Parameter '{path}' matches constraint (policy '{policy.name}')"
        else .ok none
      | .error e => .ok (some (.deny s!"Path normalization failed: {e.display}")) := rfl
  cases hm : matcher s with
  | true =>
    -- both fire on the raw value
    rw [hm, if_pos rfl] at hu ht
    rw [agrees_value_iff ext settings true true _ (hu.trans (if_pos rfl).symm) ht]
    simp
  | false =>
    rw [hm, if_neg (by simp)] at hu ht
    rw [isNoPath]
    cases hpath : Path.normalizePathBounded s settings.maxPathDecodeIterations with
    | ok normalized =>
      rw [hpath] at hu ht
      have hb : evaluateCompiledConstraintValue ext settings policy path onMatch (.string s)
          ⟨param, onMatch, onMissing, .regex matcher pattern⟩ =
        if (decide (normalized ≠ s) && matcher normalized) = true then
          fire onMatch s!"Parameter '{path}' matches constraint (policy '{policy.name}')"
        else .ok none := by
        rw [hu]
        simp only [Bool.and_eq_true, decide_eq_true_eq]
      rw [agrees_value_iff ext settings _ _ _ hb ht]
      simp [Except.isOk, Except.toBool]
    | error e =>
      -- one check denies, the other compares the value with itself
      rw [hpath] at hu ht
      have hdenied : decided Verdict.kind (evaluateCompiledConstraintValue ext settings policy path
          onMatch (.string s) ⟨param, onMatch, onMissing, .regex matcher pattern⟩) =
          some (some .deny) := by rw [hu]; rfl
      rw [TestAgrees, tracedTest, ht, agree_denied_iff hdenied]
      simp [Except.isOk, Except.toBool]

/-- On a string, the two checks agree exactly when the test is not a divergent one. -/
theorem agrees_string_iff (policy : Policy) (wildcard : Bool) (path : String)
    (constraint : CompiledConstraint) (s : String) :
    TestAgrees ext settings policy wildcard path constraint (.string s) ↔
      divergentTest ext settings wildcard constraint (.string s) = false := by
  obtain ⟨param, onMatch, onMissing, op⟩ := constraint
  cases op with
  | glob matcher pattern => exact agrees_path_iff ext settings matcher _ rfl rfl
  | notGlob matchers =>
    exact agrees_notGlob_iff ext settings policy wildcard path param onMatch onMissing matchers s
  | regex matcher pattern =>
    exact agrees_regex_iff ext settings policy wildcard path param onMatch onMissing matcher
      pattern s
  | domainMatch pattern =>
    exact agrees_domain_iff ext settings
      (Domain.matchDomainPattern ext (Domain.extractDomain ext s) pattern)
      s!"Parameter '{path}' domain matches constraint (policy '{policy.name}')"
      (s!"Parameter '{path}' domain cannot be normalized (IDNA failure) " ++
        s!"(policy '{policy.name}')") rfl rfl
  | domainNotIn patterns =>
    exact agrees_domainNotIn_iff ext settings policy wildcard path param onMatch onMissing
      patterns s
  | eq expected =>
    refine (agrees_value_iff ext settings (normalizedEq ext (.string s) expected)
      (decide (Json.string s = expected)) _ rfl rfl).trans ?_
    rw [normalizedEq_string, positive_operator_iff, ← onlyNormalizedEq_eq]
    rfl
  | ne expected =>
    refine (agrees_value_iff ext settings (!normalizedEq ext (.string s) expected)
      (!decide (Json.string s = expected)) _ rfl (by simp [constraintMatchesValue])).trans ?_
    rw [normalizedEq_string, negated_operator_iff, ← onlyNormalizedEq_eq]
    rfl
  | oneOf values =>
    refine (agrees_value_iff ext settings (normalizedMem ext values (.string s))
      (values.contains (.string s)) _ rfl rfl).trans ?_
    rw [normalizedMem_eq, positive_operator_iff]
    rfl
  | noneOf values =>
    refine (agrees_value_iff ext settings (!normalizedMem ext values (.string s))
      (!values.contains (.string s)) _ rfl rfl).trans ?_
    rw [normalizedMem_eq, negated_operator_iff]
    rfl

/-- On a named parameter that is no string, the two checks agree. -/
theorem agrees_other (policy : Policy) (path : String) (constraint : CompiledConstraint)
    {value : Json} (hvalue : value.asStr = none) :
    TestAgrees ext settings policy false path constraint value := by
  -- where the traced check says yes, the plain check is what decides
  have hsame : constraintMatchesValue ext settings value constraint = true →
      TestAgrees ext settings policy false path constraint value := by
    intro hm
    rw [TestAgrees, tracedTest, if_pos hm, if_neg (by simp)]
  have heq : ∀ expected, normalizedEq ext value expected = decide (value = expected) := by
    intro expected
    rw [normalizedEq, hvalue]
  have hmem : ∀ values, normalizedMem ext values value = values.contains value := by
    intro values
    rw [normalizedMem, hvalue]
  obtain ⟨param, onMatch, onMissing, op⟩ := constraint
  cases op with
  | glob matcher pattern => exact hsame (by simp [constraintMatchesValue, hvalue])
  | notGlob matchers => exact hsame (by simp [constraintMatchesValue, hvalue])
  | regex matcher pattern => exact hsame (by simp [constraintMatchesValue, hvalue])
  | domainMatch pattern => exact hsame (by simp [constraintMatchesValue, hvalue])
  | domainNotIn patterns => exact hsame (by simp [constraintMatchesValue, hvalue])
  | eq expected =>
    rw [agrees_value_iff ext settings (normalizedEq ext value expected) _ _ rfl rfl, heq]
    simp [constraintMatchesValue]
  | ne expected =>
    rw [agrees_value_iff ext settings (!normalizedEq ext value expected) _ _ rfl rfl, heq]
    simp [constraintMatchesValue]
  | oneOf values =>
    rw [agrees_value_iff ext settings (normalizedMem ext values value) _ _ rfl rfl, hmem]
    simp [constraintMatchesValue]
  | noneOf values =>
    rw [agrees_value_iff ext settings (!normalizedMem ext values value) _ _ rfl rfl, hmem]
    simp [constraintMatchesValue]

/-- The same for every value of a named parameter. -/
theorem agrees_named_iff (policy : Policy) (path : String) (constraint : CompiledConstraint)
    (value : Json) :
    TestAgrees ext settings policy false path constraint value ↔
      divergentTest ext settings false constraint value = false := by
  cases value with
  | string s => exact agrees_string_iff ext settings policy false path constraint s
  | null => exact iff_of_true (agrees_other ext settings policy path constraint rfl) rfl
  | bool b => exact iff_of_true (agrees_other ext settings policy path constraint rfl) rfl
  | number n => exact iff_of_true (agrees_other ext settings policy path constraint rfl) rfl
  | array xs => exact iff_of_true (agrees_other ext settings policy path constraint rfl) rfl
  | object ms => exact iff_of_true (agrees_other ext settings policy path constraint rfl) rfl

/-! ## Evaluations without a divergent test -/

variable (action : Action)

/-- Asking the constraint gets to no divergent test. -/
def CleanConstraint (policy : Policy) (constraint : CompiledConstraint) : Prop :=
  Tested (compiledTest ext settings policy constraint)
    (fun _ value =>
      divergentTest ext settings (decide (constraint.param = "*")) constraint value = false)
    action constraint.param

/-- Asking the policy gets to no divergent test: if its constraints are asked at all, each of them
    that is asked is clean. -/
def CleanPolicy (cp : CompiledPolicy κ) : Prop :=
  cp.matchesAction ext action = true →
    (checkRules ext settings action cp).or (checkContext cp) = none →
    AskedConstraints ext settings (CleanConstraint ext settings action cp.policy) action cp

/-- The evaluation gets to no divergent test. -/
def CleanRun (engine : PolicyEngine κ) : Prop :=
  Asked (askCompiledPolicy ext engine.toSettings action) (CleanPolicy ext engine.toSettings action)
    engine.compiledPolicies

instance decidableCleanConstraint (policy : Policy) :
    DecidablePred (CleanConstraint ext settings action policy) := by
  intro constraint
  unfold CleanConstraint
  infer_instance

instance decidableCleanPolicy :
    DecidablePred (CleanPolicy ext settings action : CompiledPolicy κ → Prop) := by
  intro cp
  unfold CleanPolicy
  infer_instance

instance decidableCleanRun (engine : PolicyEngine κ) : Decidable (CleanRun ext action engine) := by
  unfold CleanRun
  infer_instance

/-- The traced constraint as a list of tests. -/
theorem askConstraint_traced_eq (policy : Policy) (constraint : CompiledConstraint) :
    askConstraint ext settings true policy action constraint =
      constraintDecision (fun path value => tracedTest ext settings policy
        (decide (constraint.param = "*")) path constraint value) policy action constraint.param
        constraint.onMissing := by
  rw [verdict_traced, constraintDecision]
  by_cases hwild : constraint.param = "*"
  · rw [if_pos hwild, if_pos hwild, decide_eq_true hwild]
    rfl
  · rw [if_neg hwild, if_neg hwild, decide_eq_false hwild]
    rfl

theorem agrees_of_cleanConstraint {policy : Policy} {constraint : CompiledConstraint}
    (hclean : CleanConstraint ext settings action policy constraint) :
    decided Verdict.kind (evaluateCompiledConstraint ext settings policy action constraint) =
      decided Verdict.kind (askConstraint ext settings true policy action constraint) := by
  rw [askConstraint_traced_eq, evaluateCompiledConstraint_eq]
  refine constraintDecision_congr _ (Tested.mono hclean ?_ ?_)
  · intro _ path s hs
    exact (agrees_string_iff ext settings policy _ path constraint s).mpr hs
  · intro hwild path value hvalue
    rw [decide_eq_false hwild] at hvalue ⊢
    exact (agrees_named_iff ext settings policy path constraint value).mpr hvalue

theorem agrees_of_cleanPolicy {cp : CompiledPolicy κ} (hclean : CleanPolicy ext settings action cp) :
    decided Verdict.kind (askCompiledPolicy ext settings action cp) =
      decided Verdict.kind (askCompiledPolicyTraced ext settings action cp) := by
  rw [askCompiledPolicy, askCompiledPolicyTraced]
  by_cases hm : cp.matchesAction ext action = true
  · rw [if_pos hm, if_pos hm, applyCompiledPolicy_eq, verdict_applyCompiledPolicyTraced]
    refine decided_orAsk rfl fun hrules => ?_
    cases htype : cp.policy.policyType with
    | allow => rfl
    | deny => rfl
    | conditional conditions =>
      dsimp only
      refine decided_orAsk rfl fun hparams => ?_
      refine decided_orAsk (firstDecision_congr ?_) fun _ => rfl
      have hasked := hclean hm (Except.ok.inj hrules) ⟨conditions, htype⟩ (Except.ok.inj hparams)
      exact hasked.mono fun c _ hc => agrees_of_cleanConstraint ext settings action hc
  · rw [if_neg hm, if_neg hm]

end Divergence

end Traced

/-- **Where tracing does not decide.**  For every set of policies that compiles and every action
    whose evaluation gets to no divergent test, the traced evaluation fails exactly when the plain
    one does, and gives a verdict of the same kind.  The list of divergent tests is exact: on each
    test, of the scan for `*` or of a named parameter, the two checks agree if and only if the test
    is not in the list. -/
theorem traced_agrees (env : CompileEnv κ) (strictMode : Bool) (policies : List Policy)
    (engine : PolicyEngine κ)
    (hengine : PolicyEngine.withPolicies env strictMode policies = .ok engine) (action : Action) :
    (CleanRun env.toExternals action engine →
      outcome Verdict.kind (engine.evaluateAction env.toExternals action []) =
          outcome (fun r => r.1.kind) (engine.evaluateActionTraced env.toExternals action) ∧
        outcome Verdict.kind (engine.evaluateAction env.toExternals action []) =
          outcome Verdict.kind (engine.evaluateWithContext env.toExternals action)) ∧
    ∀ (policy : Policy) (path : String) (constraint : CompiledConstraint),
      (∀ s, TestAgrees env.toExternals engine.toSettings policy true path constraint (.string s) ↔
        divergentTest env.toExternals engine.toSettings true constraint (.string s) = false) ∧
      ∀ value, TestAgrees env.toExternals engine.toSettings policy false path constraint value ↔
        divergentTest env.toExternals engine.toSettings false constraint value = false := by
  refine ⟨fun hclean => ?_, fun policy path constraint => ⟨fun s => ?_, fun value => ?_⟩⟩
  · obtain ⟨-, hindexed, -⟩ := withPolicies_eq_ok hengine
    have hcontext : outcome Verdict.kind (engine.evaluateAction env.toExternals action []) =
        outcome Verdict.kind (engine.evaluateWithContext env.toExternals action) := by
      rw [evaluateAction_compiled hengine, verdict_evaluateActionTraced env.toExternals hindexed]
      split
      · rfl
      · have hscan := firstDecision_congr (hclean.mono fun cp _ hcp =>
          agrees_of_cleanPolicy env.toExternals engine.toSettings action hcp)
        exact outcome_orNoMatch hscan
    refine ⟨hcontext.trans ?_, hcontext⟩
    rw [PolicyEngine.evaluateWithContext]
    cases engine.evaluateActionTraced env.toExternals action <;> rfl
  · exact agrees_string_iff env.toExternals engine.toSettings policy true path constraint s
  · exact agrees_named_iff env.toExternals engine.toSettings policy path constraint value

/-- A policy that denies the role `admin`. -/
def noAdminPolicy : Policy :=
  ⟨"login:*", "no admin",
    .conditional (.object [("parameter_constraints", .array [.object [("param", .string "role"),
      ("op", .string "eq"), ("value", .string "admin"), ("on_match", .string "deny")]])]),
    0, none, none⟩

/-- A login with a role. -/
def loginAs (role : String) : Action := Action.new "login" "run" (.object [("role", .string role)])

/-- The plain spelling is denied by both evaluations. -/
theorem traced_agrees_admin :
    ∃ engine, PolicyEngine.withPolicies plainEnv false [noAdminPolicy] = .ok engine ∧
      outcome Verdict.kind (engine.evaluateAction plainExternals (loginAs "admin") []) =
        outcome (fun r => r.1.kind) (engine.evaluateActionTraced plainExternals (loginAs "admin")) := by
  have hclean : (PolicyEngine.withPolicies plainEnv false [noAdminPolicy]).toOption.any
      (fun engine => decide (CleanRun plainExternals (loginAs "admin") engine)) = true := by
    decide +kernel
  rcases hengine : PolicyEngine.withPolicies plainEnv false [noAdminPolicy] with e | engine
  · rw [hengine] at hclean
    cases hclean
  · rw [hengine] at hclean
    have hrun : CleanRun plainExternals (loginAs "admin") engine := of_decide_eq_true hclean
    exact ⟨engine, rfl, ((traced_agrees plainEnv false _ engine hengine (loginAs "admin")).1
      hrun).1⟩

/-- Another spelling of the role: one evaluation denies it, the other allows it. -/
theorem traced_allows_other_spelling :
    (PolicyEngine.withPolicies plainEnv false [noAdminPolicy]).toOption.map (fun engine =>
      (outcome Verdict.kind (engine.evaluateAction plainExternals (loginAs "ADMIN") []),
        outcome (fun r => r.1.kind)
          (engine.evaluateActionTraced plainExternals (loginAs "ADMIN")))) =
    some (some .deny, some .allow) := by
  decide +kernel

end Vellaveto
