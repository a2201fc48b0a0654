/-
  CONDITIONS of a compiled policy, with and without a trace (`vellaveto-engine/src/constraint_eval.rs`:
  `evaluate_compiled_conditions_core`; `traced.rs`: `evaluate_compiled_constraint_traced`,
  `constraint_matches_value`).

  PROGRAM.  Approval, forbidden parameters, required parameters, then the constraints in order; when
  no constraint fires, the policy allows, continues with the next policy, or denies because every
  constraint was skipped.  The core is ONE function with an optional trace, but each constraint is
  evaluated by one of TWO functions, depending on whether a trace is kept: the second one first asks
  `constraintMatchesValue`, a separately written test.

  CORRECTNESS.  `verdict_core`: keeping records never changes a verdict by itself.  The verdict of the
  core is `conditionsDecision` with one way of asking a constraint or the other.
-/
import Vellaveto.Engine.Constraint

namespace Vellaveto

open Vellaveto.Lib

/-! ## Trace records -/

/-- `ConstraintResult`. -/
structure ConstraintResult where
  constraintType : String
  param : String
  expected : String
  actual : String
  passed : Bool
deriving DecidableEq, Repr

/-- The records kept so far, if any are kept. -/
abbrev Trace := Option (List ConstraintResult)

/-- Add a record to a trace that is kept. -/
def Trace.push (trace : Trace) (r : ConstraintResult) : Trace := trace.map (· ++ [r])

/-- `constraint_type_str`. -/
def ConstraintOp.typeStr : ConstraintOp → String
  | .glob .. => "glob"
  | .notGlob .. => "not_glob"
  | .regex .. => "regex"
  | .domainMatch .. => "domain_match"
  | .domainNotIn .. => "domain_not_in"
  | .eq .. => "eq"
  | .ne .. => "ne"
  | .oneOf .. => "one_of"
  | .noneOf .. => "none_of"

section Conditions

variable (ext : Externals)

/-- The `Debug` text of a list of values. -/
def debugValues (values : List Json) : String :=
  "[" ++ ", ".intercalate (values.map ext.debugJson) ++ "]"

/-- `constraint_expected_str`. -/
def ConstraintOp.expectedStr : ConstraintOp → String
  | .glob _ pattern => s!"matches glob '{pattern}'"
  | .notGlob matchers => "not in [" ++ ", ".intercalate (matchers.map Prod.fst) ++ "]"
  | .regex _ pattern => s!"matches regex '{pattern}'"
  | .domainMatch pattern => s!"domain matches '{pattern}'"
  | .domainNotIn patterns => "domain not in [" ++ ", ".intercalate patterns ++ "]"
  | .eq value => "equals " ++ ext.jsonText value
  | .ne value => "not equal " ++ ext.jsonText value
  | .oneOf values => "one of " ++ debugValues ext values
  | .noneOf values => "none of " ++ debugValues ext values

/-- `describe_value`: type and size of a value. -/
def describeValue : Json → String
  | .null => "null"
  | .bool b => s!"bool({b})"
  | .number n => "number(" ++ ext.jsonText (.number n) ++ ")"
  | .string s => "string(" ++ toString s.utf8ByteSize ++ " chars)"
  | .array xs => "array(" ++ toString xs.length ++ " items)"
  | .object ms => "object(" ++ toString ms.length ++ " keys)"

variable (settings : Settings)

/-! ## One constraint, traced -/

/-- `constraint_matches_value`. -/
def constraintMatchesValue (value : Json) (constraint : CompiledConstraint) : Bool :=
  match constraint.op with
  | .glob matcher _ =>
    match value.asStr with
    | some s =>
      match Path.normalizePathBounded s settings.maxPathDecodeIterations with
      | .ok normalized => matcher normalized
      | .error _ => true
    | none => true
  | .notGlob matchers =>
    match value.asStr with
    | some s =>
      match Path.normalizePathBounded s settings.maxPathDecodeIterations with
      | .ok normalized => !matchers.any fun m => m.2 normalized
      | .error _ => true
    | none => true
  | .regex matcher _ =>
    match value.asStr with
    | some s =>
      if matcher s then true
      else
        let normalized :=
          match Path.normalizePathBounded s settings.maxPathDecodeIterations with
          | .ok normalized => normalized
          | .error _ => s
        decide (normalized ≠ s) && matcher normalized
    | none => true
  | .domainMatch pattern =>
    match value.asStr with
    | some s =>
      let domain := Domain.extractDomain ext s
      if isUnnormalizable ext domain then true else Domain.matchDomainPattern ext domain pattern
    | none => true
  | .domainNotIn patterns =>
    match value.asStr with
    | some s =>
      let domain := Domain.extractDomain ext s
      if isUnnormalizable ext domain then true
      else !patterns.any fun p => Domain.matchDomainPattern ext domain p
    | none => true
  | .eq expected => decide (value = expected)
  | .ne expected => decide (value ≠ expected)
  | .oneOf values => values.contains value
  | .noneOf values => !values.contains value

variable (policy : Policy)

/-- The reason of a wildcard constraint that fired in the traced scan. -/
def triggeredReason (valuePath : String) : String :=
  s!"Parameter '{valuePath}' value triggered constraint (policy '{policy.name}')"

/-- The scan of a wildcard constraint, recording every test. -/
def tracedScan (constraint : CompiledConstraint) :
    List (String × String) → List ConstraintResult →
      Except EngineError (Option Verdict × List ConstraintResult)
  | [], results => .ok (none, results)
  | (valuePath, valueStr) :: values, results =>
    let matched := constraintMatchesValue ext settings (.string valueStr) constraint
    let results := results ++ [⟨constraint.op.typeStr, valuePath, constraint.op.expectedStr ext,
      valueStr, !matched⟩]
    if matched then
      (makeConstraintVerdict constraint.onMatch (triggeredReason policy valuePath)).map
        fun verdict => (some verdict, results)
    else tracedScan constraint values results

/-- `evaluate_compiled_constraint_traced`. -/
def evaluateCompiledConstraintTraced (action : Action) (constraint : CompiledConstraint) :
    Except EngineError (Option Verdict × List ConstraintResult) :=
  let record (param expected actual : String) (passed : Bool) : ConstraintResult :=
    ⟨constraint.op.typeStr, param, expected, actual, passed⟩
  if constraint.param = "*" then
    let (allValues, truncated) := Params.collectAllStringValues action.parameters
    if allValues.isEmpty then
      if constraint.onMissing = "skip" then .ok (none, [])
      else (fire "deny" (noStringsReason policy)).map
        fun verdict => (verdict, [record "*" "any string values" "none found" false])
    else do
      let (verdict, results) ← tracedScan ext settings policy constraint allValues []
      match verdict with
      | some v => .ok (some v, results)
      | none =>
        if truncated then
          .ok (some (.deny (truncatedReason policy)), results ++ [⟨"scan_truncated_fail_closed", "*",
            "complete scan", s!"truncated at {Params.maxScanValues} values", false⟩])
        else .ok (none, results)
  else
    let expected := constraint.op.expectedStr ext
    match Params.getParamByPath action.parameters constraint.param with
    | none =>
      if constraint.onMissing = "skip" then
        .ok (none, [record constraint.param expected "missing" true])
      else (fire "deny" (missingReason policy constraint.param)).map
        fun verdict => (verdict, [record constraint.param expected "missing" false])
    | some value =>
      let matched := constraintMatchesValue ext settings value constraint
      let results := [record constraint.param expected (value.asStr.getD (ext.jsonText value))
        (!matched)]
      if matched then
        (evaluateCompiledConstraintValue ext settings policy constraint.param constraint.onMatch
          value constraint).map fun verdict => (verdict, results)
      else .ok (none, results)

/-! ## The conditions of a policy -/

/-- The loop over forbidden (`wantPresent = false`) or required parameters. -/
def checkParameters (constraintType expected : String) (wantPresent : Bool)
    (reason : String → String) (parameters : Json) :
    List String → Trace → Option Verdict × Trace
  | [], trace => (none, trace)
  | param :: params, trace =>
    let value := parameters.get param
    let actual :=
      match value with
      | some v => "present: " ++ describeValue ext v
      | none => "absent"
    let passed := value.isSome == wantPresent
    let trace := trace.push ⟨constraintType, param, expected, actual, passed⟩
    if passed then
      checkParameters constraintType expected wantPresent reason parameters params trace
    else (some (.deny (reason param)), trace)

/-- Was the constraint evaluated, rather than skipped for a missing parameter? -/
def wasEvaluated (action : Action) (constraint : CompiledConstraint) : Bool :=
  if constraint.param = "*" then
    !(Params.collectAllStringValues action.parameters).1.isEmpty ||
      decide (constraint.onMissing ≠ "skip")
  else
    (Params.getParamByPath action.parameters constraint.param).isSome ||
      decide (constraint.onMissing ≠ "skip")

/-- One constraint, by the evaluator that goes with the trace. -/
def constraintStep (action : Action) (c : CompiledConstraint) :
    Trace → Except EngineError (Option Verdict × Trace)
  | some results =>
    (evaluateCompiledConstraintTraced ext settings policy action c).map
      fun r => (r.1, some (results ++ r.2))
  | none =>
    (evaluateCompiledConstraint ext settings policy action c).map fun verdict => (verdict, none)

/-- The loop over the constraints, with the trace and whether any was evaluated. -/
def constraintLoop (action : Action) :
    List CompiledConstraint → Bool → Trace → Except EngineError (Option Verdict × Bool × Trace)
  | [], anyEvaluated, trace => .ok (none, anyEvaluated, trace)
  | c :: cs, anyEvaluated, trace =>
    match constraintStep ext settings policy action c trace with
    | .error e => .error e
    | .ok (some v, trace) => .ok (some v, anyEvaluated, trace)
    | .ok (none, trace) => constraintLoop action cs (anyEvaluated || wasEvaluated action c) trace

/-- `all_constraints_skipped`. -/
def allConstraintsSkipped (totalConstraints : Nat) (anyEvaluated : Bool) : Bool :=
  decide (0 < totalConstraints) && !anyEvaluated

/-- What happens when no constraint fired. -/
def noMatchVerdict (total : Nat) (anyEvaluated onNoMatchContinue : Bool) : Option Verdict :=
  if onNoMatchContinue then none
  else if allConstraintsSkipped total anyEvaluated then some (.deny (allSkippedReason policy total))
  else some .allow

variable {κ : Type}

/-- `evaluate_compiled_conditions_core`. -/
def evaluateCompiledConditionsCore (action : Action) (cp : CompiledPolicy κ) (trace : Trace) :
    Except EngineError (Option Verdict × Trace) :=
  let conditions := cp.conditions
  if conditions.requireApproval then
    .ok (some (.requireApproval cp.policy.approvalReason),
      trace.push ⟨"require_approval", "", "true", "true", false⟩)
  else
    match checkParameters ext "forbidden_parameter" "absent" false cp.policy.forbiddenReason
        action.parameters conditions.forbiddenParameters trace with
    | (some v, trace) => .ok (some v, trace)
    | (none, trace) =>
      match checkParameters ext "required_parameter" "present" true cp.policy.requiredReason
          action.parameters conditions.requiredParameters trace with
      | (some v, trace) => .ok (some v, trace)
      | (none, trace) =>
        match constraintLoop ext settings cp.policy action conditions.constraints false trace with
        | .error e => .error e
        | .ok (some v, _, trace) => .ok (some v, trace)
        | .ok (none, anyEvaluated, trace) =>
          let total := conditions.constraints.length
          let trace :=
            if allConstraintsSkipped total anyEvaluated && !conditions.onNoMatchContinue then
              trace.push ⟨"all_skipped_fail_closed", "", "at least one constraint evaluated",
                s!"all {total} constraints skipped (missing params)", false⟩
            else trace
          .ok (noMatchVerdict cp.policy total anyEvaluated conditions.onNoMatchContinue, trace)

/-- `evaluate_compiled_conditions`. -/
def evaluateCompiledConditions (action : Action) (cp : CompiledPolicy κ) :
    Except EngineError (Option Verdict) :=
  (evaluateCompiledConditionsCore ext settings action cp none).map Prod.fst

/-- `evaluate_compiled_conditions_traced`. -/
def evaluateCompiledConditionsTraced (action : Action) (cp : CompiledPolicy κ) :
    Except EngineError (Option Verdict × List ConstraintResult) :=
  (evaluateCompiledConditionsCore ext settings action cp (some [])).map
    fun r => (r.1, r.2.getD [])

end Conditions

/-! ## The verdict of the core

  What the core decides, with the records left out: `ask` is the way a constraint is evaluated. -/

section Verdict

variable (ext : Externals) (settings : Settings) {κ : Type}

/-- How a constraint is evaluated, depending on whether a trace is kept. -/
def askConstraint (traced : Bool) (policy : Policy) (action : Action) (c : CompiledConstraint) :
    Except EngineError (Option Verdict) :=
  if traced then (evaluateCompiledConstraintTraced ext settings policy action c).map Prod.fst
  else evaluateCompiledConstraint ext settings policy action c

/-- What the conditions decide before any constraint is asked. -/
def parametersDecision (action : Action) (cp : CompiledPolicy κ) : Option Verdict :=
  if cp.conditions.requireApproval then some (.requireApproval cp.policy.approvalReason)
  else
    ((cp.conditions.forbiddenParameters.find? fun p => (action.parameters.get p).isSome).map
      fun p => Verdict.deny (cp.policy.forbiddenReason p)).or <|
    (cp.conditions.requiredParameters.find? fun p => (action.parameters.get p).isNone).map
      fun p => Verdict.deny (cp.policy.requiredReason p)

/-- What the conditions decide when no constraint fires. -/
def closingDecision (action : Action) (cp : CompiledPolicy κ) : Option Verdict :=
  noMatchVerdict cp.policy cp.conditions.constraints.length
    (cp.conditions.constraints.any (wasEvaluated action)) cp.conditions.onNoMatchContinue

/-- The conditions as a decision list. -/
def conditionsDecision (ask : CompiledConstraint → Except EngineError (Option Verdict))
    (action : Action) (cp : CompiledPolicy κ) : Except EngineError (Option Verdict) :=
  orAsk (.ok (parametersDecision action cp)) <|
    orAsk (firstDecision ask cp.conditions.constraints) (.ok (closingDecision action cp))

@[simp] theorem push_isSome (trace : Trace) (r : ConstraintResult) :
    (trace.push r).isSome = trace.isSome := by
  cases trace <;> rfl

/-- The loop over parameter names denies at the first one that is not as wanted. -/
theorem checkParameters_fst (constraintType expected : String) (wantPresent : Bool)
    (reason : String → String) (parameters : Json) (params : List String) (trace : Trace) :
    (checkParameters ext constraintType expected wantPresent reason parameters params trace).1 =
      (params.find? fun p => (parameters.get p).isSome != wantPresent).map
        fun p => Verdict.deny (reason p) := by
  induction params generalizing trace with
  | nil => rfl
  | cons p ps ih =>
    rw [checkParameters, List.find?_cons]
    by_cases hp : ((parameters.get p).isSome == wantPresent) = true
    · have hne : ((parameters.get p).isSome != wantPresent) = false := by
        rw [bne, hp]; rfl
      simp only [hp, hne, ↓reduceIte]
      exact ih _
    · have hp' : ((parameters.get p).isSome == wantPresent) = false := by simpa using hp
      have hne : ((parameters.get p).isSome != wantPresent) = true := by
        rw [bne, hp']; rfl
      simp [hp', hne]

theorem checkParameters_isSome (constraintType expected : String) (wantPresent : Bool)
    (reason : String → String) (parameters : Json) (params : List String) (trace : Trace) :
    (checkParameters ext constraintType expected wantPresent reason parameters params
      trace).2.isSome = trace.isSome := by
  induction params generalizing trace with
  | nil => rfl
  | cons p ps ih =>
    rw [checkParameters]
    split
    · rw [ih, push_isSome]
    · exact push_isSome _ _

theorem constraintStep_fst (policy : Policy) (action : Action) (c : CompiledConstraint)
    (trace : Trace) :
    (constraintStep ext settings policy action c trace).map Prod.fst =
      askConstraint ext settings trace.isSome policy action c := by
  cases trace with
  | some results =>
    show (Except.map _ (Except.map _ _)) = Except.map _ _
    cases evaluateCompiledConstraintTraced ext settings policy action c <;> rfl
  | none =>
    show (Except.map _ (Except.map _ _)) = evaluateCompiledConstraint ext settings policy action c
    cases evaluateCompiledConstraint ext settings policy action c <;> rfl

/-- A trace that is kept stays kept. -/
theorem constraintStep_isSome (policy : Policy) (action : Action) (c : CompiledConstraint)
    (trace : Trace) (r : Option Verdict × Trace)
    (hr : constraintStep ext settings policy action c trace = .ok r) :
    r.2.isSome = trace.isSome := by
  cases trace with
  | some results =>
    rw [constraintStep] at hr
    cases hres : evaluateCompiledConstraintTraced ext settings policy action c with
    | error e => rw [hres] at hr; cases hr
    | ok q => rw [hres] at hr; cases hr; rfl
  | none =>
    rw [constraintStep] at hr
    cases hres : evaluateCompiledConstraint ext settings policy action c with
    | error e => rw [hres] at hr; cases hr
    | ok q => rw [hres] at hr; cases hr; rfl

/-- The loop over the constraints: it decides as the list does, and when nobody decides it knows
    whether any constraint was evaluated. -/
theorem constraintLoop_spec (policy : Policy) (action : Action) (cs : List CompiledConstraint)
    (anyEvaluated : Bool) (trace : Trace) :
    (∃ e, constraintLoop ext settings policy action cs anyEvaluated trace = .error e ∧
      firstDecision (askConstraint ext settings trace.isSome policy action) cs = .error e) ∨
    (∃ v any trace', constraintLoop ext settings policy action cs anyEvaluated trace =
        .ok (some v, any, trace') ∧
      firstDecision (askConstraint ext settings trace.isSome policy action) cs = .ok (some v)) ∨
    (∃ trace', constraintLoop ext settings policy action cs anyEvaluated trace =
        .ok (none, anyEvaluated || cs.any (wasEvaluated action), trace') ∧
      firstDecision (askConstraint ext settings trace.isSome policy action) cs = .ok none) := by
  induction cs generalizing anyEvaluated trace with
  | nil => exact Or.inr (Or.inr ⟨trace, by simp [constraintLoop], rfl⟩)
  | cons c cs ih =>
    have hask := constraintStep_fst ext settings policy action c trace
    have htrace := constraintStep_isSome ext settings policy action c trace
    rw [constraintLoop, firstDecision, ← hask]
    rcases hstep : constraintStep ext settings policy action c trace with e | ⟨_ | v, t⟩
    · exact Or.inl ⟨e, rfl, rfl⟩
    · have ht := htrace _ hstep
      have htail := ih (anyEvaluated || wasEvaluated action c) t
      rw [ht] at htail
      rw [List.any_cons, ← Bool.or_assoc]
      exact htail
    · exact Or.inr (Or.inl ⟨v, anyEvaluated, t, rfl, rfl⟩)

/-- **Records do not decide.**  The verdict of the core is that of the decision list. -/
theorem verdict_core (action : Action) (cp : CompiledPolicy κ) (trace : Trace) :
    (evaluateCompiledConditionsCore ext settings action cp trace).map Prod.fst =
      conditionsDecision (askConstraint ext settings trace.isSome cp.policy action) action cp := by
  rw [evaluateCompiledConditionsCore, conditionsDecision, parametersDecision]
  by_cases happroval : cp.conditions.requireApproval = true
  · rw [if_pos happroval, if_pos happroval]
    rfl
  · rw [if_neg happroval, if_neg happroval]
    have hforbidden := checkParameters_fst ext "forbidden_parameter" "absent" false
      cp.policy.forbiddenReason action.parameters cp.conditions.forbiddenParameters trace
    have hforbiddenTrace := checkParameters_isSome ext "forbidden_parameter" "absent" false
      cp.policy.forbiddenReason action.parameters cp.conditions.forbiddenParameters trace
    simp only [Bool.bne_false] at hforbidden
    rw [← hforbidden]
    rcases hfres : checkParameters ext "forbidden_parameter" "absent" false
      cp.policy.forbiddenReason action.parameters cp.conditions.forbiddenParameters trace with
      ⟨_ | v, t⟩
    · rw [hfres] at hforbiddenTrace
      have hrequired := checkParameters_fst ext "required_parameter" "present" true
        cp.policy.requiredReason action.parameters cp.conditions.requiredParameters t
      have hrequiredTrace := checkParameters_isSome ext "required_parameter" "present" true
        cp.policy.requiredReason action.parameters cp.conditions.requiredParameters t
      simp only [Bool.bne_true, Option.not_isSome] at hrequired
      rw [← hrequired, Option.none_or]
      dsimp only
      rcases hrres : checkParameters ext "required_parameter" "present" true
        cp.policy.requiredReason action.parameters cp.conditions.requiredParameters t with
        ⟨_ | v, t'⟩
      · rw [hrres, hforbiddenTrace] at hrequiredTrace
        rw [orAsk_pass, ← hrequiredTrace]
        dsimp only
        rcases constraintLoop_spec ext settings cp.policy action cp.conditions.constraints false t'
          with ⟨e, hloop, hlist⟩ | ⟨v, any, t'', hloop, hlist⟩ | ⟨t'', hloop, hlist⟩
        · rw [hloop, hlist]; rfl
        · rw [hloop, hlist]; rfl
        · rw [hloop, hlist]; rfl
      · rfl
    · rfl

/-- The verdict of a traced scan is that of the list of tests. -/
theorem verdict_tracedScan (policy : Policy) (constraint : CompiledConstraint)
    (values : List (String × String)) (results : List ConstraintResult) :
    (tracedScan ext settings policy constraint values results).map Prod.fst =
      firstDecision (fun v =>
        if constraintMatchesValue ext settings (.string v.2) constraint then
          fire constraint.onMatch (triggeredReason policy v.1)
        else .ok none) values := by
  induction values generalizing results with
  | nil => rfl
  | cons v vs ih =>
    obtain ⟨path, s⟩ := v
    rw [tracedScan, firstDecision]
    dsimp only
    by_cases hm : constraintMatchesValue ext settings (.string s) constraint = true
    · rw [if_pos hm, if_pos hm, fire]
      cases makeConstraintVerdict constraint.onMatch (triggeredReason policy path) <;> rfl
    · rw [if_neg hm, if_neg hm, orAsk_pass]
      exact ih _

/-- The verdict of a traced constraint. -/
theorem verdict_traced (policy : Policy) (action : Action) (constraint : CompiledConstraint) :
    askConstraint ext settings true policy action constraint =
      if constraint.param = "*" then
        if (Params.collectAllStringValues action.parameters).1.isEmpty then
          if constraint.onMissing = "skip" then .ok none else fire "deny" (noStringsReason policy)
        else
          orAsk
            (firstDecision (fun v =>
              if constraintMatchesValue ext settings (.string v.2) constraint then
                fire constraint.onMatch (triggeredReason policy v.1)
              else .ok none) (Params.collectAllStringValues action.parameters).1)
            (if (Params.collectAllStringValues action.parameters).2 then
              .ok (some (.deny (truncatedReason policy))) else .ok none)
      else
        match Params.getParamByPath action.parameters constraint.param with
        | none =>
          if constraint.onMissing = "skip" then .ok none
          else fire "deny" (missingReason policy constraint.param)
        | some value =>
          if constraintMatchesValue ext settings value constraint then
            evaluateCompiledConstraintValue ext settings policy constraint.param
              constraint.onMatch value constraint
          else .ok none := by
  have hmap : ∀ (d : Except EngineError (Option Verdict)) (rs : List ConstraintResult),
      (d.map fun verdict => (verdict, rs)).map Prod.fst = d := by
    rintro (e | d) rs <;> rfl
  rw [askConstraint, if_pos rfl, evaluateCompiledConstraintTraced]
  dsimp only
  by_cases hwild : constraint.param = "*"
  · rw [if_pos hwild, if_pos hwild]
    obtain ⟨values, truncated⟩ := Params.collectAllStringValues action.parameters
    dsimp only
    by_cases hempty : values.isEmpty = true
    · rw [if_pos hempty, if_pos hempty]
      by_cases hskip : constraint.onMissing = "skip"
      · rw [if_pos hskip, if_pos hskip]; rfl
      · rw [if_neg hskip, if_neg hskip, hmap]
    · rw [if_neg hempty, if_neg hempty,
        ← verdict_tracedScan ext settings policy constraint values []]
      rcases tracedScan ext settings policy constraint values [] with e | ⟨_ | v, results⟩
      · rfl
      · cases truncated <;> rfl
      · rfl
  · rw [if_neg hwild, if_neg hwild]
    cases Params.getParamByPath action.parameters constraint.param with
    | none =>
      dsimp only
      by_cases hskip : constraint.onMissing = "skip"
      · rw [if_pos hskip, if_pos hskip]; rfl
      · rw [if_neg hskip, if_neg hskip, hmap]
    | some value =>
      dsimp only
      by_cases hm : constraintMatchesValue ext settings value constraint = true
      · rw [if_pos hm, if_pos hm, hmap]
      · rw [if_neg hm, if_neg hm]; rfl

/-! ## The tests of a constraint

  A constraint on `*` is a list of tests, one for each string; a constraint on a parameter is one
  test.  The evaluators differ only in the test. -/

/-- A constraint as a list of tests. -/
def constraintDecision (test : String → Json → Except EngineError (Option Verdict))
    (policy : Policy) (action : Action) (param onMissing : String) :
    Except EngineError (Option Verdict) :=
  if param = "*" then
    let (allValues, truncated) := Params.collectAllStringValues action.parameters
    if allValues.isEmpty then
      if onMissing = "skip" then .ok none else fire "deny" (noStringsReason policy)
    else
      orAsk (firstDecision (fun v => test v.1 (.string v.2)) allValues)
        (if truncated then .ok (some (.deny (truncatedReason policy))) else .ok none)
  else
    match Params.getParamByPath action.parameters param with
    | none => if onMissing = "skip" then .ok none else fire "deny" (missingReason policy param)
    | some value => test param value

/-- `P` holds of every test the constraint gets to. -/
def Tested (test : String → Json → Except EngineError (Option Verdict))
    (P : String → Json → Prop) (action : Action) (param : String) : Prop :=
  if param = "*" then
    Asked (fun v => test v.1 (.string v.2)) (fun v => P v.1 (.string v.2))
      (Params.collectAllStringValues action.parameters).1
  else ∀ value ∈ Params.getParamByPath action.parameters param, P param value

instance decidableTested (test : String → Json → Except EngineError (Option Verdict))
    (P : String → Json → Prop) [∀ path value, Decidable (P path value)] (action : Action)
    (param : String) : Decidable (Tested test P action param) := by
  unfold Tested
  infer_instance

/-- The test of a compiled constraint. -/
def compiledTest (policy : Policy) (constraint : CompiledConstraint) (path : String) (value : Json) :
    Except EngineError (Option Verdict) :=
  evaluateCompiledConstraintValue ext settings policy path constraint.onMatch value constraint

theorem evaluateCompiledConstraint_eq (policy : Policy) (action : Action)
    (constraint : CompiledConstraint) :
    evaluateCompiledConstraint ext settings policy action constraint =
      constraintDecision (compiledTest ext settings policy constraint) policy action
        constraint.param constraint.onMissing := rfl

/-- Constraints whose tests agree, as far as they are got to, decide alike. -/
theorem constraintDecision_congr {test test' : String → Json → Except EngineError (Option Verdict)}
    {policy : Policy} {action : Action} {param : String} (onMissing : String)
    (h : Tested test (fun path value =>
      decided Verdict.kind (test path value) = decided Verdict.kind (test' path value))
      action param) :
    decided Verdict.kind (constraintDecision test policy action param onMissing) =
      decided Verdict.kind (constraintDecision test' policy action param onMissing) := by
  rw [constraintDecision, constraintDecision]
  rw [Tested] at h
  by_cases hwild : param = "*"
  · rw [if_pos hwild] at h ⊢
    rw [if_pos hwild]
    dsimp only
    split
    · rfl
    · exact decided_orAsk (firstDecision_congr h) fun _ => rfl
  · rw [if_neg hwild] at h ⊢
    rw [if_neg hwild]
    cases hvalue : Params.getParamByPath action.parameters param with
    | none => rfl
    | some value => exact h value hvalue

theorem Tested.mono {test : String → Json → Except EngineError (Option Verdict)}
    {P Q : String → Json → Prop} {action : Action} {param : String}
    (h : Tested test P action param)
    (hstring : param = "*" → ∀ path s, P path (.string s) → Q path (.string s))
    (hvalue : param ≠ "*" → ∀ path value, P path value → Q path value) :
    Tested test Q action param := by
  rw [Tested] at h ⊢
  by_cases hwild : param = "*"
  · rw [if_pos hwild] at h ⊢
    exact h.mono fun v _ hv => hstring hwild v.1 v.2 hv
  · rw [if_neg hwild] at h ⊢
    exact fun value hv => hvalue hwild param value (h value hv)

/-- `P` holds of every constraint of the policy that is asked once its rules have let the action
    through: they are asked if the policy is conditional and its parameters do not decide. -/
def AskedConstraints (P : CompiledConstraint → Prop) (action : Action) (cp : CompiledPolicy κ) :
    Prop :=
  (∃ conditions, cp.policy.policyType = .conditional conditions) →
    parametersDecision action cp = none →
    Asked (evaluateCompiledConstraint ext settings cp.policy action) P cp.conditions.constraints

instance decidableIsConditional : (t : PolicyType) → Decidable (∃ c, t = .conditional c)
  | .allow => .isFalse (by simp)
  | .deny => .isFalse (by simp)
  | .conditional c => .isTrue ⟨c, rfl⟩

instance decidableAskedConstraints (P : CompiledConstraint → Prop) [DecidablePred P]
    (action : Action) (cp : CompiledPolicy κ) :
    Decidable (AskedConstraints ext settings P action cp) := by
  unfold AskedConstraints
  infer_instance

end Verdict

end Vellaveto
