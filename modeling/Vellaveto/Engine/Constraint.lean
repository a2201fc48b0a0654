/-
  PARAMETER CONSTRAINTS of a compiled policy (`vellaveto-engine/src/constraint_eval.rs`).

  PROGRAM.  A constraint names a parameter, an operator and what to do when the operator matches.
  The string operators (globs, regex, domains) DENY what is no string, no path or no domain; the
  value operators compare strings after normalization.  A constraint on `*` is asked about every
  string the scan of the parameters collects, and denies when the scan was cut short.

  CORRECTNESS.  `wildcard_tests_every_string`: when a constraint on `*` passes, the scan was
  complete and the constraint passed every string in reach of it.  What is out of reach is dropped
  silently (`wildcard_scan_misses_strings`): by depth, by the height of the stack, and under the
  empty key.
-/
import Vellaveto.Engine.RuleCheck
import Vellaveto.Lib.Decision

namespace Vellaveto

open Vellaveto.Lib

/-! ## Verdicts of constraints -/

/-- `make_constraint_verdict`. -/
def makeConstraintVerdict (onMatch reason : String) : Except EngineError Verdict :=
  if onMatch = "deny" then .ok (.deny reason)
  else if onMatch = "require_approval" then .ok (.requireApproval reason)
  else if onMatch = "allow" then .ok .allow
  else .error (.evaluationError s!"Unknown on_match action: '{onMatch}'")

/-- The verdict of a constraint that fired. -/
def fire (onMatch reason : String) : Except EngineError (Option Verdict) :=
  (makeConstraintVerdict onMatch reason).map some

section Value

variable (ext : Externals) (settings : Settings) (policy : Policy)

/-- The string a string operator works on.  Any other value is an error in strict mode and is
    denied otherwise. -/
def withString (paramName op : String) (value : Json)
    (k : String → Except EngineError (Option Verdict)) : Except EngineError (Option Verdict) :=
  match value.asStr with
  | some raw => k raw
  | none =>
    if settings.strictMode then
      .error (.invalidCondition policy.id
        s!"Parameter '{paramName}' is not a string for {op} operator")
    else fire "deny" s!"Parameter '{paramName}' is not a string (policy '{policy.name}')"

/-- The normalized path a path operator works on; what is no path is denied. -/
def withPath (raw : String) (k : String → Except EngineError (Option Verdict)) :
    Except EngineError (Option Verdict) :=
  match Path.normalizePathBounded raw settings.maxPathDecodeIterations with
  | .ok normalized => k normalized
  | .error e => .ok (some (.deny s!"Path normalization failed: {e.display}"))

/-- A domain outside ASCII that IDNA rejects. -/
def isUnnormalizable (domain : String) : Bool :=
  !domain.toList.all isAscii && (Domain.normalizeDomainForMatch ext domain).isNone

/-- Equality of values; strings are compared after normalization. -/
def normalizedEq (value expected : Json) : Bool :=
  match value.asStr, expected.asStr with
  | some a, some b => ext.normalizeFull a == ext.normalizeFull b
  | _, _ => decide (value = expected)

/-- Membership in a list of values; strings are compared after normalization. -/
def normalizedMem (values : List Json) (value : Json) : Bool :=
  match value.asStr with
  | some s =>
    values.any fun v =>
      match v.asStr with
      | some t => ext.normalizeFull t == ext.normalizeFull s
      | none => decide (v = value)
  | none => values.contains value

/-- `evaluate_compiled_constraint_value`. -/
def evaluateCompiledConstraintValue (paramName onMatch : String) (value : Json)
    (constraint : CompiledConstraint) : Except EngineError (Option Verdict) :=
  match constraint.op with
  | .glob matcher _ =>
    withString settings policy paramName "glob" value fun raw =>
      withPath settings raw fun normalized =>
        if matcher normalized then
          fire onMatch s!"Parameter '{paramName}' path matches constraint (policy '{policy.name}')"
        else .ok none
  | .notGlob matchers =>
    withString settings policy paramName "not_glob" value fun raw =>
      withPath settings raw fun normalized =>
        if matchers.any fun m => m.2 normalized then .ok none
        else
          fire onMatch s!"Parameter '{paramName}' path not in allowlist (policy '{policy.name}')"
  | .regex matcher _ =>
    withString settings policy paramName "regex" value fun raw =>
      if matcher raw then
        fire onMatch s!"Parameter '{paramName}' matches constraint (policy '{policy.name}')"
      else
        withPath settings raw fun normalized =>
          if normalized ≠ raw ∧ matcher normalized then
            fire onMatch s!"Parameter '{paramName}' matches constraint (policy '{policy.name}')"
          else .ok none
  | .domainMatch pattern =>
    withString settings policy paramName "domain_match" value fun raw =>
      let domain := Domain.extractDomain ext raw
      if isUnnormalizable ext domain then
        fire "deny" <| s!"Parameter '{paramName}' domain cannot be normalized (IDNA failure) " ++
          s!"(policy '{policy.name}')"
      else if Domain.matchDomainPattern ext domain pattern then
        fire onMatch s!"Parameter '{paramName}' domain matches constraint (policy '{policy.name}')"
      else .ok none
  | .domainNotIn patterns =>
    withString settings policy paramName "domain_not_in" value fun raw =>
      let domain := Domain.extractDomain ext raw
      if isUnnormalizable ext domain then
        fire "deny" <| s!"Parameter '{paramName}' domain cannot be normalized (IDNA failure) " ++
          s!"(policy '{policy.name}')"
      else if patterns.any fun p => Domain.matchDomainPattern ext domain p then .ok none
      else
        fire onMatch s!"Parameter '{paramName}' domain not in allowlist (policy '{policy.name}')"
  | .eq expected =>
    if normalizedEq ext value expected then
      let text := ext.debugJson expected
      fire onMatch s!"Parameter '{paramName}' equals {text} (policy '{policy.name}')"
    else .ok none
  | .ne expected =>
    if !normalizedEq ext value expected then
      let text := ext.debugJson expected
      fire onMatch s!"Parameter '{paramName}' != {text} (policy '{policy.name}')"
    else .ok none
  | .oneOf values =>
    if normalizedMem ext values value then
      fire onMatch s!"Parameter '{paramName}' is in the specified set (policy '{policy.name}')"
    else .ok none
  | .noneOf values =>
    if !normalizedMem ext values value then
      fire onMatch s!"Parameter '{paramName}' is not in the allowed set (policy '{policy.name}')"
    else .ok none

/-! ## One constraint against an action -/

/-- The denial of a scan that was cut short. -/
def truncatedReason : String :=
  s!"Parameter scan truncated at {Params.maxScanValues} values — deny (fail-closed) in policy " ++
    s!"'{policy.name}'"

/-- The denial of a wildcard constraint without any string to test. -/
def noStringsReason : String :=
  s!"No string values found in parameters (fail-closed) in policy '{policy.name}'"

/-- The denial of a constraint whose parameter is missing. -/
def missingReason (paramName : String) : String :=
  s!"Parameter '{paramName}' missing (fail-closed) in policy '{policy.name}'"

/-- The denial of a policy whose constraints were all skipped. -/
def allSkippedReason (totalConstraints : Nat) : String :=
  s!"All {totalConstraints} constraints skipped (parameters missing) in policy " ++
    s!"'{policy.name}' — fail-closed"

/-- `evaluate_compiled_constraint`. -/
def evaluateCompiledConstraint (action : Action) (constraint : CompiledConstraint) :
    Except EngineError (Option Verdict) :=
  if constraint.param = "*" then
    let (allValues, truncated) := Params.collectAllStringValues action.parameters
    if allValues.isEmpty then
      if constraint.onMissing = "skip" then .ok none else fire "deny" (noStringsReason policy)
    else
      orAsk
        (firstDecision (fun v => evaluateCompiledConstraintValue ext settings policy v.1
          constraint.onMatch (.string v.2) constraint) allValues)
        (if truncated then .ok (some (.deny (truncatedReason policy))) else .ok none)
  else
    match Params.getParamByPath action.parameters constraint.param with
    | none =>
      if constraint.onMissing = "skip" then .ok none
      else fire "deny" (missingReason policy constraint.param)
    | some value =>
      evaluateCompiledConstraintValue ext settings policy constraint.param constraint.onMatch value
        constraint

end Value

/-! ## The constraint on every string -/

section Wildcard

variable (ext : Externals) (settings : Settings) (policy : Policy)

/-- A wildcard constraint passes exactly when it has no string to test and may skip, or the scan is
    complete and every collected string passes. -/
theorem evaluateCompiledConstraint_wildcard_pass_iff {action : Action}
    {constraint : CompiledConstraint} (hparam : constraint.param = "*") :
    evaluateCompiledConstraint ext settings policy action constraint = .ok none ↔
      ((Params.collectAllStringValues action.parameters).1 = [] ∧ constraint.onMissing = "skip") ∨
      ((Params.collectAllStringValues action.parameters).1 ≠ [] ∧
        (Params.collectAllStringValues action.parameters).2 = false ∧
        ∀ v ∈ (Params.collectAllStringValues action.parameters).1,
          evaluateCompiledConstraintValue ext settings policy v.1 constraint.onMatch (.string v.2)
            constraint = .ok none) := by
  rw [← firstDecision_eq_none_iff, evaluateCompiledConstraint, if_pos hparam]
  obtain ⟨values, truncated⟩ := Params.collectAllStringValues action.parameters
  dsimp only
  cases values with
  | nil =>
    rw [if_pos (by rfl)]
    by_cases hskip : constraint.onMissing = "skip"
    · simp [hskip]
    · simp [hskip, fire, makeConstraintVerdict, Except.map]
  | cons v vs =>
    rw [if_neg (by simp), orAsk_eq_none_iff]
    cases truncated <;> simp

/-- **A passed wildcard constraint has tested every string in reach.**  An untruncated scan collects
    every string at nesting depth at most `maxJsonDepth`, with a path text, that the bounded stack
    has room for; and a constraint on `*` that passes had an untruncated scan and passed each of
    those strings. -/
theorem wildcard_tests_every_string (action : Action) (constraint : CompiledConstraint) :
    ((Params.collectAllStringValues action.parameters).2 = false →
      ∀ is q s, Params.StringAt action.parameters "" is q s → Params.InReach 0 0 is q →
        (q, s) ∈ (Params.collectAllStringValues action.parameters).1) ∧
    (constraint.param = "*" →
      evaluateCompiledConstraint ext settings policy action constraint = .ok none →
        (Params.collectAllStringValues action.parameters).2 = false ∧
        ∀ is q s, Params.StringAt action.parameters "" is q s → Params.InReach 0 0 is q →
          evaluateCompiledConstraintValue ext settings policy q constraint.onMatch (.string s)
            constraint = .ok none) := by
  refine ⟨fun htrunc is q s hat hreach => Params.mem_collectAllStringValues htrunc hat hreach,
    fun hparam hpass => ?_⟩
  rcases (evaluateCompiledConstraint_wildcard_pass_iff ext settings policy hparam).mp hpass with
    ⟨hnil, -⟩ | ⟨-, htrunc, hall⟩
  · -- nothing was collected, so nothing is in reach
    have htrunc : (Params.collectAllStringValues action.parameters).2 = false := by
      by_contra htrue
      exact Params.truncated_ne_nil (Bool.not_eq_false _ ▸ htrue) hnil
    refine ⟨htrunc, fun is q s hat hreach => ?_⟩
    have hmem := Params.mem_collectAllStringValues htrunc hat hreach
    rw [hnil] at hmem
    exact absurd hmem List.not_mem_nil
  · refine ⟨htrunc, fun is q s hat hreach => ?_⟩
    exact hall (q, s) (Params.mem_collectAllStringValues htrunc hat hreach)

end Wildcard

/-- A nested string that a wildcard constraint has tested. -/
theorem wildcard_tests_nested_string :
    evaluateCompiledConstraintValue plainExternals ⟨false, 20⟩ ⟨"*", "p", .allow, 1, none, none⟩
      "a.b" "deny" (.string "safe") ⟨"*", "deny", "deny", .eq (.string "secret")⟩ = .ok none := by
  have htests := (wildcard_tests_every_string plainExternals ⟨false, 20⟩
    ⟨"*", "p", .allow, 1, none, none⟩
    (Action.new "t" "f" (.object [("a", .object [("b", .string "safe")])]))
    ⟨"*", "deny", "deny", .eq (.string "secret")⟩).2 rfl (by decide +kernel)
  have hat : Params.StringAt (.object [("a", .object [("b", .string "safe")])]) "" [0, 0] "a.b"
      "safe" := .child rfl (.child rfl .leaf)
  exact htests.2 [0, 0] "a.b" "safe" hat ⟨by decide, by decide, by decide⟩

/-- The scan misses strings without saying so: under 33 objects, beyond a full stack, and under the
    empty key. -/
theorem wildcard_scan_misses_strings :
    ¬ Params.SeesEveryString (Params.nested "secret" 33) ∧
      ¬ Params.SeesEveryString (Params.beyondStack "secret") ∧
      ¬ Params.SeesEveryString (.object [("", .string "secret")]) := by
  refine ⟨?_, ?_, ?_⟩
  · obtain ⟨is, q, hat⟩ := Params.stringAt_nested "secret" "" 33
    exact Params.not_seesEveryString (by decide +kernel) hat
  · exact Params.not_seesEveryString (Params.collect_beyondStack "secret")
      (Params.stringAt_beyondStack "secret")
  · have hat : Params.StringAt (.object [("", .string "secret")]) "" [0] "" "secret" :=
      .child rfl .leaf
    exact Params.not_seesEveryString (by decide +kernel) hat

end Vellaveto
