/-
  HISTORY CONDITIONS: the context conditions that look at the calls of the session so far
  (`vellaveto-engine/src/context_check.rs`, `compile_context_condition` of `policy_compile.rs`).

  Two of them ask whether a tool was called, two count calls.  `maxCalls` counts over the table of
  call counts, the others over the list of previous actions; all names are normalized before they
  are compared with the tool or pattern of the condition, which was normalized when the policy was
  compiled.
-/
import Vellaveto.Engine.Matcher
import Vellaveto.Lib.Counters
import Vellaveto.Types.Core

namespace Vellaveto

open Vellaveto.Lib

/-- The history conditions among `CompiledContextCondition`. -/
inductive HistoryCondition where
  | maxCalls (toolPattern : PatternMatcher) (max : UInt64) (denyReason : String)
  | requirePreviousAction (requiredTool denyReason : String)
  | forbiddenPreviousAction (forbiddenTool denyReason : String)
  | maxCallsInWindow (toolPattern : PatternMatcher) (max : UInt64) (window : Nat)
      (denyReason : String)
deriving DecidableEq, Repr

/-- `call_counts`: how often each tool was called. -/
abbrev CallCounts := AList fun _ : String => Nat

/-- The fields of `EvaluationContext` that the history conditions read. -/
structure EvaluationContext where
  callCounts : CallCounts
  previousActions : List String

/-! ## Compilation -/

section Compile

variable (ext : Externals) (policy : Policy) (obj : Json)

/-- A required field of a condition, or the error that names it. -/
def requireField {α : Type} (read : Json → Option α) (key reason : String) :
    Except PolicyValidationError α :=
  match (obj.get key).bind read with
  | some v => .ok v
  | none => .error ⟨policy.id, policy.name, reason⟩

theorem requireField_eq_ok {policy : Policy} {obj : Json} {α : Type} {read : Json → Option α}
    {key reason : String} {v : α} (h : requireField policy obj read key reason = .ok v) :
    (obj.get key).bind read = some v := by
  rw [requireField] at h
  split at h
  · rename_i found hfound
    rw [hfound, Except.ok.inj h]
  · cases h

/-- The pattern of a counting condition, in lower case. -/
def toolPatternText : String :=
  toAsciiLowercase (((obj.get "tool_pattern").bind Json.asStr).getD "*")

/-- `compile_context_condition` for `max_calls`. -/
def compileMaxCalls : Except PolicyValidationError HistoryCondition := do
  let toolPattern := toolPatternText obj
  let max ← requireField policy obj Json.asU64 "max" "max_calls missing 'max' integer"
  let policyName := policy.name
  .ok (.maxCalls (.compile ext toolPattern) max
    s!"Tool call limit ({max}) exceeded for pattern '{toolPattern}' in policy '{policyName}'")

/-- `compile_context_condition` for `require_previous_action`. -/
def compileRequirePreviousAction : Except PolicyValidationError HistoryCondition := do
  let tool ← requireField policy obj Json.asStr "required_tool"
    "require_previous_action missing 'required_tool' string"
  let requiredTool := ext.normalizeFull tool
  let policyName := policy.name
  .ok (.requirePreviousAction requiredTool <|
    s!"Required previous action '{requiredTool}' not found in session history " ++
      s!"(policy '{policyName}')")

/-- `compile_context_condition` for `forbidden_previous_action`. -/
def compileForbiddenPreviousAction : Except PolicyValidationError HistoryCondition := do
  let tool ← requireField policy obj Json.asStr "forbidden_tool"
    "forbidden_previous_action missing 'forbidden_tool' string"
  let forbiddenTool := ext.normalizeFull tool
  let policyName := policy.name
  .ok (.forbiddenPreviousAction forbiddenTool <|
    s!"Forbidden previous action '{forbiddenTool}' detected in session history " ++
      s!"(policy '{policyName}')")

/-- `compile_context_condition` for `max_calls_in_window`; on a 64-bit platform every window fits. -/
def compileMaxCallsInWindow : Except PolicyValidationError HistoryCondition := do
  let toolPattern := toolPatternText obj
  let max ← requireField policy obj Json.asU64 "max" "max_calls_in_window missing 'max' integer"
  let window := (((obj.get "window").bind Json.asU64).getD 0).toNat
  let span := if window = 0 then "all" else toString window
  let policyName := policy.name
  .ok (.maxCallsInWindow (.compile ext toolPattern) max window <|
    s!"Tool '{toolPattern}' called more than {max} times in last {span} actions " ++
      s!"(policy '{policyName}')")

end Compile

/-! ## Evaluation -/

section Check

variable (ext : Externals)

/-- Does the pattern match a recorded name? -/
def PatternMatcher.matchesName (p : PatternMatcher) (name : String) : Bool :=
  p.matchesValue (ext.normalizeFull name)

/-- The number of calls that `MaxCalls` compares with its maximum. -/
def countCalls (p : PatternMatcher) (counts : CallCounts) : Nat :=
  if p = .any then satSum u64Max (counts.entries.map (·.2))
  else satSum u64Max ((counts.entries.filter fun e => p.matchesName ext e.1).map (·.2))

/-- The end of the history that `MaxCallsInWindow` looks at: a window of 0 is all of it. -/
def windowOf (window : Nat) (previousActions : List String) : List String :=
  if 0 < window then previousActions.drop (previousActions.length - window) else previousActions

/-- The arm of `check_context_conditions` for each history condition: a denial, or nothing. -/
def checkHistoryCondition (context : EvaluationContext) : HistoryCondition → Option Verdict
  | .maxCalls toolPattern max denyReason =>
    if context.callCounts.keys.isEmpty then
      some (.deny s!"{denyReason} (no session call counts available — fail-closed)")
    else if max.toNat ≤ countCalls ext toolPattern context.callCounts then some (.deny denyReason)
    else none
  | .requirePreviousAction requiredTool denyReason =>
    if !context.previousActions.any fun a => ext.normalizeFull a == requiredTool then
      some (.deny denyReason)
    else none
  | .forbiddenPreviousAction forbiddenTool denyReason =>
    if context.previousActions.any fun a => ext.normalizeFull a == forbiddenTool then
      some (.deny denyReason)
    else none
  | .maxCallsInWindow toolPattern max window denyReason =>
    let count := ((windowOf window context.previousActions).filter
      fun a => toolPattern.matchesName ext a).length
    if max.toNat ≤ min count u64Max then some (.deny denyReason) else none

/-- Does the condition deny? -/
def HistoryCondition.denies (c : HistoryCondition) (context : EvaluationContext) : Bool :=
  (checkHistoryCondition ext context c).isSome

theorem maxCalls_denies_iff {p : PatternMatcher} {max : UInt64} {reason : String}
    {context : EvaluationContext} :
    (HistoryCondition.maxCalls p max reason).denies ext context = true ↔
      context.callCounts.keys = [] ∨ max.toNat ≤ countCalls ext p context.callCounts := by
  rw [HistoryCondition.denies, checkHistoryCondition]
  by_cases hempty : context.callCounts.keys = []
  · simp [hempty]
  · by_cases hmax : max.toNat ≤ countCalls ext p context.callCounts
    · simp [hempty, hmax]
    · simp [hempty, hmax]

/-- An `if` that denies or passes. -/
theorem isSome_deny_iff {P : Prop} [Decidable P] {reason : String} :
    (if P then some (Verdict.deny reason) else none).isSome = true ↔ P := by
  by_cases h : P
  · simp [h]
  · simp [h]

theorem requirePreviousAction_denies_iff {tool reason : String} {context : EvaluationContext} :
    (HistoryCondition.requirePreviousAction tool reason).denies ext context = true ↔
      ∀ a ∈ context.previousActions, ext.normalizeFull a ≠ tool := by
  rw [HistoryCondition.denies, checkHistoryCondition, isSome_deny_iff]
  simp

theorem forbiddenPreviousAction_denies_iff {tool reason : String} {context : EvaluationContext} :
    (HistoryCondition.forbiddenPreviousAction tool reason).denies ext context = true ↔
      ∃ a ∈ context.previousActions, ext.normalizeFull a = tool := by
  rw [HistoryCondition.denies, checkHistoryCondition, isSome_deny_iff]
  simp

/-- A maximum is a `u64`, so cutting the count at `u64::MAX` never hides that it is reached. -/
theorem max_le_min_u64Max {max : UInt64} {count : Nat} :
    max.toNat ≤ min count u64Max ↔ max.toNat ≤ count := by
  have hmax : max.toNat ≤ u64Max := Nat.le_pred_of_lt max.toNat_lt
  omega

theorem maxCallsInWindow_denies_iff {p : PatternMatcher} {max : UInt64} {reason : String}
    {context : EvaluationContext} {window : Nat} :
    (HistoryCondition.maxCallsInWindow p max window reason).denies ext context = true ↔
      max.toNat ≤ (windowOf window context.previousActions).countP fun a => p.matchesName ext a := by
  rw [HistoryCondition.denies, checkHistoryCondition, isSome_deny_iff, max_le_min_u64Max,
    List.countP_eq_length_filter]

/-- Counting without a pattern is counting with the pattern that matches everything. -/
theorem countCalls_eq (p : PatternMatcher) (counts : CallCounts) :
    countCalls ext p counts =
      satSum u64Max ((counts.entries.filter fun e => p.matchesName ext e.1).map (·.2)) := by
  rw [countCalls]
  split
  · rename_i hany
    subst hany
    have hall : ∀ e ∈ counts.entries, PatternMatcher.any.matchesName ext e.1 = true := fun _ _ => rfl
    rw [List.filter_eq_self.mpr hall]
  · rfl

end Check

end Vellaveto
