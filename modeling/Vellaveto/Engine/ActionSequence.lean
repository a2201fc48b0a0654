/-
  ACTION SEQUENCES: the conditions `required_action_sequence` and `forbidden_action_sequence`
  (`vellaveto-engine/src/policy_compile.rs`, `context_check.rs`).

  A sequence of tools must have been called, or must not have been called, in the session so far; for a
  forbidden sequence the current call counts as well.  An ordered sequence is looked for by one scan over
  the history, an unordered one entry by entry, each entry used once.  Names are normalized when the
  policy is compiled and again when it is evaluated.

    1. **Compilation** — `compileActionSequence`, with the checks of the names (`compileToolName`), which
       workflow templates share.
    2. **Evaluation** — `checkRequiredActionSequence`, `checkForbiddenActionSequence`.
    3. **Exactness** — `action_sequences_exact`: the scan finds every subsequence, and the search every
       part of the history with its multiplicities.
-/
import Vellaveto.Engine.ContextCheck
import Vellaveto.Lib.Decision
import Vellaveto.Lib.Matching

namespace Vellaveto

open Vellaveto.Lib

/-! ### Compilation -/

/-- `MAX_SEQUENCE_STEPS`. -/
def maxSequenceSteps : Nat := 20

/-- `MAX_TOOL_NAME_LEN`. -/
def maxToolNameLen : Nat := 256

/-- The sequence of a condition. -/
structure ActionSequence where
  sequence : List String
  ordered : Bool
  denyReason : String
deriving DecidableEq, Repr

section Compile

variable (ext : Externals) (policy : Policy)

/-- An error in a condition. -/
def conditionError (reason : String) : PolicyValidationError := ⟨policy.id, policy.name, reason⟩

/-- The checks of a tool name; `field` is where it stands, and `size` how the error on its length goes
    on. -/
def checkToolName (field size name : String) : Except PolicyValidationError Unit :=
  let len := name.utf8ByteSize
  if name.isEmpty then .error (conditionError policy s!"{field} must not be empty")
  else if hasDangerousChars name then
    .error (conditionError policy s!"{field} contains control or format characters")
  else if maxToolNameLen < len then
    .error (conditionError policy s!"{field} {size} {len} bytes, max is {maxToolNameLen}")
  else .ok ()

/-- A tool name in a list of names: it is checked, then normalized. -/
def compileToolName (field size : String) (v : Json) : Except PolicyValidationError String :=
  match v.asStr with
  | none => .error (conditionError policy s!"{field} must be a string")
  | some name => do
    checkToolName policy field size name
    .ok (ext.normalizeFull name)

/-- One step of a sequence. -/
def compileSequenceStep (kind : String) (step : Json × Nat) : Except PolicyValidationError String :=
  let i := step.2
  compileToolName ext policy s!"{kind} sequence[{i}]" "tool name is" step.1

/-- The name of the condition. -/
def sequenceKind (isRequired : Bool) : String :=
  if isRequired then "required_action_sequence" else "forbidden_action_sequence"

/-- The reason of its denials. -/
def sequenceDenyReason (isRequired : Bool) : String :=
  let policyName := policy.name
  if isRequired then s!"Required action sequence not satisfied for policy '{policyName}'"
  else s!"Forbidden action sequence detected for policy '{policyName}'"

/-- `compile_action_sequence`. -/
def compileActionSequence (obj : Json) (isRequired : Bool) :
    Except PolicyValidationError ActionSequence := do
  let kind := sequenceKind isRequired
  let steps ← requireField policy obj Json.asArray "sequence" s!"{kind} requires a 'sequence' array"
  let count := steps.length
  if steps.isEmpty then .error (conditionError policy s!"{kind} sequence must not be empty")
  else if maxSequenceSteps < count then
    .error (conditionError policy s!"{kind} sequence has {count} steps (max {maxSequenceSteps})")
  else do
    let sequence ← steps.zipIdx.mapM (compileSequenceStep ext policy kind)
    let ordered := ((obj.get "ordered").bind Json.asBool).getD true
    .ok ⟨sequence, ordered, sequenceDenyReason policy isRequired⟩

end Compile

/-! ### Evaluation -/

section Check

variable (ext : Externals)

/-- Does the sequence occur among these names? -/
def sequenceOccurs (s : ActionSequence) (names : List String) : Bool :=
  if s.ordered then s.sequence.length ≤ names.foldl (advance s.sequence) 0
  else takeAll names (List.replicate names.length false) s.sequence

/-- The arm of `check_context_conditions` for a required sequence. -/
def checkRequiredActionSequence (s : ActionSequence) (previousActions : List String) :
    Option Verdict :=
  if previousActions.length < s.sequence.length then some (.deny s.denyReason)
  else if sequenceOccurs s (previousActions.map ext.normalizeFull) then none
  else some (.deny s.denyReason)

/-- The arm for a forbidden sequence, where the current tool counts as well. -/
def checkForbiddenActionSequence (s : ActionSequence) (previousActions : List String)
    (currentTool : String) : Option Verdict :=
  if sequenceOccurs s (previousActions.map ext.normalizeFull ++ [ext.normalizeFull currentTool]) then
    some (.deny s.denyReason)
  else none

end Check

/-! ### Exactness -/

section Exact

variable {ext : Externals} {policy : Policy}

theorem compileToolName_eq_ok {field size name : String} {v : Json}
    (h : compileToolName ext policy field size v = .ok name) :
    ∃ tool, v = .string tool ∧ name = ext.normalizeFull tool := by
  rw [compileToolName] at h
  split at h
  · cases h
  · rename_i tool htool
    obtain ⟨_, -, hname⟩ := bind_eq_ok_iff.mp h
    exact ⟨tool, Json.asStr_eq_some.mp htool, (Except.ok.inj hname).symm⟩

/-- Names that are read one by one are strings, and each is normalized. -/
theorem names_of_mapM_eq_ok {read : Json × Nat → Except PolicyValidationError String}
    (hread : ∀ step name, read step = .ok name →
      ∃ tool, step.1 = .string tool ∧ name = ext.normalizeFull tool)
    {steps : List Json} {names : List String} (h : steps.zipIdx.mapM read = .ok names) :
    ∃ tools : List String, steps = tools.map Json.string ∧ names = tools.map ext.normalizeFull := by
  replace h := forall₂_of_mapM_eq_ok h
  revert h
  generalize 0 = n
  intro h
  induction steps generalizing n names with
  | nil =>
    rw [List.zipIdx_nil, List.forall₂_nil_left_iff] at h
    exact ⟨[], rfl, h⟩
  | cons step steps ih =>
    rw [List.zipIdx_cons, List.forall₂_cons_left_iff] at h
    obtain ⟨name, rest, hname, hrest, rfl⟩ := h
    obtain ⟨tool, hstep, rfl⟩ := hread _ _ hname
    obtain ⟨tools, rfl, rfl⟩ := ih _ hrest
    exact ⟨tool :: tools, congrArg (· :: _) hstep, rfl⟩

/-- **A compiled sequence** is the list of tools in the policy, normalized. -/
theorem compileActionSequence_eq_ok {obj : Json} {isRequired : Bool} {s : ActionSequence}
    (h : compileActionSequence ext policy obj isRequired = .ok s) :
    ∃ tools : List String, (obj.get "sequence").bind Json.asArray = some (tools.map Json.string) ∧
      s.sequence = tools.map ext.normalizeFull := by
  rw [compileActionSequence] at h
  obtain ⟨steps, hsteps, h⟩ := bind_eq_ok_iff.mp h
  obtain ⟨-, h⟩ := ite_error_eq_ok_iff.mp h
  obtain ⟨-, h⟩ := ite_error_eq_ok_iff.mp h
  obtain ⟨names, hnames, h⟩ := bind_eq_ok_iff.mp h
  obtain ⟨tools, rfl, rfl⟩ := names_of_mapM_eq_ok (fun _ _ => compileToolName_eq_ok) hnames
  exact ⟨tools, requireField_eq_ok hsteps, by rw [← Except.ok.inj h]⟩

/-- Where a sequence stands among names: in order, or with its multiplicities. -/
def ActionSequence.Within (s : ActionSequence) (names : List String) : Prop :=
  if s.ordered then s.sequence.Sublist names else s.sequence.Subperm names

theorem ActionSequence.Within.length_le {s : ActionSequence} {names : List String}
    (h : s.Within names) : s.sequence.length ≤ names.length := by
  rw [ActionSequence.Within] at h
  split at h
  · exact h.length_le
  · exact h.length_le

/-- **The search is exact**, in both modes. -/
theorem sequenceOccurs_iff (s : ActionSequence) (names : List String) :
    sequenceOccurs s names = true ↔ s.Within names := by
  rw [sequenceOccurs, ActionSequence.Within]
  by_cases hordered : s.ordered
  · rw [if_pos hordered, if_pos hordered, decide_eq_true_iff, length_le_foldl_advance_iff, List.drop_zero]
  · rw [if_neg hordered, if_neg hordered, takeAll_iff, unused_replicate]

theorem checkRequiredActionSequence_eq_none_iff (s : ActionSequence) (previousActions : List String) :
    checkRequiredActionSequence ext s previousActions = none ↔
      s.Within (previousActions.map ext.normalizeFull) := by
  rw [checkRequiredActionSequence]
  split
  · -- a sequence longer than the history is not in it
    rename_i hshort
    refine iff_of_false (by simp) fun hwithin => ?_
    have hlen := hwithin.length_le
    rw [List.length_map] at hlen
    omega
  · rw [← sequenceOccurs_iff]
    split
    · rename_i hoccurs
      exact iff_of_true rfl hoccurs
    · rename_i hoccurs
      exact iff_of_false (by simp) hoccurs

theorem checkForbiddenActionSequence_eq_deny_iff (s : ActionSequence) (previousActions : List String)
    (currentTool : String) :
    checkForbiddenActionSequence ext s previousActions currentTool = some (.deny s.denyReason) ↔
      s.Within ((previousActions ++ [currentTool]).map ext.normalizeFull) := by
  rw [checkForbiddenActionSequence, List.map_append, List.map_singleton, ← sequenceOccurs_iff]
  split
  · rename_i hoccurs
    exact iff_of_true rfl hoccurs
  · rename_i hoccurs
    exact iff_of_false (by simp) hoccurs

/-- **Action sequences are exact.**  A compiled condition holds the normalized tools of the policy.
    Whatever the tools, the history and the current call: a required sequence passes, and a forbidden
    one denies, exactly if it is a subsequence of the normalized history — or, unordered, contained in
    it with multiplicities —, where a forbidden sequence may end in the current call. -/
theorem action_sequences_exact :
    (∀ (ext : Externals) (policy : Policy) (obj : Json) (isRequired : Bool) (s : ActionSequence),
      compileActionSequence ext policy obj isRequired = .ok s →
        ∃ tools : List String, (obj.get "sequence").bind Json.asArray = some (tools.map Json.string) ∧
          s.sequence = tools.map ext.normalizeFull) ∧
    ∀ (ext : Externals) (s : ActionSequence) (history : List String) (currentTool : String),
      (checkRequiredActionSequence ext s history = none ↔
        s.Within (history.map ext.normalizeFull)) ∧
      (checkForbiddenActionSequence ext s history currentTool = some (.deny s.denyReason) ↔
        s.Within ((history ++ [currentTool]).map ext.normalizeFull)) :=
  ⟨fun _ _ _ _ _ h => compileActionSequence_eq_ok h,
    fun _ s history currentTool => ⟨checkRequiredActionSequence_eq_none_iff s history,
      checkForbiddenActionSequence_eq_deny_iff s history currentTool⟩⟩

end Exact

end Vellaveto
