/-
  THE CALL HISTORY OF A RELAY SESSION and the policies that read it (`record_forwarded_action` and
  `evaluation_context` of `vellaveto-mcp/src/proxy/bridge/relay.rs`).

  PROGRAM.      Each forwarded action is counted in a table of at most 10 000 names and pushed on a
                queue of the last 100 names; a copy of both is the context of the next evaluation.

  SPEC.         The history conditions of a policy (`Engine/ContextCheck`) speak about the session.

  CORRECTNESS.
    1. `actionHistory_recordAll`   the queue is the end of the session, 100 actions long;
    2. `history_conditions_cover_last_actions`  so the conditions on previous actions speak about the
                                   last 100 actions, and about nothing before;
    3. `callCounts_recordAll`      the table counts the calls of the first 10 000 names;
    4. `max_calls_exact`           so a call budget is exact over those names, once something was
                                   recorded; before that it denies.
-/
import Vellaveto.Engine.ContextCheck
import Vellaveto.Lib.Decision
import Vellaveto.Lib.Window

namespace Vellaveto.Relay

open Vellaveto.Lib

/-! ## The recorder -/

def maxActionHistory : Nat := 100
def maxCallCounts : Nat := 10000
def maxActionNameLen : Nat := 256

/-- The part of `RelayState` that remembers forwarded actions. -/
structure CallHistory where
  callCounts : CallCounts
  actionHistory : List String

/-- `RelayState::new`. -/
def CallHistory.new : CallHistory := ⟨∅, []⟩

/-- A name is cut to 256 characters. -/
def boundedName (actionName : String) : String :=
  String.ofList (actionName.toList.take maxActionNameLen)

/-- `record_forwarded_action`. -/
def recordForwardedAction (s : CallHistory) (actionName : String) : CallHistory where
  callCounts := bump u64Max maxCallCounts s.callCounts (boundedName actionName)
  actionHistory := pushBounded maxActionHistory s.actionHistory (boundedName actionName)

/-- The history of a session that forwarded these actions. -/
def recordAll (names : List String) : CallHistory :=
  names.foldl recordForwardedAction CallHistory.new

/-- `evaluation_context`, with the fields that the history conditions read. -/
def CallHistory.evaluationContext (s : CallHistory) : EvaluationContext :=
  ⟨s.callCounts, s.actionHistory⟩

/-! ## What the recorder keeps -/

theorem boundedName_eq_self {name : String} (h : name.length ≤ maxActionNameLen) :
    boundedName name = name := by
  rw [boundedName, List.take_of_length_le (by rw [String.length_toList]; exact h),
    String.ofList_toList]

/-- Names that need no cut, all at once. -/
theorem map_boundedName {names : List String} (h : ∀ n ∈ names, n.length ≤ maxActionNameLen) :
    names.map boundedName = names := by
  refine (List.map_congr_left fun n hn => boundedName_eq_self (h n hn)).trans ?_
  exact List.map_id' names

/-- **The queue is the end of the session.** -/
theorem actionHistory_recordAll (names : List String) :
    (recordAll names).actionHistory = (names.map boundedName).rtake maxActionHistory := by
  induction names using List.reverseRecOn with
  | nil => rfl
  | append_singleton names name ih =>
    rw [recordAll, List.foldl_append, List.foldl_cons, List.foldl_nil]
    show pushBounded maxActionHistory (recordAll names).actionHistory (boundedName name) = _
    rw [ih, List.map_append, List.map_singleton]
    exact pushBounded_rtake (by decide) _ _

/-- **The table counts the first names.** -/
theorem callCounts_recordAll (names : List String) :
    (recordAll names).callCounts = bumpAll u64Max maxCallCounts (names.map boundedName) := by
  induction names using List.reverseRecOn with
  | nil => rfl
  | append_singleton names name ih =>
    rw [recordAll, List.foldl_append, List.foldl_cons, List.foldl_nil, List.map_append, bumpAll,
      List.foldl_append]
    show bump _ _ (recordAll names).callCounts (boundedName name) = _
    rw [ih]
    rfl

/-! ## Conditions on previous actions -/

section Conditions

variable {ext : Externals} {policy : Policy} {obj : Json} {c : HistoryCondition}

theorem compileForbiddenPreviousAction_eq_ok
    (h : compileForbiddenPreviousAction ext policy obj = .ok c) :
    ∃ tool reason, (obj.get "forbidden_tool").bind Json.asStr = some tool ∧
      c = .forbiddenPreviousAction (ext.normalizeFull tool) reason := by
  obtain ⟨tool, htool, hc⟩ := bind_eq_ok_iff.mp h
  cases hc
  exact ⟨tool, _, requireField_eq_ok htool, rfl⟩

theorem compileRequirePreviousAction_eq_ok
    (h : compileRequirePreviousAction ext policy obj = .ok c) :
    ∃ tool reason, (obj.get "required_tool").bind Json.asStr = some tool ∧
      c = .requirePreviousAction (ext.normalizeFull tool) reason := by
  obtain ⟨tool, htool, hc⟩ := bind_eq_ok_iff.mp h
  cases hc
  exact ⟨tool, _, requireField_eq_ok htool, rfl⟩

theorem compileMaxCallsInWindow_eq_ok (h : compileMaxCallsInWindow ext policy obj = .ok c) :
    ∃ max reason, (obj.get "max").bind Json.asU64 = some max ∧
      c = .maxCallsInWindow (.compile ext (toolPatternText obj)) max
        (((obj.get "window").bind Json.asU64).getD 0).toNat reason := by
  obtain ⟨max, hmax, hc⟩ := bind_eq_ok_iff.mp h
  cases hc
  exact ⟨max, _, requireField_eq_ok hmax, rfl⟩

theorem compileMaxCalls_eq_ok (h : compileMaxCalls ext policy obj = .ok c) :
    ∃ max reason, (obj.get "max").bind Json.asU64 = some max ∧
      c = .maxCalls (.compile ext (toolPatternText obj)) max reason := by
  obtain ⟨max, hmax, hc⟩ := bind_eq_ok_iff.mp h
  cases hc
  exact ⟨max, _, requireField_eq_ok hmax, rfl⟩

end Conditions

/-- **The conditions on previous actions cover the last 100 actions.**  For every session, every
    policy and each of its compiled conditions:

    1. `forbidden_previous_action` denies exactly when the tool is among the last 100 forwarded ones;
    2. `require_previous_action` passes exactly when it is;
    3. `max_calls_in_window` with window 0 denies exactly when the matching calls among the last 100
       reach the maximum. -/
theorem history_conditions_cover_last_actions (ext : Externals) (names : List String)
    (hlen : ∀ n ∈ names, n.length ≤ maxActionNameLen) (policy : Policy) (obj : Json)
    (c : HistoryCondition) :
    (∀ tool, compileForbiddenPreviousAction ext policy obj = .ok c →
      (obj.get "forbidden_tool").bind Json.asStr = some tool →
      (c.denies ext (recordAll names).evaluationContext = true ↔
        ∃ n ∈ names.rtake 100, ext.normalizeFull n = ext.normalizeFull tool)) ∧
    (∀ tool, compileRequirePreviousAction ext policy obj = .ok c →
      (obj.get "required_tool").bind Json.asStr = some tool →
      (c.denies ext (recordAll names).evaluationContext = false ↔
        ∃ n ∈ names.rtake 100, ext.normalizeFull n = ext.normalizeFull tool)) ∧
    (∀ max, compileMaxCallsInWindow ext policy obj = .ok c →
      (obj.get "max").bind Json.asU64 = some max →
      ((obj.get "window").bind Json.asU64).getD 0 = 0 →
      (c.denies ext (recordAll names).evaluationContext = true ↔
        max.toNat ≤ (names.rtake 100).countP
          fun n => (PatternMatcher.compile ext (toolPatternText obj)).matchesName ext n)) := by
  have hqueue : (recordAll names).evaluationContext.previousActions = names.rtake 100 := by
    show (recordAll names).actionHistory = _
    rw [actionHistory_recordAll, map_boundedName hlen]
    rfl
  refine ⟨?_, ?_, ?_⟩
  · intro tool hc htool
    obtain ⟨tool', reason, htool', rfl⟩ := compileForbiddenPreviousAction_eq_ok hc
    rw [htool] at htool'
    cases htool'
    rw [forbiddenPreviousAction_denies_iff, hqueue]
  · intro tool hc htool
    obtain ⟨tool', reason, htool', rfl⟩ := compileRequirePreviousAction_eq_ok hc
    rw [htool] at htool'
    cases htool'
    rw [← Bool.not_eq_true, requirePreviousAction_denies_iff, hqueue]
    simp only [ne_eq, not_forall, not_not, exists_prop]
  · intro max hc hmax hwindow
    obtain ⟨max', reason, hmax', rfl⟩ := compileMaxCallsInWindow_eq_ok hc
    rw [hmax] at hmax'
    cases hmax'
    rw [maxCallsInWindow_denies_iff, hwindow, windowOf, if_neg (by decide), hqueue]

/-- The policy of the examples, and a condition on the tool `a`. -/
def auditPolicy : Policy := ⟨"a:*", "audit", .conditional .null, 1, none, none⟩

def forbidA : Json :=
  .object [("forbidden_tool", .string "A"), ("type", .string "forbidden_previous_action")]

theorem history_conditions_cover_last_actions_two :
    (HistoryCondition.forbiddenPreviousAction "a"
        "Forbidden previous action 'a' detected in session history (policy 'audit')").denies
      plainExternals (recordAll ["a", "b"]).evaluationContext = true :=
  ((history_conditions_cover_last_actions plainExternals ["a", "b"] (by decide +kernel) auditPolicy
    forbidA _).1 "A" (by decide +kernel) (by decide +kernel)).mpr (by decide +kernel)

/-- A forbidden action that 100 others follow is no longer seen. -/
theorem forbidden_action_forgotten :
    ∃ c, compileForbiddenPreviousAction plainExternals auditPolicy forbidA = .ok c ∧
      "a" ∈ "a" :: List.replicate 100 "b" ∧
      plainExternals.normalizeFull "a" = plainExternals.normalizeFull "A" ∧
      c.denies plainExternals
        (recordAll ("a" :: List.replicate 100 "b")).evaluationContext = false := by
  refine ⟨.forbiddenPreviousAction "a"
    "Forbidden previous action 'a' detected in session history (policy 'audit')", ?_, ?_, ?_, ?_⟩
  · decide +kernel
  · exact List.mem_cons_self
  · decide +kernel
  · decide +kernel

/-! ## Call budgets -/

/-- What happens in a session under a call budget: a call that the condition is asked about, or
    another action, forwarded and recorded under a policy without it. -/
inductive SessionEvent where
  | call (name : String)
  | other (name : String)
deriving DecidableEq, Repr

def SessionEvent.name : SessionEvent → String
  | .call name => name
  | .other name => name

/-- A session and the names it recorded. -/
structure BudgetSession where
  history : CallHistory
  recorded : List String

def BudgetSession.new : BudgetSession := ⟨CallHistory.new, []⟩

def BudgetSession.record (s : BudgetSession) (name : String) : BudgetSession :=
  ⟨recordForwardedAction s.history name, s.recorded ++ [name]⟩

/-- A call is recorded exactly if the condition lets it through. -/
def BudgetSession.step (ext : Externals) (c : HistoryCondition) (s : BudgetSession) :
    SessionEvent → BudgetSession
  | .call name => if c.denies ext s.history.evaluationContext then s else s.record name
  | .other name => s.record name

/-- A whole session, from the empty state. -/
def BudgetSession.run (ext : Externals) (c : HistoryCondition) (events : List SessionEvent) :
    BudgetSession :=
  events.foldl (BudgetSession.step ext c) BudgetSession.new

section Budget

variable {ext : Externals} {c : HistoryCondition}

/-- The history of the session is that of the names it recorded, and these come from its events. -/
structure BudgetSession.Faithful (events : List SessionEvent) (s : BudgetSession) : Prop where
  history_eq : s.history = recordAll s.recorded
  names : ∀ n ∈ s.recorded, ∃ e ∈ events, e.name = n

theorem faithful_record {events : List SessionEvent} {s : BudgetSession} (e : SessionEvent)
    (h : s.Faithful events) : (s.record e.name).Faithful (events ++ [e]) := by
  constructor
  · show recordForwardedAction s.history e.name = recordAll (s.recorded ++ [e.name])
    rw [h.history_eq, recordAll, recordAll, List.foldl_append]
    rfl
  · intro n hn
    rcases List.mem_append.mp hn with hn | hn
    · obtain ⟨e', he', hname⟩ := h.names n hn
      exact ⟨e', List.mem_append_left _ he', hname⟩
    · exact ⟨e, by simp, (List.mem_singleton.mp hn).symm⟩

theorem faithful_run (events : List SessionEvent) :
    (BudgetSession.run ext c events).Faithful events := by
  induction events using List.reverseRecOn with
  | nil => exact ⟨rfl, fun n hn => by cases hn⟩
  | append_singleton events e ih =>
    have hskip : (BudgetSession.run ext c events).Faithful (events ++ [e]) := by
      refine ⟨ih.history_eq, fun n hn => ?_⟩
      obtain ⟨e', he', hname⟩ := ih.names n hn
      exact ⟨e', List.mem_append_left _ he', hname⟩
    rw [BudgetSession.run, List.foldl_append, List.foldl_cons, List.foldl_nil]
    show (BudgetSession.step ext c (BudgetSession.run ext c events) e).Faithful _
    cases e with
    | call name =>
      rw [BudgetSession.step]
      split
      · exact hskip
      · exact faithful_record (.call name) ih
    | other name => exact faithful_record (.other name) ih

/-- A budget denies before anything was recorded. -/
theorem denies_of_empty {p : PatternMatcher} {max : UInt64} {reason : String} :
    (HistoryCondition.maxCalls p max reason).denies ext CallHistory.new.evaluationContext = true :=
  (maxCalls_denies_iff ext).mpr (.inl rfl)

/-- When only calls under the budget happen, none of them is ever let through. -/
theorem run_calls_eq_new {p : PatternMatcher} {max : UInt64} {reason : String}
    {events : List SessionEvent} (hcalls : ∀ e ∈ events, ∃ name, e = .call name) :
    BudgetSession.run ext (.maxCalls p max reason) events = BudgetSession.new := by
  induction events with
  | nil => rfl
  | cons e events ih =>
    obtain ⟨name, rfl⟩ := hcalls e List.mem_cons_self
    have hstep : BudgetSession.step ext (.maxCalls p max reason) BudgetSession.new (.call name) =
        BudgetSession.new := by
      rw [BudgetSession.step, if_pos]
      exact denies_of_empty
    rw [BudgetSession.run, List.foldl_cons, hstep]
    exact ih fun e he => hcalls e (List.mem_cons_of_mem _ he)

end Budget

/-- **Call budgets are exact over the tracked names, once something was recorded.**  For every
    compiled `max_calls` condition and every session from the empty state:

    1. the condition denies exactly when nothing was recorded yet, or when at least `max` recorded
       calls have a name that matches the pattern and is among the first 10 000 distinct ones;
    2. so if nothing but calls under the condition happens, it denies every one of them. -/
theorem max_calls_exact (ext : Externals) (policy : Policy) (obj : Json) (c : HistoryCondition)
    (max : UInt64) (hc : compileMaxCalls ext policy obj = .ok c)
    (hmax : (obj.get "max").bind Json.asU64 = some max) (events : List SessionEvent)
    (hlen : ∀ e ∈ events, e.name.length ≤ maxActionNameLen) :
    (c.denies ext (BudgetSession.run ext c events).history.evaluationContext = true ↔
      (BudgetSession.run ext c events).recorded = [] ∨
      max.toNat ≤ (BudgetSession.run ext c events).recorded.countP fun n =>
        decide (n ∈ tracked maxCallCounts (BudgetSession.run ext c events).recorded) &&
          (PatternMatcher.compile ext (toolPatternText obj)).matchesName ext n) ∧
    ((∀ e ∈ events, ∃ name, e = .call name) →
      (BudgetSession.run ext c events).recorded = [] ∧
      c.denies ext (BudgetSession.run ext c events).history.evaluationContext = true) := by
  obtain ⟨max', reason, hmax', rfl⟩ := compileMaxCalls_eq_ok hc
  rw [hmax] at hmax'
  cases hmax'
  refine ⟨?_, fun hcalls => ?_⟩
  · generalize hs : BudgetSession.run ext _ events = s
    have hfaithful : s.Faithful events := hs ▸ faithful_run events
    have hnames : ∀ n ∈ s.recorded, n.length ≤ maxActionNameLen := by
      intro n hn
      obtain ⟨e, he, rfl⟩ := hfaithful.names n hn
      exact hlen e he
    have htable : s.history.evaluationContext.callCounts =
        bumpAll u64Max maxCallCounts s.recorded := by
      rw [hfaithful.history_eq]
      show (recordAll s.recorded).callCounts = _
      rw [callCounts_recordAll, map_boundedName hnames]
    have hcounts : Counts u64Max maxCallCounts s.recorded
        s.history.evaluationContext.callCounts := by
      rw [htable]
      exact counts_bumpAll (by decide) s.recorded
    have hempty : s.history.evaluationContext.callCounts.keys = [] ↔ s.recorded = [] := by
      rw [← List.length_eq_zero_iff, hcounts.length_keys, tracked, List.length_take]
      cases s.recorded with
      | nil => simp
      | cons n names => simp [maxCallCounts, List.eraseDups_cons]
    rw [maxCalls_denies_iff, hempty, countCalls_eq, hcounts.satSum, max_le_min_u64Max]
  · rw [run_calls_eq_new hcalls]
    exact ⟨rfl, denies_of_empty⟩

/-- At most one call of the tool `a`. -/
def onceA : Json :=
  .object [("max", .number (.posInt 1)), ("tool_pattern", .string "a"), ("type", .string "max_calls")]

def onceCondition : HistoryCondition :=
  .maxCalls (.exact "a") 1 "Tool call limit (1) exceeded for pattern 'a' in policy 'audit'"

theorem max_calls_exact_after_other :
    onceCondition.denies plainExternals
      (BudgetSession.run plainExternals onceCondition
        [.other "b", .call "a"]).history.evaluationContext = true :=
  (max_calls_exact plainExternals auditPolicy onceA onceCondition 1 (by decide +kernel)
    (by decide +kernel) [.other "b", .call "a"] (by decide +kernel)).1.mpr (by decide +kernel)

/-- The first call of a session is denied, although no call was let through before it. -/
theorem first_call_denied :
    compileMaxCalls plainExternals auditPolicy onceA = .ok onceCondition ∧
    (BudgetSession.run plainExternals onceCondition []).recorded = [] ∧
    onceCondition.denies plainExternals
      (BudgetSession.run plainExternals onceCondition []).history.evaluationContext = true := by
  refine ⟨?_, rfl, ?_⟩
  · decide +kernel
  · decide +kernel

end Vellaveto.Relay
