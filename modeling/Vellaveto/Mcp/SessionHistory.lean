/-
  THE HISTORY OF A SESSION (`vellaveto-mcp/src/session_guard.rs`).

  `SessionContext::record_transition` writes every change of state into `transition_history`, so the
  history ought to be a PATH: it starts at Init, each transition starts where the one before it ended,
  and the last one ends in the state the session is in.  `process_event_at` compares the state before
  and after `compute_transition` and records the difference.  For an event other than `FirstAction` and
  `SessionEnd` in an Init session, `compute_transition` has itself recorded the transition to Active
  before it dispatches the event again, so the caller records a second one that starts at Init.

    1. `Leads`           the path predicate;
    2. `applyEvent_started`   an event on a session past Init lengthens the path;
    3. `applyEvent_opening`   what the first event of a session leaves in its history;
    4. `histories_are_paths_iff`   over whole runs: the histories are paths in every state that is
                         reached exactly if every session was opened by `FirstAction` or `SessionEnd`.

  No session stays in Init after its first event, which is the invariant that carries the runs.
-/
import Vellaveto.Mcp.ClosedSessions

namespace Vellaveto.Guard

open Vellaveto.Lib

/-! ### Paths -/

/-- The transitions lead from the one state to the other, each from where the last one ended. -/
def Leads : SessionState → List (SessionState × SessionState × Nat) → SessionState → Prop
  | source, [], target => source = target
  | source, (before, after, _) :: history, target => source = before ∧ Leads after history target

instance Leads.decidable : (source : SessionState) →
    (history : List (SessionState × SessionState × Nat)) → (target : SessionState) →
    Decidable (Leads source history target)
  | source, [], target => inferInstanceAs (Decidable (source = target))
  | source, (before, after, _) :: history, target =>
    have := Leads.decidable after history target
    inferInstanceAs (Decidable (source = before ∧ Leads after history target))

theorem Leads.snoc {source middle target : SessionState} {now : Nat}
    {history : List (SessionState × SessionState × Nat)} (h : Leads source history middle) :
    Leads source (history ++ [(middle, target, now)]) target := by
  induction history generalizing source with
  | nil =>
    have hsource : source = middle := h
    exact ⟨hsource, rfl⟩
  | cons transition history ih =>
    obtain ⟨hsource, hrest⟩ := h
    exact ⟨hsource, ih hrest⟩

/-- A history with room left is a path from Init to the state of the session. -/
def HasPath (ctx : SessionContext) : Prop :=
  ctx.transitionHistory.length < maxTransitionHistory →
    Leads .init ctx.transitionHistory ctx.state

/-- Every session's history is a path. -/
def HistoriesArePaths (g : SessionGuard) : Prop :=
  ∀ sessionId ctx, g.sessions.lookup sessionId = some ctx → HasPath ctx

/-! ### One event on a context -/

section Event

variable {config : SessionGuardConfig} {ctx ctx' : SessionContext} {event : SessionEvent}
  {target : SessionState} {now : Nat}

/-- One more transition, from the state the path has led to. -/
theorem HasPath.remember (h : HasPath ctx) (hhistory : ctx'.transitionHistory = ctx.transitionHistory)
    (hstate : ctx'.state = target) : HasPath (ctx'.remember ctx.state target now) := by
  unfold SessionContext.remember
  split
  · rename_i hroom
    intro _
    rw [hhistory] at hroom ⊢
    rw [hstate]
    exact (h hroom).snoc
  · rename_i hfull
    intro hroom
    exact absurd hroom hfull

theorem HasPath.recordTransition (h : HasPath ctx)
    (hhistory : ctx'.transitionHistory = ctx.transitionHistory) :
    HasPath (ctx'.recordTransition ctx.state target now) :=
  h.remember hhistory rfl

theorem recordTransition_transitionHistory {source : SessionState}
    (hroom : ctx.transitionHistory.length < maxTransitionHistory) :
    (ctx.recordTransition source target now).transitionHistory =
      ctx.transitionHistory ++ [(source, target, now)] := by
  unfold SessionContext.recordTransition SessionContext.remember
  rw [if_pos hroom]

theorem adminUnlock_transitionHistory (config : SessionGuardConfig) (ctx : SessionContext)
    (adminToken : String) :
    (adminUnlock config ctx adminToken).1.transitionHistory = ctx.transitionHistory ∧
      (adminUnlock config ctx adminToken).2.1 ≠ .init := by
  unfold adminUnlock
  split
  · exact ⟨rfl, SessionState.noConfusion⟩
  split
  · exact ⟨rfl, SessionState.noConfusion⟩
  simp only
  split
  · exact ⟨rfl, SessionState.noConfusion⟩
  · exact ⟨rfl, SessionState.noConfusion⟩

/-- After Init nothing is recorded inside, and nothing leads back to Init. -/
theorem computeTransition_started (hstate : ctx.state ≠ .init) (left : Nat) :
    (computeTransition config (left + 1) ctx event now).1.transitionHistory = ctx.transitionHistory ∧
    (computeTransition config (left + 1) ctx event now).1.state = ctx.state ∧
    (computeTransition config (left + 1) ctx event now).2.1 ≠ .init := by
  unfold computeTransition
  split
  case h_1 h => exact absurd h hstate
  case h_2 h => exact absurd h hstate
  case h_3 h _ _ => exact absurd h hstate
  all_goals first
    | exact ⟨rfl, rfl, SessionState.noConfusion⟩
    | exact ⟨rfl, rfl, hstate⟩
    | exact ⟨(adminUnlock_transitionHistory _ _ _).1, (adminUnlock_spec _ _ _).1,
        (adminUnlock_transitionHistory _ _ _).2⟩
    | (split <;> exact ⟨rfl, rfl, SessionState.noConfusion⟩)
    | (simp only; split <;> exact ⟨rfl, rfl, SessionState.noConfusion⟩)

/-- An event on a session that is past Init: it stays past Init, and a path is made longer. -/
theorem applyEvent_started (hstate : ctx.state ≠ .init) :
    (applyEvent config ctx event now).1.state ≠ .init ∧
      (HasPath ctx → HasPath (applyEvent config ctx event now).1) := by
  unfold applyEvent
  split
  · exact ⟨by simp, fun h => h.recordTransition rfl⟩
  have hdepth : maxComputeTransitionDepth = 1 + 1 := rfl
  rw [hdepth]
  have hspec := @computeTransition_started config ctx event now hstate 1
  rcases hres : computeTransition config (1 + 1) ctx event now with ⟨ctx', newState, action⟩
  rw [hres] at hspec
  obtain ⟨hhistory, hsame, hnew⟩ := hspec
  simp only at hhistory hsame hnew ⊢
  split
  · exact ⟨by simpa using hnew, fun h => h.recordTransition hhistory⟩
  · refine ⟨by simpa [hsame] using hstate, fun h hroom => ?_⟩
    show Leads .init ctx'.transitionHistory ctx'.state
    rw [hhistory, hsame]
    have hshort : ctx'.transitionHistory.length < maxTransitionHistory := hroom
    rw [hhistory] at hshort
    exact h hshort

/-- The first event of a session is recorded from Init. -/
theorem applyEvent_new
    (hnew : (computeTransition config 2 (.new now) event now).2.1 ≠ .init) :
    (applyEvent config (.new now) event now).1 =
      (computeTransition config 2 (.new now) event now).1.recordTransition .init
        (computeTransition config 2 (.new now) event now).2.1 now := by
  -- a session that has just been made has not lasted at all
  have hfresh : ¬((SessionContext.new now).state ≠ .ended ∧
      expired config (.new now) now = true) := by
    rintro ⟨-, hexpired⟩
    simp only [expired, SessionContext.new, Nat.sub_self, Bool.and_eq_true, decide_eq_true_eq]
      at hexpired
    omega
  unfold applyEvent
  rw [if_neg hfresh]
  have hchanged : (computeTransition config maxComputeTransitionDepth (.new now) event now).2.1 ≠
      (SessionContext.new now).state := hnew
  simp only
  rw [if_pos hchanged]
  rfl

/-- An event that Init does not know makes the session active, and records that, at once. -/
theorem computeTransition_new (hother : ¬(event = .firstAction ∨ event = .sessionEnd)) :
    computeTransition config 2 (.new now) event now =
      computeTransition config 1
        { SessionContext.new now with
          state := .active
          transitionHistory := [(.init, .active, now)] } event now := by
  cases event with
  | firstAction => exact absurd (.inl rfl) hother
  | sessionEnd => exact absurd (.inr rfl) hother
  | _ => rfl

/-- The first event of a session leaves a path exactly if it is one of those that Init knows. -/
theorem applyEvent_opening (config : SessionGuardConfig) (event : SessionEvent) (now : Nat) :
    (HasPath (applyEvent config (.new now) event now).1 ↔
      event = .firstAction ∨ event = .sessionEnd) ∧
    (applyEvent config (.new now) event now).1.state ≠ .init := by
  by_cases hknown : event = .firstAction ∨ event = .sessionEnd
  · rcases hknown with rfl | rfl
    · rw [applyEvent_new SessionState.noConfusion]
      exact ⟨iff_of_true (fun _ => ⟨rfl, rfl⟩) (.inl rfl), SessionState.noConfusion⟩
    · rw [applyEvent_new SessionState.noConfusion]
      exact ⟨iff_of_true (fun _ => ⟨rfl, rfl⟩) (.inr rfl), SessionState.noConfusion⟩
  · have heq := @computeTransition_new config event now hknown
    obtain ⟨hhistory, -, hnew⟩ := @computeTransition_started config
      { SessionContext.new now with
        state := .active
        transitionHistory := [(.init, .active, now)] } event now SessionState.noConfusion 0
    rw [← heq] at hhistory hnew
    rw [applyEvent_new hnew]
    refine ⟨iff_of_false ?_ hknown, by simpa using hnew⟩
    -- the second transition starts at Init, where the first one has left
    intro hpath
    have hone : (computeTransition config 2 (.new now) event now).1.transitionHistory =
        [(.init, .active, now)] := hhistory
    have hroom : (computeTransition config 2 (.new now) event now).1.transitionHistory.length <
        maxTransitionHistory := by
      rw [hone]
      exact (by decide : 1 < maxTransitionHistory)
    rw [HasPath, recordTransition_transitionHistory hroom, hone] at hpath
    have hstart : SessionState.active = .init := (hpath (by simp [maxTransitionHistory])).2.1
    cases hstart

end Event

/-! ### Runs -/

section Runs

variable {g g' : SessionGuard} {a : GuardAction} {sessionId : String}

/-- No session in the table is in Init. -/
def Started (g : SessionGuard) : Prop :=
  ∀ sessionId ctx, g.sessions.lookup sessionId = some ctx → ctx.state ≠ .init

/-- An action that opens a session does it with one of the two events that Init knows. -/
def OpensByKnownEvent (g : SessionGuard) : GuardAction → Prop
  | .event sessionId event _ => Opens g sessionId → event = .firstAction ∨ event = .sessionEnd
  | _ => True

theorem started_step (h : Started g) (hstep : step g a = some g') : Started g' := by
  intro sessionId ctx' hctx'
  rcases lookup_step hstep hctx' with hsame | ⟨event, now, ctx, rfl, hctx, rfl⟩ |
    ⟨now, nowAgain, ctx, rfl, -, -, -, rfl⟩
  · exact h sessionId ctx' hsame
  · rcases hctx with hctx | ⟨-, rfl⟩
    · exact (applyEvent_started (h sessionId ctx hctx)).1
    · exact (applyEvent_opening g.config event now).2
  · rw [remember_state]
    exact SessionState.noConfusion

/-- An event that opens a session makes its entry. -/
theorem lookup_processEventAt_opens (hopens : Opens g sessionId) (event : SessionEvent) (now : Nat) :
    (processEventAt g sessionId event now).1.sessions.lookup sessionId =
      some (applyEvent g.config (.new now) event now).1 := by
  obtain ⟨hid, hnone, hroom⟩ := hopens
  have hid' : checkSessionId sessionId = .ok () := by
    cases h : checkSessionId sessionId with
    | error e =>
      rw [h] at hid
      cases hid
    | ok u => rfl
  obtain ⟨room, hroom'⟩ : ∃ room, makeRoom g.config g.sessions = .ok room := by
    cases h : makeRoom g.config g.sessions with
    | error e =>
      rw [h] at hroom
      cases hroom
    | ok room => exact ⟨room, rfl⟩
  have hwith : withSession g.config g.sessions sessionId now =
      .ok (room.insert sessionId (.new now), .new now) := by
    unfold withSession
    rw [hnone, hroom']
  unfold processEventAt
  rw [hid', hwith]
  exact AList.lookup_insert _

/-- **One action** keeps the histories paths exactly if it opens no session by another event. -/
theorem historiesArePaths_step (hstarted : Started g) (h : HistoriesArePaths g)
    (hstep : step g a = some g') : HistoriesArePaths g' ↔ OpensByKnownEvent g a := by
  constructor
  · intro hafter
    cases a with
    | event sessionId event now =>
      intro hopens
      cases hstep
      have hpath := hafter sessionId _ (lookup_processEventAt_opens hopens event now)
      exact (applyEvent_opening g.config event now).1.mp hpath
    | check sessionId now nowAgain => trivial
    | rehash sessions => trivial
  · intro hopens sessionId ctx' hctx'
    rcases lookup_step hstep hctx' with hsame | ⟨event, now, ctx, rfl, hctx, rfl⟩ |
      ⟨now, nowAgain, ctx, rfl, hctx, -, -, rfl⟩
    · exact h sessionId ctx' hsame
    · rcases hctx with hctx | ⟨hnew, rfl⟩
      · exact (applyEvent_started (hstarted sessionId ctx hctx)).2 (h sessionId ctx hctx)
      · exact (applyEvent_opening g.config event now).1.mpr (hopens hnew)
    · exact (h sessionId ctx hctx).remember rfl rfl

end Runs

/-- **The recorded history is a path.**  Along every run it is one in every state, for every session
    with fewer than 1000 transitions, exactly if each session of the run was opened by `FirstAction` or
    `SessionEnd`. -/
theorem histories_are_paths_iff (config : SessionGuardConfig) (actions : List GuardAction) :
    EachStep step (fun _ _ g => HistoriesArePaths g) (new config) actions ↔
      EachStep step (fun g a _ => OpensByKnownEvent g a) (new config) actions := by
  refine eachStep_iff (I := Started) ?_ ?_ ?_ ?_
  · intro g a g' hg hstep
    exact started_step hg hstep
  · intro g a g' hg hpaths hstep
    exact historiesArePaths_step hg hpaths hstep
  · intro sessionId ctx hctx
    cases hctx
  · intro sessionId ctx hctx
    cases hctx

/-- A session that opens with a normal action has the transition from Init to Active twice. -/
theorem normal_action_recorded_twice :
    ∃ g ∈ run step (new ⟨3, 5, 300, 3600, 100, none⟩) [.event "a" .normalAction 10],
      ∃ ctx ∈ g.sessions.lookup "a",
        ctx.transitionHistory = [(.init, .active, 10), (.init, .active, 10)] ∧
        ¬HistoriesArePaths g := by
  refine ⟨_, rfl, _, rfl, rfl, fun h => ?_⟩
  have hpath := h "a" _ rfl (by decide)
  exact absurd hpath (by decide)

end Vellaveto.Guard
