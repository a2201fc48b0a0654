/-
  LOCKED AND ENDED SESSIONS STAY CLOSED (`vellaveto-mcp/src/session_guard.rs`).

  Over every sequence of events and checks on any number of sessions, with any times, in any order of
  the table (`rehash`):

    1. a session that becomes Locked is refused until its administrator unlocks it with exactly the
       configured token, or a cooldown event comes when `cooldown_secs` have passed since it was locked;
    2. a session that is Ended is refused for ever;
    3. no event or check of another session touches a Locked or Ended one, so none evicts it.

  The time since locking is a saturating difference.  A cooldown of zero seconds has therefore always
  passed, also for an event with a time before the locking (`zero_cooldown_unlocks_early`);
  `SessionGuardConfig::validate` refuses that configuration.
-/
import Vellaveto.Lib.Run
import Vellaveto.Mcp.SessionGuard

namespace Vellaveto.Guard

open Vellaveto.Lib

/-! ### Runs -/

inductive GuardAction where
  | event (sessionId : String) (event : SessionEvent) (now : Nat)
  | check (sessionId : String) (now nowAgain : Nat)
  | rehash (sessions : Sessions)

def step (g : SessionGuard) : GuardAction → Option SessionGuard
  | .event sessionId event now => some (processEventAt g sessionId event now).1
  | .check sessionId now nowAgain => some (shouldDeny g sessionId now nowAgain).1
  | .rehash sessions =>
    if sessions.entries.Perm g.sessions.entries then some { g with sessions := sessions } else none

/-- The time of the action. -/
def GuardAction.time : GuardAction → Nat
  | event _ _ now => now
  | check _ _ nowAgain => nowAgain
  | rehash _ => 0

/-- The session the action is about. -/
def GuardAction.session : GuardAction → Option String
  | event sessionId _ _ => some sessionId
  | check sessionId _ _ => some sessionId
  | rehash _ => none

def stateOf (g : SessionGuard) (sessionId : String) : Option SessionState :=
  (g.sessions.lookup sessionId).map SessionContext.state

/-- What opens a session that was locked at time `locked`: the token, or the end of the cooldown. -/
def Unlocks (config : SessionGuardConfig) (sessionId : String) (locked : Nat) : GuardAction → Prop
  | .event id (.adminUnlock adminToken) _ =>
    id = sessionId ∧ config.adminUnlockToken = some adminToken
  | .event id .cooldownElapsed now =>
    id = sessionId ∧ (locked + config.cooldownSecs ≤ now ∨ config.cooldownSecs = 0)
  | _ => False

/-! ### One event -/

section Event

variable {config : SessionGuardConfig} {ctx : SessionContext} {event : SessionEvent} {now : Nat}

@[simp] theorem remember_state (ctx : SessionContext) (source target : SessionState) (now : Nat) :
    (ctx.remember source target now).state = ctx.state := by
  unfold SessionContext.remember
  split <;> rfl

@[simp] theorem remember_lockedAt (ctx : SessionContext) (source target : SessionState)
    (now : Nat) : (ctx.remember source target now).lockedAt = ctx.lockedAt := by
  unfold SessionContext.remember
  split <;> rfl

@[simp] theorem recordTransition_state (ctx : SessionContext) (source target : SessionState)
    (now : Nat) : (ctx.recordTransition source target now).state = target := by
  rw [SessionContext.recordTransition, remember_state]

@[simp] theorem recordTransition_lockedAt (ctx : SessionContext) (source target : SessionState)
    (now : Nat) : (ctx.recordTransition source target now).lockedAt =
      if target = .locked then some now else ctx.lockedAt := by
  rw [SessionContext.recordTransition, remember_lockedAt]

/-- An unlock attempt: the state and the time of locking are kept, and only the token opens. -/
theorem adminUnlock_spec (config : SessionGuardConfig) (ctx : SessionContext)
    (adminToken : String) :
    (adminUnlock config ctx adminToken).1.state = ctx.state ∧
    (adminUnlock config ctx adminToken).1.lockedAt = ctx.lockedAt ∧
    ((adminUnlock config ctx adminToken).2.1 = .locked ∨
      (adminUnlock config ctx adminToken).2.1 = .ended ∨
      config.adminUnlockToken = some adminToken) := by
  unfold adminUnlock
  split
  · exact ⟨rfl, rfl, .inr (.inl rfl)⟩
  split
  · rename_i htoken
    exact ⟨rfl, rfl, .inr (.inr htoken)⟩
  simp only
  split
  · exact ⟨rfl, rfl, .inr (.inl rfl)⟩
  · exact ⟨rfl, rfl, .inl rfl⟩

/-- The context itself is only ever moved from Init to Active. -/
theorem computeTransition_state (left : Nat) :
    (computeTransition config left ctx event now).1.state = ctx.state ∨
      (computeTransition config left ctx event now).1.state = .active := by
  induction left generalizing ctx with
  | zero => exact .inl rfl
  | succ left ih =>
    unfold computeTransition
    split
    case h_3 =>
      right
      rcases @ih ({ ctx with state := .active }.remember .init .active now) with h | h
      · rw [h, remember_state]
      · exact h
    all_goals first
      | exact .inl rfl
      | exact .inl (adminUnlock_spec _ _ _).1
      | (split <;> exact .inl rfl)
      | (simp only; split <;> exact .inl rfl)

/-- What an event can do to a locked context. -/
theorem computeTransition_locked (hlocked : ctx.state = .locked) (left : Nat) :
    (computeTransition config (left + 1) ctx event now).1.lockedAt = ctx.lockedAt ∧
    (computeTransition config (left + 1) ctx event now).1.state = .locked ∧
    ((computeTransition config (left + 1) ctx event now).2.1 = .locked ∨
      (computeTransition config (left + 1) ctx event now).2.1 = .ended ∨
      (∃ token, event = .adminUnlock token ∧ config.adminUnlockToken = some token) ∨
      (event = .cooldownElapsed ∧
        ∃ locked, ctx.lockedAt = some locked ∧ config.cooldownSecs ≤ now - locked)) := by
  unfold computeTransition
  cases event with
  | cooldownElapsed =>
    simp only [hlocked]
    split
    · rename_i hcool
      obtain ⟨locked, hat, hle⟩ := (Option.any_eq_true _ _).mp hcool
      exact ⟨rfl, hlocked, .inr (.inr (.inr ⟨trivial, locked, hat, of_decide_eq_true hle⟩))⟩
    · exact ⟨rfl, hlocked, .inl rfl⟩
  | adminUnlock token =>
    simp only [hlocked]
    obtain ⟨hstate, hat, hcases⟩ := adminUnlock_spec config ctx token
    refine ⟨hat, hstate.trans hlocked, ?_⟩
    rcases hcases with h | h | h
    · exact .inl h
    · exact .inr (.inl h)
    · exact .inr (.inr (.inl ⟨token, rfl, h⟩))
  | sessionEnd =>
    simp only [hlocked]
    exact ⟨trivial, trivial, .inr (.inl trivial)⟩
  | _ =>
    simp only [hlocked]
    exact ⟨trivial, trivial, .inl trivial⟩

theorem computeTransition_ended (hended : ctx.state = .ended) (left : Nat) :
    (computeTransition config (left + 1) ctx event now).1 = ctx ∧
      (computeTransition config (left + 1) ctx event now).2.1 = .ended := by
  unfold computeTransition
  cases event with
  | _ =>
    simp only [hended]
    exact ⟨trivial, trivial⟩

/-- Ended, or locked at this time. -/
def ClosedSince (locked : Nat) (ctx : SessionContext) : Prop :=
  ctx.state = .ended ∨ (ctx.state = .locked ∧ ctx.lockedAt = some locked)

theorem applyEvent_ended (hended : ctx.state = .ended) :
    (applyEvent config ctx event now).1.state = .ended := by
  unfold applyEvent
  split
  · exact recordTransition_state _ _ _ _
  have hdepth : maxComputeTransitionDepth = 1 + 1 := rfl
  rw [hdepth]
  have hspec := @computeTransition_ended config ctx event now hended 1
  rcases hres : computeTransition config (1 + 1) ctx event now with ⟨ctx', newState, action⟩
  rw [hres] at hspec
  obtain ⟨hctx, hnew⟩ := hspec
  simp only at hctx hnew
  subst hctx hnew
  simp only [hended, ne_eq, not_true_eq_false, if_false]

/-- **One event on the session.**  A closed context stays closed, unless the event unlocks it. -/
theorem applyEvent_closed {locked : Nat} {sessionId : String} (h : ClosedSince locked ctx)
    (hkeeps : ¬ Unlocks config sessionId locked (.event sessionId event now)) :
    ClosedSince locked (applyEvent config ctx event now).1 := by
  rcases h with hended | ⟨hlocked, hat⟩
  · exact .inl (applyEvent_ended hended)
  unfold applyEvent
  split
  · exact .inl (recordTransition_state _ _ _ _)
  have hdepth : maxComputeTransitionDepth = 1 + 1 := rfl
  rw [hdepth]
  have hspec := @computeTransition_locked config ctx event now hlocked 1
  rcases hres : computeTransition config (1 + 1) ctx event now with ⟨ctx', newState, action⟩
  rw [hres] at hspec
  obtain ⟨hat', hstate, hcases⟩ := hspec
  simp only at hat' hstate hcases
  rcases hcases with rfl | rfl | ⟨token, rfl, htoken⟩ | ⟨rfl, since, hsince, hcool⟩
  · simp only [hlocked, ne_eq, not_true_eq_false, if_false]
    exact .inr ⟨hstate, hat'.trans hat⟩
  · simp only [hlocked]
    exact .inl (recordTransition_state _ _ _ _)
  · exact absurd ⟨rfl, htoken⟩ hkeeps
  · cases hat.symm.trans hsince
    refine absurd ⟨rfl, ?_⟩ hkeeps
    omega

/-- A context that becomes locked is locked at the time of the event. -/
theorem applyEvent_locks (hbefore : ctx.state ≠ .locked)
    (hafter : (applyEvent config ctx event now).1.state = .locked) :
    (applyEvent config ctx event now).1.lockedAt = some now := by
  unfold applyEvent at hafter ⊢
  split at hafter
  · rw [recordTransition_state] at hafter
    cases hafter
  rename_i hnot
  rw [if_neg hnot]
  have hstate := @computeTransition_state config ctx event now maxComputeTransitionDepth
  rcases hres : computeTransition config maxComputeTransitionDepth ctx event now with
    ⟨ctx', newState, action⟩
  rw [hres] at hstate hafter
  simp only at hstate hafter ⊢
  split at hafter
  · rename_i hnew
    rw [recordTransition_state] at hafter
    rw [if_pos hnew, recordTransition_lockedAt, if_pos hafter]
  · -- without a transition the context has not become locked
    rcases hstate with h | h
    · exact absurd (h.symm.trans hafter) hbefore
    · rw [h] at hafter
      cases hafter

end Event

/-! ### Other sessions -/

section Frame

variable {config : SessionGuardConfig} {sessions sessions' : Sessions} {sessionId : String}
  {ctx : SessionContext}

/-- Locked or Ended. -/
def IsClosed (ctx : SessionContext) : Prop := ctx.state = .locked ∨ ctx.state = .ended

theorem mem_of_minByKey {α : Type} {key : α → Nat} {x : α} {xs : List α}
    (h : minByKey key xs = some x) : x ∈ xs := by
  induction xs generalizing x with
  | nil => cases h
  | cons y xs ih =>
    unfold minByKey at h
    split at h
    · cases h
      exact List.mem_cons_self
    · rename_i z hz
      split at h
      · cases h
        exact List.mem_cons_self
      · cases h
        exact List.mem_cons_of_mem y (ih hz)

/-- The session found is in one of the states asked for. -/
theorem oldestIn_state {states : List SessionState} {key : String}
    (h : oldestIn states sessions = some key) :
    ∃ ctx, sessions.lookup key = some ctx ∧ ctx.state ∈ states := by
  unfold oldestIn at h
  obtain ⟨e, he, rfl⟩ := Option.map_eq_some_iff.mp h
  obtain ⟨hmem, hstate⟩ := List.mem_filter.mp (mem_of_minByKey he)
  exact ⟨e.2, mem_entries_iff.mp hmem, of_decide_eq_true hstate⟩

/-- **No closed session is evicted.** -/
theorem lookup_makeRoom (h : makeRoom config sessions = .ok sessions')
    (hctx : sessions.lookup sessionId = some ctx) (hclosed : IsClosed ctx) :
    sessions'.lookup sessionId = some ctx := by
  have hkept : ∀ states key, oldestIn states sessions = some key → .locked ∉ states →
      .ended ∉ states → (sessions.erase key).lookup sessionId = some ctx := by
    intro states key hkey hlocked hended
    obtain ⟨ctx', hctx', hstate⟩ := oldestIn_state hkey
    have hne : sessionId ≠ key := by
      intro heq
      subst heq
      cases hctx.symm.trans hctx'
      rcases hclosed with hc | hc
      · exact hlocked (hc ▸ hstate)
      · exact hended (hc ▸ hstate)
    rw [AList.lookup_erase_ne hne]
    exact hctx
  unfold makeRoom at h
  split at h
  · split at h
    · rename_i key hkey
      cases h
      exact hkept _ key hkey (by decide) (by decide)
    · split at h
      · rename_i key hkey
        cases h
        exact hkept _ key hkey (by decide) (by decide)
      · cases h
  · cases h
    exact hctx

theorem lookup_withSession {other : String} {now : Nat} {ctx' : SessionContext}
    (h : withSession config sessions other now = .ok (sessions', ctx'))
    (hctx : sessions.lookup sessionId = some ctx) (hclosed : IsClosed ctx) :
    sessions'.lookup sessionId = some ctx ∧ (other = sessionId → ctx' = ctx) := by
  unfold withSession at h
  split at h
  · rename_i found hfound
    cases h
    refine ⟨hctx, fun heq => ?_⟩
    subst heq
    exact Option.some.inj (hfound.symm.trans hctx)
  · rename_i hnone
    split at h
    · cases h
    · rename_i room hroom
      cases h
      have hne : sessionId ≠ other := by
        intro heq
        subst heq
        rw [hctx] at hnone
        cases hnone
      refine ⟨?_, fun heq => absurd heq.symm hne⟩
      rw [AList.lookup_insert_ne hne]
      exact lookup_makeRoom hroom hctx hclosed

variable {g g' : SessionGuard} {a : GuardAction}

theorem config_step (hstep : step g a = some g') : g'.config = g.config := by
  cases a with
  | event id event now =>
    cases hstep
    unfold processEventAt
    split
    · rfl
    split <;> rfl
  | check id now nowAgain =>
    cases hstep
    unfold shouldDeny
    split
    · rfl
    split
    · rfl
    split
    · rfl
    · rfl
    · split <;> rfl
  | rehash sessions =>
    simp only [step] at hstep
    split at hstep
    · cases hstep
      rfl
    · cases hstep

/-- **The frame.**  Actions on other sessions leave a closed session as it is. -/
theorem lookup_step_other (hstep : step g a = some g')
    (hctx : g.sessions.lookup sessionId = some ctx) (hclosed : IsClosed ctx)
    (hother : a.session ≠ some sessionId) : g'.sessions.lookup sessionId = some ctx := by
  cases a with
  | event id event now =>
    have hne : sessionId ≠ id := fun heq => hother (heq ▸ rfl)
    cases hstep
    unfold processEventAt
    split
    · exact hctx
    split
    · exact hctx
    · rename_i sessions found hwith
      simp only
      rw [AList.lookup_insert_ne hne]
      exact (lookup_withSession hwith hctx hclosed).1
  | check id now nowAgain =>
    have hne : sessionId ≠ id := fun heq => hother (heq ▸ rfl)
    cases hstep
    unfold shouldDeny
    split
    · exact hctx
    split
    · exact hctx
    split
    · exact hctx
    · exact hctx
    split
    · simp only
      rw [AList.lookup_insert_ne hne]
      exact hctx
    · exact hctx
  | rehash sessions =>
    simp only [step] at hstep
    split at hstep
    · rename_i hperm
      cases hstep
      exact (AList.perm_lookup hperm).trans hctx
    · cases hstep

/-- A check of a closed session changes nothing. -/
theorem shouldDeny_closed (hctx : g.sessions.lookup sessionId = some ctx) (hclosed : IsClosed ctx)
    (now nowAgain : Nat) : (shouldDeny g sessionId now nowAgain).1 = g ∧
      (shouldDeny g sessionId now nowAgain).2.isSome := by
  unfold shouldDeny
  split
  · exact ⟨rfl, rfl⟩
  rw [hctx]
  rcases hclosed with hc | hc
  · simp [hc]
  · simp [hc]

end Frame

/-! ### Closed for good -/

section Runs

variable {config : SessionGuardConfig} {g g' : SessionGuard} {a : GuardAction} {sessionId : String}
  {locked : Nat} {P : SessionContext → Prop}

theorem ClosedSince.isClosed {ctx : SessionContext} (h : ClosedSince locked ctx) : IsClosed ctx := by
  rcases h with h | h
  · exact .inr h
  · exact .inl h.1

/-- The session is in the table, with this property. -/
def Stays (config : SessionGuardConfig) (sessionId : String) (P : SessionContext → Prop)
    (g : SessionGuard) : Prop :=
  g.config = config ∧ ∃ ctx, g.sessions.lookup sessionId = some ctx ∧ P ctx

/-- **One action.**  A property of closed contexts stays if the session's own events keep it. -/
theorem stays_step (hclosed : ∀ ctx, P ctx → IsClosed ctx)
    (hevent : ∀ ctx event now, a = .event sessionId event now → P ctx →
      P (applyEvent config ctx event now).1)
    (h : Stays config sessionId P g) (hstep : step g a = some g') :
    Stays config sessionId P g' := by
  obtain ⟨hconfig, ctx, hctx, hP⟩ := h
  refine ⟨(config_step hstep).trans hconfig, ?_⟩
  by_cases hother : a.session = some sessionId
  swap
  · exact ⟨ctx, lookup_step_other hstep hctx (hclosed ctx hP) hother, hP⟩
  cases a with
  | event id event now =>
    cases hother
    cases hstep
    unfold processEventAt
    split
    · exact ⟨ctx, hctx, hP⟩
    split
    · exact ⟨ctx, hctx, hP⟩
    · rename_i sessions found hwith
      obtain rfl : found = ctx := (lookup_withSession hwith hctx (hclosed ctx hP)).2 rfl
      rw [hconfig]
      exact ⟨_, AList.lookup_insert _, hevent found event now rfl hP⟩
  | check id now nowAgain =>
    cases hother
    cases hstep
    rw [(shouldDeny_closed hctx (hclosed ctx hP) now nowAgain).1]
    exact ⟨ctx, hctx, hP⟩
  | rehash sessions => cases hother

theorem locked_run {actions : List GuardAction} (h : Stays config sessionId (ClosedSince locked) g)
    (hkeeps : ∀ a ∈ actions, ¬ Unlocks config sessionId locked a)
    (hrun : run step g actions = some g') : Stays config sessionId (ClosedSince locked) g' := by
  refine run_invariant_mem ?_ h hrun
  intro g a g' ha hg hstep
  refine stays_step (fun ctx hctx => hctx.isClosed) (fun ctx event now heq hctx => ?_) hg hstep
  exact applyEvent_closed hctx (heq ▸ hkeeps a ha)

theorem ended_run {actions : List GuardAction}
    (h : Stays config sessionId (fun ctx => ctx.state = .ended) g)
    (hrun : run step g actions = some g') :
    Stays config sessionId (fun ctx => ctx.state = .ended) g' := by
  refine run_invariant ?_ h hrun
  intro g a g' hg hstep
  exact stays_step (fun ctx hctx => .inr hctx) (fun ctx event now _ hctx => applyEvent_ended hctx)
    hg hstep

theorem denied_of_stays (hclosed : ∀ ctx, P ctx → IsClosed ctx) (h : Stays config sessionId P g)
    (now nowAgain : Nat) : (shouldDeny g sessionId now nowAgain).2.isSome := by
  obtain ⟨-, ctx, hctx, hP⟩ := h
  exact (shouldDeny_closed hctx (hclosed ctx hP) now nowAgain).2

/-! ### Becoming locked -/

/-- Making room and adding one session brings no other session in. -/
theorem lookup_of_withSession {sessions sessions' : Sessions} {other : String} {now : Nat}
    {ctx ctx' : SessionContext}
    (h : withSession config sessions other now = .ok (sessions', ctx'))
    (hne : sessionId ≠ other) (hctx : sessions'.lookup sessionId = some ctx) :
    sessions.lookup sessionId = some ctx := by
  have herase : ∀ key, (sessions.erase key).lookup sessionId = some ctx →
      sessions.lookup sessionId = some ctx := by
    intro key hlookup
    rw [lookup_erase_eq] at hlookup
    split at hlookup
    · cases hlookup
    · exact hlookup
  unfold withSession at h
  split at h
  · cases h
    exact hctx
  split at h
  · cases h
  rename_i room hroom
  cases h
  rw [AList.lookup_insert_ne hne] at hctx
  unfold makeRoom at hroom
  split at hroom
  · split at hroom
    · cases hroom
      exact herase _ hctx
    · split at hroom
      · cases hroom
        exact herase _ hctx
      · cases hroom
  · cases hroom
    exact hctx

/-- An event of this session would open it: it has no entry, and room can be made for one. -/
def Opens (g : SessionGuard) (sessionId : String) : Prop :=
  (checkSessionId sessionId).isOk ∧ g.sessions.lookup sessionId = none ∧
    (makeRoom g.config g.sessions).isOk

/-- The entry that an event finds, or makes. -/
theorem withSession_entry {sessions : Sessions} {now : Nat} {ctx : SessionContext}
    (hid : checkSessionId sessionId = .ok ())
    (h : withSession g.config g.sessions sessionId now = .ok (sessions, ctx)) :
    g.sessions.lookup sessionId = some ctx ∨ (Opens g sessionId ∧ ctx = .new now) := by
  unfold withSession at h
  split at h
  · rename_i found hfound
    cases h
    exact .inl hfound
  rename_i hnone
  split at h
  · cases h
  rename_i room hroom
  cases h
  refine .inr ⟨⟨?_, hnone, ?_⟩, rfl⟩
  · rw [hid]
    rfl
  · rw [hroom]
    rfl

/-- **One action.**  What it leaves as the entry of a session: the entry from before, the entry with an
    event of the session applied to it, or the entry of a session that has lasted too long. -/
theorem lookup_step {ctx' : SessionContext} (hstep : step g a = some g')
    (hctx' : g'.sessions.lookup sessionId = some ctx') :
    g.sessions.lookup sessionId = some ctx' ∨
    (∃ event now ctx, a = .event sessionId event now ∧
      (g.sessions.lookup sessionId = some ctx ∨ (Opens g sessionId ∧ ctx = .new now)) ∧
      ctx' = (applyEvent g.config ctx event now).1) ∨
    (∃ now nowAgain ctx, a = .check sessionId now nowAgain ∧
      g.sessions.lookup sessionId = some ctx ∧ ¬IsClosed ctx ∧ expired g.config ctx now ∧
      ctx' = { ctx with state := .ended, lastActionAt := nowAgain }.remember ctx.state .ended
        nowAgain) := by
  cases a with
  | event id event now =>
    cases hstep
    unfold processEventAt at hctx'
    split at hctx'
    · exact .inl hctx'
    rename_i hid
    split at hctx'
    · exact .inl hctx'
    rename_i sessions found hwith
    simp only at hctx'
    rw [lookup_insert_eq] at hctx'
    split at hctx'
    · rename_i heq
      subst heq
      cases hctx'
      exact .inr (.inl ⟨event, now, found, rfl, withSession_entry hid hwith, rfl⟩)
    · rename_i hne
      exact .inl (lookup_of_withSession hwith hne hctx')
  | check id now nowAgain =>
    cases hstep
    unfold shouldDeny at hctx'
    split at hctx'
    · exact .inl hctx'
    split at hctx'
    · exact .inl hctx'
    rename_i ctx hctx
    split at hctx'
    · exact .inl hctx'
    · exact .inl hctx'
    rename_i hlocked hended
    split at hctx'
    · rename_i hexpired
      simp only at hctx'
      rw [lookup_insert_eq] at hctx'
      split at hctx'
      · rename_i heq
        subst heq
        cases hctx'
        have hopen : ¬IsClosed ctx := fun hclosed => hclosed.elim hlocked hended
        exact .inr (.inr ⟨now, nowAgain, ctx, rfl, hctx, hopen, hexpired, rfl⟩)
      · exact .inl hctx'
    · exact .inl hctx'
  | rehash sessions =>
    simp only [step] at hstep
    split at hstep
    · rename_i hperm
      cases hstep
      exact .inl ((AList.perm_lookup hperm).symm.trans hctx')
    · cases hstep

/-- A session that an action locks is locked at the time of the action. -/
theorem locked_at_step (hstep : step g a = some g') (hbefore : stateOf g sessionId ≠ some .locked)
    (hafter : stateOf g' sessionId = some .locked) :
    Stays g.config sessionId (ClosedSince a.time) g' := by
  refine ⟨config_step hstep, ?_⟩
  obtain ⟨ctx', hctx', hlocked⟩ := Option.map_eq_some_iff.mp hafter
  -- an entry from before is not that of a locked session
  have hopen : ∀ ctx, g.sessions.lookup sessionId = some ctx → ctx.state ≠ .locked := by
    intro ctx hctx hstate
    rw [stateOf, hctx, Option.map_some, hstate] at hbefore
    exact hbefore rfl
  refine ⟨ctx', hctx', .inr ⟨hlocked, ?_⟩⟩
  rcases lookup_step hstep hctx' with hsame | ⟨event, now, ctx, rfl, hctx, rfl⟩ |
    ⟨now, nowAgain, ctx, rfl, -, -, -, rfl⟩
  · exact absurd hlocked (hopen ctx' hsame)
  · refine applyEvent_locks ?_ hlocked
    rcases hctx with hctx | ⟨-, rfl⟩
    · exact hopen ctx hctx
    · exact SessionState.noConfusion
  · rw [remember_state] at hlocked
    cases hlocked

end Runs

/-- **Closed sessions stay closed.** -/
theorem closed_sessions_stay_closed (config : SessionGuardConfig) :
    (∀ before a after g0 g1 g2 sessionId, run step (new config) before = some g0 →
      step g0 a = some g1 → stateOf g0 sessionId ≠ some .locked →
      stateOf g1 sessionId = some .locked → run step g1 after = some g2 →
      (∀ b ∈ after, ¬ Unlocks config sessionId a.time b) →
      ∀ now nowAgain, (shouldDeny g2 sessionId now nowAgain).2.isSome) ∧
    (∀ before after g1 g2 sessionId, run step (new config) before = some g1 →
      stateOf g1 sessionId = some .ended → run step g1 after = some g2 →
      ∀ now nowAgain, (shouldDeny g2 sessionId now nowAgain).2.isSome) ∧
    (∀ before a g0 g1 sessionId ctx, run step (new config) before = some g0 →
      g0.sessions.lookup sessionId = some ctx → ctx.state = .locked ∨ ctx.state = .ended →
      a.session ≠ some sessionId → step g0 a = some g1 →
      g1.sessions.lookup sessionId = some ctx) := by
  have hconfig : ∀ before g, run step (new config) before = some g → g.config = config := by
    intro before g hrun
    refine run_invariant (I := fun g => g.config = config) ?_ rfl hrun
    intro g a g' hg hstep
    exact (config_step hstep).trans hg
  refine ⟨?_, ?_, ?_⟩
  · intro before a after g0 g1 g2 sessionId hbefore hstep hopen hlocked hafter hkeeps now nowAgain
    have hstays := locked_at_step hstep hopen hlocked
    rw [hconfig before g0 hbefore] at hstays
    exact denied_of_stays (fun ctx hctx => hctx.isClosed) (locked_run hstays hkeeps hafter) now
      nowAgain
  · intro before after g1 g2 sessionId hbefore hended hafter now nowAgain
    obtain ⟨ctx, hctx, hstate⟩ := Option.map_eq_some_iff.mp hended
    have hstays : Stays config sessionId (fun ctx => ctx.state = .ended) g1 :=
      ⟨hconfig before g1 hbefore, ctx, hctx, hstate⟩
    exact denied_of_stays (fun ctx hctx => .inr hctx) (ended_run hstays hafter) now nowAgain
  · intro before a g0 g1 sessionId ctx _ hctx hclosed hother hstep
    exact lookup_step_other hstep hctx hclosed hother

/-- Lock a session at time 11, let two other sessions come, try a token and an early cooldown. -/
theorem closed_sessions_stay_closed_full_table :
    ∃ g2 ∈ run step (new ⟨1, 1, 300, 3600, 2, some "token"⟩)
        ([.event "a" (.repeatedViolation 1) 10] ++ .event "a" (.repeatedViolation 1) 11 ::
          [.event "b" .firstAction 12, .event "c" .firstAction 13,
            .event "a" (.adminUnlock "guess") 14, .event "a" .cooldownElapsed 310]),
      (shouldDeny g2 "a" 311 311).2.isSome := by
  have hrun : ∃ g0 ∈ run step (new ⟨1, 1, 300, 3600, 2, some "token"⟩)
        [.event "a" (.repeatedViolation 1) 10],
      ∃ g1 ∈ step g0 (.event "a" (.repeatedViolation 1) 11), stateOf g0 "a" ≠ some .locked ∧
      stateOf g1 "a" = some .locked ∧ ∃ g2 ∈ run step g1
        [.event "b" .firstAction 12, .event "c" .firstAction 13,
          .event "a" (.adminUnlock "guess") 14, .event "a" .cooldownElapsed 310], True := by
    decide +kernel
  obtain ⟨g0, h0, g1, h1, hopen, hlocked, g2, h2, -⟩ := hrun
  refine ⟨g2, run_append_eq_some.mpr ⟨g0, h0, run_cons_eq_some.mpr ⟨g1, h1, h2⟩⟩, ?_⟩
  refine (closed_sessions_stay_closed ⟨1, 1, 300, 3600, 2, some "token"⟩).1 _ _ _ g0 g1 g2 "a" h0 h1
    hopen hlocked h2 ?_ 311 311
  intro a ha
  simp only [List.mem_cons, List.not_mem_nil, or_false] at ha
  rcases ha with rfl | rfl | rfl | rfl
  · exact id
  · exact id
  · exact fun h => absurd h.2 (by decide)
  · exact fun h => absurd h.2 (by decide)

/-- With a cooldown of zero seconds a session that was locked at time 11 is opened by a cooldown event
    at time 5. -/
theorem zero_cooldown_unlocks_early :
    ∃ g0 ∈ run step (new ⟨1, 1, 0, 3600, 2, none⟩)
        [.event "a" (.repeatedViolation 1) 10, .event "a" (.repeatedViolation 1) 11],
      stateOf g0 "a" = some .locked ∧
      ∃ g1 ∈ step g0 (.event "a" .cooldownElapsed 5), (shouldDeny g1 "a" 12 12).2 = none := by
  decide +kernel

end Vellaveto.Guard
