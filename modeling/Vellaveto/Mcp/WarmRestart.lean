/-
  THE SESSION GUARD ACROSS A RESTART (`vellaveto-mcp/src/session_guard.rs`,
  `vellaveto-mcp/src/verified_warm_restart.rs`).

  With a durable backend, `process_event_at` writes the context of its session through to it, and
  `warm_restart` reads the records back into a new guard.  It restores the LOCKED and the SUSPICIOUS
  ones: Init and Active sessions are transient, and Ended ones are skipped as terminal.

    1. **Program** — `restore`, the loop of `warm_restart`, and `stepBacked`, the guard together with
       the backend (one whose `store` and `load_all` always succeed);
    2. **Invariant** — `Backed`: the record of a session in the table is its context, or, when
       `should_deny` has ended the session, a context that was neither Locked nor Ended and had
       lasted too long;
    3. **Result** — `restart_keeps_locked_denied`: a session denied as Locked is denied after the
       restart.  One denied as Ended or for its duration is denied after the restart exactly if its
       record is Suspicious (`ended_session_reopens`).
-/
import Vellaveto.Mcp.ClosedSessions

namespace Vellaveto.Guard

open Vellaveto.Lib

/-! ### The program -/

/-- `should_restore`. -/
def shouldRestore (state : SessionState) : Bool := state = .locked || state = .suspicious

/-- `can_insert`. -/
def canInsert (currentCount maxSessions : Nat) : Bool := currentCount < maxSessions

/-- `next_restored`. -/
def nextRestored (restored : Nat) : Nat := saturatingAdd (2 ^ 64 - 1) restored 1

/-- The loop of `warm_restart`, with the sessions and the count so far. -/
def restore (maxSessions : Nat) :
    Sessions → Nat → List (String × SessionContext) → Sessions × Nat
  | sessions, restored, [] => (sessions, restored)
  | sessions, restored, (id, ctx) :: persisted =>
    if shouldRestore ctx.state then
      if canInsert sessions.keys.length maxSessions then
        restore maxSessions (sessions.insert id ctx) (nextRestored restored) persisted
      else (sessions, restored)
    else restore maxSessions sessions restored persisted

/-- `warm_restart`, with what `load_all` of the configured backend returns. -/
def warmRestart (g : SessionGuard)
    (backend : Option (Except String (List (String × SessionContext)))) :
    SessionGuard × Except SessionGuardError Nat :=
  match backend with
  | none => (g, .error (.sessionNotFound "no backend configured"))
  | some (.error e) => (g, .error (.sessionNotFound s!"backend load failed: {e}"))
  | some (.ok persisted) =>
    let (sessions, restored) := restore g.config.maxSessions g.sessions 0 persisted
    ({ g with sessions := sessions }, .ok restored)

/-- A guard with a backend. -/
structure BackedGuard where
  guard : SessionGuard
  stored : Sessions

def newBacked (config : SessionGuardConfig) : BackedGuard where
  guard := new config
  stored := ∅

/-- `persist_session`, for every event that returns: the record is the entry in the table. -/
def persistSession (s : BackedGuard) (a : GuardAction) (g' : SessionGuard) : Sessions :=
  match a with
  | .event sessionId event now =>
    match (processEventAt s.guard sessionId event now).2, g'.sessions.lookup sessionId with
    | .ok _, some ctx => s.stored.insert sessionId ctx
    | _, _ => s.stored
  | _ => s.stored

def stepBacked (s : BackedGuard) (a : GuardAction) : Option BackedGuard :=
  (step s.guard a).map fun g' => { guard := g', stored := persistSession s a g' }

/-! ### What is restored -/

section Restore

variable {maxSessions restored : Nat} {sessions : Sessions} {sessionId : String}
  {ctx : SessionContext} {persisted : List (String × SessionContext)}

/-- While there is room for all that is left, exactly the records to restore are added. -/
theorem lookup_restore (hroom : sessions.keys.length + persisted.length ≤ maxSessions)
    (hnodup : (persisted.map Prod.fst).Nodup)
    (hnew : ∀ id ∈ persisted.map Prod.fst, sessions.lookup id = none) :
    (restore maxSessions sessions restored persisted).1.lookup sessionId = some ctx ↔
      sessions.lookup sessionId = some ctx ∨
        ((sessionId, ctx) ∈ persisted ∧ shouldRestore ctx.state) := by
  induction persisted generalizing sessions restored with
  | nil => simp [restore]
  | cons record persisted ih =>
    obtain ⟨id, found⟩ := record
    rw [List.map_cons, List.nodup_cons] at hnodup
    obtain ⟨hfresh, hnodup⟩ := hnodup
    have hnone : sessions.lookup id = none := hnew id List.mem_cons_self
    have hrest : ∀ other ∈ persisted.map Prod.fst, sessions.lookup other = none :=
      fun other hother => hnew other (List.mem_cons_of_mem id hother)
    rw [List.length_cons] at hroom
    have hmem : (sessionId, ctx) ∈ (id, found) :: persisted ↔
        (sessionId = id ∧ ctx = found) ∨ (sessionId, ctx) ∈ persisted := by
      rw [List.mem_cons, Prod.mk.injEq]
    rw [hmem]
    unfold restore
    split
    · rename_i hrestore
      have hfits : canInsert sessions.keys.length maxSessions = true := by
        simp only [canInsert, decide_eq_true_eq]
        omega
      rw [if_pos hfits, ih _ hnodup]
      · rw [lookup_insert_eq]
        by_cases heq : sessionId = id
        · subst heq
          have hnot : (sessionId, ctx) ∉ persisted := fun h =>
            hfresh (List.mem_map.mpr ⟨(sessionId, ctx), h, rfl⟩)
          simp only [if_true, hnone, hnot, Option.some.injEq]
          grind
        · simp only [heq, if_false, false_and, false_or]
      · intro other hother
        have hne : other ≠ id := fun heq => hfresh (heq ▸ hother)
        rw [AList.lookup_insert_ne hne]
        exact hrest other hother
      · -- the new key takes one place
        have hkey : id ∉ sessions.keys := fun h => by
          rw [← AList.mem_keys, ← AList.lookup_isSome, hnone] at h
          cases h
        rw [AList.keys_insert, List.length_cons, List.erase_of_not_mem hkey]
        omega
    · rename_i hskip
      rw [ih (by omega) hnodup hrest]
      grind

/-- What a new guard holds after the restart. -/
theorem lookup_warmRestart {config : SessionGuardConfig} {stored : Sessions}
    (hloaded : persisted.Perm (stored.entries.map fun e => (e.1, e.2)))
    (hbound : stored.keys.length ≤ config.maxSessions) :
    (warmRestart (new config) (some (.ok persisted))).1.sessions.lookup sessionId = some ctx ↔
      stored.lookup sessionId = some ctx ∧ shouldRestore ctx.state := by
  have hkeys : (persisted.map Prod.fst).Perm stored.keys := by
    have hmap := hloaded.map Prod.fst
    rw [List.map_map] at hmap
    exact hmap
  have hlookup : (sessionId, ctx) ∈ persisted ↔ stored.lookup sessionId = some ctx := by
    rw [hloaded.mem_iff, ← mem_entries_iff]
    constructor
    · intro h
      obtain ⟨⟨id, found⟩, he, heq⟩ := List.mem_map.mp h
      cases heq
      exact he
    · intro h
      exact List.mem_map.mpr ⟨⟨sessionId, ctx⟩, h, rfl⟩
  have hroom : (new config).sessions.keys.length + persisted.length ≤ config.maxSessions := by
    have hlength := hkeys.length_eq
    rw [List.length_map] at hlength
    have hempty : (new config).sessions.keys.length = 0 := rfl
    omega
  have hdistinct : (persisted.map Prod.fst).Nodup := hkeys.nodup_iff.mpr stored.keys_nodup
  show (restore config.maxSessions (new config).sessions 0 persisted).1.lookup sessionId = some ctx ↔ _
  rw [lookup_restore hroom hdistinct fun _ _ => AList.lookup_empty _, hlookup]
  constructor
  · rintro (hempty | h)
    · cases hempty
    · exact h
  · exact .inr

end Restore

/-! ### What is stored -/

section Stored

variable {config : SessionGuardConfig} {s s' : BackedGuard} {a : GuardAction} {sessionId : String}
  {ctx : SessionContext}

/-- An event that is refused changes nothing. -/
theorem processEventAt_error {g : SessionGuard} {event : SessionEvent} {now : Nat}
    {e : SessionGuardError} (h : (processEventAt g sessionId event now).2 = .error e) :
    (processEventAt g sessionId event now).1 = g := by
  unfold processEventAt at h ⊢
  split at h
  · rfl
  split at h
  · rfl
  · cases h

theorem processEventAt_ok {g : SessionGuard} {event : SessionEvent} {now : Nat}
    {result : TransitionResult} (h : (processEventAt g sessionId event now).2 = .ok result) :
    (checkSessionId sessionId).isOk := by
  unfold processEventAt at h
  split at h
  · cases h
  · rename_i hid
    rw [hid]
    rfl

/-- **One action with the backend.**  The session's record is its entry, after an event of the session;
    or the record is the old one, and the entry is the old one or `should_deny` has ended it. -/
theorem lookup_stepBacked (hstep : stepBacked s a = some s')
    (hctx : s'.guard.sessions.lookup sessionId = some ctx) :
    ((checkSessionId sessionId).isOk ∧ s'.stored.lookup sessionId = some ctx) ∨
    (s'.stored.lookup sessionId = s.stored.lookup sessionId ∧
      (s.guard.sessions.lookup sessionId = some ctx ∨
        ∃ now nowAgain before, a = .check sessionId now nowAgain ∧
          s.guard.sessions.lookup sessionId = some before ∧ ¬IsClosed before ∧
          expired s.guard.config before now ∧ ctx.state = .ended)) := by
  obtain ⟨g', hg', rfl⟩ := Option.map_eq_some_iff.mp hstep
  have hentry := lookup_step hg' hctx
  cases a with
  | event id event now =>
    by_cases hid : id = sessionId
    · subst hid
      cases hres : (processEventAt s.guard id event now).2 with
      | error e =>
        -- a refused event
        have hsame := processEventAt_error hres
        cases hg'
        refine .inr ⟨?_, .inl (hsame ▸ hctx)⟩
        simp only [persistSession, hres]
      | ok result =>
        refine .inl ⟨processEventAt_ok hres, ?_⟩
        have hctx' : g'.sessions.lookup id = some ctx := hctx
        simp only [persistSession, hres, hctx', AList.lookup_insert]
    · have hframe : (persistSession s (.event id event now) g').lookup sessionId =
          s.stored.lookup sessionId := by
        unfold persistSession
        simp only
        split
        · exact AList.lookup_insert_ne (fun heq => hid heq.symm)
        · rfl
      refine .inr ⟨hframe, ?_⟩
      rcases hentry with hsame | ⟨_, _, _, heq, -⟩ | ⟨_, _, _, heq, -⟩
      · exact .inl hsame
      · cases heq
        exact absurd rfl hid
      · cases heq
  | check id now nowAgain =>
    refine .inr ⟨rfl, ?_⟩
    rcases hentry with hsame | ⟨_, _, _, heq, -⟩ | ⟨t, t', before, heq, hbefore, hopen, hexp, rfl⟩
    · exact .inl hsame
    · cases heq
    · refine .inr ⟨t, t', before, heq, hbefore, hopen, hexp, ?_⟩
      rw [remember_state]
  | rehash sessions =>
    refine .inr ⟨rfl, ?_⟩
    rcases hentry with hsame | ⟨_, _, _, heq, -⟩ | ⟨_, _, _, heq, -⟩
    · exact .inl hsame
    · cases heq
    · cases heq

/-- The clock readings of the checks come before this time. -/
def GuardAction.ReadsBefore (time : Nat) : GuardAction → Prop
  | .check _ now _ => now ≤ time
  | _ => True

theorem exists_readsBefore (actions : List GuardAction) :
    ∃ time, ∀ a ∈ actions, a.ReadsBefore time := by
  induction actions with
  | nil =>
    refine ⟨0, fun a ha => ?_⟩
    cases ha
  | cons a actions ih =>
    obtain ⟨time, htime⟩ := ih
    cases a with
    | check id now nowAgain =>
      refine ⟨max now time, fun b hb => ?_⟩
      rcases List.mem_cons.mp hb with rfl | hb
      · exact Nat.le_max_left now time
      · have hbefore := htime b hb
        cases b with
        | check id' now' nowAgain' => exact Nat.le_trans hbefore (Nat.le_max_right now time)
        | event => trivial
        | rehash => trivial
    | event id event now => exact ⟨time, List.forall_mem_cons.mpr ⟨trivial, htime⟩⟩
    | rehash sessions => exact ⟨time, List.forall_mem_cons.mpr ⟨trivial, htime⟩⟩

/-- The record of a session in the table: its context, or, when `should_deny` has ended the session, a
    context from before that was open and had lasted too long. -/
def Backed (config : SessionGuardConfig) (time : Nat) (s : BackedGuard) : Prop :=
  s.guard.config = config ∧
  ∀ sessionId ctx, s.guard.sessions.lookup sessionId = some ctx →
    (checkSessionId sessionId).isOk ∧ ∃ record, s.stored.lookup sessionId = some record ∧
      (record = ctx ∨ (ctx.state = .ended ∧ ¬IsClosed record ∧
        ∃ now, now ≤ time ∧ expired config record now))

theorem backed_step {time : Nat} (ha : a.ReadsBefore time) (h : Backed config time s)
    (hstep : stepBacked s a = some s') : Backed config time s' := by
  obtain ⟨hconfig, hbacked⟩ := h
  refine ⟨?_, fun sessionId ctx hctx => ?_⟩
  · obtain ⟨g', hg', rfl⟩ := Option.map_eq_some_iff.mp hstep
    exact (config_step hg').trans hconfig
  rcases lookup_stepBacked hstep hctx with ⟨hid, hrecord⟩ | ⟨hkept, hold | hchecked⟩
  · exact ⟨hid, ctx, hrecord, .inl rfl⟩
  · rw [hkept]
    exact hbacked sessionId ctx hold
  · obtain ⟨now, nowAgain, before, rfl, hbefore, hopen, hexpired, hended⟩ := hchecked
    obtain ⟨hid, record, hrecord, hrel⟩ := hbacked sessionId before hbefore
    rw [hkept]
    refine ⟨hid, record, hrecord, .inr ⟨hended, ?_⟩⟩
    rcases hrel with rfl | ⟨hstate, -⟩
    · exact ⟨hopen, now, ha, hconfig ▸ hexpired⟩
    · exact absurd (.inr hstate) hopen

theorem backed_run {time : Nat} {actions : List GuardAction}
    (hreads : ∀ a ∈ actions, a.ReadsBefore time)
    (hrun : run stepBacked (newBacked config) actions = some s) : Backed config time s := by
  refine run_invariant_mem ?_ ?_ hrun
  · intro s a s' ha hs hstep
    exact backed_step (hreads a ha) hs hstep
  · refine ⟨rfl, fun sessionId ctx hctx => ?_⟩
    cases hctx

end Stored

/-! ### Denied before, denied after -/

/-- What has lasted too long has lasted too long ever after. -/
theorem expired_mono {config : SessionGuardConfig} {ctx : SessionContext} {now later : Nat}
    (hle : now ≤ later) (h : expired config ctx now) : expired config ctx later := by
  simp only [expired, Bool.and_eq_true, decide_eq_true_eq] at h ⊢
  omega

/-- Why `should_deny` refuses a session with a valid id. -/
theorem shouldDeny_isSome_iff {g : SessionGuard} {sessionId : String} {now nowAgain : Nat}
    (hid : checkSessionId sessionId = .ok ()) :
    (shouldDeny g sessionId now nowAgain).2.isSome ↔
      ∃ ctx, g.sessions.lookup sessionId = some ctx ∧ (IsClosed ctx ∨ expired g.config ctx now) := by
  unfold shouldDeny
  rw [hid]
  cases hctx : g.sessions.lookup sessionId with
  | none => simp
  | some ctx =>
    simp only [Option.some.injEq, exists_eq_left', IsClosed]
    split
    · rename_i hlocked
      simp [hlocked]
    · rename_i hended
      simp [hended]
    · rename_i hlocked hended
      split
      · rename_i hexpired
        simp [hexpired]
      · rename_i hexpired
        have hopen : ¬(ctx.state = .locked ∨ ctx.state = .ended) := fun h => h.elim hlocked hended
        simp [hexpired, hopen]

/-- **A restart and the sessions that were denied.**  A session denied as Locked is denied after the
    restart at every time.  One denied as Ended, or for its duration, is denied after the restart, at
    any time from then on, exactly if its record is Suspicious. -/
theorem restart_keeps_locked_denied {config : SessionGuardConfig} {actions : List GuardAction}
    {s : BackedGuard} {persisted : List (String × SessionContext)} {sessionId : String}
    {now nowAgain : Nat} (hrun : run stepBacked (newBacked config) actions = some s)
    (hloaded : persisted.Perm (s.stored.entries.map fun e => (e.1, e.2)))
    (hbound : s.stored.keys.length ≤ config.maxSessions)
    (hid : checkSessionId sessionId = .ok ())
    (hdenied : (shouldDeny s.guard sessionId now nowAgain).2.isSome) :
    (stateOf s.guard sessionId = some .locked → ∀ later again,
      (shouldDeny (warmRestart (new config) (some (.ok persisted))).1 sessionId later
        again).2.isSome) ∧
    (stateOf s.guard sessionId ≠ some .locked → ∀ later again, now ≤ later →
      (∀ a ∈ actions, a.ReadsBefore later) →
      ((shouldDeny (warmRestart (new config) (some (.ok persisted))).1 sessionId later
          again).2.isSome ↔
        (s.stored.lookup sessionId).map SessionContext.state = some .suspicious)) := by
  obtain ⟨ctx, hctx, hwhy⟩ := (shouldDeny_isSome_iff hid).mp hdenied
  have hstate : stateOf s.guard sessionId = some ctx.state := by
    rw [stateOf, hctx, Option.map_some]
  rw [hstate]
  constructor
  · intro hlocked later again
    have hlocked : ctx.state = .locked := Option.some.inj hlocked
    obtain ⟨time, hreads⟩ := exists_readsBefore actions
    obtain ⟨-, record, hrecord, hrel⟩ := (backed_run hreads hrun).2 sessionId ctx hctx
    -- only an Ended session's record is not its context
    obtain rfl : record = ctx := by
      rcases hrel with h | ⟨hended, -⟩
      · exact h
      · cases hlocked.symm.trans hended
    refine (shouldDeny_isSome_iff hid).mpr ⟨record, ?_, .inl (.inl hlocked)⟩
    exact (lookup_warmRestart hloaded hbound).mpr ⟨hrecord, by rw [hlocked]; rfl⟩
  · intro hopen later again hle hreads
    have hopen : ctx.state ≠ .locked := fun h => hopen (congrArg some h)
    obtain ⟨-, record, hrecord, hrel⟩ := (backed_run hreads hrun).2 sessionId ctx hctx
    rw [shouldDeny_isSome_iff hid, hrecord, Option.map_some, Option.some.injEq]
    constructor
    · rintro ⟨restored, hrestored, -⟩
      obtain ⟨hstored, hrestore⟩ := (lookup_warmRestart hloaded hbound).mp hrestored
      obtain rfl : record = restored := Option.some.inj (hrecord.symm.trans hstored)
      have hcritical : record.state = .locked ∨ record.state = .suspicious := by
        simpa [shouldRestore] using hrestore
      rcases hcritical with hlocked | hsuspicious
      · rcases hrel with rfl | ⟨-, hnot, -⟩
        · exact absurd hlocked hopen
        · exact absurd (.inl hlocked) hnot
      · exact hsuspicious
    · intro hsuspicious
      refine ⟨record, ?_, .inr ?_⟩
      · exact (lookup_warmRestart hloaded hbound).mpr ⟨hrecord, by rw [hsuspicious]; rfl⟩
      show expired config record later = true
      rcases hrel with rfl | ⟨-, -, t, ht, hexpired⟩
      · rcases hwhy with (hlocked | hended) | hexpired
        · exact absurd hlocked hopen
        · cases hsuspicious.symm.trans hended
        · rw [(backed_run hreads hrun).1] at hexpired
          exact expired_mono hle hexpired
      · exact expired_mono ht hexpired

/-- A session locked at time 11 is refused after the restart; a suspicious one that lasted too long
    is refused too. -/
theorem restart_keeps_locked_denied_two :
    ∃ s ∈ run stepBacked (newBacked ⟨1, 1, 300, 3600, 5, none⟩)
        [.event "a" (.repeatedViolation 1) 10, .event "a" (.repeatedViolation 1) 11,
          .event "b" (.repeatedViolation 1) 12, .check "b" 4000 4001],
      (∀ later again, (shouldDeny (warmRestart (new ⟨1, 1, 300, 3600, 5, none⟩)
        (some (.ok (s.stored.entries.map fun e => (e.1, e.2))))).1 "a" later again).2.isSome) ∧
      (shouldDeny (warmRestart (new ⟨1, 1, 300, 3600, 5, none⟩)
        (some (.ok (s.stored.entries.map fun e => (e.1, e.2))))).1 "b" 4002 4002).2.isSome := by
  have hrun : ∃ s ∈ run stepBacked (newBacked ⟨1, 1, 300, 3600, 5, none⟩)
        [.event "a" (.repeatedViolation 1) 10, .event "a" (.repeatedViolation 1) 11,
          .event "b" (.repeatedViolation 1) 12, .check "b" 4000 4001],
      s.stored.keys.length ≤ 5 ∧ (shouldDeny s.guard "a" 4002 4002).2.isSome ∧
      (shouldDeny s.guard "b" 4002 4002).2.isSome ∧ stateOf s.guard "a" = some .locked ∧
      stateOf s.guard "b" ≠ some .locked ∧
      (s.stored.lookup "b").map SessionContext.state = some .suspicious := by
    decide +kernel
  obtain ⟨s, hs, hbound, ha, hb, hlocked, hnot, hsuspicious⟩ := hrun
  refine ⟨s, hs, ?_, ?_⟩
  · exact (restart_keeps_locked_denied hs (List.Perm.refl _) hbound (by decide +kernel) ha).1 hlocked
  · refine ((restart_keeps_locked_denied hs (List.Perm.refl _) hbound (by decide +kernel) hb).2 hnot
      4002 4002 (Nat.le_refl 4002) ?_).mpr hsuspicious
    intro a ha
    simp only [List.mem_cons, List.not_mem_nil, or_false] at ha
    rcases ha with rfl | rfl | rfl | rfl
    · trivial
    · trivial
    · trivial
    · exact (by decide : 4000 ≤ 4002)

/-- An Ended session is denied before the restart and not after it. -/
theorem ended_session_reopens :
    ∃ s ∈ run stepBacked (newBacked ⟨3, 5, 300, 3600, 5, none⟩)
        [.event "a" .firstAction 10, .event "a" .sessionEnd 11],
      s.stored.keys.length ≤ 5 ∧
      (shouldDeny s.guard "a" 12 12).2 = some "Session 'a' has ended" ∧
      (shouldDeny (warmRestart (new ⟨3, 5, 300, 3600, 5, none⟩)
        (some (.ok (s.stored.entries.map fun e => (e.1, e.2))))).1 "a" 13 13).2 = none := by
  decide +kernel

end Vellaveto.Guard
