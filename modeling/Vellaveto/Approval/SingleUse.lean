/-
  SINGLE USE: an approval authorizes at most one matching call, whatever happens at the same time.

  PROGRAM.      The sections of the store's operations (`Approval/Store`) in ANY interleaving.  A
                `System` is the store together with the operations that are under way: creations whose
                line is not yet written or was not written, and expiry runs.  Any write may fail.

  SPEC.         Over the history of what the operations returned: `consume_approved(id)` returns
                `Ok(true)` at most once, and only after an `Ok` of `approve(id)`, with the fingerprint
                and the session the approval was created with, before its expiry; and no `deny(id)`
                ever returns `Ok`.

  CORRECTNESS.  The crux is `Inv`.  A PENDING approval has no past: nothing was returned about it.  An
                APPROVED one was approved, not denied and not consumed.  And the one way back to
                pending, the rollback of an expiry run, only concerns approvals that were pending when
                that run marked them and have been expired or gone since (`markedQuiet`).
    1. `Inv.restrict`, `Inv.insert`, `Inv.update`, `Inv.mark`, `Inv.revive`   the five kinds of change;
    2. `step_inv`                          each section is one of them;
    3. `approval_authorizes_one_call`      the property, over every run.
-/
import Vellaveto.Approval.Store
import Vellaveto.Lib.Run

namespace Vellaveto.Approval

open Vellaveto.Lib

/-! ## Systems -/

/-- What the sections did and the operations returned, as far as the property speaks about it. -/
inductive Event where
  | inserted (a : PendingApproval)
  | approved (id resolver : String)
  | denied (id resolver : String)
  | consumed (id : String) (sessionId actionFingerprint : Option String) (now : Int)
deriving DecidableEq, Repr

/-- An expiry run between its first and its last section. -/
structure Expiring where
  toPersist : List PendingApproval
  failedIds : List String
deriving DecidableEq, Repr

/-- The ids that an expiry run may still take back. -/
def Expiring.ids (x : Expiring) : List String := x.toPersist.map (·.id) ++ x.failedIds

structure System where
  state : State
  /-- inserted, line not yet written -/
  creating : List PendingApproval
  /-- inserted, line not written, not yet taken back -/
  unwritten : List PendingApproval
  expiring : List Expiring
  events : List Event

/-- A process starts with an empty memory. -/
def System.start (file : LogFile) : System := ⟨State.fresh file, [], [], [], []⟩

/-- The sections.  An index says which of the operations under way moves; the approvals of an expiry
    run are written in any order, as the map of the source yields them in any order. -/
inductive Step where
  | createFind (request : CreateRequest)
  | createInsert (request : CreateRequest) (id : String) (now : Int)
  | createPersist (i : Nat) (outcome : PersistOutcome)
  | createRollback (i : Nat)
  | approve (id resolver : String) (now now' : Int) (outcome : PersistOutcome)
  | deny (id resolver : String) (now now' : Int) (outcome : PersistOutcome)
  | consume (id : String) (sessionId actionFingerprint : Option String) (now now' : Int)
      (outcome : PersistOutcome)
  | expireMark (now : Int)
  | expirePersist (i j : Nat) (outcome : PersistOutcome)
  | expireFinish (i : Nat)
deriving DecidableEq, Repr

/-- The UUID that a step draws. -/
def Step.newId : Step → Option String
  | .createInsert _ id _ => some id
  | _ => none

/-- The event of an `Ok`. -/
def okEvent {α : Type} (r : Except ApprovalError α) (e : Event) : List Event :=
  match r with
  | .ok _ => [e]
  | .error _ => []

/-- One section.  `none`: there is no such operation under way, or it is not that far. -/
def System.step (env : Env) (config : Config) (s : System) : Step → Option System
  | .createFind _ => some s
  | .createInsert request id now =>
    match request.validate with
    | .error _ => some s
    | .ok () =>
      let a := request.approval config id now
      match s.state.createInsert env config a with
      | (st, .inserted) =>
        some { s with
          state := st
          creating := s.creating ++ [a]
          events := s.events ++ [.inserted a] }
      | (st, _) => some { s with state := st }
  | .createPersist i outcome =>
    s.creating[i]?.map fun a =>
      match persistApproval env s.state.file a outcome with
      | (file, true) =>
        { s with state := { s.state with file := file }, creating := s.creating.eraseIdx i }
      | (file, false) =>
        { s with
          state := { s.state with file := file }
          creating := s.creating.eraseIdx i
          unwritten := s.unwritten ++ [a] }
  | .createRollback i =>
    s.unwritten[i]?.map fun a =>
      { s with state := s.state.createRollback env a, unwritten := s.unwritten.eraseIdx i }
  | .approve id resolver now now' outcome =>
    let (st, r) := s.state.approve env id resolver now now' outcome
    some { s with state := st, events := s.events ++ okEvent r (.approved id resolver) }
  | .deny id resolver now now' outcome =>
    let (st, r) := s.state.deny env id resolver now now' outcome
    some { s with state := st, events := s.events ++ okEvent r (.denied id resolver) }
  | .consume id sessionId actionFingerprint now now' outcome =>
    match s.state.consumeApproved env id sessionId actionFingerprint now now' outcome with
    | (st, .ok true) =>
      some { s with
        state := st
        events := s.events ++ [.consumed id sessionId actionFingerprint now] }
    | (st, _) => some { s with state := st }
  | .expireMark now =>
    let (st, toPersist) := s.state.expireMark env now
    some { s with state := st, expiring := s.expiring ++ [⟨toPersist, []⟩] }
  | .expirePersist i j outcome =>
    s.expiring[i]?.bind fun x => x.toPersist[j]?.map fun a =>
      match persistApproval env s.state.file a outcome with
      | (file, true) =>
        { s with
          state := { s.state with file := file }
          expiring := s.expiring.set i ⟨x.toPersist.eraseIdx j, x.failedIds⟩ }
      | (file, false) =>
        { s with
          state := { s.state with file := file }
          expiring := s.expiring.set i ⟨x.toPersist.eraseIdx j, x.failedIds ++ [a.id]⟩ }
  | .expireFinish i =>
    match s.expiring[i]? with
    | some ⟨[], failedIds⟩ =>
      some { s with
        state := s.state.expireRollback env failedIds
        expiring := s.expiring.eraseIdx i }
    | _ => none

/-! ## Histories -/

/-- The approval about which an operation returned `Ok`. -/
def Event.settles : Event → Option String
  | .inserted _ => none
  | .approved id _ => some id
  | .denied id _ => some id
  | .consumed id _ _ _ => some id

/-- Nothing was returned about the approval. -/
def Quiet (events : List Event) (id : String) : Prop := ∀ e ∈ events, e.settles ≠ some id

def IsInserted (events : List Event) (id : String) : Prop := ∃ a, .inserted a ∈ events ∧ a.id = id

/-- It was approved, and neither denied nor consumed. -/
structure ApprovedOnly (events : List Event) (id : String) : Prop where
  approved : ∃ resolver, .approved id resolver ∈ events
  notDenied : ∀ resolver, .denied id resolver ∉ events
  notConsumed : ∀ sessionId fingerprint now, .consumed id sessionId fingerprint now ∉ events

/-- The session that is presented is the one the approval is bound to, if it is bound. -/
def SessionMatches (env : Env) (bound request : Option String) : Prop :=
  ∀ b, bound = some b → ∃ r, request = some r ∧ bindSessionScope env r = bindSessionScope env b

/-- What must stand in the history before an event. -/
def Event.Justified (env : Env) (before : List Event) : Event → Prop
  | .inserted _ => True
  | .approved id _ => Quiet before id
  | .denied id _ => Quiet before id
  | .consumed id sessionId actionFingerprint now =>
    ApprovedOnly before id ∧ ∃ a, .inserted a ∈ before ∧ a.id = id ∧
      a.actionFingerprint = actionFingerprint ∧ actionFingerprint.isSome = true ∧
      SessionMatches env a.sessionId sessionId ∧ now ≤ a.expiresAt

/-- Every event of the history is justified by what stands before it. -/
def Good (env : Env) (events : List Event) : Prop :=
  ∀ before e after, events = before ++ e :: after → e.Justified env before

theorem good_append {env : Env} {events : List Event} {e : Event} (h : Good env events)
    (he : e.Justified env events) : Good env (events ++ [e]) := by
  intro before x after heq
  rcases List.eq_nil_or_concat after with rfl | ⟨after', y, rfl⟩
  · obtain ⟨rfl, hx⟩ := List.append_inj' heq rfl
    cases hx
    exact he
  · have hlast : events ++ [e] = (before ++ x :: after') ++ [y] := by
      rw [heq]
      simp
    obtain ⟨hevents, -⟩ := List.append_inj' hlast rfl
    exact h before x after' hevents

theorem Good.of_append {env : Env} {events es : List Event} (h : Good env (events ++ es)) :
    Good env events := by
  intro before e after heq
  refine h before e (after ++ es) ?_
  rw [heq, List.append_assoc, List.cons_append]

/-- Is this the consumption of the approval? -/
def Event.isConsumptionOf (id : String) : Event → Bool
  | .consumed i _ _ _ => i == id
  | _ => false

/-- In a justified history an approval is consumed at most once. -/
theorem Good.countP_le_one {env : Env} {events : List Event} (h : Good env events) (id : String) :
    events.countP (Event.isConsumptionOf id) ≤ 1 := by
  induction events using List.reverseRecOn with
  | nil => exact Nat.zero_le 1
  | append_singleton events e ih =>
    have hbefore := ih h.of_append
    rw [List.countP_append, List.countP_singleton]
    split
    · rename_i hconsumed
      have hzero : events.countP (Event.isConsumptionOf id) = 0 := by
        rw [List.countP_eq_zero]
        intro x hx hx'
        cases e with
        | consumed i sessionId fingerprint now =>
          cases x with
          | consumed j sessionId' fingerprint' now' =>
            obtain rfl : i = id := eq_of_beq hconsumed
            obtain rfl : j = i := eq_of_beq hx'
            exact (h events _ [] rfl).1.notConsumed _ _ _ hx
          | inserted a => cases hx'
          | approved i r => cases hx'
          | denied i r => cases hx'
        | inserted a => cases hconsumed
        | approved i r => cases hconsumed
        | denied i r => cases hconsumed
      omega
    · omega

/-- In a justified history nothing about an approval is `Ok` twice but the approval and then the
    consumption: who is consumed is never denied. -/
theorem Good.not_denied {env : Env} {before after : List Event} {id : String}
    {sessionId fingerprint : Option String} {now : Int}
    (h : Good env (before ++ .consumed id sessionId fingerprint now :: after)) (resolver : String) :
    .denied id resolver ∉ before ++ .consumed id sessionId fingerprint now :: after := by
  intro hmem
  rcases List.mem_append.mp hmem with hmem | hmem
  · exact (h before _ after rfl).1.notDenied resolver hmem
  · rcases List.mem_cons.mp hmem with heq | hmem
    · cases heq
    · obtain ⟨mid, rest, rfl⟩ := List.append_of_mem hmem
      have hquiet : Quiet (before ++ .consumed id sessionId fingerprint now :: mid) id :=
        h _ (.denied id resolver) rest (by simp)
      exact hquiet (.consumed id sessionId fingerprint now) (by simp) rfl

theorem quiet_append {events es : List Event} {id : String} :
    Quiet (events ++ es) id ↔ Quiet events id ∧ Quiet es id := by
  constructor
  · intro h
    exact ⟨fun e he => h e (List.mem_append_left _ he), fun e he => h e (List.mem_append_right _ he)⟩
  · rintro ⟨h, hes⟩ e he
    rcases List.mem_append.mp he with he | he
    · exact h e he
    · exact hes e he

theorem IsInserted.append {events : List Event} {id : String} (h : IsInserted events id)
    (es : List Event) : IsInserted (events ++ es) id := by
  obtain ⟨a, ha, hid⟩ := h
  exact ⟨a, List.mem_append_left _ ha, hid⟩

/-- Events about other approvals change nothing for this one. -/
theorem ApprovedOnly.append {events es : List Event} {id : String} (h : ApprovedOnly events id)
    (hes : Quiet es id) : ApprovedOnly (events ++ es) id where
  approved := by
    obtain ⟨resolver, hmem⟩ := h.approved
    exact ⟨resolver, List.mem_append_left _ hmem⟩
  notDenied resolver hmem := by
    rcases List.mem_append.mp hmem with hmem | hmem
    · exact h.notDenied resolver hmem
    · exact hes _ hmem rfl
  notConsumed sessionId fingerprint now hmem := by
    rcases List.mem_append.mp hmem with hmem | hmem
    · exact h.notConsumed sessionId fingerprint now hmem
    · exact hes _ hmem rfl

/-- An approval about which nothing was returned is, when it is approved, only approved. -/
theorem approvedOnly_of_quiet {events : List Event} {id : String} (h : Quiet events id)
    (resolver : String) : ApprovedOnly (events ++ [.approved id resolver]) id where
  approved := ⟨resolver, by simp⟩
  notDenied other hmem := by
    rcases List.mem_append.mp hmem with hmem | hmem
    · exact h _ hmem rfl
    · simp at hmem
  notConsumed sessionId fingerprint now hmem := by
    rcases List.mem_append.mp hmem with hmem | hmem
    · exact h _ hmem rfl
    · simp at hmem

/-! ## The invariant -/

/-- The entries of the memory and the approvals that expiry runs may take back, against the
    history. -/
structure Inv (env : Env) (look : String → Option PendingApproval) (marked : List String)
    (events : List Event) : Prop where
  origin : ∀ id a, look id = some a → a.id = id ∧ .inserted a.created ∈ events
  pendingQuiet : ∀ id a, look id = some a → a.status = .pending → Quiet events id
  approvedOnly : ∀ id a, look id = some a → a.status = .approved → ApprovedOnly events id
  markedQuiet : ∀ id ∈ marked, Quiet events id ∧ IsInserted events id ∧
    ∀ a, look id = some a → a.status = .expired
  markedNodup : marked.Nodup
  settledInserted : ∀ e ∈ events, ∀ id, e.settles = some id → IsInserted events id
  good : Good env events

section Changes

variable {env : Env} {look look' : String → Option PendingApproval} {marked marked' : List String}
  {events : List Event}

theorem Inv.isInserted (h : Inv env look marked events) {id : String} {a : PendingApproval}
    (ha : look id = some a) : IsInserted events id :=
  ⟨a.created, (h.origin id a ha).2, (h.origin id a ha).1⟩

/-- Entries may go, and so may what expiry runs could take back. -/
theorem Inv.restrict (h : Inv env look marked events)
    (hlook : ∀ id a, look' id = some a → look id = some a) (hmarked : List.Subperm marked' marked) :
    Inv env look' marked' events where
  origin id a ha := h.origin id a (hlook id a ha)
  pendingQuiet id a ha := h.pendingQuiet id a (hlook id a ha)
  approvedOnly id a ha := h.approvedOnly id a (hlook id a ha)
  markedQuiet id hid := by
    obtain ⟨hquiet, hinserted, hexpired⟩ := h.markedQuiet id (hmarked.subset hid)
    exact ⟨hquiet, hinserted, fun a ha => hexpired a (hlook id a ha)⟩
  markedNodup := by
    obtain ⟨l, hperm, hsub⟩ := hmarked
    exact hperm.nodup_iff.mp (h.markedNodup.sublist hsub)
  settledInserted := h.settledInserted
  good := h.good

/-- A new approval comes in. -/
theorem Inv.insert (h : Inv env look marked events) {a : PendingApproval} (hcreated : a.created = a)
    (hfresh : ¬IsInserted events a.id)
    (hlook : ∀ i, look' i = if i = a.id then some a else look i) :
    Inv env look' marked (events ++ [.inserted a]) := by
  have hquiet : ∀ id, Quiet [.inserted a] id := by
    intro id e he
    rw [List.mem_singleton.mp he]
    exact nofun
  have hstatus : a.status = .pending := by
    rw [← hcreated]
    rfl
  constructor
  case origin =>
    intro id b hb
    rw [hlook] at hb
    split at hb
    · rename_i hid
      cases hb
      rw [hcreated]
      exact ⟨hid.symm, by simp⟩
    · obtain ⟨hid, hmem⟩ := h.origin id b hb
      exact ⟨hid, List.mem_append_left _ hmem⟩
  case pendingQuiet =>
    intro id b hb hpending
    rw [hlook] at hb
    refine quiet_append.mpr ⟨?_, hquiet id⟩
    split at hb
    · rename_i hid
      intro e he hsettles
      exact hfresh (hid ▸ h.settledInserted e he id hsettles)
    · exact h.pendingQuiet id b hb hpending
  case approvedOnly =>
    intro id b hb happroved
    rw [hlook] at hb
    split at hb
    · cases hb
      rw [hstatus] at happroved
      cases happroved
    · exact (h.approvedOnly id b hb happroved).append (hquiet id)
  case markedQuiet =>
    intro id hid
    obtain ⟨hq, hinserted, hexpired⟩ := h.markedQuiet id hid
    refine ⟨quiet_append.mpr ⟨hq, hquiet id⟩, hinserted.append _, fun b hb => ?_⟩
    rw [hlook, if_neg] at hb
    · exact hexpired b hb
    · rintro rfl
      exact hfresh hinserted
  case markedNodup => exact h.markedNodup
  case settledInserted =>
    intro e he id hsettles
    rcases List.mem_append.mp he with he | he
    · exact (h.settledInserted e he id hsettles).append _
    · exact absurd hsettles (hquiet id e he)
  case good => exact good_append h.good trivial

/-- One approval gets another state, and an operation may return `Ok` about it.  An approval that an
    expiry run may take back stays expired. -/
theorem Inv.update (h : Inv env look marked events) {id : String} {a b : PendingApproval}
    (es : List Event) (ha : look id = some a) (hcreated : b.created = a.created)
    (hmarked : id ∈ marked → b.status = .expired ∧ es = [])
    (hes : ∀ e ∈ es, e.settles = some id)
    (hpending : b.status = .pending → Quiet (events ++ es) id)
    (happroved : b.status = .approved → ApprovedOnly (events ++ es) id)
    (hgood : Good env (events ++ es)) (hlook : ∀ i, look' i = if i = id then some b else look i) :
    Inv env look' marked (events ++ es) := by
  have hquiet : ∀ i, i ≠ id → Quiet es i := by
    intro i hi e he hsettles
    rw [hes e he] at hsettles
    cases hsettles
    exact hi rfl
  constructor
  case origin =>
    intro i x hx
    rw [hlook] at hx
    split at hx
    · rename_i hi
      cases hx
      obtain ⟨hid, hmem⟩ := h.origin id a ha
      have hb : b.created.id = a.created.id := congrArg PendingApproval.id hcreated
      change b.id = a.id at hb
      rw [hcreated, hb, hi]
      exact ⟨hid, List.mem_append_left _ hmem⟩
    · obtain ⟨hid, hmem⟩ := h.origin i x hx
      exact ⟨hid, List.mem_append_left _ hmem⟩
  case pendingQuiet =>
    intro i x hx hx'
    rw [hlook] at hx
    split at hx
    · rename_i hi
      cases hx
      exact hi ▸ hpending hx'
    · rename_i hi
      exact quiet_append.mpr ⟨h.pendingQuiet i x hx hx', hquiet i hi⟩
  case approvedOnly =>
    intro i x hx hx'
    rw [hlook] at hx
    split at hx
    · rename_i hi
      cases hx
      exact hi ▸ happroved hx'
    · rename_i hi
      exact (h.approvedOnly i x hx hx').append (hquiet i hi)
  case markedQuiet =>
    intro i hi
    obtain ⟨hq, hinserted, hexpired⟩ := h.markedQuiet i hi
    by_cases hid : i = id
    · subst hid
      obtain ⟨hb, rfl⟩ := hmarked hi
      rw [List.append_nil]
      refine ⟨hq, hinserted, fun x hx => ?_⟩
      rw [hlook, if_pos rfl] at hx
      cases hx
      exact hb
    · refine ⟨quiet_append.mpr ⟨hq, hquiet i hid⟩, hinserted.append _, fun x hx => ?_⟩
      rw [hlook, if_neg hid] at hx
      exact hexpired x hx
  case markedNodup => exact h.markedNodup
  case settledInserted =>
    intro e he i hsettles
    rcases List.mem_append.mp he with he | he
    · exact (h.settledInserted e he i hsettles).append _
    · rw [hes e he] at hsettles
      cases hsettles
      exact (h.isInserted ha).append _
  case good => exact hgood

/-- An expiry run marks the stale approvals: each of them was pending, so no other run can take it
    back already. -/
theorem Inv.mark (h : Inv env look marked events) (now : Int) {ids : List String}
    (hlook : ∀ id a', look' id = some a' → ∃ a, look id = some a ∧ a' = a.expire now)
    (hids : ∀ id ∈ ids, ∃ a, look id = some a ∧ a.isStale now = true) (hnodup : ids.Nodup) :
    Inv env look' (marked ++ ids) events := by
  -- an entry is as it was, or it was pending and is expired
  have hentry : ∀ id a', look' id = some a' → ∃ a, look id = some a ∧
      (a' = a ∨ a.isStale now = true ∧ a' = a.markExpired) := by
    intro id a' ha'
    obtain ⟨a, ha, rfl⟩ := hlook id a' ha'
    refine ⟨a, ha, ?_⟩
    cases hstale : a.isStale now with
    | false => exact .inl (expire_of_not_isStale hstale)
    | true => exact .inr ⟨rfl, expire_of_isStale hstale⟩
  constructor
  case origin =>
    intro id a' ha'
    obtain ⟨a, ha, rfl | ⟨-, rfl⟩⟩ := hentry id a' ha'
    · exact h.origin id _ ha
    · exact h.origin id a ha
  case pendingQuiet =>
    intro id a' ha' hpending
    obtain ⟨a, ha, rfl | ⟨-, rfl⟩⟩ := hentry id a' ha'
    · exact h.pendingQuiet id _ ha hpending
    · cases hpending
  case approvedOnly =>
    intro id a' ha' happroved
    obtain ⟨a, ha, rfl | ⟨-, rfl⟩⟩ := hentry id a' ha'
    · exact h.approvedOnly id _ ha happroved
    · cases happroved
  case markedQuiet =>
    intro id hid
    rcases List.mem_append.mp hid with hold | hnew
    · obtain ⟨hq, hinserted, hexpired⟩ := h.markedQuiet id hold
      refine ⟨hq, hinserted, fun a' ha' => ?_⟩
      obtain ⟨a, ha, rfl | ⟨-, rfl⟩⟩ := hentry id a' ha'
      · exact hexpired _ ha
      · rfl
    · obtain ⟨a, ha, hstale⟩ := hids id hnew
      refine ⟨h.pendingQuiet id a ha (status_of_isStale hstale), h.isInserted ha, fun a' ha' => ?_⟩
      obtain ⟨x, hx, rfl⟩ := hlook id a' ha'
      rw [ha] at hx
      cases hx
      rw [expire_of_isStale hstale]
      rfl
  case markedNodup =>
    refine List.nodup_append.mpr ⟨h.markedNodup, hnodup, ?_⟩
    rintro id hold _ hnew rfl
    obtain ⟨a, ha, hstale⟩ := hids id hnew
    have hexpired := (h.markedQuiet id hold).2.2 a ha
    rw [status_of_isStale hstale] at hexpired
    cases hexpired
  case settledInserted => exact h.settledInserted
  case good => exact h.good

/-- An expiry run takes marks back: what it marked is still expired or gone, and nothing was returned
    about it. -/
theorem Inv.revive (h : Inv env look marked events) (ids : List String)
    (hmarked : List.Perm marked (ids ++ marked'))
    (hlook : ∀ i, look' i = if i ∈ ids then (look i).map PendingApproval.unexpire else look i) :
    Inv env look' marked' events := by
  obtain ⟨-, hnodup, hdisjoint⟩ := List.nodup_append.mp (hmarked.nodup_iff.mp h.markedNodup)
  have hof : ∀ {i}, i ∈ ids ++ marked' → i ∈ marked := fun hi => hmarked.mem_iff.mpr hi
  have hentry : ∀ id a', look' id = some a' → look id = some a' ∨
      ∃ a, look id = some a ∧ id ∈ ids ∧ a' = { a with status := .pending } := by
    intro id a' ha'
    rw [hlook] at ha'
    split at ha'
    · rename_i hid
      obtain ⟨a, ha, rfl⟩ := Option.map_eq_some_iff.mp ha'
      have hexpired := (h.markedQuiet id (hof (List.mem_append_left _ hid))).2.2 a ha
      exact .inr ⟨a, ha, hid, if_pos hexpired⟩
    · exact .inl ha'
  constructor
  case origin =>
    intro id a' ha'
    obtain ha | ⟨a, ha, -, rfl⟩ := hentry id a' ha'
    · exact h.origin id a' ha
    · exact h.origin id a ha
  case pendingQuiet =>
    intro id a' ha' hpending
    obtain ha | ⟨a, ha, hid, rfl⟩ := hentry id a' ha'
    · exact h.pendingQuiet id a' ha hpending
    · exact (h.markedQuiet id (hof (List.mem_append_left _ hid))).1
  case approvedOnly =>
    intro id a' ha' happroved
    obtain ha | ⟨a, ha, -, rfl⟩ := hentry id a' ha'
    · exact h.approvedOnly id a' ha happroved
    · cases happroved
  case markedQuiet =>
    intro id hid
    obtain ⟨hq, hinserted, hexpired⟩ := h.markedQuiet id (hof (List.mem_append_right _ hid))
    refine ⟨hq, hinserted, fun a' ha' => ?_⟩
    obtain ha | ⟨a, ha, hid', rfl⟩ := hentry id a' ha'
    · exact hexpired a' ha
    · exact absurd rfl (hdisjoint id hid' id hid)
  case markedNodup => exact hnodup
  case settledInserted => exact h.settledInserted
  case good => exact h.good

end Changes

/-! ## Each section keeps it -/

/-- The place of an operation under way: what stands before and after it. -/
theorem exists_split_of_getElem? {α : Type*} {l : List α} {i : Nat} {x : α} (h : l[i]? = some x) :
    ∃ before after, l = before ++ x :: after ∧ l.eraseIdx i = before ++ after ∧
      ∀ y, l.set i y = before ++ y :: after := by
  obtain ⟨hi, rfl⟩ := List.getElem?_eq_some_iff.mp h
  refine ⟨l.take i, l.drop (i + 1), ?_, List.eraseIdx_eq_take_drop_succ l i, ?_⟩
  · rw [List.getElem_cons_drop, List.take_append_drop]
  · intro y
    rw [List.set_eq_take_append_cons_drop, if_pos hi]

/-- The approvals that some expiry run may still take back. -/
def System.marked (s : System) : List String := s.expiring.flatMap Expiring.ids

/-- The invariant of a system. -/
def System.Ok (env : Env) (s : System) : Prop :=
  Inv env s.state.pending.lookup s.marked s.events

theorem start_ok (env : Env) (file : LogFile) : (System.start file).Ok env where
  origin id a ha := by cases ha
  pendingQuiet id a ha := by cases ha
  approvedOnly id a ha := by cases ha
  markedQuiet id hid := by cases hid
  markedNodup := List.nodup_nil
  settledInserted e he := by cases he
  good before e after h := by
    have hlength := congrArg List.length h
    simp [System.start] at hlength

section Sections

variable {env : Env} {config : Config} {s s' : System}

/-- The session and the fingerprint of a consumption are those of the approval. -/
theorem scopeMatches_spec {a : PendingApproval} {sessionId actionFingerprint : Option String}
    (hfingerprint : a.actionFingerprint.isSome = true)
    (h : a.scopeMatches env sessionId actionFingerprint = true) :
    a.actionFingerprint = actionFingerprint ∧ SessionMatches env a.sessionId sessionId := by
  unfold PendingApproval.scopeMatches at h
  obtain ⟨hsession, hfp⟩ := (Bool.and_eq_true _ _).mp h
  constructor
  · split at hfp
    · rename_i hnone
      rw [hnone] at hfingerprint
      cases hfingerprint
    · rename_i bound request hbound
      rw [hbound, eq_of_beq hfp]
    · cases hfp
  · intro b hb
    rw [hb] at hsession
    split at hsession
    · rename_i hnone
      cases hnone
    · rename_i bound request hbound
      cases hbound
      exact ⟨request, rfl, eq_of_beq hsession⟩
    · cases hsession

/-- A decision: an approval that was pending is now approved, denied, expired or pending again. -/
theorem resolve_ok (h : s.Ok env) {resolution : Resolution} {id resolver : String} {now now' : Int}
    {outcome : PersistOutcome} {st : State} {r : Except ApprovalError PendingApproval}
    {event : Event} (hevent : event = .approved id resolver ∧ resolution = .approve ∨
      event = .denied id resolver ∧ resolution = .deny)
    (hr : s.state.resolve env resolution id resolver now now' outcome = (st, r)) :
    Inv env st.pending.lookup s.marked (s.events ++ okEvent r event) := by
  have hsettles : event.settles = some id := by
    rcases hevent with ⟨rfl, -⟩ | ⟨rfl, -⟩
    · rfl
    · rfl
  rcases resolve_cases hr with ⟨rfl, e, rfl⟩ | ⟨a, ha, hpending, hcase⟩
  · rw [okEvent, List.append_nil]
    exact h
  · have hquiet : Quiet s.events id := h.pendingQuiet id a ha hpending
    have hunmarked : id ∉ s.marked := by
      intro hid
      have hexpired := (h.markedQuiet id hid).2.2 a ha
      rw [hpending] at hexpired
      cases hexpired
    rcases hcase with ⟨-, rfl, rfl⟩ | ⟨-, rfl, rfl⟩ | ⟨n, next, back, -, hback, hcreated, rfl, rfl⟩
    · -- past its expiry
      rw [okEvent]
      refine h.update (b := a.markExpired) _ ha rfl (fun hid => absurd hid hunmarked) (by simp)
        nofun nofun ?_ (lookup_insert_eq _ _ · _)
      rw [List.append_nil]
      exact h.good
    · -- the decision
      rw [okEvent]
      refine h.update (b := a.resolveWith resolution resolver now') _ ha rfl
        (fun hid => absurd hid hunmarked) ?_ ?_ ?_ ?_ (lookup_insert_eq _ _ · _)
      · intro e he
        rw [List.mem_singleton.mp he, hsettles]
      · intro hstatus
        change resolution.status = .pending at hstatus
        cases resolution with
        | approve => cases hstatus
        | deny => cases hstatus
      · intro hstatus
        change resolution.status = .approved at hstatus
        rcases hevent with ⟨rfl, -⟩ | ⟨-, rfl⟩
        · exact approvedOnly_of_quiet hquiet resolver
        · cases hstatus
      · refine good_append h.good ?_
        rcases hevent with ⟨rfl, -⟩ | ⟨rfl, -⟩
        · exact hquiet
        · exact hquiet
    · -- the write failed
      rw [okEvent]
      refine h.update (b := back) _ ha hcreated (fun hid => absurd hid hunmarked) (by simp) ?_ ?_ ?_
        (lookup_insert_insert _ _ · _ _)
      · intro _
        rw [List.append_nil]
        exact hquiet
      · intro hstatus
        rw [hback] at hstatus
        cases hstatus
      · rw [List.append_nil]
        exact h.good

/-- A consumption: an approved approval is consumed; past its expiry any approval is expired. -/
theorem consume_ok (h : s.Ok env) {id : String} {sessionId actionFingerprint : Option String}
    {now now' : Int} {outcome : PersistOutcome} {st : State} {r : Except ApprovalError Bool}
    (hr : s.state.consumeApproved env id sessionId actionFingerprint now now' outcome = (st, r)) :
    (r = .ok true → Inv env st.pending.lookup s.marked
      (s.events ++ [.consumed id sessionId actionFingerprint now])) ∧
    (r ≠ .ok true → Inv env st.pending.lookup s.marked s.events) := by
  rcases consume_cases hr with ⟨rfl, hne⟩ | ⟨a, ha, ⟨-, rfl, rfl⟩ | ⟨hnow, happroved, hsome, hscope, hcase⟩⟩
  · exact ⟨fun heq => absurd heq hne, fun _ => h⟩
  · refine ⟨nofun, fun _ => ?_⟩
    have hkept := h.update (b := a.markExpired) [] ha rfl (fun _ => ⟨rfl, rfl⟩) (by simp)
      nofun nofun (by rw [List.append_nil]; exact h.good)
      (lookup_insert_eq s.state.pending id · a.markExpired)
    rwa [List.append_nil] at hkept
  · have honly : ApprovedOnly s.events id := h.approvedOnly id a ha happroved
    have hunmarked : id ∉ s.marked := by
      intro hid
      have hexpired := (h.markedQuiet id hid).2.2 a ha
      rw [happroved] at hexpired
      cases hexpired
    rcases hcase with ⟨-, rfl, rfl⟩ | ⟨n, back, -, hback, hcreated, rfl, rfl⟩
    · refine ⟨fun _ => ?_, fun hne => absurd rfl hne⟩
      refine h.update (b := a.consume now') _ ha rfl (fun hid => absurd hid hunmarked) ?_ nofun nofun
        (good_append h.good ⟨honly, a.created, (h.origin id a ha).2, (h.origin id a ha).1, ?_⟩)
        (lookup_insert_eq _ _ · _)
      · intro e he
        rw [List.mem_singleton.mp he]
        rfl
      · obtain ⟨hfingerprint, hsession⟩ := scopeMatches_spec hsome hscope
        refine ⟨hfingerprint, hfingerprint ▸ hsome, hsession, ?_⟩
        show now ≤ a.expiresAt
        omega
    · refine ⟨nofun, fun _ => ?_⟩
      have hkept := h.update (b := back) [] ha hcreated (fun hid => absurd hid hunmarked)
        (by simp) (fun hstatus => absurd (hback.symm.trans hstatus) nofun)
        (fun _ => by rw [List.append_nil]; exact honly) (by rw [List.append_nil]; exact h.good)
        (lookup_insert_insert s.state.pending id · (a.consume now') back)
      rwa [List.append_nil] at hkept

/-- Marking: the approvals to write were pending and are distinct. -/
theorem expireMark_ok (h : s.Ok env) (now : Int) :
    Inv env (s.state.expireMark env now).1.pending.lookup
      (s.marked ++ ((s.state.expireMark env now).2.map (·.id))) s.events := by
  refine Inv.mark h now ?_ ?_ ?_
  · intro id a' ha'
    obtain ⟨a, ha, heq, -⟩ := (lookup_expireMark env).mp ha'
    exact ⟨a, ha, heq⟩
  · intro id hid
    obtain ⟨x, hx, rfl⟩ := List.mem_map.mp hid
    obtain ⟨key, a, ha, hstale, rfl⟩ := mem_expireMark_toPersist.mp hx
    have hkey : a.id = key := (h.origin key a ha).1
    exact ⟨a, hkey ▸ ha, hstale⟩
  · -- an approval is filed under its id, so these are some of the keys of the map
    have hkeys : (s.state.pending.entries.map (·.2)).map (·.id) = s.state.pending.keys := by
      rw [List.map_map]
      refine List.map_congr_left fun e he => ?_
      exact (h.origin e.1 e.2 (mem_entries_iff.mp he)).1
    have hids : (s.state.expireMark env now).2.map (·.id) =
        ((s.state.pending.entries.map (·.2)).filter (·.isStale now)).map (·.id) := by
      rw [State.expireMark, List.map_map]
      refine List.map_congr_left fun a _ => ?_
      show (a.expire now).id = a.id
      rw [PendingApproval.expire]
      split
      · rfl
      · rfl
    rw [hids]
    refine List.Nodup.sublist (List.filter_sublist.map _) ?_
    rw [hkeys]
    exact s.state.pending.keys_nodup

/-- The UUID that an insertion draws is new. -/
def System.FreshFor (s : System) (step : Step) : Prop :=
  ∀ id, step.newId = some id → ¬IsInserted s.events id

/-- Taking a new approval out again only takes an entry out. -/
theorem createRollback_ok (h : s.Ok env) (a : PendingApproval) :
    Inv env (s.state.createRollback env a).pending.lookup s.marked s.events := by
  rcases createRollback_cases env s.state a with heq | ⟨current, -, -, heq⟩
  · rw [heq]
    exact h
  · rw [heq]
    refine h.restrict (fun id b hb => ?_) (List.Subperm.refl _)
    change (s.state.pending.erase a.id).lookup id = some b at hb
    rw [lookup_erase_eq] at hb
    split at hb
    · cases hb
    · exact hb

/-- An expiry run that holds fewer ids in place of another one. -/
theorem subperm_flatMap_set {expiring : List Expiring} {i : Nat} {x y : Expiring}
    (hi : expiring[i]? = some x) (hsub : List.Subperm y.ids x.ids) :
    List.Subperm ((expiring.set i y).flatMap Expiring.ids) (expiring.flatMap Expiring.ids) := by
  obtain ⟨before, after, hsplit, -, hset⟩ := exists_split_of_getElem? hi
  rw [hset, hsplit]
  simp only [List.flatMap_append, List.flatMap_cons]
  exact (List.subperm_append_left _).mpr ((List.subperm_append_right _).mpr hsub)

/-- An approval whose line could not be written stays among the ids of its run. -/
theorem perm_ids_failed {x : Expiring} {j : Nat} {a : PendingApproval}
    (hj : x.toPersist[j]? = some a) :
    List.Perm (Expiring.mk (x.toPersist.eraseIdx j) (x.failedIds ++ [a.id])).ids x.ids := by
  obtain ⟨first, rest, hpersist, herase, -⟩ := exists_split_of_getElem? hj
  rw [Expiring.ids, Expiring.ids, herase, hpersist, ← List.append_assoc, List.map_append,
    List.map_append, List.map_cons]
  refine List.perm_append_comm.trans ?_
  rw [List.append_assoc, List.append_assoc]
  show List.Perm (a.id :: (first.map _ ++ (rest.map _ ++ x.failedIds)))
    (first.map _ ++ a.id :: (rest.map _ ++ x.failedIds))
  exact List.perm_middle.symm

/-- **One section keeps the invariant.** -/
theorem step_inv {step : Step} (h : s.Ok env) (hfresh : s.FreshFor step)
    (hstep : s.step env config step = some s') : s'.Ok env := by
  cases step with
  | createFind request =>
    cases hstep
    exact h
  | createInsert request id now =>
    rw [System.step] at hstep
    split at hstep
    · cases hstep
      exact h
    · dsimp only at hstep
      split at hstep
      · rename_i st hr
        cases hstep
        obtain ⟨-, hne⟩ | ⟨-, -, rfl⟩ := createInsert_cases hr
        · exact absurd rfl hne
        · exact h.insert rfl (hfresh id rfl) (lookup_insert_eq _ _ · _)
      · rename_i st r hne hr
        cases hstep
        obtain ⟨rfl, -⟩ | ⟨rfl, -⟩ := createInsert_cases hr
        · exact h
        · exact absurd rfl hne
  | createPersist i outcome =>
    obtain ⟨a, ha, rfl⟩ := Option.map_eq_some_iff.mp hstep
    cases outcome with
    | ok => exact h
    | failed n => exact h
  | createRollback i =>
    obtain ⟨a, ha, rfl⟩ := Option.map_eq_some_iff.mp hstep
    exact createRollback_ok h a
  | approve id resolver now now' outcome =>
    cases hstep
    exact resolve_ok h (.inl ⟨rfl, rfl⟩) rfl
  | deny id resolver now now' outcome =>
    cases hstep
    exact resolve_ok h (.inr ⟨rfl, rfl⟩) rfl
  | consume id sessionId actionFingerprint now now' outcome =>
    rw [System.step] at hstep
    split at hstep
    · rename_i st hr
      cases hstep
      exact (consume_ok h hr).1 rfl
    · rename_i st r hne hr
      cases hstep
      exact (consume_ok h hr).2 hne
  | expireMark now =>
    cases hstep
    have hkept := expireMark_ok h now
    have hmarked : s.marked ++ (s.state.expireMark env now).2.map (·.id) =
        (s.expiring ++ [Expiring.mk (s.state.expireMark env now).2 []]).flatMap Expiring.ids := by
      rw [List.flatMap_append, List.flatMap_singleton, Expiring.ids, List.append_nil]
      rfl
    rw [hmarked] at hkept
    exact hkept
  | expirePersist i j outcome =>
    obtain ⟨x, hi, hstep⟩ := Option.bind_eq_some_iff.mp hstep
    obtain ⟨a, hj, rfl⟩ := Option.map_eq_some_iff.mp hstep
    -- the approval leaves the run, or moves to the ones that failed
    cases outcome with
    | ok =>
      refine h.restrict (fun _ _ ha => ha) (subperm_flatMap_set hi ?_)
      exact (((List.eraseIdx_sublist _ _).map _).append_right _).subperm
    | failed n =>
      refine h.restrict (fun _ _ ha => ha) (subperm_flatMap_set hi ?_)
      exact (perm_ids_failed hj).subperm
  | expireFinish i =>
    rw [System.step] at hstep
    split at hstep
    · rename_i failedIds hi
      obtain ⟨before, after, hsplit, herase, -⟩ := exists_split_of_getElem? hi
      cases hstep
      refine h.revive failedIds ?_ (lookup_expireRollback _ _)
      rw [System.marked, System.marked, herase, hsplit]
      simp only [List.flatMap_append, List.flatMap_cons, Expiring.ids, List.map_nil, List.nil_append]
      rw [← List.append_assoc, ← List.append_assoc]
      exact List.perm_append_comm.append_right _
    · cases hstep

theorem mem_okEvent {α : Type} {r : Except ApprovalError α} {e x : Event} (h : x ∈ okEvent r e) :
    x = e := by
  cases r with
  | ok v => exact List.mem_singleton.mp h
  | error err => cases h

/-- The history only grows, and an insertion has the UUID that the section draws. -/
theorem step_events {step : Step} (hstep : s.step env config step = some s') :
    ∃ es, s'.events = s.events ++ es ∧ ∀ a, .inserted a ∈ es → step.newId = some a.id := by
  have hnone : ∀ {s' : System}, s'.events = s.events →
      ∃ es, s'.events = s.events ++ es ∧ ∀ a, .inserted a ∈ es → step.newId = some a.id :=
    fun heq => ⟨[], by rw [heq, List.append_nil], by simp⟩
  cases step with
  | createFind request =>
    cases hstep
    exact hnone rfl
  | createInsert request id now =>
    rw [System.step] at hstep
    split at hstep
    · cases hstep
      exact hnone rfl
    · dsimp only at hstep
      split at hstep
      · cases hstep
        refine ⟨_, rfl, fun a ha => ?_⟩
        cases List.mem_singleton.mp ha
        rfl
      · cases hstep
        exact hnone rfl
  | createPersist i outcome =>
    obtain ⟨a, -, rfl⟩ := Option.map_eq_some_iff.mp hstep
    cases outcome with
    | ok => exact hnone rfl
    | failed n => exact hnone rfl
  | createRollback i =>
    obtain ⟨a, -, rfl⟩ := Option.map_eq_some_iff.mp hstep
    exact hnone rfl
  | approve id resolver now now' outcome =>
    cases hstep
    refine ⟨_, rfl, fun a ha => ?_⟩
    have heq := mem_okEvent ha
    cases heq
  | deny id resolver now now' outcome =>
    cases hstep
    refine ⟨_, rfl, fun a ha => ?_⟩
    have heq := mem_okEvent ha
    cases heq
  | consume id sessionId actionFingerprint now now' outcome =>
    rw [System.step] at hstep
    split at hstep
    · cases hstep
      exact ⟨_, rfl, fun a ha => nomatch List.mem_singleton.mp ha⟩
    · cases hstep
      exact hnone rfl
  | expireMark now =>
    cases hstep
    exact hnone rfl
  | expirePersist i j outcome =>
    obtain ⟨x, -, hstep⟩ := Option.bind_eq_some_iff.mp hstep
    obtain ⟨a, -, rfl⟩ := Option.map_eq_some_iff.mp hstep
    cases outcome with
    | ok => exact hnone rfl
    | failed n => exact hnone rfl
  | expireFinish i =>
    rw [System.step] at hstep
    split at hstep
    · cases hstep
      exact hnone rfl
    · cases hstep

/-- A section inserts no approval but the one with the UUID that it draws. -/
theorem isInserted_step {step : Step} (hstep : s.step env config step = some s') (id : String)
    (h : IsInserted s'.events id) : IsInserted s.events id ∨ step.newId = some id := by
  obtain ⟨es, hevents, hes⟩ := step_events hstep
  obtain ⟨a, ha, rfl⟩ := h
  rw [hevents] at ha
  rcases List.mem_append.mp ha with hold | hnew
  · exact .inl ⟨a, hold, rfl⟩
  · exact .inr (hes a hnew)

end Sections

/-- **An approval authorizes at most one matching call.**  For every interleaving of the sections of
    the operations, with any write failing and any readings of the clock, as long as the UUIDs are
    distinct: `consume_approved(id)` returns `Ok(true)` at most once; and when it does, an earlier
    `approve(id)` returned `Ok`, no `deny(id)` ever does, and the approval was inserted with the
    presented fingerprint and, if it is bound to a session, with that session, and is not past its
    expiry. -/
theorem approval_authorizes_one_call (env : Env) (config : Config) (file : LogFile)
    (steps : List Step) (hfresh : (steps.filterMap Step.newId).Nodup) (sys : System)
    (hrun : run (System.step env config) (System.start file) steps = some sys) (id : String) :
    sys.events.countP (Event.isConsumptionOf id) ≤ 1 ∧
    ∀ before sessionId fingerprint now after,
      sys.events = before ++ .consumed id sessionId fingerprint now :: after →
      (∃ resolver, .approved id resolver ∈ before) ∧
      (∀ resolver, .denied id resolver ∉ sys.events) ∧
      ∃ a, .inserted a ∈ before ∧ a.id = id ∧ a.actionFingerprint = fingerprint ∧
        fingerprint.isSome = true ∧ SessionMatches env a.sessionId sessionId ∧
        now ≤ a.expiresAt := by
  have heach : EachStep (System.step env config) (fun s step _ => s.FreshFor step)
      (System.start file) steps := by
    refine eachStep_fresh (fun s id => IsInserted s.events id)
      (fun s step s' hstep => isInserted_step hstep) hfresh ?_
    rintro id - ⟨a, ha, -⟩
    cases ha
  have hok : sys.Ok env := by
    refine run_invariant_of_eachStep (fun s step s' _ hs hC hstep => ?_) heach (start_ok env file)
      hrun
    exact step_inv hs hC hstep
  refine ⟨hok.good.countP_le_one id, ?_⟩
  intro before sessionId fingerprint now after heq
  have hgood := hok.good
  rw [heq] at hgood ⊢
  obtain ⟨honly, happroval⟩ := hgood before _ after rfl
  exact ⟨honly.approved, hgood.not_denied, happroval⟩

/-- The plain course of an approval: created, approved, consumed. -/
def sampleSteps : List Step :=
  [.createInsert sampleRequest "a" 0,
    .createPersist 0 .ok,
    .approve "a" "bob" 1000000000 1000000000 .ok,
    .consume "a" (some "s") sampleRequest.actionFingerprint 2000000000 2000000000 .ok]

theorem sampleSteps_one_call : ∃ sys,
    run (System.step (plainEnv []) sampleConfig) (System.start .empty) sampleSteps = some sys ∧
    .consumed "a" (some "s") sampleRequest.actionFingerprint 2000000000 ∈ sys.events ∧
    sys.events.countP (Event.isConsumptionOf "a") ≤ 1 := by
  have hevents : (run (System.step (plainEnv []) sampleConfig) (System.start .empty)
      sampleSteps).map (·.events) = some
        [.inserted (sampleRequest.approval sampleConfig "a" 0), .approved "a" "bob",
          .consumed "a" (some "s") sampleRequest.actionFingerprint 2000000000] := by
    decide +kernel
  obtain ⟨sys, hrun, hsys⟩ := Option.map_eq_some_iff.mp hevents
  refine ⟨sys, hrun, by simp [hsys], ?_⟩
  exact (approval_authorizes_one_call (plainEnv []) sampleConfig .empty sampleSteps (by decide) sys
    hrun "a").1

end Vellaveto.Approval
