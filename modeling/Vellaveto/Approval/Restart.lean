/-
  RESTARTS: does an approval stay used when the process is started again?

  PROGRAM.      The interleavings of `Approval/SingleUse`, with all writes going well, and at any time a
                restart: the memory and the operations under way are gone, and `load_from_file` replays
                the lines of the file, the last line of an approval winning.

  SPEC.         Over all lifetimes together `consume_approved(id)` returns `Ok(true)` at most once, and
                what a restart brings back for an id is what was last in memory for it (`latest`).

  CORRECTNESS.  `create_with_context` and `expire_stale` write their lines after they have released the
                locks.  Two steps can therefore go wrong (`Ordered`): the line of a creation comes after
                another line of that approval, and a restart comes while an approval is expired in
                memory and its last line does not say so.  A run without such steps keeps `LifeInv`, whose
                crux is `recorded`: what is latest is the last line; or its line is still to be written
                by an expiry run; or there is no line, and it is what a creation has still to write.
    1. `LifeInv.insert`, `touch`, `writeCreated`, `mark`, `writeExpired`, `restart`   the kinds of change;
    2. `life_step_inv`                      each section and each restart keeps the invariant;
    3. `single_use_survives_restarts`       the property, over every run whose steps are `Ordered`;
    4. `lateCreation_consumed_twice`        a run with a late line, where an approval is used twice.
-/
import Vellaveto.Approval.SingleUse
import Vellaveto.Lib.Decision

namespace Vellaveto.Approval

open Vellaveto.Lib

/-! ## Lifetimes -/

/-- The history of a store over restarts. -/
structure Life where
  sys : System
  /-- what was last in memory for an id -/
  latest : String → Option PendingApproval
  /-- the approvals whose lines were written, in order -/
  written : List PendingApproval

def Life.start : Life := ⟨System.start .empty, fun _ => none, []⟩

inductive LifeStep where
  | section_ (step : Step)
  | restart (now : Int) (outcome : ReadOutcome)
deriving DecidableEq, Repr

def LifeStep.newId : LifeStep → Option String
  | .section_ step => step.newId
  | .restart _ _ => none

/-- How the write of a section ends, if it has one. -/
def Step.outcome : Step → PersistOutcome
  | .createPersist _ outcome => outcome
  | .approve _ _ _ _ outcome => outcome
  | .deny _ _ _ _ outcome => outcome
  | .consume _ _ _ _ _ outcome => outcome
  | .expirePersist _ _ outcome => outcome
  | _ => .ok

/-- No write fails. -/
def LifeStep.Persists : LifeStep → Prop
  | .section_ step => step.outcome = .ok
  | .restart _ _ => True

instance (step : LifeStep) : Decidable step.Persists :=
  match step with
  | .section_ s => inferInstanceAs (Decidable (s.outcome = .ok))
  | .restart _ _ => isTrue trivial

/-- The approval whose line a section from `s` to `s'` writes. -/
def System.writes (s s' : System) : Step → Option PendingApproval
  | .createPersist i _ => s.creating[i]?
  | .expirePersist i j _ => s.expiring[i]?.bind fun x => x.toPersist[j]?
  | .approve id _ _ _ _ => changed id
  | .deny id _ _ _ _ => changed id
  | .consume id _ _ _ _ _ => changed id
  | _ => none
where
  changed (id : String) : Option PendingApproval :=
    if s'.state.file = s.state.file then none else s'.state.pending.lookup id

/-- A new process on the file. -/
def System.restart (env : Env) (s : System) (now : Int) (outcome : ReadOutcome) : System :=
  { System.start s.state.file with
    state := ((State.fresh s.state.file).loadFromFile env now outcome).1
    events := s.events }

/-- The memory of a section from `s` to `s'` before entries are dropped: marking drops an old entry as
    soon as it is marked. -/
def System.noted (s s' : System) : Step → PendingMap
  | .expireMark now => mapValues (fun _ a => a.expire now) s.state.pending
  | _ => s'.state.pending

/-- What is in memory is the latest. -/
def Life.note (h : Life) (sys : System) (noted : PendingMap) (writes : Option PendingApproval) :
    Life where
  sys := sys
  latest id := (noted.lookup id).or (h.latest id)
  written := h.written ++ writes.toList

def Life.step (env : Env) (config : Config) (h : Life) : LifeStep → Option Life
  | .section_ step =>
    (h.sys.step env config step).map fun sys =>
      h.note sys (h.sys.noted sys step) (h.sys.writes sys step)
  | .restart now outcome =>
    let sys := h.sys.restart env now outcome
    some (h.note sys sys.state.pending none)

/-- The line of the approval is read as that approval. -/
def ReadsBack (env : Env) (a : PendingApproval) : Prop :=
  (trim (env.toLine a)).isEmpty = false ∧ env.fromLine (env.toLine a) = some a

/-- **The condition.**  The line of a creation is the first line of its approval; and at a restart the
    last line, if there is one, of every approval that an expiry run has still to write says that it
    is expired. -/
def Life.Ordered (env : Env) (h : Life) : LifeStep → Prop
  | .section_ (.createPersist i _) =>
    ∀ a, h.sys.creating[i]? = some a → ∀ v ∈ h.sys.state.replayed env, v.id ≠ a.id
  | .restart _ _ =>
    ∀ x ∈ h.sys.expiring, ∀ a ∈ x.toPersist,
      (lastVersion (h.sys.state.replayed env) a.id).all fun v => v.status == .expired
  | _ => True

instance (env : Env) (a : PendingApproval) : Decidable (ReadsBack env a) :=
  inferInstanceAs (Decidable (_ ∧ _))

instance (env : Env) (h : Life) (step : LifeStep) : Decidable (h.Ordered env step) :=
  match step with
  | .restart _ _ =>
    inferInstanceAs (Decidable (∀ x ∈ h.sys.expiring, ∀ a ∈ x.toPersist,
      (lastVersion (h.sys.state.replayed env) a.id).all (fun v => v.status == .expired) = true))
  | .section_ (.createPersist i _) =>
    inferInstanceAs (Decidable (∀ a ∈ h.sys.creating[i]?,
      ∀ v ∈ h.sys.state.replayed env, v.id ≠ a.id))
  | .section_ (.createFind _) => isTrue trivial
  | .section_ (.createInsert _ _ _) => isTrue trivial
  | .section_ (.createRollback _) => isTrue trivial
  | .section_ (.approve _ _ _ _ _) => isTrue trivial
  | .section_ (.deny _ _ _ _ _) => isTrue trivial
  | .section_ (.consume _ _ _ _ _ _) => isTrue trivial
  | .section_ (.expireMark _) => isTrue trivial
  | .section_ (.expirePersist _ _ _) => isTrue trivial
  | .section_ (.expireFinish _) => isTrue trivial

/-! ## The invariant -/

/-- Is the latest version of an approval on record?  It is the last line; or its line is still to be
    written by an expiry run; or there is no line, and the one that a creation has still to write is
    of this version. -/
def Recorded (written creating inFlight : List PendingApproval) (id : String)
    (a : PendingApproval) : Prop :=
  lastVersion written id = some a ∨
  (a ∈ inFlight ∧ ∀ v, lastVersion written id = some v → v.status ≠ .expired) ∨
  (lastVersion written id = none ∧ ∀ x ∈ creating, x.id = id → x = a)

/-- The memory, the latest versions, the log, the approvals with a line still to come from a creation
    and from an expiry run, and the history. -/
structure LifeInv (mem latest : String → Option PendingApproval)
    (written creating inFlight : List PendingApproval) (events : List Event) : Prop where
  current : ∀ id a, mem id = some a → latest id = some a
  origin : ∀ id a, latest id = some a → a.id = id ∧ .inserted a.created ∈ events
  insertedLatest : ∀ a, .inserted a ∈ events → ∃ v, latest a.id = some v
  creatingInserted : ∀ a ∈ creating, .inserted a ∈ events ∧ a.created = a
  writtenInserted : ∀ a ∈ written, .inserted a.created ∈ events
  inFlightLatest : ∀ a ∈ inFlight, latest a.id = some a ∧ a.status = .expired
  recorded : ∀ id a, latest id = some a → Recorded written creating inFlight id a
  consumedOver : ∀ id, events.any (Event.isConsumptionOf id) = true →
    ∃ a, latest id = some a ∧ (a.status = .consumed ∨ a.status = .expired)
  once : ∀ id, events.countP (Event.isConsumptionOf id) ≤ 1

theorem Recorded.mono {written creating creating' inFlight inFlight' : List PendingApproval}
    {id : String} {a : PendingApproval} (h : Recorded written creating inFlight id a)
    (hcreating : ∀ x ∈ creating', x.id = id → x ∈ creating)
    (hinFlight : a ∈ inFlight → a ∈ inFlight') : Recorded written creating' inFlight' id a := by
  rcases h with hlast | ⟨ha, hlast⟩ | ⟨hnone, hsame⟩
  · exact .inl hlast
  · exact .inr (.inl ⟨hinFlight ha, hlast⟩)
  · exact .inr (.inr ⟨hnone, fun x hx hid => hsame x (hcreating x hx hid) hid⟩)

/-- A line of another approval changes nothing. -/
theorem Recorded.append {written creating inFlight : List PendingApproval} {id : String}
    {a b : PendingApproval} (h : Recorded written creating inFlight id a) (hid : id ≠ b.id) :
    Recorded (written ++ [b]) creating inFlight id a := by
  rw [Recorded, lastVersion_append, if_neg hid]
  exact h

section Changes

variable {mem mem' latest latest' : String → Option PendingApproval}
  {written creating creating' inFlight inFlight' : List PendingApproval} {events : List Event}

theorem LifeInv.not_mem_written (h : LifeInv mem latest written creating inFlight events)
    {id : String} (hfresh : ¬IsInserted events id) : ∀ v ∈ written, v.id ≠ id := by
  rintro v hv rfl
  exact hfresh ⟨v.created, h.writtenInserted v hv, rfl⟩

/-- What is approved was not consumed so far. -/
theorem LifeInv.countP_of_approved (h : LifeInv mem latest written creating inFlight events)
    {id : String} {a : PendingApproval} (ha : latest id = some a) (happroved : a.status = .approved) :
    events.countP (Event.isConsumptionOf id) = 0 := by
  rw [List.countP_eq_zero]
  intro e he hconsumes
  obtain ⟨x, hx, hstatus⟩ := h.consumedOver id (List.any_eq_true.mpr ⟨e, he, hconsumes⟩)
  rw [ha] at hx
  cases hx
  rw [happroved] at hstatus
  rcases hstatus with hstatus | hstatus
  · cases hstatus
  · cases hstatus

/-- Memory stays at the latest versions when both change at one id. -/
theorem current_update (h : ∀ id a, mem id = some a → latest id = some a) {id : String}
    {b : PendingApproval} (hmem : ∀ i, mem' i = if i = id then some b else mem i)
    (hlatest : ∀ i, latest' i = if i = id then some b else latest i) :
    ∀ i a, mem' i = some a → latest' i = some a := by
  intro i x hx
  rw [hmem] at hx
  rw [hlatest]
  split at hx
  · rename_i hi
    rw [if_pos hi]
    exact hx
  · rename_i hi
    rw [if_neg hi]
    exact h i x hx

/-- A new approval comes in; there is no line of it. -/
theorem LifeInv.insert (h : LifeInv mem latest written creating inFlight events)
    {a : PendingApproval} (hcreated : a.created = a) (hfresh : ¬IsInserted events a.id)
    (hmem : ∀ i, mem' i = if i = a.id then some a else mem i)
    (hlatest : ∀ i, latest' i = if i = a.id then some a else latest i) :
    LifeInv mem' latest' written (creating ++ [a]) inFlight (events ++ [.inserted a]) := by
  have hold : ∀ {x : PendingApproval}, .inserted x ∈ events → .inserted x ∈ events ++ [.inserted a] :=
    fun hx => List.mem_append_left _ hx
  have hnew : ∀ {x : PendingApproval}, .inserted x ∈ events ++ [.inserted a] →
      .inserted x ∈ events ∨ x = a := by
    intro x hx
    rcases List.mem_append.mp hx with hx | hx
    · exact .inl hx
    · cases List.mem_singleton.mp hx
      exact .inr rfl
  have hne : ∀ {x : PendingApproval}, .inserted x ∈ events → x.id ≠ a.id := by
    intro x hx heq
    exact hfresh ⟨x, hx, heq⟩
  constructor
  case current => exact current_update h.current hmem hlatest
  case origin =>
    intro id x hx
    rw [hlatest] at hx
    split at hx
    · rename_i hid
      cases hx
      rw [hcreated]
      exact ⟨hid.symm, by simp⟩
    · obtain ⟨hid, hmem⟩ := h.origin id x hx
      exact ⟨hid, hold hmem⟩
  case insertedLatest =>
    intro x hx
    rw [hlatest]
    rcases hnew hx with hx | rfl
    · rw [if_neg (hne hx)]
      exact h.insertedLatest x hx
    · exact ⟨x, if_pos rfl⟩
  case creatingInserted =>
    intro x hx
    rcases List.mem_append.mp hx with hx | hx
    · obtain ⟨hmem, hx'⟩ := h.creatingInserted x hx
      exact ⟨hold hmem, hx'⟩
    · cases List.mem_singleton.mp hx
      exact ⟨by simp, hcreated⟩
  case writtenInserted => exact fun x hx => hold (h.writtenInserted x hx)
  case inFlightLatest =>
    intro x hx
    obtain ⟨hx', hexpired⟩ := h.inFlightLatest x hx
    rw [hlatest, if_neg]
    · exact ⟨hx', hexpired⟩
    · exact hne (x := x.created) (h.origin x.id x hx').2
  case recorded =>
    intro id x hx
    rw [hlatest] at hx
    split at hx
    · rename_i hid
      cases hx
      subst hid
      refine .inr (.inr ⟨lastVersion_eq_none (h.not_mem_written hfresh), fun y hy hid => ?_⟩)
      rcases List.mem_append.mp hy with hy | hy
      · exact absurd hid (hne (h.creatingInserted y hy).1)
      · exact List.mem_singleton.mp hy
    · rename_i hid
      refine (h.recorded id x hx).mono (fun y hy hyId => ?_) fun hx' => hx'
      rcases List.mem_append.mp hy with hy | hy
      · exact hy
      · cases List.mem_singleton.mp hy
        exact absurd hyId.symm hid
  case consumedOver =>
    intro id hconsumed
    rw [List.any_append, Bool.or_eq_true] at hconsumed
    obtain ⟨x, hx, hstatus⟩ := h.consumedOver id (hconsumed.resolve_right nofun)
    refine ⟨x, ?_, hstatus⟩
    rw [hlatest, if_neg]
    · exact hx
    · rw [← (h.origin id x hx).1]
      exact hne (x := x.created) (h.origin id x hx).2
  case once =>
    intro id
    rw [List.countP_append]
    exact h.once id

/-- The line of a creation is written, as the first line of its approval. -/
theorem LifeInv.writeCreated (h : LifeInv mem latest written creating inFlight events)
    {a : PendingApproval} (ha : a ∈ creating) (hcreating : ∀ x ∈ creating', x ∈ creating)
    (hfirst : ∀ v ∈ written, v.id ≠ a.id) :
    LifeInv mem latest (written ++ [a]) creating' inFlight events where
  current := h.current
  origin := h.origin
  insertedLatest := h.insertedLatest
  creatingInserted x hx := h.creatingInserted x (hcreating x hx)
  writtenInserted x hx := by
    rcases List.mem_append.mp hx with hx | hx
    · exact h.writtenInserted x hx
    · cases List.mem_singleton.mp hx
      obtain ⟨hmem, hcreated⟩ := h.creatingInserted a ha
      rw [hcreated]
      exact hmem
  inFlightLatest := h.inFlightLatest
  recorded id x hx := by
    by_cases hid : id = a.id
    · subst hid
      obtain ⟨-, hcreated⟩ := h.creatingInserted a ha
      rw [Recorded, lastVersion_append, if_pos rfl]
      rcases h.recorded _ x hx with hlast | ⟨hx', -⟩ | ⟨-, hx'⟩
      · obtain ⟨hv, hid⟩ := mem_of_lastVersion hlast
        exact absurd hid (hfirst x hv)
      · -- marked in the meantime: the line of the expiry run is still to come
        refine .inr (.inl ⟨hx', fun v hv => ?_⟩)
        cases hv
        rw [← hcreated]
        exact nofun
      · -- not changed since it was created
        rw [hx' a ha rfl]
        exact .inl rfl
    · exact ((h.recorded id x hx).append hid).mono (fun y hy _ => hcreating y hy) fun hx' => hx'
  consumedOver := h.consumedOver
  once := h.once

/-- A line of an expiry run is written. -/
theorem LifeInv.writeExpired (h : LifeInv mem latest written creating inFlight events)
    {a : PendingApproval} (ha : a ∈ inFlight)
    (hinFlight : ∀ x, x ∈ inFlight' → x ∈ inFlight)
    (hrest : ∀ x, x ∈ inFlight → x ≠ a → x ∈ inFlight') :
    LifeInv mem latest (written ++ [a]) creating inFlight' events where
  current := h.current
  origin := h.origin
  insertedLatest := h.insertedLatest
  creatingInserted := h.creatingInserted
  writtenInserted x hx := by
    rcases List.mem_append.mp hx with hx | hx
    · exact h.writtenInserted x hx
    · cases List.mem_singleton.mp hx
      exact (h.origin a.id a (h.inFlightLatest a ha).1).2
  inFlightLatest x hx := h.inFlightLatest x (hinFlight x hx)
  recorded id x hx := by
    have hlatest := (h.inFlightLatest a ha).1
    by_cases hid : id = a.id
    · subst hid
      rw [hx] at hlatest
      cases hlatest
      rw [Recorded, lastVersion_append, if_pos rfl]
      exact .inl rfl
    · refine ((h.recorded id x hx).append hid).mono (fun y hy _ => hy) fun hx' => hrest x hx' ?_
      rintro rfl
      exact hid (h.origin id x hx).1.symm
  consumedOver := h.consumedOver
  once := h.once

/-- An expiry run marks the stale approvals, and has their lines still to write. -/
theorem LifeInv.mark (h : LifeInv mem latest written creating inFlight events) (now : Int)
    {marked : List PendingApproval}
    (hmarked : ∀ x, x ∈ marked ↔ ∃ id a, mem id = some a ∧ a.isStale now = true ∧ x = a.markExpired)
    (hmem : ∀ i a, mem' i = some a → (mem i).map (·.expire now) = some a)
    (hlatest : ∀ i, latest' i = ((mem i).map (·.expire now)).or (latest i)) :
    LifeInv mem' latest' written creating (inFlight ++ marked) events := by
  -- the latest version is the earlier one, or the earlier one was stale and is marked
  have hcases : ∀ i, latest' i = latest i ∨
      ∃ a, latest i = some a ∧ a.isStale now = true ∧
        latest' i = some a.markExpired ∧ a.markExpired ∈ marked := by
    intro i
    rw [hlatest]
    cases hi : mem i with
    | none => exact .inl rfl
    | some a =>
      cases hstale : a.isStale now with
      | false =>
        refine .inl ?_
        rw [Option.map_some, Option.some_or, expire_of_not_isStale hstale, h.current i a hi]
      | true =>
        refine .inr ⟨a, h.current i a hi, hstale, ?_, (hmarked _).mpr ⟨i, a, hi, hstale, rfl⟩⟩
        rw [Option.map_some, Option.some_or, expire_of_isStale hstale]
  constructor
  case current =>
    intro i a ha
    rw [hlatest, hmem i a ha, Option.some_or]
  case origin =>
    intro i x hx
    rcases hcases i with heq | ⟨a, ha, -, heq, -⟩
    · exact h.origin i x (heq ▸ hx)
    · rw [heq] at hx
      cases hx
      exact h.origin i a ha
  case insertedLatest =>
    intro x hx
    rcases hcases x.id with heq | ⟨a, -, -, heq, -⟩
    · rw [heq]
      exact h.insertedLatest x hx
    · exact ⟨_, heq⟩
  case creatingInserted => exact h.creatingInserted
  case writtenInserted => exact h.writtenInserted
  case inFlightLatest =>
    intro x hx
    rcases List.mem_append.mp hx with hx | hx
    · obtain ⟨hx', hexpired⟩ := h.inFlightLatest x hx
      refine ⟨?_, hexpired⟩
      rcases hcases x.id with heq | ⟨a, ha, hstale, -, -⟩
      · rw [heq]
        exact hx'
      · -- it is expired, not pending
        rw [hx'] at ha
        cases ha
        rw [status_of_isStale hstale] at hexpired
        cases hexpired
    · obtain ⟨i, a, ha, hstale, rfl⟩ := (hmarked x).mp hx
      have hid : a.id = i := (h.origin i a (h.current i a ha)).1
      refine ⟨?_, rfl⟩
      show latest' a.id = _
      rw [hid, hlatest, ha, Option.map_some, Option.some_or, expire_of_isStale hstale]
  case recorded =>
    intro i x hx
    rcases hcases i with heq | ⟨a, ha, hstale, heq, hmem'⟩
    · refine (h.recorded i x (heq ▸ hx)).mono (fun y hy _ => hy) fun hx' => ?_
      exact List.mem_append_left _ hx'
    · rw [heq] at hx
      cases hx
      refine .inr (.inl ⟨List.mem_append_right _ hmem', fun v hv => ?_⟩)
      -- the last line, if there is one, is of the pending approval
      rcases h.recorded i a ha with hlast | ⟨ha', -⟩ | ⟨hnone, -⟩
      · rw [hlast] at hv
        cases hv
        rw [status_of_isStale hstale]
        exact nofun
      · have hexpired := (h.inFlightLatest a ha').2
        rw [status_of_isStale hstale] at hexpired
        cases hexpired
      · rw [hnone] at hv
        cases hv
  case consumedOver =>
    intro i hconsumed
    obtain ⟨x, hx, hstatus⟩ := h.consumedOver i hconsumed
    rcases hcases i with heq | ⟨a, -, -, heq, -⟩
    · exact ⟨x, heq ▸ hx, hstatus⟩
    · exact ⟨_, heq, .inr rfl⟩
  case once => exact h.once

/-- An operation on one approval changes it and writes its line.  What is expired stays as it is, and
    only an approved one can be consumed. -/
theorem LifeInv.touch (h : LifeInv mem latest written creating inFlight events) {id : String}
    {a b : PendingApproval} {es : List Event} (ha : mem id = some a)
    (hcreated : b.created = a.created) (hexpired : a.status = .expired → b = a)
    (hused : a.status = .consumed → b.status = .expired) (hes : ∀ x, .inserted x ∉ es)
    (hconsumption : ∀ i, es.countP (Event.isConsumptionOf i) = 0 ∨
      i = id ∧ a.status = .approved ∧ b.status = .consumed ∧
        es.countP (Event.isConsumptionOf i) ≤ 1)
    (hmem : ∀ i, mem' i = if i = id then some b else mem i)
    (hlatest : ∀ i, latest' i = if i = id then some b else latest i) :
    LifeInv mem' latest' (written ++ [b]) creating inFlight (events ++ es) := by
  have hold : ∀ {x : PendingApproval}, .inserted x ∈ events → .inserted x ∈ events ++ es :=
    fun hx => List.mem_append_left _ hx
  have hof : ∀ {x : PendingApproval}, .inserted x ∈ events ++ es → .inserted x ∈ events := by
    intro x hx
    exact (List.mem_append.mp hx).resolve_right (hes x)
  have haLatest : latest id = some a := h.current id a ha
  obtain ⟨haId, haInserted⟩ := h.origin id a haLatest
  have hbId : b.id = id := by
    have hid : b.created.id = a.created.id := congrArg PendingApproval.id hcreated
    exact Eq.trans hid haId
  constructor
  case current => exact current_update h.current hmem hlatest
  case origin =>
    intro i x hx
    rw [hlatest] at hx
    split at hx
    · rename_i hi
      cases hx
      rw [hcreated, hi]
      exact ⟨hbId, hold haInserted⟩
    · obtain ⟨hi, hinserted⟩ := h.origin i x hx
      exact ⟨hi, hold hinserted⟩
  case insertedLatest =>
    intro x hx
    rw [hlatest]
    split
    · exact ⟨b, rfl⟩
    · exact h.insertedLatest x (hof hx)
  case creatingInserted =>
    intro x hx
    obtain ⟨hinserted, hx'⟩ := h.creatingInserted x hx
    exact ⟨hold hinserted, hx'⟩
  case writtenInserted =>
    intro x hx
    rcases List.mem_append.mp hx with hx | hx
    · exact hold (h.writtenInserted x hx)
    · cases List.mem_singleton.mp hx
      rw [hcreated]
      exact hold haInserted
  case inFlightLatest =>
    intro x hx
    obtain ⟨hx', hxExpired⟩ := h.inFlightLatest x hx
    refine ⟨?_, hxExpired⟩
    rw [hlatest]
    split
    · rename_i hi
      rw [hi, haLatest] at hx'
      cases hx'
      rw [hexpired hxExpired]
    · exact hx'
  case recorded =>
    intro i x hx
    rw [hlatest] at hx
    split at hx
    · rename_i hi
      cases hx
      refine .inl ?_
      rw [lastVersion_append, if_pos (hi.trans hbId.symm)]
    · rename_i hi
      exact (h.recorded i x hx).append fun heq => hi (heq.trans hbId)
  case consumedOver =>
    intro i hany
    rw [List.any_append, Bool.or_eq_true] at hany
    rw [hlatest]
    rcases hany with hany | hany
    · obtain ⟨x, hx, hstatus⟩ := h.consumedOver i hany
      split
      · rename_i hi
        rw [hi, haLatest] at hx
        cases hx
        refine ⟨b, rfl, .inr ?_⟩
        rcases hstatus with hstatus | hstatus
        · exact hused hstatus
        · rw [hexpired hstatus]
          exact hstatus
      · exact ⟨x, hx, hstatus⟩
    · rcases hconsumption i with hzero | ⟨rfl, -, hb, -⟩
      · rw [List.countP_eq_zero] at hzero
        obtain ⟨e, he, hconsumes⟩ := List.any_eq_true.mp hany
        exact absurd hconsumes (hzero e he)
      · exact ⟨b, if_pos rfl, .inl hb⟩
  case once =>
    intro i
    have hbefore := h.once i
    rw [List.countP_append]
    rcases hconsumption i with hzero | ⟨rfl, happroved, -, hone⟩
    · omega
    · have hzero := h.countP_of_approved haLatest happroved
      omega

/-- A restart reads back the last lines: if none of the lines that an expiry run has still to write is
    missed, that is what was latest. -/
theorem LifeInv.reload (h : LifeInv mem latest written creating inFlight events)
    (hinFlight : ∀ a ∈ inFlight, ∀ v, lastVersion written a.id = some v → v.status = .expired)
    {id : String} {a : PendingApproval} (ha : lastVersion written id = some a) :
    latest id = some a := by
  obtain ⟨hwritten, rfl⟩ := mem_of_lastVersion ha
  obtain ⟨x, hx⟩ := h.insertedLatest a.created (h.writtenInserted a hwritten)
  change latest a.id = some x at hx
  rcases h.recorded a.id x hx with hlast | ⟨hx', hlast⟩ | ⟨hnone, -⟩
  · rw [ha] at hlast
    cases hlast
    exact hx
  · have hxId : x.id = a.id := (h.origin a.id x hx).1
    exact absurd (hinFlight x hx' a (by rw [hxId, ha])) (hlast a ha)
  · rw [ha] at hnone
    cases hnone

theorem LifeInv.restart (h : LifeInv mem latest written creating inFlight events)
    (hinFlight : ∀ a ∈ inFlight, ∀ v, lastVersion written a.id = some v → v.status = .expired)
    (hmem : ∀ id a, mem' id = some a → lastVersion written id = some a)
    (hlatest : ∀ i, latest' i = (mem' i).or (latest i)) :
    LifeInv mem' latest' written [] [] events := by
  have hsame : latest' = latest := by
    funext i
    rw [hlatest]
    cases hi : mem' i with
    | none => rfl
    | some a => exact (h.reload hinFlight (hmem i a hi)).symm
  subst hsame
  refine { h with current := ?_, creatingInserted := ?_, inFlightLatest := ?_, recorded := ?_ }
  · intro i a ha
    exact h.reload hinFlight (hmem i a ha)
  · intro a ha
    cases ha
  · intro a ha
    cases ha
  · intro i a ha
    cases hlast : lastVersion written i with
    | none => exact .inr (.inr ⟨hlast, fun x hx => by cases hx⟩)
    | some v =>
      refine .inl ?_
      rw [hlast, ← h.reload hinFlight hlast, ha]

end Changes

/-! ## Each section and each restart keeps it -/

def PendingApproval.HasValidContext (a : PendingApproval) : Prop :=
  ∀ c, a.containmentContext = some c → c.validate = .ok ()

/-- The invariant of a history: that of its parts, and the file holds the lines of the log. -/
structure Life.Ok (env : Env) (h : Life) : Prop where
  inv : LifeInv h.sys.state.pending.lookup h.latest h.written h.sys.creating
    (h.sys.expiring.flatMap (·.toPersist)) h.sys.events
  file : h.sys.state.file = ⟨h.written.map env.toLine, []⟩
  noFailure : ∀ x ∈ h.sys.expiring, x.failedIds = []
  noUnwritten : h.sys.unwritten = []
  contexts : ∀ a, .inserted a ∈ h.sys.events → a.HasValidContext

/-- What `create_with_context` stores passes the check that the reader makes. -/
theorem hasValidContext_approval {request : CreateRequest} (h : request.validate = .ok ())
    (config : Config) (id : String) (now : Int) :
    (request.approval config id now).HasValidContext := by
  intro c hc
  change request.storedContext = some c at hc
  rw [CreateRequest.storedContext, Option.filter_eq_some_iff] at hc
  obtain ⟨x, hx, rfl⟩ := Option.map_eq_some_iff.mp hc.1
  refine validate_normalized ?_
  -- the check of the context is the last of five
  unfold CreateRequest.validate at h
  obtain ⟨-, -, h⟩ := bind_eq_ok_iff.mp h
  obtain ⟨-, -, h⟩ := bind_eq_ok_iff.mp h
  obtain ⟨-, -, h⟩ := bind_eq_ok_iff.mp h
  obtain ⟨-, -, h⟩ := bind_eq_ok_iff.mp h
  rw [hx, checkOption] at h
  cases hvalid : x.validate with
  | ok u => rfl
  | error e =>
    rw [hvalid] at h
    cases h

theorem readLine_toLine {env : Env} {a : PendingApproval} (h : ReadsBack env a)
    (hcontext : a.HasValidContext) : readLine env (env.toLine a) = some a := by
  rw [readLine, h.1, h.2, if_neg (by simp), Option.filter_some]
  split
  · rename_i c hc
    have hvalid : (c.validate == .ok ()) = true := by
      rw [hcontext c hc]
      rfl
    exact if_pos hvalid
  · rfl

/-- Reading the file gives the log. -/
theorem Life.Ok.replayed {env : Env} {h : Life} (hok : h.Ok env)
    (hread : ∀ v ∈ h.written, ReadsBack env v) : h.sys.state.replayed env = h.written := by
  rw [State.replayed, hok.file]
  show ((h.written.map env.toLine) ++ []).filterMap (readLine env) = h.written
  rw [List.append_nil, List.filterMap_map]
  have hsome : ∀ v ∈ h.written, (readLine env ∘ env.toLine) v = some v := by
    intro v hv
    refine readLine_toLine (hread v hv) ?_
    exact hok.contexts v.created (hok.inv.writtenInserted v hv)
  rw [List.filterMap_congr hsome, List.filterMap_some]

section Sections

variable {env : Env} {config : Config} {h : Life}

theorem start_life_ok (env : Env) : Life.start.Ok env where
  inv :=
    { current := fun id a ha => by cases ha
      origin := fun id a ha => by cases ha
      insertedLatest := fun a ha => by cases ha
      creatingInserted := fun a ha => by cases ha
      writtenInserted := fun a ha => by cases ha
      inFlightLatest := fun a ha => by cases ha
      recorded := fun id a ha => by cases ha
      consumedOver := fun id hany => by cases hany
      once := fun id => Nat.zero_le 1 }
  file := rfl
  noFailure x hx := by cases hx
  noUnwritten := rfl
  contexts a ha := by cases ha

/-- As long as the memory stays as it is, so does what is latest. -/
theorem Life.Ok.latest_eq (hok : h.Ok env) (i : String) :
    (h.sys.state.pending.lookup i).or (h.latest i) = h.latest i := by
  cases hi : h.sys.state.pending.lookup i with
  | none => rfl
  | some a =>
    rw [Option.some_or]
    exact (hok.inv.current i a hi).symm

/-- A section that leaves everything as it is. -/
theorem Life.Ok.same (hok : h.Ok env) : (h.note h.sys h.sys.state.pending none).Ok env := by
  have hlatest : (h.note h.sys h.sys.state.pending none).latest = h.latest := funext hok.latest_eq
  have hwritten : (h.note h.sys h.sys.state.pending none).written = h.written := List.append_nil _
  refine ⟨?_, ?_, hok.noFailure, hok.noUnwritten, hok.contexts⟩
  · rw [hlatest, hwritten]
    exact hok.inv
  · rw [hwritten]
    exact hok.file

/-- A section that changes one approval and writes its line. -/
theorem Life.Ok.touch (hok : h.Ok env) {id : String} {a b : PendingApproval} {es : List Event}
    {dedupIndex : DedupIndex} (ha : h.sys.state.pending.lookup id = some a)
    (hcreated : b.created = a.created) (hexpired : a.status = .expired → b = a)
    (hused : a.status = .consumed → b.status = .expired) (hes : ∀ x, .inserted x ∉ es)
    (hconsumption : ∀ i, es.countP (Event.isConsumptionOf i) = 0 ∨
      i = id ∧ a.status = .approved ∧ b.status = .consumed ∧
        es.countP (Event.isConsumptionOf i) ≤ 1) {sys : System}
    (hsys : sys = { h.sys with
      state := ⟨h.sys.state.pending.insert id b, dedupIndex, h.sys.state.file.append (env.toLine b)⟩
      events := h.sys.events ++ es }) :
    (h.note sys sys.state.pending
      (if sys.state.file = h.sys.state.file then none else sys.state.pending.lookup id)).Ok env := by
  subst hsys
  have hfile : h.sys.state.file.append (env.toLine b) ≠ h.sys.state.file := by
    intro heq
    have hlength := congrArg (fun f => f.lines.length) heq
    simp [LogFile.append] at hlength
  rw [if_neg hfile, AList.lookup_insert]
  refine ⟨?_, ?_, hok.noFailure, hok.noUnwritten, ?_⟩
  · refine hok.inv.touch ha hcreated hexpired hused hes hconsumption (lookup_insert_eq _ _ · _) ?_
    intro i
    show ((h.sys.state.pending.insert id b).lookup i).or (h.latest i) = _
    rw [lookup_insert_eq]
    split
    · rfl
    · exact hok.latest_eq i
  · show h.sys.state.file.append (env.toLine b) = ⟨(h.written ++ [b]).map env.toLine, []⟩
    rw [hok.file, LogFile.append, List.map_append]
    simp
  · intro x hx
    exact hok.contexts x ((List.mem_append.mp hx).resolve_right (hes x))

/-- `approve` and `deny`. -/
theorem resolve_life_ok (hok : h.Ok env) {resolution : Resolution} {id resolver : String}
    {now now' : Int} (event : Event) (hevent : ∀ x, event ≠ .inserted x)
    (hnot : ∀ i, event.isConsumptionOf i = false) {st : State}
    {r : Except ApprovalError PendingApproval}
    (hr : h.sys.state.resolve env resolution id resolver now now' .ok = (st, r)) {sys : System}
    (hsys : sys = { h.sys with state := st, events := h.sys.events ++ okEvent r event }) :
    (h.note sys sys.state.pending
      (if sys.state.file = h.sys.state.file then none else sys.state.pending.lookup id)).Ok env := by
  rcases resolve_cases hr with ⟨rfl, e, rfl⟩ | ⟨a, ha, hpending, hcase⟩
  · rw [okEvent, List.append_nil] at hsys
    subst hsys
    rw [if_pos rfl]
    exact hok.same
  · have hneExpired : a.status ≠ .expired := by
      intro heq
      cases hpending.symm.trans heq
    have hneConsumed : a.status ≠ .consumed := by
      intro heq
      cases hpending.symm.trans heq
    rcases hcase with ⟨-, rfl, rfl⟩ | ⟨-, rfl, rfl⟩ | ⟨n, -, -, hfailed, -⟩
    · exact hok.touch (b := a.markExpired) ha rfl (absurd · hneExpired) (absurd · hneConsumed)
        (by simp [okEvent]) (by simp [okEvent]) hsys
    · refine hok.touch (b := a.resolveWith resolution resolver now') ha rfl (absurd · hneExpired)
        (absurd · hneConsumed) ?_ ?_ hsys
      · intro x hx
        exact hevent x (mem_okEvent hx).symm
      · intro i
        refine .inl ?_
        rw [List.countP_eq_zero]
        intro e he
        rw [mem_okEvent he, hnot i]
        exact Bool.false_ne_true
    · cases hfailed

/-- `consume_approved`. -/
theorem consume_life_ok (hok : h.Ok env) {id : String}
    {sessionId actionFingerprint : Option String} {now now' : Int} {st : State}
    {r : Except ApprovalError Bool}
    (hr : h.sys.state.consumeApproved env id sessionId actionFingerprint now now' .ok = (st, r))
    {sys : System}
    (hsys : sys = { h.sys with
      state := st
      events := h.sys.events ++
        (if r = .ok true then [.consumed id sessionId actionFingerprint now] else []) }) :
    (h.note sys sys.state.pending
      (if sys.state.file = h.sys.state.file then none else sys.state.pending.lookup id)).Ok env := by
  rcases consume_cases hr with
    ⟨rfl, hne⟩ | ⟨a, ha, ⟨-, rfl, rfl⟩ | ⟨-, happroved, -, -, ⟨-, rfl, rfl⟩ | ⟨n, -, hfailed, -⟩⟩⟩
  · rw [if_neg hne, List.append_nil] at hsys
    subst hsys
    rw [if_pos rfl]
    exact hok.same
  · rw [if_neg nofun] at hsys
    refine hok.touch (b := a.markExpired) ha rfl ?_ (fun _ => rfl) (by simp) (by simp) hsys
    intro hexpired
    rw [PendingApproval.markExpired, ← hexpired]
  · rw [if_pos rfl] at hsys
    refine hok.touch (b := a.consume now') ha rfl ?_ ?_ (by simp) ?_ hsys
    · rw [happroved]
      exact nofun
    · rw [happroved]
      exact nofun
    · intro i
      by_cases hi : i = id
      · exact .inr ⟨hi, happroved, rfl, List.countP_le_length⟩
      · refine .inl ?_
        have hne : (id == i) = false := by simpa using Ne.symm hi
        simp [Event.isConsumptionOf, hne]
  · cases hfailed

/-- The insertion of `create_with_context`. -/
theorem insert_life_ok (hok : h.Ok env) {request : CreateRequest} {id : String} {now : Int}
    (hvalid : request.validate = .ok ()) (hfresh : ¬IsInserted h.sys.events id)
    {dedupIndex : DedupIndex} {sys : System}
    (hsys : sys = { h.sys with
      state := ⟨h.sys.state.pending.insert id (request.approval config id now), dedupIndex,
        h.sys.state.file⟩
      creating := h.sys.creating ++ [request.approval config id now]
      events := h.sys.events ++ [.inserted (request.approval config id now)] }) :
    (h.note sys sys.state.pending none).Ok env := by
  subst hsys
  refine ⟨?_, ?_, hok.noFailure, hok.noUnwritten, ?_⟩
  · show LifeInv _ _ (h.written ++ _) _ _ _
    rw [Option.toList_none, List.append_nil]
    refine hok.inv.insert (a := request.approval config id now) rfl hfresh
      (lookup_insert_eq _ _ · _) ?_
    intro i
    show ((h.sys.state.pending.insert id _).lookup i).or (h.latest i) = _
    rw [lookup_insert_eq]
    split
    · rename_i hi
      exact (if_pos hi).symm
    · rename_i hi
      rw [hok.latest_eq i]
      exact (if_neg hi).symm
  · show h.sys.state.file = ⟨(h.written ++ _).map env.toLine, []⟩
    rw [Option.toList_none, List.append_nil]
    exact hok.file
  · intro x hx
    rcases List.mem_append.mp hx with hx | hx
    · exact hok.contexts x hx
    · cases List.mem_singleton.mp hx
      exact hasValidContext_approval hvalid config id now

/-- The write of `create_with_context`, when it is the first line of its approval. -/
theorem persist_life_ok (hok : h.Ok env) {i : Nat} {a : PendingApproval}
    (ha : h.sys.creating[i]? = some a) (hfirst : ∀ v ∈ h.written, v.id ≠ a.id) :
    (h.note { h.sys with
        state := { h.sys.state with file := h.sys.state.file.append (env.toLine a) }
        creating := h.sys.creating.eraseIdx i } h.sys.state.pending (some a)).Ok env := by
  have hlatest : (fun i => (h.sys.state.pending.lookup i).or (h.latest i)) = h.latest :=
    funext hok.latest_eq
  refine ⟨?_, ?_, hok.noFailure, hok.noUnwritten, hok.contexts⟩
  · show LifeInv _ (fun i => (h.sys.state.pending.lookup i).or (h.latest i)) (h.written ++ [a]) _ _ _
    rw [hlatest]
    refine hok.inv.writeCreated (List.mem_of_getElem? ha) ?_ hfirst
    intro x hx
    exact (List.eraseIdx_sublist _ _).subset hx
  · show h.sys.state.file.append (env.toLine a) = ⟨(h.written ++ [a]).map env.toLine, []⟩
    rw [hok.file, LogFile.append, List.map_append]
    simp

/-- The first section of `expire_stale`. -/
theorem mark_life_ok (hok : h.Ok env) (now : Int) :
    (h.note { h.sys with
        state := (h.sys.state.expireMark env now).1
        expiring := h.sys.expiring ++ [⟨(h.sys.state.expireMark env now).2, []⟩] }
      (mapValues (fun _ a => a.expire now) h.sys.state.pending) none).Ok env := by
  have hinFlight : (h.sys.expiring ++ [Expiring.mk (h.sys.state.expireMark env now).2 []]).flatMap
      (·.toPersist) = h.sys.expiring.flatMap (·.toPersist) ++ (h.sys.state.expireMark env now).2 := by
    rw [List.flatMap_append, List.flatMap_singleton]
  refine ⟨?_, ?_, ?_, hok.noUnwritten, hok.contexts⟩
  · show LifeInv _ _ (h.written ++ _) _ (List.flatMap _ (h.sys.expiring ++ _)) _
    rw [Option.toList_none, List.append_nil, hinFlight]
    refine hok.inv.mark now (fun x => mem_expireMark_toPersist) ?_ ?_
    · intro i a ha
      obtain ⟨x, hx, rfl, -⟩ := (lookup_expireMark env).mp ha
      rw [hx, Option.map_some]
    · intro i
      show ((mapValues _ h.sys.state.pending).lookup i).or (h.latest i) = _
      rw [lookup_mapValues]
  · show (h.sys.state.expireMark env now).1.file = ⟨(h.written ++ _).map env.toLine, []⟩
    rw [Option.toList_none, List.append_nil]
    exact hok.file
  · intro x hx
    rcases List.mem_append.mp hx with hx | hx
    · exact hok.noFailure x hx
    · rw [List.mem_singleton.mp hx]

/-- The write of `expire_stale` for one approval. -/
theorem expirePersist_life_ok (hok : h.Ok env) {i j : Nat} {x : Expiring} {a : PendingApproval}
    (hi : h.sys.expiring[i]? = some x) (hj : x.toPersist[j]? = some a) :
    (h.note { h.sys with
        state := { h.sys.state with file := h.sys.state.file.append (env.toLine a) }
        expiring := h.sys.expiring.set i ⟨x.toPersist.eraseIdx j, x.failedIds⟩ }
      h.sys.state.pending (some a)).Ok env := by
  have hlatest : (fun i => (h.sys.state.pending.lookup i).or (h.latest i)) = h.latest :=
    funext hok.latest_eq
  obtain ⟨before, after, hsplit, -, hset⟩ := exists_split_of_getElem? hi
  refine ⟨?_, ?_, ?_, hok.noUnwritten, hok.contexts⟩
  · show LifeInv _ (fun i => (h.sys.state.pending.lookup i).or (h.latest i)) (h.written ++ [a]) _
      (List.flatMap _ (h.sys.expiring.set i ⟨x.toPersist.eraseIdx j, x.failedIds⟩)) _
    obtain ⟨first, rest, hpersist, herase, -⟩ := exists_split_of_getElem? hj
    have hinv := hok.inv
    rw [hlatest, hset, herase]
    rw [hsplit] at hinv
    refine hinv.writeExpired (a := a) ?_ ?_ ?_
    · simp [hpersist]
    · intro y hy
      simp only [List.flatMap_append, List.flatMap_cons, List.mem_append, hpersist,
        List.mem_cons] at hy ⊢
      tauto
    · intro y hy hne
      simp only [List.flatMap_append, List.flatMap_cons, List.mem_append, hpersist,
        List.mem_cons] at hy ⊢
      tauto
  · show h.sys.state.file.append (env.toLine a) = ⟨(h.written ++ [a]).map env.toLine, []⟩
    rw [hok.file, LogFile.append, List.map_append]
    simp
  · intro y hy
    have hy' : y ∈ h.sys.expiring.set i ⟨x.toPersist.eraseIdx j, x.failedIds⟩ := hy
    rw [hset] at hy'
    have hfailed : x.failedIds = [] := hok.noFailure _ (List.mem_of_getElem? hi)
    rcases List.mem_append.mp hy' with hy' | hy'
    · exact hok.noFailure y (hsplit ▸ List.mem_append_left _ hy')
    · rcases List.mem_cons.mp hy' with rfl | hy'
      · exact hfailed
      · exact hok.noFailure y
          (hsplit ▸ List.mem_append_right _ (List.mem_cons_of_mem _ hy'))

/-- The last section of `expire_stale`: no write failed, so there is nothing to take back. -/
theorem expireFinish_life_ok (hok : h.Ok env) {i : Nat} {failedIds : List String}
    (hi : h.sys.expiring[i]? = some ⟨[], failedIds⟩) {sys : System}
    (hsys : sys = { h.sys with
      state := h.sys.state.expireRollback env failedIds
      expiring := h.sys.expiring.eraseIdx i }) :
    (h.note sys sys.state.pending none).Ok env := by
  obtain rfl : failedIds = [] := hok.noFailure _ (List.mem_of_getElem? hi)
  obtain ⟨before, after, hsplit, herase, -⟩ := exists_split_of_getElem? hi
  subst hsys
  have hlatest : (fun i => (h.sys.state.pending.lookup i).or (h.latest i)) = h.latest :=
    funext hok.latest_eq
  refine ⟨?_, ?_, ?_, hok.noUnwritten, hok.contexts⟩
  · show LifeInv h.sys.state.pending.lookup
      (fun i => (h.sys.state.pending.lookup i).or (h.latest i)) (h.written ++ _) _
      (List.flatMap _ (h.sys.expiring.eraseIdx i)) _
    have hinFlight : (before ++ Expiring.mk [] [] :: after).flatMap (·.toPersist) =
        (before ++ after).flatMap (·.toPersist) := by simp
    rw [hlatest, Option.toList_none, List.append_nil, herase, ← hinFlight, ← hsplit]
    exact hok.inv
  · show h.sys.state.file = ⟨(h.written ++ _).map env.toLine, []⟩
    rw [Option.toList_none, List.append_nil]
    exact hok.file
  · intro x hx
    exact hok.noFailure x ((List.eraseIdx_sublist _ _).subset hx)

/-- What a fresh store loads is the last line of each approval. -/
theorem lookup_loadFromFile {file : LogFile} {now : Int} {outcome : ReadOutcome} {id : String}
    {a : PendingApproval}
    (ha : ((State.fresh file).loadFromFile env now outcome).1.pending.lookup id = some a) :
    lastVersion ((State.fresh file).replayed env) id = some a := by
  cases outcome with
  | notFound => cases ha
  | failed e => cases ha
  | read =>
    obtain ⟨hversion, -⟩ := lookup_loadedPending.mp ha
    exact Option.or_none.symm.trans hversion

/-- A restart brings back what was latest. -/
theorem restart_life_ok (hok : h.Ok env) (hread : ∀ v ∈ h.written, ReadsBack env v) {now : Int}
    {outcome : ReadOutcome} (hordered : h.Ordered env (.restart now outcome)) :
    (h.note (h.sys.restart env now outcome) (h.sys.restart env now outcome).state.pending none).Ok
      env ∧
    ∀ id a, (h.sys.restart env now outcome).state.pending.lookup id = some a →
      h.latest id = some a := by
  have hreplayed : (State.fresh h.sys.state.file).replayed env = h.written := hok.replayed hread
  have hinFlight : ∀ a ∈ h.sys.expiring.flatMap (·.toPersist),
      ∀ v, lastVersion h.written a.id = some v → v.status = .expired := by
    intro a ha v hv
    obtain ⟨x, hx, hax⟩ := List.mem_flatMap.mp ha
    have hlast := hordered x hx a hax
    rw [hok.replayed hread, hv] at hlast
    exact eq_of_beq hlast
  have hloaded : ∀ id a, (h.sys.restart env now outcome).state.pending.lookup id = some a →
      lastVersion h.written id = some a := by
    intro id a ha
    rw [← hreplayed]
    exact lookup_loadFromFile ha
  refine ⟨⟨?_, ?_, ?_, rfl, hok.contexts⟩, fun id a ha => hok.inv.reload hinFlight (hloaded id a ha)⟩
  · show LifeInv _ _ (h.written ++ _) _ _ _
    rw [Option.toList_none, List.append_nil]
    exact hok.inv.restart hinFlight hloaded fun i => rfl
  · show (h.sys.restart env now outcome).state.file = ⟨(h.written ++ _).map env.toLine, []⟩
    rw [Option.toList_none, List.append_nil, ← hok.file]
    cases outcome with
    | notFound => rfl
    | failed e => rfl
    | read => rfl
  · intro x hx
    cases hx

/-- **One section, or one restart, keeps the invariant.** -/
theorem life_step_inv {h' : Life} {step : LifeStep} (hok : h.Ok env) (hpersists : step.Persists)
    (hfresh : ∀ id, step.newId = some id → ¬IsInserted h.sys.events id)
    (hread : ∀ v ∈ h.written, ReadsBack env v) (hordered : h.Ordered env step)
    (hstep : h.step env config step = some h') : h'.Ok env := by
  cases step with
  | restart now outcome =>
    cases hstep
    exact (restart_life_ok hok hread hordered).1
  | section_ step =>
    obtain ⟨sys, hsys, rfl⟩ := Option.map_eq_some_iff.mp hstep
    cases step with
    | createFind request =>
      cases hsys
      exact hok.same
    | createInsert request id now =>
      rw [System.step] at hsys
      split at hsys
      · cases hsys
        exact hok.same
      · rename_i hvalid
        dsimp only at hsys
        split at hsys
        · rename_i st hr
          cases hsys
          obtain ⟨-, hne⟩ | ⟨-, -, rfl⟩ := createInsert_cases hr
          · exact absurd rfl hne
          · exact insert_life_ok hok hvalid (hfresh id rfl) rfl
        · rename_i st r hne hr
          cases hsys
          obtain ⟨rfl, -⟩ | ⟨rfl, -⟩ := createInsert_cases hr
          · exact hok.same
          · exact absurd rfl hne
    | createPersist i outcome =>
      obtain ⟨a, ha, rfl⟩ := Option.map_eq_some_iff.mp hsys
      cases (show outcome = .ok from hpersists)
      have hfirst : ∀ v ∈ h.written, v.id ≠ a.id := by
        rw [← hok.replayed hread]
        exact hordered a ha
      rw [System.writes, ha]
      exact persist_life_ok hok ha hfirst
    | createRollback i =>
      obtain ⟨a, ha, -⟩ := Option.map_eq_some_iff.mp hsys
      rw [hok.noUnwritten] at ha
      cases ha
    | approve id resolver now now' outcome =>
      cases (show outcome = .ok from hpersists)
      cases hsys
      exact resolve_life_ok hok (.approved id resolver)
        (fun x hx => by cases hx) (fun _ => rfl) rfl rfl
    | deny id resolver now now' outcome =>
      cases (show outcome = .ok from hpersists)
      cases hsys
      exact resolve_life_ok hok (.denied id resolver)
        (fun x hx => by cases hx) (fun _ => rfl) rfl rfl
    | consume id sessionId actionFingerprint now now' outcome =>
      cases (show outcome = .ok from hpersists)
      rw [System.step] at hsys
      split at hsys
      · rename_i st hr
        cases hsys
        exact consume_life_ok hok hr rfl
      · rename_i st r hne hr
        cases hsys
        refine consume_life_ok hok hr ?_
        rw [if_neg hne, List.append_nil]
    | expireMark now =>
      cases hsys
      exact mark_life_ok hok now
    | expirePersist i j outcome =>
      cases (show outcome = .ok from hpersists)
      obtain ⟨x, hi, hsys⟩ := Option.bind_eq_some_iff.mp hsys
      obtain ⟨a, hj, rfl⟩ := Option.map_eq_some_iff.mp hsys
      rw [System.writes, hi, Option.bind_some, hj]
      exact expirePersist_life_ok hok hi hj
    | expireFinish i =>
      rw [System.step] at hsys
      split at hsys
      · rename_i failedIds hi
        cases hsys
        exact expireFinish_life_ok hok hi rfl
      · cases hsys

/-- A section inserts no approval but the one with the UUID that it draws, a restart none. -/
theorem isInserted_life_step {h' : Life} {step : LifeStep}
    (hstep : h.step env config step = some h') (id : String) (hid : IsInserted h'.sys.events id) :
    IsInserted h.sys.events id ∨ step.newId = some id := by
  cases step with
  | section_ step =>
    obtain ⟨sys, hsys, rfl⟩ := Option.map_eq_some_iff.mp hstep
    exact isInserted_step hsys id hid
  | restart now outcome =>
    cases hstep
    exact .inl hid

end Sections

/-- At a restart, what is in memory for an id is what was last in memory for it before. -/
def ReloadsLatest (h : Life) (step : LifeStep) (h' : Life) : Prop :=
  ∀ now outcome, step = .restart now outcome →
    ∀ id a, h'.sys.state.pending.lookup id = some a → h.latest id = some a

/-- **Single use survives restarts**, in every run in which all writes go well, the UUIDs are distinct,
    what is written reads back, the line of a creation is always the first of its approval and no
    restart comes before an expiry is on record: every restart brings back, for the ids it brings
    back, what was last in memory, and over all lifetimes no approval is consumed twice. -/
theorem single_use_survives_restarts (env : Env) (config : Config) (steps : List LifeStep)
    (hpersists : ∀ step ∈ steps, step.Persists) (hfresh : (steps.filterMap LifeStep.newId).Nodup)
    (hread : EachStep (Life.step env config) (fun h _ _ => ∀ v ∈ h.written, ReadsBack env v)
      Life.start steps)
    (hordered : EachStep (Life.step env config) (fun h step _ => h.Ordered env step)
      Life.start steps) :
    EachStep (Life.step env config) ReloadsLatest Life.start steps ∧
    ∀ h, run (Life.step env config) Life.start steps = some h →
      ∀ id, h.sys.events.countP (Event.isConsumptionOf id) ≤ 1 := by
  have hnew : EachStep (Life.step env config)
      (fun h step _ => ∀ id, step.newId = some id → ¬IsInserted h.sys.events id)
      Life.start steps := by
    refine eachStep_fresh (fun h id => IsInserted h.sys.events id)
      (fun h step h' hstep => isInserted_life_step hstep) hfresh ?_
    rintro id - ⟨a, ha, -⟩
    cases ha
  have hall := (hread.and hordered).and hnew
  constructor
  · refine hall.of_invariant (I := Life.Ok env) ?_ (start_life_ok env)
    rintro h step h' hmem hok ⟨⟨hread, hordered⟩, hnew⟩ hstep
    refine ⟨life_step_inv hok (hpersists step hmem) hnew hread hordered hstep, ?_⟩
    rintro now outcome rfl id a ha
    cases hstep
    exact (restart_life_ok hok hread hordered).2 id a ha
  · intro h hrun
    have hok : h.Ok env := by
      refine run_invariant_of_eachStep (I := Life.Ok env) ?_ hall (start_life_ok env) hrun
      rintro h step h' hmem hok ⟨⟨hread, hordered⟩, hnew⟩ hstep
      exact life_step_inv hok (hpersists step hmem) hnew hread hordered hstep
    exact hok.inv.once

/-! The sample approval of `Approval/SingleUse`, and the lines of it that can be read. -/

def sampleApproval : PendingApproval := sampleRequest.approval sampleConfig "a" 0

def sampleApproved : PendingApproval := sampleApproval.resolveWith .approve "bob" 1000000000

def restartEnv : Env :=
  plainEnv [sampleApproval, sampleApproved, sampleApproved.consume 2000000000]

def sampleConsume : LifeStep :=
  .section_ (.consume "a" (some "s") sampleRequest.actionFingerprint 2000000000 2000000000 .ok)

/-- An approval is created, approved and consumed; after a restart it is presented again. -/
def restartSteps : List LifeStep :=
  sampleSteps.map .section_ ++ [.restart 3000000000 .read, sampleConsume]

theorem restartSteps_single_use : ∃ h,
    run (Life.step restartEnv sampleConfig) Life.start restartSteps = some h ∧
    h.sys.events.countP (Event.isConsumptionOf "a") = 1 ∧
    (h.sys.state.pending.lookup "a").map (·.status) = some .consumed ∧
    EachStep (Life.step restartEnv sampleConfig) ReloadsLatest Life.start restartSteps ∧
    ∀ id, h.sys.events.countP (Event.isConsumptionOf id) ≤ 1 := by
  -- one evaluation for the end and the two conditions, since the run is the same
  have hsteps : (run (Life.step restartEnv sampleConfig) Life.start restartSteps).map (fun h =>
        (h.sys.events.countP (Event.isConsumptionOf "a"),
          (h.sys.state.pending.lookup "a").map (·.status))) = some (1, some .consumed) ∧
      EachStep (Life.step restartEnv sampleConfig)
        (fun h _ _ => ∀ v ∈ h.written, ReadsBack restartEnv v) Life.start restartSteps ∧
      EachStep (Life.step restartEnv sampleConfig)
        (fun h step _ => h.Ordered restartEnv step) Life.start restartSteps := by
    decide +kernel
  obtain ⟨hend, hread, hordered⟩ := hsteps
  obtain ⟨h, hrun, hh⟩ := Option.map_eq_some_iff.mp hend
  have hmain := single_use_survives_restarts restartEnv sampleConfig restartSteps (by decide)
    (by decide) hread hordered
  have hcount : h.sys.events.countP (Event.isConsumptionOf "a") = 1 := congrArg Prod.fst hh
  exact ⟨h, hrun, hcount, congrArg Prod.snd hh, hmain.1, hmain.2 h hrun⟩

/-- The approval is approved and consumed before `create_with_context` writes its line.  The file
    then ends with the line of a pending approval. -/
def lateSteps : List LifeStep :=
  [.section_ (.createInsert sampleRequest "a" 0),
    .section_ (.approve "a" "bob" 1000000000 1000000000 .ok),
    sampleConsume,
    .section_ (.createPersist 0 .ok),
    .restart 3000000000 .read,
    .section_ (.approve "a" "bob" 1000000000 1000000000 .ok),
    sampleConsume]

/-- **A late line.**  All writes go well and everything reads back, and yet the approval comes back as
    pending and is consumed a second time. -/
theorem lateCreation_consumed_twice :
    (∀ step ∈ lateSteps, step.Persists) ∧ (lateSteps.filterMap LifeStep.newId).Nodup ∧
    EachStep (Life.step restartEnv sampleConfig) (fun h _ _ => ∀ v ∈ h.written, ReadsBack restartEnv v)
      Life.start lateSteps ∧
    (run (Life.step restartEnv sampleConfig) Life.start lateSteps).map (fun h =>
      h.sys.events.countP (Event.isConsumptionOf "a")) = some 2 := by
  refine ⟨by decide, by decide, ?_⟩
  decide +kernel

end Vellaveto.Approval
