/-
  SEQUENCES OF CALLS on the approval store, and whether what is over stays over.

  PROGRAM.      The operations of `Approval/Store`, each from its beginning to its end: `create`,
                `approve`, `deny`, `consume_approved`, `expire_stale` and `load_from_file`, one after
                the other, with any clocks, any writes failing and any readable or unreadable file.

  SPEC.         `KeepsTerminal`: an approval that is denied, consumed or expired before a call and is
                still stored after it has the same status then.

  CORRECTNESS.  Two calls can break it (`Allows`): `consume_approved` past the expiry marks a denied or
                consumed approval as expired, and `load_from_file` puts the last line of the file in the
                place of what is in memory.  Nothing else does, so along every sequence of calls the
                states stay final EXACTLY if each call is allowed.
    1. `perform_keyed`                     an approval is filed under its id;
    2. `lookup_expireStale`                marking, writing and taking back, in one;
    3. `keepsTerminal_iff`                 one call;
    4. `terminal_states_final`             every sequence of calls.
-/
import Vellaveto.Approval.Store
import Vellaveto.Lib.Run

namespace Vellaveto.Approval

open Vellaveto.Lib

/-! ## The operations as a whole -/

section Operations

variable (env : Env)

/-- `create_with_context`. -/
def State.create (st : State) (config : Config) (request : CreateRequest) (id : String) (now : Int)
    (outcome : PersistOutcome) : State × Except ApprovalError String :=
  match request.validate with
  | .error e => (st, .error e)
  | .ok () =>
    let a := request.approval config id now
    match st.findExisting (a.contextKey env) with
    | some existing => (st, .ok existing)
    | none =>
      match st.createInsert env config a with
      | (st, .existing existing) => (st, .ok existing)
      | (st, .full) => (st, .error (.capacityExceeded config.maxPending))
      | (st, .inserted) =>
        match persistApproval env st.file a outcome with
        | (file, true) => ({ st with file := file }, .ok id)
        | (file, false) => (({ st with file := file } : State).createRollback env a, .error .io)

/-- The writes of `expire_stale`, and the ids of those that fail. -/
def persistAll (file : LogFile) : List (PendingApproval × PersistOutcome) → LogFile × List String
  | [] => (file, [])
  | (a, outcome) :: rest =>
    match persistApproval env file a outcome with
    | (file, true) => persistAll file rest
    | (file, false) =>
      let (file, failedIds) := persistAll file rest
      (file, a.id :: failedIds)

/-- `expire_stale`.  `none`: these are not the approvals to write.  (They come in any order, as the
    map of the source yields them.) -/
def State.expireStale (st : State) (now : Int) (writes : List (PendingApproval × PersistOutcome)) :
    Option State :=
  let (marked, toPersist) := st.expireMark env now
  if (writes.map (·.1)).Perm toPersist then
    let (file, failedIds) := persistAll env marked.file writes
    some (({ marked with file := file } : State).expireRollback env failedIds)
  else none

end Operations

/-- A call. -/
inductive Op where
  | create (request : CreateRequest) (id : String) (now : Int) (outcome : PersistOutcome)
  | approve (id resolver : String) (now now' : Int) (outcome : PersistOutcome)
  | deny (id resolver : String) (now now' : Int) (outcome : PersistOutcome)
  | consume (id : String) (sessionId actionFingerprint : Option String) (now now' : Int)
      (outcome : PersistOutcome)
  | expireStale (now : Int) (writes : List (PendingApproval × PersistOutcome))
  | load (now : Int) (outcome : ReadOutcome)
deriving DecidableEq, Repr

/-- The state after a call. -/
def State.perform (env : Env) (config : Config) (st : State) : Op → Option State
  | .create request id now outcome => some (st.create env config request id now outcome).1
  | .approve id resolver now now' outcome => some (st.approve env id resolver now now' outcome).1
  | .deny id resolver now now' outcome => some (st.deny env id resolver now now' outcome).1
  | .consume id sessionId actionFingerprint now now' outcome =>
    some (st.consumeApproved env id sessionId actionFingerprint now now' outcome).1
  | .expireStale now writes => st.expireStale env now writes
  | .load now outcome => some (st.loadFromFile env now outcome).1

/-- A new UUID is not the id of an approval in memory. -/
def State.FreshFor (st : State) : Op → Prop
  | .create _ id _ _ => st.pending.lookup id = none
  | _ => True

instance (st : State) (op : Op) : Decidable (st.FreshFor op) :=
  match op with
  | .create _ id _ _ => inferInstanceAs (Decidable (st.pending.lookup id = none))
  | .approve _ _ _ _ _ => isTrue trivial
  | .deny _ _ _ _ _ => isTrue trivial
  | .consume _ _ _ _ _ _ => isTrue trivial
  | .expireStale _ _ => isTrue trivial
  | .load _ _ => isTrue trivial

/-! ## What the operations do -/

section Effects

variable {env : Env} {config : Config} {st st' : State}

/-- Taking a new approval out again leaves the entries as they were. -/
theorem lookup_erase_insert {t : PendingMap} {id : String} (hfresh : t.lookup id = none)
    (a : PendingApproval) (i : String) : ((t.insert id a).erase id).lookup i = t.lookup i := by
  rw [lookup_erase_eq, lookup_insert_eq]
  split
  · rename_i hi
    rw [hi, hfresh]
  · rfl

theorem createRollback_of_pending (env : Env) (st : State) {a current : PendingApproval}
    (hlookup : st.pending.lookup a.id = some current) (hpending : current.status = .pending) :
    st.createRollback env a = { st with
      pending := st.pending.erase a.id
      dedupIndex := st.dedupIndex.erase (a.contextKey env) } := by
  rw [State.createRollback, hlookup]
  exact if_pos hpending

/-- **`create_with_context`**: the maps stay as they are; or a new approval is put into both, and no
    pending approval had its key; or that is taken back. -/
theorem create_cases {request : CreateRequest} {id : String} {now : Int} {outcome : PersistOutcome}
    (a : PendingApproval) (ha : a = request.approval config id now) (key : String)
    (hkey : key = a.contextKey env)
    (h : (st.create env config request id now outcome).1 = st') :
    (st'.pending = st.pending ∧ st'.dedupIndex = st.dedupIndex) ∨
    st.findExisting key = none ∧
      ((st'.pending = st.pending.insert id a ∧ st'.dedupIndex = st.dedupIndex.insert key id) ∨
        (st'.pending = (st.pending.insert id a).erase id ∧
          st'.dedupIndex = (st.dedupIndex.insert key id).erase key)) := by
  subst ha hkey h
  rw [State.create]
  split
  · exact .inl ⟨rfl, rfl⟩
  · dsimp only
    split
    · exact .inl ⟨rfl, rfl⟩
    · rename_i hnone
      split
      · rename_i st₁ existing hr
        obtain ⟨rfl, -⟩ | ⟨hr', -⟩ := createInsert_cases hr
        · exact .inl ⟨rfl, rfl⟩
        · cases hr'
      · rename_i st₁ hr
        obtain ⟨rfl, -⟩ | ⟨hr', -⟩ := createInsert_cases hr
        · exact .inl ⟨rfl, rfl⟩
        · cases hr'
      · rename_i st₁ hr
        obtain ⟨-, hne⟩ | ⟨-, -, rfl⟩ := createInsert_cases hr
        · exact absurd rfl hne
        · refine .inr ⟨hnone, ?_⟩
          cases outcome with
          | ok => exact .inl ⟨rfl, rfl⟩
          | failed n =>
            refine .inr ?_
            -- the approval is still pending, so it is taken out
            have hback := createRollback_of_pending env (a := request.approval config id now)
              (⟨st.pending.insert id (request.approval config id now),
                st.dedupIndex.insert ((request.approval config id now).contextKey env) id,
                st.file.appendPart (env.toLine (request.approval config id now)) n⟩)
              (AList.lookup_insert _) rfl
            exact ⟨congrArg State.pending hback, congrArg State.dedupIndex hback⟩

/-- What `approve` and `deny` do to the entries. -/
theorem lookup_resolve {resolution : Resolution} {id resolver : String} {now now' : Int}
    {outcome : PersistOutcome}
    (h : (st.resolve env resolution id resolver now now' outcome).1 = st') :
    st'.pending = st.pending ∨
    ∃ a b, st.pending.lookup id = some a ∧ a.status = .pending ∧ b.created = a.created ∧
      ∀ i, st'.pending.lookup i = if i = id then some b else st.pending.lookup i := by
  cases hr : st.resolve env resolution id resolver now now' outcome with
  | mk st₁ r =>
    rw [hr] at h
    subst h
    rcases resolve_cases hr with ⟨heq, -⟩ | ⟨a, ha, hpending,
      ⟨-, heq, -⟩ | ⟨-, heq, -⟩ | ⟨n, next, back, -, -, hcreated, heq, -⟩⟩
    · exact .inl (congrArg State.pending heq)
    · refine .inr ⟨a, a.markExpired, ha, hpending, rfl, ?_⟩
      rw [heq]
      exact (lookup_insert_eq _ _ · _)
    · refine .inr ⟨a, a.resolveWith resolution resolver now', ha, hpending, rfl, ?_⟩
      rw [heq]
      exact (lookup_insert_eq _ _ · _)
    · refine .inr ⟨a, back, ha, hpending, hcreated, ?_⟩
      rw [heq]
      exact (lookup_insert_insert _ _ · _ _)

/-- What `consume_approved` does to the entries. -/
theorem lookup_consumeApproved {id : String} {sessionId actionFingerprint : Option String}
    {now now' : Int} {outcome : PersistOutcome}
    (h : (st.consumeApproved env id sessionId actionFingerprint now now' outcome).1 = st') :
    (st'.pending = st.pending ∧ ∀ a, st.pending.lookup id = some a → ¬a.expiresAt < now) ∨
    ∃ a b, st.pending.lookup id = some a ∧ b.created = a.created ∧
      (a.expiresAt < now ∧ b = a.markExpired ∨ ¬a.expiresAt < now ∧ a.status = .approved) ∧
      ∀ i, st'.pending.lookup i = if i = id then some b else st.pending.lookup i := by
  cases hr : st.consumeApproved env id sessionId actionFingerprint now now' outcome with
  | mk st₁ r =>
    rw [hr] at h
    subst h
    by_cases hpast : ∃ a, st.pending.lookup id = some a ∧ a.expiresAt < now
    · obtain ⟨a, ha, hexpired⟩ := hpast
      refine .inr ⟨a, a.markExpired, ha, rfl, .inl ⟨hexpired, rfl⟩, ?_⟩
      rw [State.consumeApproved, ha] at hr
      dsimp only at hr
      rw [if_pos hexpired] at hr
      cases hr
      exact (lookup_insert_eq _ _ · _)
    · have hnot : ∀ a, st.pending.lookup id = some a → ¬a.expiresAt < now :=
        fun a ha hexpired => hpast ⟨a, ha, hexpired⟩
      rcases consume_cases hr with ⟨heq, -⟩ | ⟨a, ha, ⟨hexpired, -⟩ |
        ⟨-, happroved, -, -, ⟨-, heq, -⟩ | ⟨n, back, -, -, hcreated, heq, -⟩⟩⟩
      · exact .inl ⟨congrArg State.pending heq, hnot⟩
      · exact absurd hexpired (hnot a ha)
      · refine .inr ⟨a, a.consume now', ha, rfl, .inr ⟨hnot a ha, happroved⟩, ?_⟩
        rw [heq]
        exact (lookup_insert_eq _ _ · _)
      · refine .inr ⟨a, back, ha, hcreated, .inr ⟨hnot a ha, happroved⟩, ?_⟩
        rw [heq]
        exact (lookup_insert_insert _ _ · _ _)

/-- Approvals are filed under their ids. -/
def State.Keyed (st : State) : Prop := ∀ id a, st.pending.lookup id = some a → a.id = id

theorem State.Keyed.update (h : st.Keyed) {id : String} {a b : PendingApproval}
    (ha : st.pending.lookup id = some a) (hcreated : b.created = a.created)
    (hlookup : ∀ i, st'.pending.lookup i = if i = id then some b else st.pending.lookup i) :
    st'.Keyed := by
  intro i x hx
  rw [hlookup] at hx
  split at hx
  · rename_i hi
    cases hx
    have hid : b.created.id = a.created.id := congrArg PendingApproval.id hcreated
    rw [hi]
    exact Eq.trans hid (h id a ha)
  · exact h i x hx

theorem failedIds_sublist (file : LogFile) (writes : List (PendingApproval × PersistOutcome)) :
    List.Sublist (persistAll env file writes).2 (writes.map (·.1.id)) := by
  induction writes generalizing file with
  | nil => exact List.Sublist.refl _
  | cons w rest ih =>
    obtain ⟨a, outcome⟩ := w
    cases outcome with
    | ok => exact (ih _).cons _
    | failed n => exact (ih _).cons_cons _

/-- The parts of `expire_stale`. -/
theorem expireStale_eq {now : Int} {writes : List (PendingApproval × PersistOutcome)}
    (h : st.expireStale env now writes = some st') :
    ∃ file failedIds, st' =
        (⟨(st.expireMark env now).1.pending, (st.expireMark env now).1.dedupIndex, file⟩ :
          State).expireRollback env failedIds ∧
      List.Subperm failedIds ((st.expireMark env now).2.map (·.id)) := by
  rw [State.expireStale] at h
  dsimp only at h
  split at h
  · rename_i hperm
    cases h
    refine ⟨_, _, rfl, ?_⟩
    have hids := hperm.map (·.id)
    rw [List.map_map] at hids
    exact (failedIds_sublist _ writes).subperm.trans hids.subperm
  · cases h

/-- The ids that are taken back are of stale approvals. -/
theorem mem_failedIds (hkeyed : st.Keyed) {now : Int} {failedIds : List String}
    (hsub : List.Subperm failedIds ((st.expireMark env now).2.map (·.id))) {id : String}
    (hid : id ∈ failedIds) : ∃ a, st.pending.lookup id = some a ∧ a.isStale now = true := by
  obtain ⟨x, hx, rfl⟩ := List.mem_map.mp (hsub.subset hid)
  obtain ⟨key, a, ha, hstale, rfl⟩ := mem_expireMark_toPersist.mp hx
  have hkey : a.id = key := hkeyed key a ha
  exact ⟨a, hkey ▸ ha, hstale⟩

/-- **`expire_stale`**: an entry is as it was, or was stale and is marked. -/
theorem lookup_expireStale (hkeyed : st.Keyed) {now : Int}
    {writes : List (PendingApproval × PersistOutcome)}
    (h : st.expireStale env now writes = some st') {id : String} {a' : PendingApproval}
    (ha' : st'.pending.lookup id = some a') :
    ∃ a, st.pending.lookup id = some a ∧
      (a' = a ∨ a.isStale now = true ∧ a' = a.markExpired) := by
  obtain ⟨file, failedIds, rfl, hsub⟩ := expireStale_eq h
  rw [lookup_expireRollback] at ha'
  split at ha'
  · rename_i hid
    obtain ⟨a, ha, hstale⟩ := mem_failedIds hkeyed hsub hid
    obtain ⟨x, hx, rfl⟩ := Option.map_eq_some_iff.mp ha'
    obtain ⟨b, hb, rfl, -⟩ := (lookup_expireMark env).mp hx
    rw [ha] at hb
    cases hb
    -- marked and taken back: it was pending
    refine ⟨a, ha, .inl ?_⟩
    rw [expire_of_isStale hstale]
    exact unexpire_markExpired (status_of_isStale hstale)
  · obtain ⟨a, ha, rfl, -⟩ := (lookup_expireMark env).mp ha'
    refine ⟨a, ha, ?_⟩
    cases hstale : a.isStale now with
    | false => exact .inl (expire_of_not_isStale hstale)
    | true => exact .inr ⟨rfl, expire_of_isStale hstale⟩

/-- Every call keeps the approvals filed under their ids. -/
theorem perform_keyed {op : Op} (h : st.Keyed) (hstep : st.perform env config op = some st') :
    st'.Keyed := by
  cases op with
  | create request id now outcome =>
    rcases create_cases _ rfl _ rfl (Option.some.inj hstep) with
      ⟨heq, -⟩ | ⟨-, ⟨heq, -⟩ | ⟨heq, -⟩⟩
    · intro i x hx
      rw [heq] at hx
      exact h i x hx
    · intro i x hx
      rw [heq, lookup_insert_eq] at hx
      split at hx
      · rename_i hi
        cases hx
        exact hi.symm
      · exact h i x hx
    · intro i x hx
      rw [heq, lookup_erase_eq, lookup_insert_eq] at hx
      split at hx
      · cases hx
      · exact h i x hx
  | approve id resolver now now' outcome =>
    rcases lookup_resolve (Option.some.inj hstep) with heq | ⟨a, b, ha, -, hcreated, hlookup⟩
    · intro i x hx
      rw [heq] at hx
      exact h i x hx
    · exact h.update ha hcreated hlookup
  | deny id resolver now now' outcome =>
    rcases lookup_resolve (Option.some.inj hstep) with heq | ⟨a, b, ha, -, hcreated, hlookup⟩
    · intro i x hx
      rw [heq] at hx
      exact h i x hx
    · exact h.update ha hcreated hlookup
  | consume id sessionId actionFingerprint now now' outcome =>
    rcases lookup_consumeApproved (Option.some.inj hstep) with
      ⟨heq, -⟩ | ⟨a, b, ha, hcreated, -, hlookup⟩
    · intro i x hx
      rw [heq] at hx
      exact h i x hx
    · exact h.update ha hcreated hlookup
  | expireStale now writes =>
    intro i x hx
    obtain ⟨a, ha, rfl | ⟨-, rfl⟩⟩ := lookup_expireStale h hstep hx
    · exact h i _ ha
    · exact h i a ha
  | load now outcome =>
    cases outcome with
    | notFound =>
      cases hstep
      exact h
    | failed e =>
      cases hstep
      exact h
    | read =>
      cases hstep
      intro i x hx
      obtain ⟨hversion, -⟩ := lookup_loadedPending.mp hx
      rcases Option.or_eq_some_iff.mp hversion with hlast | ⟨-, hmemory⟩
      · exact (mem_of_lastVersion hlast).2
      · exact h i x hmemory

end Effects

/-! ## Finality -/

/-- Is a decision over: used, denied or expired? -/
def ApprovalStatus.isTerminal : ApprovalStatus → Bool
  | .pending => false
  | .approved => false
  | .consumed => true
  | .denied => true
  | .expired => true

/-- What is over in `st` and still stored in `st'` is over there in the same way. -/
def KeepsTerminal (st st' : State) : Prop :=
  ∀ id a a', st.pending.lookup id = some a → a.status.isTerminal = true →
    st'.pending.lookup id = some a' → a'.status = a.status

/-- **The condition.**  `consume_approved` is not called past the expiry of a denied or consumed
    approval; and when a file is loaded, the last line of an approval that is over in memory says the
    same, or is not recent enough to be kept. -/
def State.Allows (env : Env) (st : State) : Op → Prop
  | .consume id _ _ now _ _ =>
    ∀ a, st.pending.lookup id = some a → a.expiresAt < now →
      a.status ≠ .denied ∧ a.status ≠ .consumed
  | .load now .read =>
    ∀ id a v, st.pending.lookup id = some a → a.status.isTerminal = true →
      lastVersion (st.replayed env) id = some v → v.isRetainedOnLoad now = true →
      v.status = a.status
  | _ => True

section Finality

variable {env : Env} {config : Config} {st st' : State}

theorem keepsTerminal_of_eq (h : st'.pending = st.pending) : KeepsTerminal st st' := by
  intro id a a' ha _ ha'
  rw [h, ha] at ha'
  cases ha'
  rfl

/-- A change of an approval that is not over keeps the others. -/
theorem keepsTerminal_of_update {id : String} {a b : PendingApproval}
    (ha : st.pending.lookup id = some a) (hstatus : a.status.isTerminal = false)
    (hlookup : ∀ i, st'.pending.lookup i = if i = id then some b else st.pending.lookup i) :
    KeepsTerminal st st' := by
  intro i x x' hx hterminal hx'
  rw [hlookup] at hx'
  split at hx'
  · rename_i hi
    rw [hi, ha] at hx
    cases hx
    rw [hstatus] at hterminal
    cases hterminal
  · rw [hx] at hx'
    cases hx'
    rfl

theorem keepsTerminal_resolve {resolution : Resolution} {id resolver : String} {now now' : Int}
    {outcome : PersistOutcome}
    (h : (st.resolve env resolution id resolver now now' outcome).1 = st') :
    KeepsTerminal st st' := by
  rcases lookup_resolve h with heq | ⟨a, b, ha, hpending, -, hlookup⟩
  · exact keepsTerminal_of_eq heq
  · refine keepsTerminal_of_update ha ?_ hlookup
    rw [hpending]
    rfl

/-- Marking an approval as expired keeps its status exactly if it was not denied or consumed. -/
theorem keepsTerminal_markExpired_iff {id : String} {a : PendingApproval}
    (ha : st.pending.lookup id = some a)
    (hlookup : ∀ i, st'.pending.lookup i =
      if i = id then some a.markExpired else st.pending.lookup i) :
    KeepsTerminal st st' ↔ a.status ≠ .denied ∧ a.status ≠ .consumed := by
  constructor
  · intro hkeeps
    have hmarked : st'.pending.lookup id = some a.markExpired := by
      rw [hlookup, if_pos rfl]
    constructor
    · intro hdenied
      have heq := hkeeps id a _ ha (by rw [hdenied]; rfl) hmarked
      rw [hdenied] at heq
      cases heq
    · intro hconsumed
      have heq := hkeeps id a _ ha (by rw [hconsumed]; rfl) hmarked
      rw [hconsumed] at heq
      cases heq
  · rintro ⟨hdenied, hconsumed⟩ i x x' hx hterminal hx'
    rw [hlookup] at hx'
    split at hx'
    · rename_i hi
      rw [hi, ha] at hx
      cases hx
      cases hx'
      show ApprovalStatus.expired = a.status
      cases hstatus : a.status with
      | pending =>
        rw [hstatus] at hterminal
        cases hterminal
      | approved =>
        rw [hstatus] at hterminal
        cases hterminal
      | consumed => exact absurd hstatus hconsumed
      | denied => exact absurd hstatus hdenied
      | expired => rfl
    · rw [hx] at hx'
      cases hx'
      rfl

/-- **One call** keeps what is over exactly if it is allowed. -/
theorem keepsTerminal_iff {op : Op} (hkeyed : st.Keyed) (hfresh : st.FreshFor op)
    (hstep : st.perform env config op = some st') : KeepsTerminal st st' ↔ st.Allows env op := by
  cases op with
  | create request id now outcome =>
    refine iff_of_true ?_ trivial
    rcases create_cases _ rfl _ rfl (Option.some.inj hstep) with
      ⟨heq, -⟩ | ⟨-, ⟨heq, -⟩ | ⟨heq, -⟩⟩
    · exact keepsTerminal_of_eq heq
    · -- the new id is not that of a stored approval
      intro i x x' hx _ hx'
      rw [heq, lookup_insert_eq, if_neg] at hx'
      · rw [hx] at hx'
        cases hx'
        rfl
      · rintro rfl
        exact absurd (hfresh.symm.trans hx) nofun
    · intro i x x' hx _ hx'
      rw [heq, lookup_erase_insert hfresh, hx] at hx'
      cases hx'
      rfl
  | approve id resolver now now' outcome =>
    exact iff_of_true (keepsTerminal_resolve (Option.some.inj hstep)) trivial
  | deny id resolver now now' outcome =>
    exact iff_of_true (keepsTerminal_resolve (Option.some.inj hstep)) trivial
  | consume id sessionId actionFingerprint now now' outcome =>
    rcases lookup_consumeApproved (Option.some.inj hstep) with
      ⟨heq, hnot⟩ | ⟨a, b, ha, -, ⟨hexpired, rfl⟩ | ⟨hnot, happroved⟩, hlookup⟩
    · exact iff_of_true (keepsTerminal_of_eq heq) fun a ha hexpired => absurd hexpired (hnot a ha)
    · rw [keepsTerminal_markExpired_iff ha hlookup]
      constructor
      · intro hstatus x hx _
        rw [ha] at hx
        cases hx
        exact hstatus
      · intro hallows
        exact hallows a ha hexpired
    · refine iff_of_true (keepsTerminal_of_update ha (by rw [happroved]; rfl) hlookup) ?_
      intro x hx hexpired
      rw [ha] at hx
      cases hx
      exact absurd hexpired hnot
  | expireStale now writes =>
    refine iff_of_true ?_ trivial
    intro i x x' hx hterminal hx'
    obtain ⟨a, ha, rfl | ⟨hstale, rfl⟩⟩ := lookup_expireStale hkeyed hstep hx'
    · rw [hx] at ha
      cases ha
      rfl
    · rw [hx] at ha
      cases ha
      rw [status_of_isStale hstale] at hterminal
      cases hterminal
  | load now outcome =>
    cases outcome with
    | notFound =>
      cases hstep
      exact iff_of_true (keepsTerminal_of_eq rfl) trivial
    | failed e =>
      cases hstep
      exact iff_of_true (keepsTerminal_of_eq rfl) trivial
    | read =>
      cases hstep
      constructor
      · intro hkeeps id a v ha hterminal hv hretained
        refine hkeeps id a v ha hterminal (lookup_loadedPending.mpr ⟨?_, hretained⟩)
        rw [hv, Option.some_or]
      · intro hallows id a a' ha hterminal ha'
        obtain ⟨hversion, hretained⟩ := lookup_loadedPending.mp ha'
        rcases Option.or_eq_some_iff.mp hversion with hlast | ⟨-, hmemory⟩
        · exact hallows id a a' ha hterminal hlast hretained
        · rw [ha] at hmemory
          cases hmemory
          rfl

theorem fresh_keyed (file : LogFile) : (State.fresh file).Keyed := by
  intro id a ha
  cases ha

end Finality

/-- **Terminal states are final exactly as far as the calls are allowed.**  Along every sequence of
    calls on a store, from any file, with any clocks and any failing writes, as long as new UUIDs are
    new: every call keeps the status of what is denied, consumed or expired, if and only if every
    call is allowed. -/
theorem terminal_states_final (env : Env) (config : Config) (file : LogFile) (ops : List Op)
    (hfresh : EachStep (State.perform env config) (fun st op _ => st.FreshFor op)
      (State.fresh file) ops) :
    EachStep (State.perform env config) (fun st _ st' => KeepsTerminal st st')
        (State.fresh file) ops ↔
      EachStep (State.perform env config) (fun st op _ => st.Allows env op)
        (State.fresh file) ops := by
  constructor
  · intro hkeeps
    refine (hfresh.and hkeeps).of_invariant (I := State.Keyed) ?_ (fresh_keyed file)
    rintro st op st' - hkeyed ⟨hfresh, hkeeps⟩ hstep
    exact ⟨perform_keyed hkeyed hstep, (keepsTerminal_iff hkeyed hfresh hstep).mp hkeeps⟩
  · intro hallows
    refine (hfresh.and hallows).of_invariant (I := State.Keyed) ?_ (fresh_keyed file)
    rintro st op st' - hkeyed ⟨hfresh, hallows⟩ hstep
    exact ⟨perform_keyed hkeyed hstep, (keepsTerminal_iff hkeyed hfresh hstep).mpr hallows⟩

/-- An approval is created and denied. -/
def deniedOps : List Op :=
  [.create sampleRequest "a" 0 .ok, .deny "a" "bob" 1000000000 1000000000 .ok]

/-- The denied approval is presented after its expiry. -/
def lateConsumption : Op :=
  .consume "a" (some "s") sampleRequest.actionFingerprint 1000000000000 1000000000000 .ok

theorem deniedOps_final_iff :
    EachStep (State.perform (plainEnv []) sampleConfig) (fun st op _ => st.FreshFor op)
      (State.fresh .empty) (deniedOps ++ [lateConsumption]) ∧
    (EachStep (State.perform (plainEnv []) sampleConfig) (fun st _ st' => KeepsTerminal st st')
        (State.fresh .empty) (deniedOps ++ [lateConsumption]) ↔
      EachStep (State.perform (plainEnv []) sampleConfig)
        (fun st op _ => st.Allows (plainEnv []) op)
        (State.fresh .empty) (deniedOps ++ [lateConsumption])) := by
  have hfresh : EachStep (State.perform (plainEnv []) sampleConfig) (fun st op _ => st.FreshFor op)
      (State.fresh .empty) (deniedOps ++ [lateConsumption]) := by
    decide +kernel
  exact ⟨hfresh, terminal_states_final (plainEnv []) sampleConfig .empty _ hfresh⟩

/-- **A denial is overwritten**: the approval is denied, and expired after the next call. -/
theorem lateConsumption_overwrites_denial :
    (run (State.perform (plainEnv []) sampleConfig) (State.fresh .empty) deniedOps).map
      (fun st => (st.pending.lookup "a").map (·.status)) = some (some .denied) ∧
    (run (State.perform (plainEnv []) sampleConfig) (State.fresh .empty)
      (deniedOps ++ [lateConsumption])).map
      (fun st => (st.pending.lookup "a").map (·.status)) = some (some .expired) := by
  constructor
  · decide +kernel
  · decide +kernel

end Vellaveto.Approval
