/-
  THE DEDUP INDEX: does it hold exactly the keys of the pending approvals?

  PROGRAM.      The calls of `Approval/Sequential`.  `create_with_context` and `load_from_file` file an
                approval under `contextKey`, which covers its containment context; `approve`, `deny`,
                `consume_approved` and `expire_stale` take out, and put back, `plainKey`, which does not.

  SPEC.         `IndexExact`: a key leads to an id exactly if the approval with that id is pending and has
                that key.  So no key stays behind, none is missing, and no two pending approvals share one.

  CORRECTNESS.  What can go wrong (`KeysFit`): a decision or an expiry where the two keys differ; a
                consumption past the expiry of a PENDING approval, which leaves its key; a consumption
                that takes out the key of another approval, or puts a key back for an approved one; and a
                file with two pending approvals under one key.  Nothing else does.
    1. `exact_create`, `exact_resolve`, `exact_consume`, `exact_expireStale`, `exact_load`   one call each;
    2. `dedup_index_exact`                    every sequence of calls that fit;
    3. `contextApproval_leaves_key`           an approval with a context, whose key is never taken out.
-/
import Vellaveto.Approval.Sequential
import Vellaveto.Lib.Index

namespace Vellaveto.Approval

open Vellaveto.Lib

/-- The index maps exactly the keys of the pending approvals to their ids. -/
def State.IndexExact (env : Env) (st : State) : Prop :=
  Exact (fun a : PendingApproval => a.status = .pending) (fun a => a.contextKey env)
    st.pending.lookup st.dedupIndex.lookup

/-- `approve` or `deny` gets past its checks, to this approval. -/
def State.Decides (env : Env) (st : State) (resolution : Resolution) (id resolver : String)
    (a : PendingApproval) : Prop :=
  checkResolvedBy resolver = .ok () ∧ st.pending.lookup id = some a ∧ a.status = .pending ∧
    checkResolver env resolution a.requestedBy resolver = .ok ()

/-- What a file and a memory together say about an id: the last line, or else the memory. -/
def State.version (env : Env) (st : State) (id : String) : Option PendingApproval :=
  (lastVersion (st.replayed env) id).or (st.pending.lookup id)

/-- **The condition** on a call and the state before it. -/
def State.KeysFit (env : Env) (st : State) : Op → Prop
  | .approve id resolver _ _ _ =>
    ∀ a, st.Decides env .approve id resolver a → a.contextKey env = a.plainKey env
  | .deny id resolver _ _ _ =>
    ∀ a, st.Decides env .deny id resolver a → a.contextKey env = a.plainKey env
  | .consume id sessionId actionFingerprint now _ outcome =>
    ∀ a, st.pending.lookup id = some a →
      (a.expiresAt < now → a.status ≠ .pending) ∧
      (¬a.expiresAt < now → a.status = .approved → a.actionFingerprint.isSome = true →
        a.scopeMatches env sessionId actionFingerprint = true → outcome = .ok ∧
          ∀ i b, st.pending.lookup i = some b → b.status = .pending →
            b.contextKey env ≠ a.plainKey env)
  | .expireStale now _ =>
    ∀ id a, st.pending.lookup id = some a → a.isStale now = true →
      a.contextKey env = a.plainKey env
  | .load _ .read =>
    ∀ i j a b, st.version env i = some a → st.version env j = some b → a.status = .pending →
      b.status = .pending → a.contextKey env = b.contextKey env → i = j
  | _ => True

section Calls

variable {env : Env} {config : Config} {st st' : State}

/-- The keys are those of the approval as it was created. -/
theorem contextKey_of_created {a b : PendingApproval} (h : b.created = a.created) :
    b.contextKey env = a.contextKey env := by
  show b.created.contextKey env = a.created.contextKey env
  rw [h]

/-- A key that leads nowhere belongs to no pending approval. -/
theorem not_key_of_findExisting (hexact : st.IndexExact env) {key : String}
    (hnone : st.findExisting key = none) {i : String} {b : PendingApproval}
    (hb : st.pending.lookup i = some b) (hpending : b.status = .pending) :
    b.contextKey env ≠ key := by
  rintro rfl
  have hindex : st.dedupIndex.lookup (b.contextKey env) = some i :=
    (hexact _ i).mpr ⟨b, hb, hpending, rfl⟩
  rw [State.findExisting, hindex] at hnone
  simp [hb, hpending] at hnone

/-- `create_with_context`. -/
theorem exact_create (hexact : st.IndexExact env) {request : CreateRequest} {id : String} {now : Int}
    {outcome : PersistOutcome} (hfresh : st.pending.lookup id = none)
    (h : (st.create env config request id now outcome).1 = st') : st'.IndexExact env := by
  rcases create_cases _ rfl _ rfl h with
    ⟨hpending, hindex⟩ | ⟨hnone, ⟨hpending, hindex⟩ | ⟨hpending, hindex⟩⟩
  · rw [State.IndexExact, hpending, hindex]
    exact hexact
  · have hkey := fun i b => not_key_of_findExisting (i := i) (b := b) hexact hnone
    rw [State.IndexExact, hpending, hindex]
    refine hexact.add (e := request.approval config id now) rfl ?_ hkey (lookup_insert_eq _ _ · _)
      (lookup_insert_eq _ _ · _)
    intro x hx
    rw [hfresh] at hx
    cases hx
  · -- both maps are as they were
    have hkey := fun i b => not_key_of_findExisting (i := i) (b := b) hexact hnone
    have hsame : ∀ k, ((st.dedupIndex.insert ((request.approval config id now).contextKey env)
        id).erase ((request.approval config id now).contextKey env)).lookup k =
        st.dedupIndex.lookup k := by
      intro k
      rw [lookup_erase_eq, lookup_insert_eq]
      split
      · rename_i hk
        rw [hk]
        exact (hexact.index_eq_none hkey).symm
      · rfl
    rw [State.IndexExact, hpending, hindex]
    exact hexact.of_eq (lookup_erase_insert hfresh _) hsame

theorem resolve_of_not_decides {resolution : Resolution} {id resolver : String} {now now' : Int}
    {outcome : PersistOutcome} (h : ∀ a, ¬st.Decides env resolution id resolver a) :
    (st.resolve env resolution id resolver now now' outcome).1 = st := by
  rw [State.resolve]
  split
  · rfl
  · rename_i hresolver
    split
    · rfl
    · rename_i a ha
      split
      · rfl
      · rename_i hstatus
        split
        · rfl
        · rename_i hcheck
          have hpending : a.status = .pending := by simpa using hstatus
          exact absurd ⟨hresolver, ha, hpending, hcheck⟩ (h a)

/-- The key of a pending approval is taken out when it is no longer pending. -/
theorem exact_settle (hexact : st.IndexExact env) {id : String} {a b : PendingApproval}
    (ha : st.pending.lookup id = some a) (hpending : a.status = .pending)
    (hb : b.status ≠ .pending)
    (hlookup : ∀ i, st'.pending.lookup i = if i = id then some b else st.pending.lookup i)
    (hindex : ∀ k, st'.dedupIndex.lookup k =
      if k = a.contextKey env then none else st.dedupIndex.lookup k) : st'.IndexExact env := by
  refine hexact.drop (fun i => i = id) ?_ ?_
  · intro i e he
    rw [hlookup]
    split
    · rename_i hi
      constructor
      · intro heq
        cases heq
        exact absurd he hb
      · rintro ⟨-, hne⟩
        exact absurd hi hne
    · rename_i hi
      exact ⟨fun heq => ⟨heq, hi⟩, fun heq => heq.1⟩
  · intro k i
    rw [hindex]
    have hiff : (∃ j e, j = id ∧ st.pending.lookup j = some e ∧ e.status = .pending ∧
        e.contextKey env = k) ↔ k = a.contextKey env := by
      constructor
      · rintro ⟨j, e, rfl, he, -, rfl⟩
        rw [ha] at he
        cases he
        rfl
      · rintro rfl
        exact ⟨id, a, rfl, ha, hpending, rfl⟩
    rw [hiff]
    split
    · rename_i hk
      exact iff_of_false nofun fun heq => heq.2 hk
    · rename_i hk
      exact ⟨fun heq => ⟨heq, hk⟩, fun heq => heq.1⟩

/-- `approve` and `deny`. -/
theorem exact_resolve (hexact : st.IndexExact env) {resolution : Resolution} {id resolver : String}
    {now now' : Int} {outcome : PersistOutcome}
    (hfit : ∀ a, st.Decides env resolution id resolver a → a.contextKey env = a.plainKey env)
    (h : (st.resolve env resolution id resolver now now' outcome).1 = st') :
    st'.IndexExact env := by
  by_cases hdecides : ∃ a, st.Decides env resolution id resolver a
  · obtain ⟨a, hdecides⟩ := hdecides
    have hkey : a.plainKey env = a.contextKey env := (hfit a hdecides).symm
    cases hr : st.resolve env resolution id resolver now now' outcome with
    | mk st₁ r =>
      rw [hr] at h
      subst h
      rcases resolve_cases hr with ⟨rfl, -⟩ | ⟨x, hx, hpending,
        ⟨-, rfl, -⟩ | ⟨-, rfl, -⟩ | ⟨n, next, back, -, hback, hcreated, rfl, -⟩⟩
      · exact hexact
      · rw [hdecides.2.1] at hx
        cases hx
        refine exact_settle hexact hdecides.2.1 hpending (b := a.markExpired) nofun
          (lookup_insert_eq _ _ · _) ?_
        intro k
        rw [lookup_erase_eq, hkey]
      · rw [hdecides.2.1] at hx
        cases hx
        refine exact_settle hexact hdecides.2.1 hpending
          (b := a.resolveWith resolution resolver now') ?_ (lookup_insert_eq _ _ · _) ?_
        · cases resolution with
          | approve => exact nofun
          | deny => exact nofun
        · intro k
          rw [lookup_erase_eq, hkey]
      · -- taken back: the approval is pending again, and its key leads to it again
        rw [hdecides.2.1] at hx
        cases hx
        have hsame : ∀ k, ((st.dedupIndex.erase (a.plainKey env)).insert (a.plainKey env) id).lookup
            k = st.dedupIndex.lookup k := by
          intro k
          rw [lookup_insert_eq, lookup_erase_eq]
          split
          · rename_i hk
            rw [hk, hkey]
            exact ((hexact _ id).mpr ⟨a, hdecides.2.1, hpending, rfl⟩).symm
          · rfl
        refine (hexact.replace back hdecides.2.1 (iff_of_true hback hpending)
          (contextKey_of_created hcreated) fun i => rfl).of_eq ?_ hsame
        exact (lookup_insert_insert _ _ · _ _)
  · rw [resolve_of_not_decides fun a ha => hdecides ⟨a, ha⟩] at h
    rw [← h]
    exact hexact

/-- `consume_approved`. -/
theorem exact_consume (hexact : st.IndexExact env) {id : String}
    {sessionId actionFingerprint : Option String} {now now' : Int} {outcome : PersistOutcome}
    (hfit : st.KeysFit env (.consume id sessionId actionFingerprint now now' outcome))
    (h : (st.consumeApproved env id sessionId actionFingerprint now now' outcome).1 = st') :
    st'.IndexExact env := by
  cases hr : st.consumeApproved env id sessionId actionFingerprint now now' outcome with
  | mk st₁ r =>
    rw [hr] at h
    subst h
    rcases consume_cases hr with ⟨rfl, -⟩ | ⟨a, ha, ⟨hexpired, rfl, -⟩ |
      ⟨hnot, happroved, hsome, hscope, hcase⟩⟩
    · exact hexact
    · have hstatus := (hfit a ha).1 hexpired
      exact hexact.replace a.markExpired ha (iff_of_false nofun hstatus) rfl
        (lookup_insert_eq _ _ · _)
    · obtain ⟨hok, hother⟩ := (hfit a ha).2 hnot happroved hsome hscope
      have hstatus : a.status ≠ .pending := by
        rw [happroved]
        exact nofun
      rcases hcase with ⟨-, rfl, -⟩ | ⟨n, back, hfailed, -⟩
      · -- the key that is taken out is not in the index
        have hsame : ∀ k, (st.dedupIndex.erase (a.plainKey env)).lookup k =
            st.dedupIndex.lookup k := by
          intro k
          rw [lookup_erase_eq]
          split
          · rename_i hk
            rw [hk]
            exact (hexact.index_eq_none hother).symm
          · rfl
        refine (hexact.replace (a.consume now') ha (iff_of_false nofun hstatus) rfl
          fun i => rfl).of_eq ?_ hsame
        exact (lookup_insert_eq _ _ · _)
      · rw [hok] at hfailed
        cases hfailed

/-- The first section of `expire_stale`. -/
theorem exact_expireMark (hexact : st.IndexExact env) {now : Int}
    (hfit : ∀ id a, st.pending.lookup id = some a → a.isStale now = true →
      a.contextKey env = a.plainKey env) : (st.expireMark env now).1.IndexExact env := by
  refine hexact.drop
    (fun i => ∃ a, st.pending.lookup i = some a ∧ a.isStale now = true) ?_ ?_
  · intro i e he
    rw [lookup_expireMark]
    constructor
    · rintro ⟨a, ha, rfl, -⟩
      cases hstale : a.isStale now with
      | true =>
        rw [expire_of_isStale hstale] at he
        cases he
      | false =>
        rw [expire_of_not_isStale hstale]
        refine ⟨ha, ?_⟩
        rintro ⟨x, hx, hx'⟩
        rw [ha] at hx
        cases hx
        rw [hstale] at hx'
        cases hx'
    · rintro ⟨hi, hkept⟩
      have hfresh : e.isStale now = false := by
        cases hstale : e.isStale now with
        | true => exact absurd ⟨e, hi, hstale⟩ hkept
        | false => rfl
      refine ⟨e, hi, (expire_of_not_isStale hfresh).symm, ?_⟩
      rw [PendingApproval.isRetained, he]
      rfl
  · intro k i
    show (eraseAll st.dedupIndex _).lookup k = some i ↔ _
    rw [lookup_eraseAll]
    -- the keys that are erased are those of the approvals that are marked
    have hkeys : k ∈ ((st.pending.entries.map (·.2)).filter (·.isStale now)).map (·.plainKey env) ↔
        ∃ j e, (∃ a, st.pending.lookup j = some a ∧ a.isStale now = true) ∧
          st.pending.lookup j = some e ∧ e.status = .pending ∧ e.contextKey env = k := by
      simp only [List.mem_map, List.mem_filter]
      constructor
      · rintro ⟨a, ⟨⟨e, he, rfl⟩, hstale⟩, rfl⟩
        have hlookup := mem_entries_iff.mp he
        exact ⟨e.1, e.2, ⟨e.2, hlookup, hstale⟩, hlookup, status_of_isStale hstale,
          hfit e.1 e.2 hlookup hstale⟩
      · rintro ⟨j, e, ⟨a, ha, hstale⟩, he, -, rfl⟩
        rw [he] at ha
        cases ha
        exact ⟨e, ⟨⟨⟨j, e⟩, mem_entries_iff.mpr he, rfl⟩, hstale⟩, (hfit j e he hstale).symm⟩
    by_cases hk : k ∈ ((st.pending.entries.map (·.2)).filter (·.isStale now)).map (·.plainKey env)
    · rw [if_pos hk]
      exact iff_of_false nofun fun heq => heq.2 (hkeys.mp hk)
    · rw [if_neg hk]
      exact ⟨fun heq => ⟨heq, fun hex => hk (hkeys.mpr hex)⟩, fun heq => heq.1⟩

/-- The last section of `expire_stale` on a state `cur` that marking has made out of `st`: what was
    pending in `st` has a key of its own. -/
theorem exact_expireRollback (hexact : st.IndexExact env) {failedIds : List String}
    (hids : ∀ i ∈ failedIds, ∃ a, st.pending.lookup i = some a ∧ a.status = .pending ∧
      a.contextKey env = a.plainKey env) {cur : State} (hcur : cur.IndexExact env)
    (hfrom : ∀ i x, cur.pending.lookup i = some x → ∃ a, st.pending.lookup i = some a ∧
      (x = a ∨ a.status = .pending ∧ x = a.markExpired)) :
    (cur.expireRollback env failedIds).IndexExact env := by
  induction failedIds generalizing cur with
  | nil => exact hcur
  | cons id ids ih =>
    rw [State.expireRollback, List.foldl_cons]
    obtain ⟨a, ha, hpending, hkey⟩ := hids id List.mem_cons_self
    have hrest := fun i hi => hids i (List.mem_cons_of_mem id hi)
    cases hlookup : cur.pending.lookup id with
    | none =>
      have hsame : cur.expireRollbackOne env id = cur := by
        rw [State.expireRollbackOne, hlookup]
      rw [hsame]
      exact ih hrest hcur hfrom
    | some x =>
      by_cases hexpired : x.status = .expired
      · -- it was pending in `st`, and comes back as it was
        have hx : x = a.markExpired := by
          obtain ⟨b, hb, rfl | ⟨-, rfl⟩⟩ := hfrom id x hlookup
          · rw [ha] at hb
            cases hb
            rw [hpending] at hexpired
            cases hexpired
          · rw [ha] at hb
            cases hb
            rfl
        have hback : cur.expireRollbackOne env id =
            ⟨cur.pending.insert id a, cur.dedupIndex.insert (a.contextKey env) id, cur.file⟩ := by
          have hunexpired : { a.markExpired with status := .pending } = a :=
            unexpire_markExpired hpending
          rw [State.expireRollbackOne, hlookup, hx]
          dsimp only
          rw [if_pos (by rfl), hunexpired, hkey]
          rfl
        rw [hback]
        refine ih hrest ?_ ?_
        · refine Exact.add (e := a) hcur hpending ?_ ?_ (lookup_insert_eq _ _ · _)
            (lookup_insert_eq _ _ · _)
          · intro y hy
            rw [hlookup] at hy
            cases hy
            intro hyPending
            cases hexpired.symm.trans hyPending
          · intro j y hy hyPending hyKey
            have hjid : j = id := by
              obtain ⟨b, hb, rfl | ⟨-, rfl⟩⟩ := hfrom j y hy
              · exact hexact.unique hb ha hyPending hpending hyKey
              · cases hyPending
            rw [hjid, hlookup] at hy
            cases hy
            rw [hexpired] at hyPending
            cases hyPending
        · intro i y hy
          rw [lookup_insert_eq] at hy
          split at hy
          · rename_i hi
            cases hy
            exact ⟨a, hi ▸ ha, .inl rfl⟩
          · exact hfrom i y hy
      · have hsame : cur.expireRollbackOne env id = cur := by
          rw [State.expireRollbackOne, hlookup]
          exact if_neg hexpired
        rw [hsame]
        exact ih hrest hcur hfrom

/-- `expire_stale`. -/
theorem exact_expireStale (hexact : st.IndexExact env) (hkeyed : st.Keyed) {now : Int}
    {writes : List (PendingApproval × PersistOutcome)}
    (hfit : st.KeysFit env (.expireStale now writes))
    (h : st.expireStale env now writes = some st') : st'.IndexExact env := by
  obtain ⟨file, failedIds, rfl, hsub⟩ := expireStale_eq h
  refine exact_expireRollback hexact ?_ ?_ ?_
  · intro i hi
    obtain ⟨a, ha, hstale⟩ := mem_failedIds hkeyed hsub hi
    exact ⟨a, ha, status_of_isStale hstale, hfit i a ha hstale⟩
  · exact exact_expireMark hexact hfit
  · intro i x hx
    obtain ⟨a, ha, rfl, -⟩ := (lookup_expireMark env).mp hx
    refine ⟨a, ha, ?_⟩
    cases hstale : a.isStale now with
    | false => exact .inl (expire_of_not_isStale hstale)
    | true => exact .inr ⟨status_of_isStale hstale, expire_of_isStale hstale⟩

/-- The index of a map whose pending approvals have distinct keys. -/
theorem exact_rebuildIndex {pending : PendingMap} {file : LogFile}
    (hkeyed : ∀ id a, pending.lookup id = some a → a.id = id)
    (hunique : ∀ i j a b, pending.lookup i = some a → pending.lookup j = some b →
      a.status = .pending → b.status = .pending → a.contextKey env = b.contextKey env → i = j) :
    State.IndexExact env ⟨pending, rebuildIndex env pending, file⟩ := by
  refine exact_of_unique ?_ ?_ hunique
  · intro k i hi
    change (rebuildIndex env pending).lookup k = some i at hi
    rw [rebuildIndex, lookup_insertAll] at hi
    have hlast := hi
    rw [show (∅ : DedupIndex).lookup k = none from rfl, Option.or_none] at hlast
    obtain ⟨a, ha, heq⟩ := List.mem_map.mp (mem_of_lastOf_eq_some hlast)
    obtain ⟨hvalue, hpending⟩ := List.mem_filter.mp ha
    obtain ⟨e, he, rfl⟩ := List.mem_map.mp hvalue
    have hlookup := mem_entries_iff.mp he
    cases heq
    rw [hkeyed e.1 e.2 hlookup]
    exact ⟨e.2, hlookup, eq_of_beq hpending, rfl⟩
  · intro i e he hpending
    have hmem : (e.contextKey env, e.id) ∈ (((pending.entries.map (·.2)).filter
        fun a => a.status == .pending).map fun a => (a.contextKey env, a.id)) := by
      refine List.mem_map.mpr ⟨e, List.mem_filter.mpr ⟨?_, ?_⟩, rfl⟩
      · exact List.mem_map.mpr ⟨⟨i, e⟩, mem_entries_iff.mpr he, rfl⟩
      · simp [hpending]
    obtain ⟨j, hj⟩ := exists_lastOf_of_mem hmem
    refine ⟨j, ?_⟩
    show (rebuildIndex env pending).lookup _ = some j
    rw [rebuildIndex, lookup_insertAll, hj, Option.some_or]

/-- `load_from_file`. -/
theorem exact_load (hexact : st.IndexExact env) (hkeyed : st.Keyed) {now : Int}
    {outcome : ReadOutcome} (hfit : st.KeysFit env (.load now outcome))
    (h : (st.loadFromFile env now outcome).1 = st') : st'.IndexExact env := by
  have hload : st.perform env ⟨0, 0⟩ (.load now outcome) = some st' := congrArg some h
  have hkeyed' : st'.Keyed := perform_keyed hkeyed hload
  subst h
  cases outcome with
  | notFound => exact hexact
  | failed e => exact hexact
  | read =>
    refine exact_rebuildIndex hkeyed' ?_
    intro i j a b ha hb
    exact hfit i j a b (lookup_loadedPending.mp ha).1 (lookup_loadedPending.mp hb).1

/-- **One call** that fits keeps the index exact. -/
theorem perform_exact {op : Op} (hexact : st.IndexExact env) (hkeyed : st.Keyed)
    (hfresh : st.FreshFor op) (hfit : st.KeysFit env op)
    (hstep : st.perform env config op = some st') : st'.IndexExact env := by
  cases op with
  | create request id now outcome => exact exact_create hexact hfresh (Option.some.inj hstep)
  | approve id resolver now now' outcome => exact exact_resolve hexact hfit (Option.some.inj hstep)
  | deny id resolver now now' outcome => exact exact_resolve hexact hfit (Option.some.inj hstep)
  | consume id sessionId actionFingerprint now now' outcome =>
    exact exact_consume hexact hfit (Option.some.inj hstep)
  | expireStale now writes => exact exact_expireStale hexact hkeyed hfit hstep
  | load now outcome => exact exact_load hexact hkeyed hfit (Option.some.inj hstep)

end Calls

theorem fresh_exact (env : Env) (file : LogFile) : (State.fresh file).IndexExact env := by
  intro k i
  refine iff_of_false nofun ?_
  rintro ⟨a, ha, -⟩
  cases ha

/-- **The dedup index is exact** after every call of every sequence of calls that fit, from any file,
    with any clocks and failing writes, as long as new UUIDs are new. -/
theorem dedup_index_exact (env : Env) (config : Config) (file : LogFile) (ops : List Op)
    (hfresh : EachStep (State.perform env config) (fun st op _ => st.FreshFor op)
      (State.fresh file) ops)
    (hfit : EachStep (State.perform env config) (fun st op _ => st.KeysFit env op)
      (State.fresh file) ops) :
    EachStep (State.perform env config) (fun _ _ st' => st'.IndexExact env)
      (State.fresh file) ops := by
  refine (hfresh.and hfit).of_invariant (I := fun st => st.IndexExact env ∧ st.Keyed) ?_
    ⟨fresh_exact env file, fresh_keyed file⟩
  rintro st op st' - ⟨hexact, hkeyed⟩ ⟨hfresh, hfit⟩ hstep
  have hexact' := perform_exact hexact hkeyed hfresh hfit hstep
  exact ⟨⟨hexact', perform_keyed hkeyed hstep⟩, hexact'⟩

/-- An approval without a context is created and approved. -/
def approvedOps : List Op :=
  [.create sampleRequest "a" 0 .ok, .approve "a" "bob" 1000000000 1000000000 .ok]

theorem approvedOps_exact :
    (run (State.perform (plainEnv []) sampleConfig) (State.fresh .empty) approvedOps).map
      (fun st => st.dedupIndex.keys) = some [] ∧
    EachStep (State.perform (plainEnv []) sampleConfig) (fun _ _ st' => st'.IndexExact (plainEnv []))
      (State.fresh .empty) approvedOps := by
  have hfresh : EachStep (State.perform (plainEnv []) sampleConfig) (fun st op _ => st.FreshFor op)
      (State.fresh .empty) approvedOps := by
    decide +kernel
  have hcreated : ((State.fresh .empty).create (plainEnv []) sampleConfig sampleRequest "a" 0
      .ok).1.pending.lookup "a" = some (sampleRequest.approval sampleConfig "a" 0) := by
    decide +kernel
  refine ⟨by decide +kernel, dedup_index_exact (plainEnv []) sampleConfig .empty _ hfresh ?_⟩
  rintro st hst
  refine ⟨trivial, fun st' _ => ⟨?_, trivial⟩⟩
  obtain rfl := Option.some.inj hst
  rintro a ⟨-, ha, -⟩
  rw [hcreated] at ha
  cases ha
  exact PendingApproval.contextKey_eq_plainKey _ rfl

/-- The same request in a containment context. -/
def contextRequest : CreateRequest :=
  { sampleRequest with
    containmentContext := some { ContainmentContext.default with clientKeyId := some "k" } }

def contextOps : List Op :=
  [.create contextRequest "a" 0 .ok, .approve "a" "bob" 1000000000 1000000000 .ok]

/-- **A key stays behind**: the approval is approved, and its key still leads to it. -/
theorem contextApproval_leaves_key :
    (run (State.perform (plainEnv []) sampleConfig) (State.fresh .empty) contextOps).map
      (fun st => ((st.pending.lookup "a").map (·.status),
        st.dedupIndex.lookup
          ((contextRequest.approval sampleConfig "a" 0).contextKey (plainEnv [])))) =
      some (some .approved, some "a") := by
  decide +kernel

end Vellaveto.Approval
