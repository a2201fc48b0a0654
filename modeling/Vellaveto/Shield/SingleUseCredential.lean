/-
  A CREDENTIAL IS RETURNED ONCE.

  `consume_credential` returns an Available entry after it has made it Active in memory and on disk.
  So what has to be excluded is a way back to Available: a rollback, a rewrite from a list that does
  not know of the change, or a file that is read again.

  1. **One relation for every change of statuses** (`Demotes`) — entry by entry the same `id`, and
     Available only if it was before.  A rollback goes back to Available only from a change of an
     Available entry, so the entries after it are a demotion of those before the CALL.

  2. **One invariant for both copies** (`Ledger`) — the entries of the memory and the records of the
     file have distinct numbers below `nextId`, and an Available one has not been returned.  A call
     moves a demotion of the memory into the file or appends a new number to it
     (`Advances`); a process that opens the file takes a part of its records.

  3. **The run** (`credentials_single_use`) — an entry that is returned was Available, so it had not
     been returned before.
-/
import Mathlib.Data.List.Forall2
import Vellaveto.Shield.CredentialVault

namespace Vellaveto.Shield

open Vellaveto.Lib

/-! ## Demotions -/

/-- The same entry, and Available only if it was. -/
def Demoted (e e' : VaultEntry) : Prop :=
  e'.id = e.id ∧ (e'.status = .available → e.status = .available)

/-- Entry by entry. -/
def Demotes (es es' : List VaultEntry) : Prop := List.Forall₂ Demoted es es'

theorem Demoted.refl (e : VaultEntry) : Demoted e e := ⟨rfl, id⟩

theorem Demotes.refl (es : List VaultEntry) : Demotes es es :=
  List.forall₂_same.mpr fun e _ => Demoted.refl e

/-- One entry of the later list is changed. -/
theorem Demotes.modify {es es' : List VaultEntry} (h : Demotes es es') {i : Nat}
    {g : VaultEntry → VaultEntry}
    (hg : ∀ e e', es[i]? = some e → Demoted e e' → Demoted e (g e')) :
    Demotes es (es'.modify i g) := by
  induction h generalizing i with
  | nil =>
    rw [List.modify_nil]
    exact List.Forall₂.nil
  | @cons e e' es es' he hes ih =>
    cases i with
    | zero => exact List.Forall₂.cons (hg e e' rfl he) hes
    | succ i => exact List.Forall₂.cons he (ih fun d d' hd => hg d d' hd)

theorem Demotes.modifyAll {es es' : List VaultEntry} (h : Demotes es es') {indices : List Nat}
    {g : VaultEntry → VaultEntry}
    (hg : ∀ i ∈ indices, ∀ e e', es[i]? = some e → Demoted e e' → Demoted e (g e')) :
    Demotes es (modifyAll indices g es') := by
  induction indices generalizing es' with
  | nil => exact h
  | cons i indices ih =>
    have hi := h.modify (hg i List.mem_cons_self)
    exact ih hi fun j hj => hg j (List.mem_cons_of_mem i hj)

/-! ## The ledger -/

/-- Distinct numbers below `nextId`, and no Available entry among the returned ones. -/
structure Ledger (nextId : Nat) (returned : List Nat) (es : List VaultEntry) : Prop where
  nodup : (es.map VaultEntry.id).Nodup
  lt : ∀ e ∈ es, e.id < nextId
  unreturned : ∀ e ∈ es, e.status = .available → e.id ∉ returned

section Ledger

variable {nextId : Nat} {returned : List Nat} {es es' : List VaultEntry}

theorem ids_eq_of_demotes (hes : Demotes es es') :
    es'.map VaultEntry.id = es.map VaultEntry.id := by
  induction hes with
  | nil => rfl
  | cons he _ ih => rw [List.map_cons, List.map_cons, he.1, ih]

theorem exists_of_mem_demotes (hes : Demotes es es') {e' : VaultEntry} (he' : e' ∈ es') :
    ∃ e ∈ es, Demoted e e' := by
  induction hes with
  | nil => cases he'
  | @cons d d' es es' hd _ ih =>
    rcases List.mem_cons.mp he' with rfl | he'
    · exact ⟨d, List.mem_cons_self, hd⟩
    · obtain ⟨e, he, hee'⟩ := ih he'
      exact ⟨e, List.mem_cons_of_mem d he, hee'⟩

theorem Ledger.demotes (h : Ledger nextId returned es) (hes : Demotes es es') :
    Ledger nextId returned es' := by
  refine ⟨ids_eq_of_demotes hes ▸ h.nodup, ?_, ?_⟩
  · intro e' he'
    obtain ⟨e, he, hid, _⟩ := exists_of_mem_demotes hes he'
    rw [hid]
    exact h.lt e he
  · intro e' he' havailable
    obtain ⟨e, he, hid, hstatus⟩ := exists_of_mem_demotes hes he'
    rw [hid]
    exact h.unreturned e he (hstatus havailable)

theorem Ledger.sublist (h : Ledger nextId returned es) (hes : es'.Sublist es) :
    Ledger nextId returned es' :=
  ⟨h.nodup.sublist (hes.map _), fun e he => h.lt e (hes.subset he),
    fun e he => h.unreturned e (hes.subset he)⟩

theorem Ledger.succ (h : Ledger nextId returned es) : Ledger (nextId + 1) returned es :=
  ⟨h.nodup, fun e he => Nat.lt_succ_of_lt (h.lt e he), h.unreturned⟩

/-- A new entry gets a number that was not there. -/
theorem Ledger.append (h : Ledger nextId returned es) (hreturned : ∀ id ∈ returned, id < nextId)
    {entry : VaultEntry} (hid : entry.id = nextId) :
    Ledger (nextId + 1) returned (es ++ [entry]) := by
  refine ⟨?_, ?_, ?_⟩
  · have hnew : nextId ∉ es.map VaultEntry.id := by
      intro hmem
      obtain ⟨e, he, heq⟩ := List.mem_map.mp hmem
      have hlt := h.lt e he
      omega
    rw [List.map_append, List.map_singleton, hid]
    exact List.nodup_append.mpr ⟨h.nodup, List.nodup_singleton _, fun a ha b hb hab =>
      hnew (List.mem_singleton.mp hb ▸ hab ▸ ha)⟩
  · intro e he
    rcases List.mem_append.mp he with he | he
    · exact Nat.lt_succ_of_lt (h.lt e he)
    · rw [List.mem_singleton.mp he, hid]
      exact Nat.lt_succ_self _
  · intro e he havailable
    rcases List.mem_append.mp he with he | he
    · exact h.unreturned e he havailable
    · rw [List.mem_singleton.mp he, hid]
      intro hmem
      exact absurd (hreturned nextId hmem) (Nat.lt_irrefl _)

end Ledger

/-- The whole records of the file. -/
def records (file : List Chunk) : List VaultEntry :=
  file.filterMap fun chunk =>
    match chunk with
    | .record e => some e
    | .torn _ _ => none

theorem records_map_record (es : List VaultEntry) : records (es.map .record) = es := by
  induction es with
  | nil => rfl
  | cons e es ih =>
    show e :: records (es.map .record) = e :: es
    rw [ih]

/-- Both copies are ledgers. -/
structure Booked (v : CredentialVault) (returned : List Nat) : Prop where
  entries : Ledger v.nextId returned v.entries
  file : Ledger v.nextId returned (records v.file)
  lt : ∀ id ∈ returned, id < v.nextId

/-- What one call may do to the vault, as far as it matters here. -/
def Advances (v w : CredentialVault) : Prop := ∀ returned, Booked v returned → Booked w returned

theorem Advances.refl (v : CredentialVault) : Advances v v := fun _ h => h

theorem Advances.trans (v w x : CredentialVault) (hvw : Advances v w) (hwx : Advances w x) :
    Advances v x := fun returned h => hwx returned (hvw returned h)

/-! ## The calls -/

/-- Statuses are changed in memory, and the file keeps its records or gets those of such a change. -/
theorem advances_of_demotes {v w : CredentialVault} (hnext : w.nextId = v.nextId)
    (hentries : Demotes v.entries w.entries)
    (hfile : w.file = v.file ∨ ∃ es, w.file = es.map .record ∧ Demotes v.entries es) :
    Advances v w := by
  intro returned h
  refine ⟨?_, ?_, ?_⟩
  · rw [hnext]
    exact h.entries.demotes hentries
  · rw [hnext]
    rcases hfile with hsame | ⟨es, hes, hdemotes⟩
    · rw [hsame]
      exact h.file
    · rw [hes, records_map_record]
      exact h.entries.demotes hdemotes
  · rw [hnext]
    exact h.lt

section Change

variable {indices : List Nat} {f undo : VaultEntry → VaultEntry} {v : CredentialVault}

/-- A change that makes nothing Available, and whose undoing makes Available only what was. -/
structure IsChange (indices : List Nat) (f undo : VaultEntry → VaultEntry)
    (es : List VaultEntry) : Prop where
  change : ∀ e e', Demoted e e' → Demoted e (f e')
  undo : ∀ i ∈ indices, ∀ e e', es[i]? = some e → Demoted e e' → Demoted e (undo e')

theorem IsChange.demotes (h : IsChange indices f undo v.entries) :
    Demotes v.entries (modifyAll indices f v.entries) :=
  (Demotes.refl _).modifyAll fun _ _ e e' _ => h.change e e'

/-- Whatever becomes of the rewrite, neither copy makes anything Available. -/
theorem advances_changeEntries (h : IsChange indices f undo v.entries) (io : PersistIo) :
    Advances v (changeEntries indices f undo io v).2 := by
  have hchanged := h.demotes
  have hundone : Demotes v.entries (modifyAll indices undo (modifyAll indices f v.entries)) :=
    hchanged.modifyAll h.undo
  have hnew : ∃ es : List VaultEntry, (modifyAll indices f v.entries).map Chunk.record =
      es.map .record ∧ Demotes v.entries es := ⟨_, rfl, hchanged⟩
  cases io with
  | ok => exact advances_of_demotes rfl hchanged (Or.inr hnew)
  | failed e replaced =>
    cases replaced with
    | false => exact advances_of_demotes rfl hundone (Or.inl rfl)
    | true => exact advances_of_demotes rfl hundone (Or.inr hnew)
  | stopped replaced =>
    cases replaced with
    | false => exact advances_of_demotes rfl hchanged (Or.inl rfl)
    | true => exact advances_of_demotes rfl hchanged (Or.inr hnew)

/-- A change that succeeds is in memory and on disk. -/
theorem changeEntries_eq_ok {io : PersistIo} {u : Unit} {w : CredentialVault}
    (h : changeEntries indices f undo io v = (.ok u, w)) :
    w = { v with
      entries := modifyAll indices f v.entries
      file := (modifyAll indices f v.entries).map .record } := by
  cases io with
  | ok =>
    cases h
    rfl
  | failed e replaced => cases h
  | stopped replaced => cases h

end Change

theorem mem_indicesWhere {p : VaultEntry → Bool} {es : List VaultEntry} {i : Nat}
    (hi : i ∈ indicesWhere p es) : ∃ e, es[i]? = some e ∧ p e = true := by
  have hany := (List.mem_filter.mp hi).2
  cases he : es[i]? with
  | none =>
    rw [he] at hany
    cases hany
  | some e =>
    rw [he] at hany
    exact ⟨e, rfl, hany⟩

/-- The search of `consume_credential`. -/
theorem of_find_available {es : List VaultEntry} {entry : VaultEntry} {idx : Nat}
    (h : es.zipIdx.find? (fun p => p.1.status == .available) = some (entry, idx)) :
    es[idx]? = some entry ∧ entry.status = .available := by
  have hmem := List.mem_of_find?_eq_some h
  have hstatus := List.find?_some h
  exact ⟨List.mem_zipIdx_iff_getElem?.mp hmem, by simpa using hstatus⟩

theorem isChange_consume {es : List VaultEntry} {entry : VaultEntry} {idx : Nat}
    (hidx : es[idx]? = some entry) (hstatus : entry.status = .available) (now : Nat) :
    IsChange [idx] (fun e => { e with status := .active, activatedAt := some now })
      (fun e => { e with status := .available, activatedAt := none }) es := by
  refine ⟨fun e e' he => ⟨he.1, fun h => nomatch h⟩, ?_⟩
  intro i hi e e' he hdemoted
  cases List.mem_singleton.mp hi
  cases hidx.symm.trans he
  exact ⟨hdemoted.1, fun _ => hstatus⟩

theorem advances_consumeCredential (now : Nat) (io : PersistIo) :
    (consumeCredential now io).Keeps Advances := by
  intro v
  rw [consumeCredential, Act.bind_of_ok Act.read_apply]
  cases hfind : v.entries.zipIdx.find? (fun p => p.1.status == .available) with
  | none => exact Advances.refl v
  | some p =>
    obtain ⟨entry, idx⟩ := p
    obtain ⟨hidx, hstatus⟩ := of_find_available hfind
    refine Act.rel_bind Advances.trans ?_ fun _ w _ => Advances.refl w
    exact advances_changeEntries (isChange_consume hidx hstatus now) io

theorem advances_markConsumed (index : Nat) (io : PersistIo) :
    (markConsumed index io).Keeps Advances := by
  intro v
  rw [markConsumed, Act.bind_of_ok Act.read_apply]
  cases hentry : v.entries[index]? with
  | none => exact Advances.refl v
  | some entry =>
    by_cases hstatus : entry.status = .active
    · have hchange : IsChange [index] (fun e => { e with status := .consumed, activatedAt := none })
          (fun e => { e with status := entry.status, activatedAt := entry.activatedAt })
          v.entries := by
        refine ⟨fun e e' he => ⟨he.1, fun h => nomatch h⟩, ?_⟩
        intro i _ e e' _ hdemoted
        refine ⟨hdemoted.1, fun h => ?_⟩
        have h : entry.status = .available := h
        rw [hstatus] at h
        cases h
      simp only [hstatus, ne_eq, not_true_eq_false, if_false]
      rw [hstatus] at hchange
      exact advances_changeEntries hchange io
    · simp only [hstatus, ne_eq, not_false_eq_true, if_true]
      exact Advances.refl v

theorem advances_expireOldEpochs (epoch : Nat) (io : PersistIo) :
    (expireOldEpochs epoch io).Keeps Advances := by
  intro v
  rw [expireOldEpochs, Act.bind_of_ok Act.read_apply]
  have hchange : IsChange
      (indicesWhere (fun e => e.status == .available && decide (e.credential.issuedEpoch < epoch))
        v.entries)
      (fun e => { e with status := .expired }) (fun e => { e with status := .available })
      v.entries := by
    refine ⟨fun e e' he => ⟨he.1, fun h => nomatch h⟩, ?_⟩
    intro i hi e e' he hdemoted
    obtain ⟨d, hd, hp⟩ := mem_indicesWhere hi
    cases hd.symm.trans he
    refine ⟨hdemoted.1, fun _ => ?_⟩
    rw [Bool.and_eq_true, beq_iff_eq] at hp
    exact hp.1
  refine Act.rel_bind Advances.trans ?_ fun _ w _ => ?_
  · split
    · exact advances_changeEntries hchange io
    · exact Advances.refl v
  · exact fun _ h => ⟨h.entries, h.file, h.lt⟩

theorem advances_reclaimOrphanedActive (now : Nat) (io : PersistIo) :
    (reclaimOrphanedActive now io).Keeps Advances := by
  intro v
  rw [reclaimOrphanedActive, Act.bind_of_ok Act.read_apply]
  have hchange : IsChange (indicesWhere (fun e => e.isOrphaned now) v.entries)
      (fun e => { e with status := .expired, activatedAt := none })
      (fun e => { e with status := .active }) v.entries :=
    ⟨fun _ _ he => ⟨he.1, fun h => nomatch h⟩, fun _ _ _ _ _ he => ⟨he.1, fun h => nomatch h⟩⟩
  by_cases hempty : (indicesWhere (fun e => e.isOrphaned now) v.entries).isEmpty = true
  · simp only [hempty, if_true]
    exact Advances.refl v
  · simp only [hempty, Bool.false_eq_true, if_false]
    refine Act.rel_bind Advances.trans ?_ fun _ w _ => Advances.refl w
    exact advances_changeEntries hchange io

theorem records_append (file : List Chunk) (chunk : Chunk) :
    records (file ++ [chunk]) = records file ++ records [chunk] := List.filterMap_append

/-- A new entry has a number that neither copy has seen. -/
theorem advances_appendEntry {v w : CredentialVault} (hnext : w.nextId = v.nextId + 1)
    (hentries : w.entries = v.entries) (hfile : w.file = v.file) {entry : VaultEntry}
    (hid : entry.id = v.nextId) (io : AppendIo) : Advances v (appendEntry entry io w).2 := by
  intro returned h
  have hlt : ∀ id ∈ returned, id < w.nextId := by
    intro id hid
    have hlt := h.lt id hid
    omega
  have hsame : Ledger w.nextId returned w.entries := by
    rw [hnext, hentries]
    exact h.entries.succ
  have hmore : Ledger w.nextId returned (w.entries ++ [entry]) := by
    rw [hnext, hentries]
    exact h.entries.append h.lt hid
  -- however far the append gets
  have hgot : ∀ got : Appended, Ledger w.nextId returned (records (got.file w.file entry)) := by
    intro got
    rw [hnext, hfile]
    cases got with
    | nothing => exact h.file.succ
    | part written =>
      rw [Appended.file, records_append]
      show Ledger _ _ (records v.file ++ [])
      rw [List.append_nil]
      exact h.file.succ
    | whole =>
      rw [Appended.file, records_append]
      exact h.file.append h.lt hid
  cases io with
  | ok => exact ⟨hmore, hgot .whole, hlt⟩
  | failed e got => exact ⟨hsame, hgot got, hlt⟩
  | stopped got => exact ⟨hsame, hgot got, hlt⟩

theorem advances_addValidated (c : BlindCredential) (io : AppendIo) :
    (addValidated c io).Keeps Advances := by
  intro v
  rw [addValidated, Act.bind_of_ok Act.read_apply]
  by_cases hfull : maxVaultEntries ≤ v.entries.length
  · simp only [hfull, if_true]
    exact Advances.refl v
  · simp only [hfull, if_false]
    rw [Act.bind_of_ok (Act.update_apply _)]
    have hadd : Advances v (appendEntry ⟨v.nextId, c, .available, none⟩ io
        { v with currentEpoch := max v.currentEpoch c.issuedEpoch, nextId := v.nextId + 1 }).2 := by
      refine advances_appendEntry ?_ ?_ ?_ ?_ io <;> rfl
    exact hadd

theorem advances_addCredential (c : BlindCredential) (io : AppendIo) :
    (addCredential c io).Keeps Advances := by
  unfold addCredential
  split
  · exact Act.keeps_stop Advances.refl _
  · exact advances_addValidated c io

theorem advances_replenishLoop (epoch : Nat) (draws : Nat → Draw) (rounds added : Nat) :
    (replenishLoop epoch draws rounds added).Keeps Advances := by
  induction rounds generalizing added with
  | zero => exact Act.keeps_pure Advances.refl added
  | succ rounds ih =>
    refine (Act.keeps_read Advances.refl).bind Advances.trans fun v => ?_
    split
    · exact Act.keeps_pure Advances.refl added
    · split
      · exact Act.keeps_pure Advances.refl added
      · exact (advances_addCredential _ _).bind Advances.trans fun _ => ih (added + 1)

theorem advances_replenish (draws : Nat → Draw) : (replenish draws).Keeps Advances :=
  (Act.keeps_read Advances.refl).bind Advances.trans fun _ => advances_replenishLoop _ draws _ 0

/-! ## Opening the file -/

/-- What is read is a part of the whole records, in their order. -/
theorem sublist_of_readLoop {env : VaultEnv} {file : List Chunk} {count : Nat}
    {es : List VaultEntry} (h : readLoop env file count = .ok es) : es.Sublist (records file) := by
  induction file generalizing count es with
  | nil =>
    cases h
    exact List.Sublist.refl _
  | cons chunk file ih =>
    unfold readLoop at h
    split at h
    · cases h
      exact List.nil_sublist _
    · split at h
      · cases h
      · cases chunk with
        | record e =>
          cases hrest : readLoop env file (count + 1) with
          | error _ =>
            rw [hrest] at h
            cases h
          | ok ds =>
            rw [hrest] at h
            cases h
            exact (ih hrest).cons_cons e
        | torn e written => cases h

theorem booked_of_new {env : VaultEnv} {v w : CredentialVault} {returned : List Nat}
    {poolSize threshold : Nat} (h : Booked v returned)
    (hnew : CredentialVault.new env v.file v.nextId poolSize threshold = .ok w) :
    Booked w returned := by
  unfold CredentialVault.new at hnew
  cases hread : readAllEntries env v.file with
  | error e =>
    rw [hread] at hnew
    cases hnew
  | ok raw =>
    rw [hread] at hnew
    cases hnew
    have hsub : raw.Sublist (records v.file) := by
      simp only [readAllEntries] at hread
      split at hread
      · cases hread
      · exact sublist_of_readLoop hread
    exact ⟨h.file.sublist ((List.take_sublist _ raw).trans hsub), h.file, h.lt⟩

/-! ## The run -/

/-- Both copies are ledgers, and no entry was returned twice. -/
structure VaultSystem.Sound (s : VaultSystem) : Prop where
  booked : Booked s.vault s.returned
  nodup : s.returned.Nodup

theorem VaultSystem.after_returned {α : Type} (s : VaultSystem) (call : VaultCall α) :
    (s.after call).returned = s.returned := by
  unfold VaultSystem.after
  split <;> rfl

theorem sound_after {α : Type} {s : VaultSystem} (hs : s.Sound) {call : VaultCall α}
    (hcall : call.Keeps Advances) : (s.after call).Sound := by
  unfold VaultSystem.after
  split
  · exact ⟨hcall s.vault s.returned hs.booked, hs.nodup⟩
  · exact hs

/-- What `consume_credential` returns was Available, and is Active now in both copies. -/
theorem consumeCredential_eq_ok {now : Nat} {io : PersistIo} {v w : CredentialVault}
    {r : BlindCredential × Nat} (h : consumeCredential now io v = (.ok r, w)) :
    ∃ entry, v.entries[r.2]? = some entry ∧ r.1 = entry.credential ∧ entry.status = .available ∧
      w = { v with
        entries := v.entries.modify r.2 fun e => { e with status := .active, activatedAt := some now }
        file := (v.entries.modify r.2 fun e =>
          { e with status := .active, activatedAt := some now }).map .record } := by
  rw [consumeCredential, Act.bind_of_ok Act.read_apply] at h
  cases hfind : v.entries.zipIdx.find? (fun p => p.1.status == .available) with
  | none =>
    rw [hfind] at h
    cases h
  | some p =>
    obtain ⟨entry, idx⟩ := p
    obtain ⟨hidx, hstatus⟩ := of_find_available hfind
    rw [hfind] at h
    obtain ⟨_, _, hchange, h⟩ := Act.bind_eq_ok.mp h
    obtain ⟨rfl, rfl⟩ := Act.pure_eq_ok.mp h
    exact ⟨entry, hidx, rfl, hstatus, changeEntries_eq_ok hchange⟩

/-- An entry at one place that is not Available, with a number of its own, may be returned. -/
theorem Ledger.cons_returned {nextId : Nat} {returned : List Nat} {es : List VaultEntry}
    (h : Ledger nextId returned es) {entry : VaultEntry} (hentry : entry ∈ es)
    (hstatus : entry.status ≠ .available) : Ledger nextId (entry.id :: returned) es := by
  refine ⟨h.nodup, h.lt, ?_⟩
  intro e he havailable hmem
  rcases List.mem_cons.mp hmem with hid | hmem
  · have heq : e = entry := List.inj_on_of_nodup_map h.nodup he hentry hid
    rw [heq] at havailable
    exact hstatus havailable
  · exact h.unreturned e he havailable hmem

theorem sound_consume {s : VaultSystem} (hs : s.Sound) (now : Nat) (io : PersistIo) :
    VaultSystem.Sound { s.after (consumeCredential now io) with
      returned := ((s.consumedEntry now io).map VaultEntry.id).toList ++ s.returned } := by
  cases hentry : s.consumedEntry now io with
  | none =>
    have hafter := sound_after hs (advances_consumeCredential now io)
    refine ⟨?_, hs.nodup⟩
    show Booked (s.after (consumeCredential now io)).vault s.returned
    rw [← s.after_returned (consumeCredential now io)]
    exact hafter.booked
  | some entry =>
    unfold VaultSystem.consumedEntry at hentry
    split at hentry
    · rename_i hrunning
      rcases hok : consumeCredential now io s.vault with ⟨e | r, w⟩
      · rw [hok] at hentry
        cases hentry
      · rw [hok] at hentry
        obtain ⟨entry', hidx, _, hstatus, hw⟩ := consumeCredential_eq_ok hok
        obtain rfl : entry' = entry := Option.some.inj (hidx.symm.trans hentry)
        have hvault : (s.after (consumeCredential now io)).vault = w := by
          rw [VaultSystem.after, if_pos hrunning, hok]
        have hmem : entry' ∈ s.vault.entries := List.mem_of_getElem? hidx
        have hbooked : Booked w s.returned := by
          have hbooked := advances_consumeCredential now io s.vault s.returned hs.booked
          rwa [hok] at hbooked
        -- the entry as it is now
        let spent : VaultEntry := { entry' with status := .active, activatedAt := some now }
        have hspent : spent ∈ w.entries := by
          refine List.mem_of_getElem? (i := r.2) ?_
          rw [hw]
          show (s.vault.entries.modify r.2 _)[r.2]? = some spent
          rw [List.getElem?_modify, hidx]
          simp [spent]
        have hrecords : records w.file = w.entries := by
          rw [hw]
          exact records_map_record _
        have hledger : Ledger w.nextId (spent.id :: s.returned) w.entries :=
          hbooked.entries.cons_returned hspent (fun h => nomatch h)
        refine ⟨?_, ?_⟩
        · show Booked (s.after (consumeCredential now io)).vault (entry'.id :: s.returned)
          rw [hvault]
          refine ⟨hledger, hrecords ▸ hledger, ?_⟩
          intro id hid
          rcases List.mem_cons.mp hid with rfl | hid
          · exact hbooked.entries.lt spent hspent
          · exact hbooked.lt id hid
        · show (entry'.id :: s.returned).Nodup
          exact List.nodup_cons.mpr ⟨hs.booked.entries.unreturned entry' hmem hstatus, hs.nodup⟩
    · cases hentry

/-- One event. -/
theorem sound_vaultStep {env : VaultEnv} {s t : VaultSystem} {op : VaultOp} (hs : s.Sound)
    (h : vaultStep env s op = some t) : t.Sound := by
  cases op with
  | openVault poolSize threshold failure =>
    cases failure with
    | some e =>
      cases h
      exact ⟨hs.booked, hs.nodup⟩
    | none =>
      cases h
      unfold VaultSystem.openFile
      split
      · rename_i v hnew
        exact ⟨booked_of_new hs.booked hnew, hs.nodup⟩
      · exact ⟨hs.booked, hs.nodup⟩
  | stop =>
    cases h
    exact ⟨hs.booked, hs.nodup⟩
  | addCredential c io =>
    cases h
    exact sound_after hs (advances_addCredential c io)
  | consumeCredential now io =>
    cases h
    exact sound_consume hs now io
  | markConsumed index io =>
    cases h
    exact sound_after hs (advances_markConsumed index io)
  | expireOldEpochs epoch io =>
    cases h
    exact sound_after hs (advances_expireOldEpochs epoch io)
  | replenish draws =>
    cases h
    exact sound_after hs (advances_replenish draws)
  | reclaimOrphanedActive now io =>
    cases h
    exact sound_after hs (advances_reclaimOrphanedActive now io)

theorem sound_new : VaultSystem.new.Sound := by
  have hempty : Ledger 0 [] [] :=
    ⟨List.nodup_nil, (fun _ h => nomatch h), (fun _ h => nomatch h)⟩
  exact ⟨⟨hempty, hempty, fun _ h => nomatch h⟩, List.nodup_nil⟩

/-- **Blind credentials are single use**: whatever calls are made, wherever writes fail and
    processes stop and reopen the file, no vault entry is returned twice. -/
theorem credentials_single_use (env : VaultEnv) (ops : List VaultOp) (s : VaultSystem)
    (h : run (vaultStep env) VaultSystem.new ops = some s) : s.returned.Nodup :=
  (run_invariant (fun _ _ _ hs hstep => sound_vaultStep hs hstep) sound_new h).nodup

/-- Two equal credentials are added; the first rewrite fails, the second succeeds, the process stops,
    and the vault is opened again. -/
def restartOps : List VaultOp :=
  let c : BlindCredential := ⟨[1], [2], "key", 0, .subscriber⟩
  [.openVault 10 1 none, .addCredential c .ok, .addCredential c .ok,
    .consumeCredential 5 (.failed (.io "no space left on device") false),
    .consumeCredential 6 .ok, .stop, .openVault 10 1 none, .consumeCredential 7 .ok]

/-- The two entries are returned one after the other. -/
theorem credentials_single_use_restart :
    ∃ s, run (vaultStep ⟨fun _ => 100, "decrypt: aead::Error"⟩) VaultSystem.new restartOps = some s ∧
      s.returned = [1, 0] ∧ s.returned.Nodup :=
  ⟨_, rfl, by decide +kernel, credentials_single_use _ restartOps _ rfl⟩

end Vellaveto.Shield
