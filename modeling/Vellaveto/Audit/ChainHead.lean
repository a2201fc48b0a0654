/-
  THE CHAIN HEAD and the log it belongs to.

  The logger keeps the last hash and the last timestamp; the verifier finds them again by walking the
  log.  As long as the two agree (`HeadAt`), an entry that the logger makes passes every guard of the
  verifier but one: its sequence number may not be new (`accepted_hashedEntry_iff`).
-/
import Vellaveto.Audit.Logger
import Vellaveto.Lib.Run

namespace Vellaveto.Audit

open Vellaveto.Lib

variable {H T : Type}

/-- What holds of the value of a computation, if it has one, can be found out by running it. -/
instance decidableForallOk {ε α : Type} (x : Except ε α) (P : α → Prop) [DecidablePred P] :
    Decidable (∀ a, x = .ok a → P a) :=
  match x with
  | .error _ => isTrue fun a ha => by cases ha
  | .ok a => decidable_of_iff (P a) ⟨fun h _ ha => Except.ok.inj ha ▸ h, fun h => h a rfl⟩

/-- The lines of the active log. -/
def AuditLogger.lines (s : AuditLogger H T) : List T := s.disk.log.getD []

@[simp] theorem lines_advance (s : AuditLogger H T) : s.advance.lines = s.lines := rfl

@[simp] theorem lines_writeLine (env : Env H T) (s : AuditLogger H T) (e : AuditEntry) :
    (s.writeLine env e).lines = s.lines ++ [env.texts.entryLine e] := rfl

/-- What `verify_chain` reads. -/
theorem verifyChain_eq (env : Env H T) (s : AuditLogger H T) :
    s.verifyChain env =
      match env.texts.loadEntries (some s.lines) with
      | .error e => .error e
      | .ok entries => verifyEntries env.digests env.canonical entries := by
  rw [AuditLogger.verifyChain, AuditLogger.lines]
  cases s.disk.log with
  | none =>
    have hempty : env.texts.loadEntries (some ([] : List T)) = .ok [] := by
      simp [Texts.loadEntries, Texts.fileLen, maxAuditLogSize]
    rw [Option.getD_none, hempty]
    rfl
  | some lines => rfl

/-- `verify_chain` accepts a log that is not too large to be read and whose walk comes to the end. -/
theorem verifyChain_valid_iff (env : Env H T) (s : AuditLogger H T) :
    ReportsValid (s.verifyChain env) ↔
      env.texts.fileLen s.lines ≤ maxAuditLogSize ∧
        ∃ st, chainRun env.digests env.canonical .start (env.texts.readEntries s.lines) =
          .ok (some st) := by
  rw [verifyChain_eq, Texts.loadEntries]
  by_cases hsize : maxAuditLogSize < env.texts.fileLen s.lines
  · simp only [hsize, if_true]
    constructor
    · rintro ⟨v, hv, -⟩
      cases hv
    · rintro ⟨hle, -⟩
      omega
  · simp only [hsize, if_false]
    rw [verifyEntries_valid_iff]
    exact ⟨fun h => ⟨by omega, h⟩, fun h => h.2⟩

/-- The entries whose lines these are. -/
structure LinesOf (texts : Texts T) (lines : List T) (entries : List AuditEntry) : Prop where
  eq : lines = entries.map texts.entryLine
  readable : ∀ e ∈ entries, texts.Readable e

theorem LinesOf.nil (texts : Texts T) : LinesOf texts [] [] :=
  ⟨rfl, fun e he => by cases he⟩

theorem LinesOf.concat {texts : Texts T} {lines : List T} {entries : List AuditEntry}
    (h : LinesOf texts lines entries) {e : AuditEntry} (he : texts.Readable e) :
    LinesOf texts (lines ++ [texts.entryLine e]) (entries ++ [e]) := by
  refine ⟨by rw [h.eq, List.map_append]; rfl, fun x hx => ?_⟩
  rcases List.mem_append.mp hx with hx | hx
  · exact h.readable x hx
  · rw [List.mem_singleton] at hx
    exact hx ▸ he

theorem LinesOf.readEntries {texts : Texts T} {lines : List T} {entries : List AuditEntry}
    (h : LinesOf texts lines entries) : texts.readEntries lines = entries := by
  rw [h.eq]
  have hall := h.readable
  clear h
  induction entries with
  | nil => rfl
  | cons e es ih =>
    have hsplit : (e :: es).map texts.entryLine = [texts.entryLine e] ++ es.map texts.entryLine := rfl
    rw [hsplit, readEntries_append, readEntries_readable (hall e List.mem_cons_self),
      ih fun x hx => hall x (List.mem_cons_of_mem e hx)]
    rfl

/-! ## Head and walk -/

/-- The walk ends with the hash and the timestamp of the last entry. -/
theorem chainRun_getLast {d : Digests H} {c : Canonical} {st₀ st : ChainState}
    {entries : List AuditEntry} {last : AuditEntry} (hrun : chainRun d c st₀ entries = .ok (some st))
    (hlast : entries.getLast? = some last) :
    st.prevHash = last.entryHash ∧ st.prevTimestamp = some last.timestamp := by
  rcases List.eq_nil_or_concat entries with rfl | ⟨init, e, rfl⟩
  · cases hlast
  · rw [List.concat_eq_append] at hrun hlast
    rw [List.getLast?_concat] at hlast
    cases hlast
    obtain ⟨mid, -, -, rfl⟩ := (chainRun_concat _ _).mp hrun
    exact ⟨rfl, rfl⟩

/-- The number that the verifier keeps is one of the log. -/
theorem prevSequence_mem {d : Digests H} {c : Canonical} {st₀ st : ChainState}
    {entries : List AuditEntry} {p : Nat} (hrun : chainRun d c st₀ entries = .ok (some st))
    (hp : st.prevSequence = some p) :
    st₀.prevSequence = some p ∨ ∃ e ∈ entries, e.sequence = p := by
  induction entries generalizing st₀ with
  | nil =>
    cases hrun
    exact .inl hp
  | cons e es ih =>
    obtain ⟨-, hrest⟩ := (chainRun_cons _ _).mp hrun
    rcases ih hrest with hnext | ⟨x, hx, rfl⟩
    · rw [ChainState.next] at hnext
      dsimp only at hnext
      split at hnext
      · rename_i hpos
        rw [nextPrevSequence, if_pos hpos] at hnext
        exact .inr ⟨e, List.mem_cons_self, Option.some.inj hnext⟩
      · exact .inl hnext
    · exact .inr ⟨x, List.mem_cons_of_mem e hx, rfl⟩

/-- The head of the logger is where the walk over the log has ended.  The last timestamp may be older
    than the log: it survives a rotation. -/
structure HeadAt (s : AuditLogger H T) (st : ChainState) : Prop where
  hash : s.lastHash = st.prevHash
  timestamp : ∀ t, st.prevTimestamp = some t → s.lastTimestamp = some t
  utc : ∀ t, s.lastTimestamp = some t → isUtc t = true

theorem isUtc_offset (now : String) : isUtc (now ++ "+00:00") = true := by
  have hsuffix : "+00:00".toList.isSuffixOf (now ++ "+00:00").toList = true := by
    rw [String.toList_append]
    exact List.isSuffixOf_iff_suffix.mpr (List.suffix_append _ _)
  simp only [isUtc, hsuffix, Bool.or_true]

section Append

variable {env : Env H T} {io : EntryIo} {req : LogRequest} {s : AuditLogger H T} {st : ChainState}

/-- The timestamp of the next entry is in UTC and not before the last one. -/
theorem timestamp_nextEntry (env : Env H T) (io : EntryIo) (req : LogRequest)
    (hutc : ∀ t, s.lastTimestamp = some t → isUtc t = true) :
    timestampOrderedAfter (nextEntry env io req s).timestamp s.lastTimestamp = true := by
  rw [nextEntry, clampTimestamp]
  split
  · assumption
  · rename_i hback
    cases hlast : s.lastTimestamp with
    | none =>
      rw [hlast] at hback
      refine absurd ?_ hback
      rw [timestampOrderedAfter, timestampsNondecreasing, timestampGuard, Bool.and_true]
      exact isUtc_offset io.now
    | some t =>
      show timestampOrderedAfter t (some t) = true
      rw [timestampOrderedAfter, timestampsNondecreasing, hutc t hlast, strLe_refl]
      rfl

theorem HeadAt.timestampOrdered (h : HeadAt s st) :
    timestampOrderedAfter (nextEntry env io req s).timestamp st.prevTimestamp = true := by
  have hlast := timestamp_nextEntry env io req h.utc
  cases hprev : st.prevTimestamp with
  | some t =>
    rw [h.timestamp t hprev] at hlast
    exact hlast
  | none =>
    -- at the start of a file only the offset is checked
    simp only [timestampOrderedAfter, timestampGuard, Bool.and_eq_true] at hlast
    simp [timestampOrderedAfter, timestampGuard, timestampsNondecreasing, hlast.1]

/-- **The logger's entry passes every guard but that of the sequence number.** -/
theorem accepted_hashedEntry_iff (hhead : HeadAt s st) {hash : String}
    (hhash : computeEntryHash env.digests env.canonical (nextEntry env io req s) = .ok hash) :
    Accepted env.digests env.canonical st (hashedEntry env io req s hash) ↔
      ∀ p, st.prevSequence = some p → s.globalSequence = 0 ∨ p < s.globalSequence := by
  constructor
  · intro hacc p hp
    rw [← sequence_hashedEntry hash]
    exact hacc.sequence p hp
  · intro hseq
    refine ⟨hhead.timestampOrdered, ?_, ?_, ?_, ?_⟩
    · intro p hp
      rw [sequence_hashedEntry]
      exact hseq p hp
    · intro hnone
      cases hnone
    · intro h _
      rw [prevHash_hashedEntry]
      exact hhead.hash
    · intro h hh
      cases hh
      -- the hash does not cover the field it is stored in
      exact hhash

/-- The head moves with the walk. -/
theorem HeadAt.writeLine (hhead : HeadAt s st) (env : Env H T) (io : EntryIo) (req : LogRequest)
    (hash : String) :
    HeadAt (s.writeLine env (hashedEntry env io req s hash))
      (st.next (hashedEntry env io req s hash)) := by
  refine ⟨rfl, fun t ht => ht, fun t ht => ?_⟩
  cases ht
  have hordered := timestamp_nextEntry env io req hhead.utc
  simp only [timestampOrderedAfter, timestampGuard, Bool.and_eq_true] at hordered
  exact hordered.1

end Append

end Vellaveto.Audit
