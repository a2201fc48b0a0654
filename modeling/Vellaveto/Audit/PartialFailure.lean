/-
  PARTIAL FAILURE of the audit append.

  PROGRAM.      `log_entry` writes the line, moves the chain head, appends the leaf and only then
                advances the sequence counter; each of the two writes may fail.

  SPEC.         Whatever failed before, `verify_chain` accepts the active log.

  CORRECTNESS.  The walk of the verifier follows the log line by line (`Tracked`), and the entry that is
                written next passes all its guards except that its sequence number may be the one of the
                last line: the counter stays behind when the leaf cannot be appended.
    1. `tracked_writeLine`          a line that is written is tracked;
    2. `verifyChain_writeLine_iff`  … and is accepted exactly if its number is new;
    3. `partial_failure_iff`        the log of a run is accepted exactly if no line was written with the
                                    number of the line before it;
    4. `leafFailure_breaks_chain`   one failed leaf, and the log is rejected for ever.
-/
import Vellaveto.Audit.ChainHead

namespace Vellaveto.Audit

open Vellaveto.Lib

variable {H T : Type}

/-- The call gets as far as writing a line, with this hash. -/
structure WritesLine (env : Env H T) (s : AuditLogger H T) (call : LogCall) (hash : String) : Prop where
  valid : validateRequest env call.req = .ok ()
  hash : computeEntryHash env.digests env.canonical (nextEntry env call.io call.req s) = .ok hash
  append : call.io.append = none

/-- The line of the call. -/
def callLine (env : Env H T) (s : AuditLogger H T) (call : LogCall) (hash : String) : T :=
  env.texts.entryLine (hashedEntry env call.io call.req s hash)

/-- No rotation is triggered, and the line that may be written is read back as it was written: it is
    below the size limit and its numbers survive. -/
structure Quiet (env : Env H T) (cfg : Config) (s : AuditLogger H T) (call : LogCall) : Prop where
  noRotation : maybeRotate env cfg call.io.rotation s = (.ok false, s)
  readable : ∀ hash, WritesLine env s call hash →
    env.texts.Readable (hashedEntry env call.io call.req s hash)

section Decidable

variable (env : Env H T) (cfg : Config) (s : AuditLogger H T) (call : LogCall)

instance decidableWrites (P : String → Prop) [DecidablePred P] :
    Decidable (∀ hash, WritesLine env s call hash → P hash) :=
  decidable_of_iff
    (∀ hash, computeEntryHash env.digests env.canonical (nextEntry env call.io call.req s) = .ok hash →
      validateRequest env call.req = .ok () → call.io.append = none → P hash)
    ⟨fun h hash hw => h hash hw.hash hw.valid hw.append,
      fun h hash hhash hvalid happend => h hash ⟨hvalid, hhash, happend⟩⟩

instance [DecidableEq H] [DecidableEq T] : Decidable (Quiet env cfg s call) :=
  decidable_of_iff (maybeRotate env cfg call.io.rotation s = (.ok false, s) ∧
      ∀ hash, WritesLine env s call hash →
        env.texts.Readable (hashedEntry env call.io call.req s hash))
    ⟨fun h => ⟨h.1, h.2⟩, fun h => ⟨h.noRotation, h.readable⟩⟩

end Decidable

/-- The sequence number of the last line of the log, as the verifier keeps it. -/
def lastSequence (entries : List AuditEntry) : Option Nat :=
  entries.getLast?.bind fun e => if 0 < e.sequence then some e.sequence else none

/-- **The condition.**  A line is written only with a sequence number that the last line does not have
    (0 is never compared), and the log stays small enough to be read. -/
def NumbersNew (env : Env H T) (s : AuditLogger H T) (call : LogCall) : Prop :=
  ∀ hash, WritesLine env s call hash →
    lastSequence (env.texts.readEntries s.lines) ≠ some s.globalSequence ∧
    env.texts.fileLen (s.lines ++ [callLine env s call hash]) ≤ maxAuditLogSize

instance (env : Env H T) (s : AuditLogger H T) (call : LogCall) : Decidable (NumbersNew env s call) :=
  decidableWrites env s call _

/-! ## The walk follows the log -/

/-- The log holds some readable entries, none with a number beyond the counter, and if the walk over
    them comes to the end, it ends at the head of the logger. -/
structure Tracked (env : Env H T) (s : AuditLogger H T) (entries : List AuditEntry) : Prop where
  lines : LinesOf env.texts s.lines entries
  counter : s.globalSequence ≤ u64Max
  bound : ∀ e, entries.getLast? = some e → e.sequence ≤ s.globalSequence
  head : ∀ st, chainRun env.digests env.canonical .start entries = .ok (some st) →
    HeadAt s st ∧ st.prevSequence = lastSequence entries

section Steps

variable {env : Env H T} {cfg : Config} {s s' : AuditLogger H T} {call : LogCall}
  {entries : List AuditEntry}

theorem lastSequence_concat (entries : List AuditEntry) (e : AuditEntry) :
    lastSequence (entries ++ [e]) = if 0 < e.sequence then some e.sequence else none := by
  rw [lastSequence, List.getLast?_concat]
  rfl

/-- The number of the next line is new exactly if the verifier finds it so. -/
theorem Tracked.sequence_iff (h : Tracked env s entries) {st : ChainState}
    (hst : chainRun env.digests env.canonical .start entries = .ok (some st)) :
    (∀ p, st.prevSequence = some p → s.globalSequence = 0 ∨ p < s.globalSequence) ↔
      lastSequence entries ≠ some s.globalSequence := by
  rw [(h.head st hst).2]
  constructor
  · intro hnew heq
    rcases hnew _ heq with hzero | hlt
    · -- the verifier keeps no zero
      rw [hzero, lastSequence, Option.bind_eq_some_iff] at heq
      obtain ⟨e, -, he⟩ := heq
      split at he
      · have hsame : e.sequence = 0 := Option.some.inj he
        omega
      · cases he
    · omega
  · intro hne p hp
    right
    have hle : p ≤ s.globalSequence := by
      rw [lastSequence, Option.bind_eq_some_iff] at hp
      obtain ⟨e, he, hpe⟩ := hp
      have hbound := h.bound e he
      split at hpe
      · cases hpe
        exact hbound
      · cases hpe
    have hpg : p ≠ s.globalSequence := fun heq => hne (heq ▸ hp)
    omega

/-- **A line that is written is tracked**, whether it is accepted or not. -/
theorem tracked_writeLine (h : Tracked env s entries) {hash : String}
    (hread : env.texts.Readable (hashedEntry env call.io call.req s hash)) :
    Tracked env (s.writeLine env (hashedEntry env call.io call.req s hash))
      (entries ++ [hashedEntry env call.io call.req s hash]) := by
  refine ⟨h.lines.concat hread, h.counter, ?_, ?_⟩
  · intro e he
    rw [List.getLast?_concat] at he
    cases he
    rw [sequence_hashedEntry]
    exact Nat.le_refl _
  · intro st hst
    obtain ⟨mid, hmid, hacc, rfl⟩ := (chainRun_concat _ _).mp hst
    obtain ⟨hhead, hseq⟩ := h.head mid hmid
    refine ⟨hhead.writeLine env call.io call.req hash, ?_⟩
    rw [lastSequence_concat, ChainState.next, sequence_hashedEntry]
    dsimp only
    split
    · rename_i hpos
      rw [nextPrevSequence, if_pos hpos]
    · rename_i hzero
      -- all numbers so far are 0
      rw [hseq, lastSequence]
      cases hlast : entries.getLast? with
      | none => rfl
      | some e =>
        have hbound := h.bound e hlast
        rw [Option.bind_some, if_neg (by omega)]

/-- The two states have the same log and the same head; the counter has not gone back. -/
structure SameChain (s s' : AuditLogger H T) : Prop where
  lines : s'.lines = s.lines
  lastHash : s'.lastHash = s.lastHash
  lastTimestamp : s'.lastTimestamp = s.lastTimestamp
  globalSequence : s.globalSequence ≤ s'.globalSequence
  counter : s'.globalSequence ≤ u64Max

/-- What happens to the tree does not matter to the verifier. -/
theorem Tracked.congr (h : Tracked env s entries) (hsame : SameChain s s') :
    Tracked env s' entries := by
  refine ⟨hsame.lines ▸ h.lines, hsame.counter, fun e he => (h.bound e he).trans hsame.globalSequence,
    fun st hst => ?_⟩
  obtain ⟨hhead, hprev⟩ := h.head st hst
  refine ⟨⟨hsame.lastHash.trans hhead.hash, fun t ht => ?_, fun t ht => ?_⟩, hprev⟩
  · exact hsame.lastTimestamp.trans (hhead.timestamp t ht)
  · exact hhead.utc t (hsame.lastTimestamp.symm.trans ht)

theorem SameChain.valid_iff (hsame : SameChain s s') :
    ReportsValid (s'.verifyChain env) ↔ ReportsValid (s.verifyChain env) := by
  rw [verifyChain_valid_iff, verifyChain_valid_iff, hsame.lines]

theorem Tracked.valid_iff (h : Tracked env s entries) :
    ReportsValid (s.verifyChain env) ↔ env.texts.fileLen s.lines ≤ maxAuditLogSize ∧
      ∃ st, chainRun env.digests env.canonical .start entries = .ok (some st) := by
  rw [verifyChain_valid_iff, h.lines.readEntries]

/-- **One more line**: it is accepted exactly if its number is new and the log is not too large. -/
theorem verifyChain_writeLine_iff (h : Tracked env s entries) {hash : String}
    (hread : env.texts.Readable (hashedEntry env call.io call.req s hash))
    (hhash : computeEntryHash env.digests env.canonical (nextEntry env call.io call.req s) = .ok hash)
    (hvalid : ReportsValid (s.verifyChain env)) :
    ReportsValid ((s.writeLine env (hashedEntry env call.io call.req s hash)).verifyChain env) ↔
      lastSequence entries ≠ some s.globalSequence ∧
        env.texts.fileLen (s.lines ++ [callLine env s call hash]) ≤ maxAuditLogSize := by
  obtain ⟨-, st, hst⟩ := h.valid_iff.mp hvalid
  have haccepted := accepted_hashedEntry_iff (h.head st hst).1 hhash
  rw [(tracked_writeLine h hread).valid_iff, ← h.sequence_iff hst, ← haccepted]
  constructor
  · rintro ⟨hsize, st', hst'⟩
    obtain ⟨mid, hmid, hacc, -⟩ := (chainRun_concat _ _).mp hst'
    obtain rfl : st = mid := Option.some.inj (Except.ok.inj (hst.symm.trans hmid))
    exact ⟨hacc, hsize⟩
  · rintro ⟨hacc, hsize⟩
    exact ⟨hsize, _, (chainRun_concat _ _).mpr ⟨st, hst, hacc, rfl⟩⟩

/-- A log that is accepted was accepted before its last line. -/
theorem verifyChain_of_writeLine (h : Tracked env s entries) {hash : String}
    (hread : env.texts.Readable (hashedEntry env call.io call.req s hash))
    (hvalid : ReportsValid
      ((s.writeLine env (hashedEntry env call.io call.req s hash)).verifyChain env)) :
    ReportsValid (s.verifyChain env) := by
  obtain ⟨hsize, st', hst'⟩ := (tracked_writeLine h hread).valid_iff.mp hvalid
  obtain ⟨mid, hmid, -⟩ := (chainRun_concat _ _).mp hst'
  rw [lines_writeLine, fileLen_append] at hsize
  exact h.valid_iff.mpr ⟨by omega, mid, hmid⟩

/-! ## Runs -/

/-- The leaf and the counters. -/
theorem sameChain_advance (hcounter : s.globalSequence ≤ u64Max) (tree : Option (MerkleTree H))
    (leaves : LeafFile) :
    SameChain s
      (AuditLogger.advance
        { s with merkleTree := tree, disk := { s.disk with leaves := leaves } }) := by
  refine ⟨rfl, rfl, rfl, ?_, ?_⟩
  · show s.globalSequence ≤ min (s.globalSequence + 1) u64Max
    omega
  · show min (s.globalSequence + 1) u64Max ≤ u64Max
    omega

/-- **What a call without rotation does to the log**: nothing, or one line. -/
theorem logStep_cases (hcounter : s.globalSequence ≤ u64Max)
    (hrot : maybeRotate env cfg call.io.rotation s = (.ok false, s))
    (hstep : logStep env cfg s call = some s') :
    (s' = s ∧ ∀ hash, ¬WritesLine env s call hash) ∨
    ∃ hash, WritesLine env s call hash ∧
      SameChain (s.writeLine env (hashedEntry env call.io call.req s hash)) s' := by
  have hcall : logEntry env cfg call.io call.req s =
      ((logEntry env cfg call.io call.req s).1, s') := by
    rw [← Option.some.inj hstep]
  cases hvalid : validateRequest env call.req with
  | error e =>
    rw [logEntry, hvalid] at hcall
    refine .inl ⟨(Prod.mk.inj hcall).2.symm, fun hash hw => ?_⟩
    rw [hw.valid] at hvalid
    cases hvalid
  | ok u =>
    simp only [logEntry, hvalid, hrot] at hcall
    obtain ⟨hs', -, hnot⟩ | ⟨hash, hhash, happend, hrest⟩ := appendEntry_cases hcall
    · exact .inl ⟨hs', fun hash hw => hnot hash hw.hash hw.append⟩
    · refine .inr ⟨hash, ⟨hvalid, hhash, happend⟩, ?_⟩
      obtain ⟨e, -, rfl, -⟩ | ⟨t, ht, rfl, -⟩ := hrest
      · exact ⟨rfl, rfl, rfl, Nat.le_refl _, hcounter⟩
      · obtain ⟨tree, leaves, rfl⟩ := appendLeaf_eq_ok ht
        exact sameChain_advance (s := s.writeLine env _) hcounter tree leaves

theorem tracked_logStep (h : ∃ entries, Tracked env s entries) (hquiet : Quiet env cfg s call)
    (hstep : logStep env cfg s call = some s') : ∃ entries, Tracked env s' entries := by
  obtain ⟨entries, h⟩ := h
  obtain ⟨rfl, -⟩ | ⟨hash, hwrites, hsame⟩ := logStep_cases h.counter hquiet.noRotation hstep
  · exact ⟨entries, h⟩
  · exact ⟨_, (tracked_writeLine h (hquiet.readable hash hwrites)).congr hsame⟩

/-- **One call** keeps the log accepted exactly if the number of its line is new. -/
theorem verifyChain_logStep_iff (h : ∃ entries, Tracked env s entries) (hquiet : Quiet env cfg s call)
    (hvalid : ReportsValid (s.verifyChain env)) (hstep : logStep env cfg s call = some s') :
    ReportsValid (s'.verifyChain env) ↔ NumbersNew env s call := by
  obtain ⟨entries, h⟩ := h
  obtain ⟨rfl, hnot⟩ | ⟨hash, hwrites, hsame⟩ := logStep_cases h.counter hquiet.noRotation hstep
  · exact iff_of_true hvalid fun hash hw => absurd hw (hnot hash)
  · have hone := verifyChain_writeLine_iff h (hquiet.readable hash hwrites) hwrites.hash hvalid
    rw [hsame.valid_iff, hone, NumbersNew, h.lines.readEntries]
    constructor
    · intro hnew hash' hwrites'
      obtain rfl : hash = hash' := Except.ok.inj (hwrites.hash.symm.trans hwrites'.hash)
      exact hnew
    · intro hnew
      exact hnew hash hwrites

theorem verifyChain_of_logStep (h : ∃ entries, Tracked env s entries) (hquiet : Quiet env cfg s call)
    (hstep : logStep env cfg s call = some s') (hvalid : ReportsValid (s'.verifyChain env)) :
    ReportsValid (s.verifyChain env) := by
  obtain ⟨entries, h⟩ := h
  obtain ⟨rfl, -⟩ | ⟨hash, hwrites, hsame⟩ := logStep_cases h.counter hquiet.noRotation hstep
  · exact hvalid
  · exact verifyChain_of_writeLine h (hquiet.readable hash hwrites) (hsame.valid_iff.mp hvalid)

end Steps

/-- A logger on an empty log: no chain head, and any sequence counter. -/
structure StartsEmpty (s : AuditLogger H T) : Prop where
  log : s.disk.log = none
  lastHash : s.lastHash = none
  lastTimestamp : s.lastTimestamp = none
  counter : s.globalSequence ≤ u64Max

theorem StartsEmpty.tracked {s : AuditLogger H T} (h : StartsEmpty s) (env : Env H T) :
    Tracked env s [] := by
  have hlines : LinesOf env.texts s.lines [] := by
    rw [AuditLogger.lines, h.log]
    exact LinesOf.nil _
  refine ⟨hlines, h.counter, fun e he => ?_, fun st hst => ?_⟩
  · cases he
  cases hst
  refine ⟨⟨h.lastHash, fun t ht => ?_, fun t ht => ?_⟩, rfl⟩
  · cases ht
  · rw [h.lastTimestamp] at ht
    cases ht

/-- **Verifiable under partial failure.**  A logger, with a Merkle tree or without, starts on an empty
    log.  After any run of calls, of which each may fail at the line or at the leaf, `verify_chain`
    accepts the log exactly if every line was written with a number that the line before it does not
    have, and the log is not too large to be read. -/
theorem partial_failure_iff (env : Env H T) (cfg : Config) {s t : AuditLogger H T}
    (hempty : StartsEmpty s) {calls : List LogCall}
    (hquiet : EachStep (logStep env cfg) (fun s call _ => Quiet env cfg s call) s calls)
    (hrun : run (logStep env cfg) s calls = some t) :
    ReportsValid (t.verifyChain env) ↔
      EachStep (logStep env cfg) (fun s call _ => NumbersNew env s call) s calls := by
  have htracked := hempty.tracked env
  refine run_iff_eachStep (fun s a s' h hq hs => tracked_logStep h hq hs)
    (fun s a s' h hq hv hs => verifyChain_logStep_iff h hq hv hs)
    (fun s a s' h hq hs hv => verifyChain_of_logStep h hq hs hv) hquiet ⟨[], htracked⟩ ?_ hrun
  rw [htracked.valid_iff, htracked.lines.eq]
  exact ⟨Nat.zero_le _, _, rfl⟩

/-! ### A leaf that cannot be written -/

theorem startsEmpty_new (cfg : Config) :
    StartsEmpty (AuditLogger.new cfg Disk.empty : AuditLogger H T) :=
  ⟨rfl, rfl, rfl, Nat.zero_le _⟩

/-- The clock goes back between two calls that succeed. -/
theorem partial_failure_clock :
    let s : AuditLogger (List UInt8) PlainLine := AuditLogger.new plainConfig Disk.empty
    ∃ t, run (logStep (plainEnv shortDigests) plainConfig) s
        [plainCall "1" "30" none, plainCall "2" "10" none] = some t ∧
      ReportsValid (t.verifyChain (plainEnv shortDigests)) := by
  intro s
  have hrun : run (logStep (plainEnv shortDigests) plainConfig) s
      [plainCall "1" "30" none, plainCall "2" "10" none] = some _ := rfl
  refine ⟨_, hrun, (partial_failure_iff _ _ (startsEmpty_new plainConfig) ?_ hrun).mpr ?_⟩
  · decide +kernel
  · decide +kernel

/-- **One leaf that cannot be written.**  The second entry is in the log, but its number is given out
    again, and the log is rejected from the third entry on. -/
theorem leafFailure_breaks_chain :
    let env := plainEnv shortDigests
    let s : AuditLogger (List UInt8) PlainLine := AuditLogger.new plainConfig Disk.empty
    let calls := [plainCall "1" "30" none, plainCall "2" "31" (some "No space left on device"),
      plainCall "3" "32" none]
    s.merkleTree.isSome ∧ StartsEmpty s ∧
    EachStep (logStep env plainConfig) (fun s call _ => Quiet env plainConfig s call) s calls ∧
    ∃ t, run (logStep env plainConfig) s calls = some t ∧ ¬ReportsValid (t.verifyChain env) := by
  refine ⟨rfl, startsEmpty_new _, ?_, _, rfl, ?_⟩
  · decide +kernel
  · decide +kernel

end Vellaveto.Audit
