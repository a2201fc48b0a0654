/-
  CLEAN RUNS of the audit log: calls of `log_entry` that succeed, with the rotations they perform, and
  restarts.

  Along a clean run the active log is one chain that ends at the head of the logger, and the sequence
  counter is past every number in it (`Chained`).

    1. `entryBase_cases`    the state in which the entry of a call is made: as it is, or just rotated;
    2. `okStep_eq_some`     a call that succeeds adds one line to that state;
    3. `chained_okStep`     it keeps the chain;
    4. `chained_restart`    so does a restart.
-/
import Vellaveto.Audit.ChainHead

namespace Vellaveto.Audit

open Vellaveto.Lib

variable {H T : Type}

/-- The state in which the entry of a call is made: after the rotation, if there is one. -/
def entryBase (env : Env H T) (cfg : Config) (s : AuditLogger H T) (call : LogCall) :
    AuditLogger H T :=
  match maybeRotate env cfg call.io.rotation s with
  | (.ok true, t) => t.startFile
  | (_, t) => t

/-- A call that succeeds. -/
def okStep (env : Env H T) (cfg : Config) (s : AuditLogger H T) (call : LogCall) :
    Option (AuditLogger H T) :=
  match logEntry env cfg call.io call.req s with
  | (.ok (), s') => some s'
  | (.error _, _) => none

/-- The entry that the call writes, with this hash. -/
def callEntry (env : Env H T) (cfg : Config) (s : AuditLogger H T) (call : LogCall) (hash : String) :
    AuditEntry :=
  hashedEntry env call.io call.req (entryBase env cfg s call) hash

/-- What the call hashes to. -/
def CallHash (env : Env H T) (cfg : Config) (s : AuditLogger H T) (call : LogCall) (hash : String) :
    Prop :=
  computeEntryHash env.digests env.canonical
    (nextEntry env call.io call.req (entryBase env cfg s call)) = .ok hash

section Steps

variable {env : Env H T} {cfg : Config} {s s' : AuditLogger H T} {call : LogCall}

/-- **The state in which the entry is made.** -/
theorem entryBase_cases (hstep : okStep env cfg s call = some s') :
    entryBase env cfg s call = s ∨
    ∃ entries tailHash line,
      checkRotation env cfg call.io.rotation s.disk.log = .rotate entries tailHash ∧
      s.rotationLine env cfg call.io.rotation entries tailHash = .ok line ∧
      entryBase env cfg s call = (s.rotated cfg call.io.rotation line).startFile := by
  rw [entryBase]
  cases hrotate : maybeRotate env cfg call.io.rotation s with
  | mk r t =>
    obtain ⟨rfl, rfl | ⟨e, rfl, -⟩⟩ | ⟨entries, tailHash, hcheck, -, hrest⟩ :=
      maybeRotate_cases hrotate
    · exact .inl rfl
    · exact .inl rfl
    · obtain ⟨e, rfl, rfl⟩ | ⟨line, hline, rfl, rfl⟩ := hrest
      · -- a call whose rotation fails does not succeed
        rw [okStep, logEntry] at hstep
        split at hstep
        · rename_i s'' hok
          split at hok
          · cases hok
          · rw [hrotate] at hok
            cases hok
        · cases hstep
      · exact .inr ⟨entries, tailHash, line, hcheck, hline, rfl⟩

/-- **A call that succeeds** adds its line to that state, and its leaf, and advances. -/
theorem okStep_eq_some (hstep : okStep env cfg s call = some s') :
    ∃ hash t, CallHash env cfg s call hash ∧
      ((entryBase env cfg s call).writeLine env (callEntry env cfg s call hash)).appendLeaf env
        call.io.leafAppend hash = .ok t ∧
      s' = t.advance := by
  rw [okStep] at hstep
  split at hstep
  · rename_i t hlog
    cases hstep
    obtain ⟨-, e, he⟩ | ⟨e, -, he⟩ | ⟨t, hrotate, happend⟩ | ⟨hrotate, happend⟩ :=
      logEntry_cases hlog
    · cases he
    · cases he
    · have hbase : entryBase env cfg s call = t.startFile := by rw [entryBase, hrotate]
      simp only [CallHash, callEntry, hbase]
      exact appendEntry_eq_ok happend
    · have hbase : entryBase env cfg s call = s := by rw [entryBase, hrotate]
      simp only [CallHash, callEntry, hbase]
      exact appendEntry_eq_ok happend
  · cases hstep

/-- The parts of the state that a call changes, apart from the tree and its file. -/
theorem okStep_fields (hstep : okStep env cfg s call = some s') :
    ∃ hash, CallHash env cfg s call hash ∧
      s'.lines = (entryBase env cfg s call).lines ++
        [env.texts.entryLine (callEntry env cfg s call hash)] ∧
      s'.lastHash = some hash ∧
      s'.lastTimestamp = some (callEntry env cfg s call hash).timestamp ∧
      s'.globalSequence = nextGlobalSequence (entryBase env cfg s call).globalSequence ∧
      s'.disk.manifest = (entryBase env cfg s call).disk.manifest ∧
      s'.disk.rotated = (entryBase env cfg s call).disk.rotated ∧
      s'.disk.checkpoints = (entryBase env cfg s call).disk.checkpoints := by
  obtain ⟨hash, t, hhash, hleaf, rfl⟩ := okStep_eq_some hstep
  obtain ⟨tree, leaves, rfl⟩ := appendLeaf_eq_ok hleaf
  exact ⟨hash, hhash, rfl, rfl, rfl, rfl, rfl, rfl, rfl⟩

/-! ## What a rotation leaves of the state -/

theorem log_prune (io : RotationIo) (disk : Disk T) : (disk.prune cfg io).log = disk.log := by
  rw [Disk.prune]
  split <;> rfl

theorem log_renameLog {disk : Disk T} {lines : List T} (hlog : disk.log = some lines)
    (name : String) : (disk.renameLog name).log = none := by
  rw [Disk.renameLog, hlog]

theorem log_renameLeaves (disk : Disk T) (name : String) :
    (disk.renameLeaves cfg name).log = disk.log := by
  rw [Disk.renameLeaves]
  split
  · rfl
  · split <;> rfl

/-- After the renaming there is no active log. -/
theorem log_renameAway {lines : List T} (hlog : s.disk.log = some lines) (io : RotationIo)
    (name : String) : (s.renameAway cfg io name).disk.log = none := by
  rw [AuditLogger.renameAway]
  cases s.merkleTree with
  | none => exact log_renameLog hlog name
  | some tree =>
    show (if io.leafRename.isSome then _ else _ : Disk T).log = none
    split
    · exact log_renameLog hlog name
    · exact (log_renameLeaves _ _).trans (log_renameLog hlog name)

theorem lines_rotated {lines : List T} (hlog : s.disk.log = some lines) (io : RotationIo) (line : T) :
    (s.rotated cfg io line).startFile.lines = [] := by
  show ((_ : Disk T).prune cfg io).log.getD [] = []
  rw [log_prune, Disk.appendManifest]
  show Option.getD (s.renameAway cfg io _).disk.log [] = []
  rw [log_renameAway hlog]
  rfl

theorem lastTimestamp_rotated (io : RotationIo) (line : T) :
    (s.rotated cfg io line).startFile.lastTimestamp = s.lastTimestamp := by
  show (s.renameAway cfg io _).lastTimestamp = _
  rw [AuditLogger.renameAway]
  cases s.merkleTree <;> rfl

theorem globalSequence_rotated (io : RotationIo) (line : T) :
    (s.rotated cfg io line).startFile.globalSequence = s.globalSequence := by
  show (s.renameAway cfg io _).globalSequence = _
  rw [AuditLogger.renameAway]
  cases s.merkleTree <;> rfl

theorem globalSequence_entryBase (hstep : okStep env cfg s call = some s') :
    (entryBase env cfg s call).globalSequence = s.globalSequence := by
  obtain hbase | ⟨_, _, line, -, -, hbase⟩ := entryBase_cases hstep
  · rw [hbase]
  · rw [hbase]
    exact globalSequence_rotated _ line

end Steps

/-! ## The chain of a clean run -/

/-- The active log is one chain that ends at the head, below the counter. -/
structure Chained (env : Env H T) (s : AuditLogger H T) (entries : List AuditEntry)
    (st : ChainState) : Prop where
  lines : LinesOf env.texts s.lines entries
  walk : chainRun env.digests env.canonical .start entries = .ok (some st)
  head : HeadAt s st
  below : ∀ p, st.prevSequence = some p → p < s.globalSequence
  counter : s.globalSequence ≤ u64Max

/-- What a step of a clean run is not in the hands of the code: the line is read back as it was
    written (it is below the size limit and its numbers survive), and the counter has room. -/
structure Within (env : Env H T) (cfg : Config) (s : AuditLogger H T) (call : LogCall) : Prop where
  readable : ∀ hash, CallHash env cfg s call hash →
    env.texts.Readable (callEntry env cfg s call hash)
  counter : s.globalSequence < u64Max

instance (env : Env H T) (cfg : Config) (s : AuditLogger H T) (call : LogCall) :
    Decidable (Within env cfg s call) :=
  decidable_of_iff
    ((∀ hash, computeEntryHash env.digests env.canonical
        (nextEntry env call.io call.req (entryBase env cfg s call)) = .ok hash →
          env.texts.Readable (callEntry env cfg s call hash)) ∧ s.globalSequence < u64Max)
    ⟨fun h => ⟨h.1, h.2⟩, fun h => ⟨h.readable, h.counter⟩⟩

section Chained

variable {env : Env H T} {cfg : Config} {s s' : AuditLogger H T} {call : LogCall}
  {entries : List AuditEntry} {st : ChainState}

theorem Chained.valid (h : Chained env s entries st)
    (hsize : env.texts.fileLen s.lines ≤ maxAuditLogSize) : ReportsValid (s.verifyChain env) := by
  rw [verifyChain_valid_iff, h.lines.readEntries]
  exact ⟨hsize, st, h.walk⟩

/-- An empty log is a chain of no entries. -/
theorem chained_nil (hlines : s.lines = []) (hhash : s.lastHash = none)
    (hutc : ∀ t, s.lastTimestamp = some t → isUtc t = true) (hcounter : s.globalSequence ≤ u64Max) :
    Chained env s [] .start := by
  refine ⟨?_, rfl, ⟨hhash, fun t ht => ?_, hutc⟩, fun p hp => ?_, hcounter⟩
  · rw [hlines]
    exact LinesOf.nil _
  · cases ht
  · cases hp

/-- A rotation keeps the chain: there is none. -/
theorem chained_rotated (h : Chained env s entries st) {io : RotationIo} {rotated : List AuditEntry}
    {tailHash : String} (hcheck : checkRotation env cfg io s.disk.log = .rotate rotated tailHash)
    (line : T) : Chained env (s.rotated cfg io line).startFile [] .start := by
  obtain ⟨-, lines, hlog, -⟩ := checkRotation_eq_rotate hcheck
  refine chained_nil (lines_rotated hlog _ line) rfl ?_ ?_
  · rw [lastTimestamp_rotated]
    exact h.head.utc
  · rw [globalSequence_rotated]
    exact h.counter

/-- The state in which the entry is made is chained: by the old entries, or by none. -/
theorem chained_entryBase (h : Chained env s entries st) (hstep : okStep env cfg s call = some s') :
    ∃ entries' st', Chained env (entryBase env cfg s call) entries' st' := by
  obtain hbase | ⟨_, _, line, hcheck, -, hbase⟩ := entryBase_cases hstep
  · rw [hbase]
    exact ⟨entries, st, h⟩
  · rw [hbase]
    exact ⟨[], .start, chained_rotated h hcheck line⟩

/-- The next entry continues the chain. -/
theorem chained_append {base : AuditLogger H T} (h : Chained env base entries st) {io : EntryIo}
    {req : LogRequest} {hash : String} (hroom : base.globalSequence < u64Max)
    (hread : env.texts.Readable (hashedEntry env io req base hash))
    (hhash : computeEntryHash env.digests env.canonical (nextEntry env io req base) = .ok hash)
    (hlines : s'.lines = base.lines ++ [env.texts.entryLine (hashedEntry env io req base hash)])
    (hlast : s'.lastHash = some hash)
    (hts : s'.lastTimestamp = some (hashedEntry env io req base hash).timestamp)
    (hseq : s'.globalSequence = nextGlobalSequence base.globalSequence) :
    Chained env s' (entries ++ [hashedEntry env io req base hash])
      (st.next (hashedEntry env io req base hash)) := by
  have hgoes : s'.globalSequence = base.globalSequence + 1 := by
    rw [hseq, nextGlobalSequence, saturatingAdd]
    omega
  have hacc := (accepted_hashedEntry_iff h.head hhash).mpr fun p hp => .inr (h.below p hp)
  have hmove := h.head.writeLine env io req hash
  refine ⟨?_, (chainRun_concat _ _).mpr ⟨st, h.walk, hacc, rfl⟩, ⟨hlast, fun t ht => ?_, fun t ht => ?_⟩,
    fun p hp => ?_, by omega⟩
  · rw [hlines]
    exact h.lines.concat hread
  · rw [hts]
    exact hmove.timestamp t ht
  · rw [hts] at ht
    exact hmove.utc t ht
  · -- the last number is the one just used, or an older one
    rw [ChainState.next, sequence_hashedEntry] at hp
    dsimp only at hp
    split at hp
    · rename_i hpos
      rw [nextPrevSequence, if_pos hpos] at hp
      cases hp
      omega
    · have hold := h.below p hp
      omega

/-- **A call keeps the chain.** -/
theorem chained_okStep (h : Chained env s entries st) (hin : Within env cfg s call)
    (hstep : okStep env cfg s call = some s') : ∃ entries' st', Chained env s' entries' st' := by
  obtain ⟨entries₀, st₀, hbase⟩ := chained_entryBase h hstep
  have hgs := globalSequence_entryBase hstep
  obtain ⟨hash, hhash, hlines, hlast, hts, hseq, -⟩ := okStep_fields hstep
  have hroom : (entryBase env cfg s call).globalSequence < u64Max := hgs ▸ hin.counter
  exact ⟨_, _, chained_append hbase hroom (hin.readable hash hhash) hhash hlines hlast hts hseq⟩

theorem loadEntries_lines {disk : Disk T} {entries' : List AuditEntry}
    (hload : env.texts.loadEntries disk.log = .ok entries') :
    entries' = env.texts.readEntries (disk.log.getD []) := by
  cases hlog : disk.log with
  | none =>
    rw [hlog] at hload
    cases hload
    rfl
  | some lines =>
    rw [hlog, Texts.loadEntries] at hload
    split at hload
    · cases hload
    · cases hload
      rfl

/-- **A restart keeps the chain.** -/
theorem chained_restart (h : Chained env s entries st)
    (hstart : restart env cfg s.disk = (.ok (), s')) : Chained env s' entries st := by
  obtain ⟨loaded, hload, hcases⟩ := restart_eq_ok hstart
  obtain rfl : loaded = entries := (loadEntries_lines hload).trans h.lines.readEntries
  have hbelow : ∀ p, st.prevSequence = some p → p < recoveredSequence env s.disk loaded := by
    intro p hp
    rcases prevSequence_mem h.walk hp with hnone | ⟨e, he, rfl⟩
    · cases hnone
    · exact lt_recoveredSequence he (Nat.lt_of_lt_of_le (h.below _ hp) h.counter)
  obtain ⟨rfl, rfl⟩ | ⟨hne, v, hverify, htree⟩ := hcases
  · have hst : ChainState.start = st := Option.some.inj (Except.ok.inj h.walk)
    refine ⟨h.lines, h.walk, ⟨hst ▸ rfl, fun t ht => ?_, fun t ht => ?_⟩, hbelow,
      recoveredSequence_le _⟩
    · rw [← hst] at ht
      cases ht
    · cases ht
  · obtain ⟨v', hverify', hvalid⟩ := (verifyEntries_valid_iff _ _ loaded).mpr ⟨st, h.walk⟩
    obtain rfl : v' = v := Except.ok.inj (hverify'.symm.trans hverify)
    obtain ⟨last, hlast⟩ := Option.ne_none_iff_exists'.mp
      (fun hnone => hne (List.getLast?_eq_none_iff.mp hnone))
    obtain ⟨hhash, hts⟩ := chainRun_getLast h.walk hlast
    obtain ⟨tree, leaves, rfl⟩ := restoreTree_eq_ok htree
    simp only [AuditLogger.restoreHead, hvalid, if_true, hlast]
    refine ⟨h.lines, h.walk, ⟨hhash.symm, fun t ht => ?_, fun t ht => ?_⟩, hbelow,
      recoveredSequence_le _⟩
    · exact hts.symm.trans ht
    · cases ht
      exact h.head.utc _ (h.head.timestamp _ hts)

end Chained

/-! ## Runs -/

/-- What happens in a clean run: a call that succeeds, a rotation whose entry is not written yet, a
    restart. -/
inductive CleanOp where
  | log (call : LogCall)
  | rotate (io : RotationIo)
  | restart

def cleanStep (env : Env H T) (cfg : Config) (s : AuditLogger H T) : CleanOp → Option (AuditLogger H T)
  | .log call => okStep env cfg s call
  | .rotate io =>
    match maybeRotate env cfg io s with
    | (.ok true, t) => some t.startFile
    | (.ok false, t) => some t
    | (.error _, _) => none
  | .restart =>
    match restart env cfg s.disk with
    | (.ok (), t) => some t
    | (.error _, _) => none

/-- The calls of a clean run are within the limits. -/
def WithinOp (env : Env H T) (cfg : Config) (s : AuditLogger H T) : CleanOp → Prop
  | .log call => Within env cfg s call
  | _ => True

instance (env : Env H T) (cfg : Config) (s : AuditLogger H T) (op : CleanOp) :
    Decidable (WithinOp env cfg s op) :=
  match op with
  | .log call => inferInstanceAs (Decidable (Within env cfg s call))
  | .rotate _ => isTrue trivial
  | .restart => isTrue trivial

section Runs

variable {env : Env H T} {cfg : Config} {s s' : AuditLogger H T}

/-- A rotation of a clean run. -/
theorem cleanStep_rotate {io : RotationIo} (hstep : cleanStep env cfg s (.rotate io) = some s') :
    s' = s ∨ ∃ entries tailHash line,
      checkRotation env cfg io s.disk.log = .rotate entries tailHash ∧
      s.rotationLine env cfg io entries tailHash = .ok line ∧
      s' = (s.rotated cfg io line).startFile := by
  rw [cleanStep] at hstep
  split at hstep
  · rename_i t hrotate
    cases hstep
    obtain ⟨-, he | ⟨e, he, -⟩⟩ | ⟨entries, tailHash, hcheck, -, ⟨e, he, -⟩ | ⟨line, hline, -, ht⟩⟩ :=
      maybeRotate_cases hrotate
    · cases he
    · cases he
    · cases he
    · exact .inr ⟨entries, tailHash, line, hcheck, hline, by rw [ht]⟩
  · rename_i t hrotate
    cases hstep
    obtain ⟨ht, -⟩ | ⟨_, _, -, -, ⟨e, he, -⟩ | ⟨_, -, he, -⟩⟩ := maybeRotate_cases hrotate
    · exact .inl ht
    · cases he
    · cases he
  · cases hstep

theorem cleanStep_restart (hstep : cleanStep env cfg s .restart = some s') :
    restart env cfg s.disk = (.ok (), s') := by
  rw [cleanStep] at hstep
  split at hstep
  · rename_i t hstart
    cases hstep
    exact hstart
  · cases hstep

/-- **A clean run keeps the chain.** -/
theorem chained_cleanStep {op : CleanOp} (h : ∃ entries st, Chained env s entries st)
    (hin : WithinOp env cfg s op) (hstep : cleanStep env cfg s op = some s') :
    ∃ entries st, Chained env s' entries st := by
  obtain ⟨entries, st, h⟩ := h
  cases op with
  | log call => exact chained_okStep h hin hstep
  | rotate io =>
    obtain rfl | ⟨_, _, line, hcheck, -, rfl⟩ := cleanStep_rotate hstep
    · exact ⟨entries, st, h⟩
    · exact ⟨_, _, chained_rotated h hcheck line⟩
  | restart => exact ⟨entries, st, chained_restart h (cleanStep_restart hstep)⟩

theorem chained_new (cfg : Config) : Chained env (AuditLogger.new cfg Disk.empty) [] .start :=
  chained_nil rfl rfl (fun t ht => by cases ht) (Nat.zero_le _)

end Runs

end Vellaveto.Audit
