/-
  SEQUENCE NUMBERS over rotations and restarts.

  PROGRAM.      Every entry gets the value of a counter that survives rotations.  After a restart the
                counter is rebuilt from three sources: the entries of the active log, the highest number
                and the number of entries that the manifest records for each rotated file.

  SPEC.         Over all files, in the order of writing, the numbers are strictly increasing.

  CORRECTNESS.  The entries that were ever written are kept beside the state (`written`).  `Numbered`
                says where each of them is and what the manifest knows of it; the counter is past all of
                them and at most one past their number.
    1. `numbered_log`, `numbered_rotated`, `numbered_restart`   one step;
    2. `sequences_increase`        every run in which the last line is readable at each restart;
    3. `longLine_reuses_sequence`  a line beyond the limit of the reader is written but not found again.
-/
import Mathlib.Algebra.Order.BigOperators.Group.List
import Mathlib.Data.String.Basic
import Vellaveto.Audit.CleanRun

namespace Vellaveto.Audit

open Vellaveto.Lib

variable {H T : Type}

/-- The logger, and all entries that were written so far. -/
abbrev History (H T : Type) := AuditLogger H T × List AuditEntry

/-- The entry that a call writes. -/
def writtenEntry (env : Env H T) (cfg : Config) (s : AuditLogger H T) (call : LogCall) :
    Option AuditEntry :=
  match computeEntryHash env.digests env.canonical
      (nextEntry env call.io call.req (entryBase env cfg s call)) with
  | .ok hash => some (callEntry env cfg s call hash)
  | .error _ => none

/-- A step of a clean run, with the history. -/
def historyStep (env : Env H T) (cfg : Config) (h : History H T) (op : CleanOp) :
    Option (History H T) :=
  (cleanStep env cfg h.1 op).map fun s' =>
    match op with
    | .log call => (s', h.2 ++ (writtenEntry env cfg h.1 call).toList)
    | _ => (s', h.2)

/-- The lines of all files, in the order of writing. -/
def AuditLogger.allLines (s : AuditLogger H T) : List T := s.disk.rotated.flatMap (·.2) ++ s.lines

/-- The line of the entry is found again when the log is read. -/
def Texts.Finds (texts : Texts T) (e : AuditEntry) : Prop :=
  texts.readEntries [texts.entryLine e] ≠ []

/-- **The condition.**  At a restart, the entry that was written last can be found again, or it has
    the number 0. -/
def LastFound (env : Env H T) (h : History H T) (op : CleanOp) : Prop :=
  match op with
  | .restart => ∀ e, h.2.getLast? = some e → env.texts.Finds e ∨ e.sequence = 0
  | _ => True

instance (texts : Texts T) (e : AuditEntry) : Decidable (texts.Finds e) :=
  inferInstanceAs (Decidable (_ ≠ _))

instance (env : Env H T) (h : History H T) (op : CleanOp) : Decidable (LastFound env h op) :=
  match op with
  | .log _ => isTrue trivial
  | .rotate _ => isTrue trivial
  | .restart =>
    match hlast : h.2.getLast? with
    | none => isTrue fun e he => by rw [hlast] at he; cases he
    | some e =>
      decidable_of_iff (env.texts.Finds e ∨ e.sequence = 0)
        ⟨fun hfound _ he => Option.some.inj (hlast.symm.trans he) ▸ hfound, fun hall => hall e hlast⟩

/-! ## What the readers find -/

section Readers

variable {texts : Texts T}

/-- What is read from the lines of some entries: no more than there are, with numbers of theirs. -/
theorem readEntries_map (texts : Texts T) (entries : List AuditEntry) :
    (texts.readEntries (entries.map texts.entryLine)).length ≤ entries.length ∧
    (∀ x ∈ texts.readEntries (entries.map texts.entryLine),
      ∃ e ∈ entries, x.sequence = e.sequence) ∧
    ∀ e ∈ entries, texts.Finds e →
      ∃ x ∈ texts.readEntries (entries.map texts.entryLine), x.sequence = e.sequence := by
  induction entries with
  | nil =>
    refine ⟨Nat.le_refl _, fun x hx => ?_, fun e he => ?_⟩
    · cases hx
    · cases he
  | cons e es ih =>
    obtain ⟨hlen, hfrom, hto⟩ := ih
    have hsplit : (e :: es).map texts.entryLine = [texts.entryLine e] ++ es.map texts.entryLine := rfl
    rw [hsplit, readEntries_append]
    rcases readEntries_entryLine texts e with hnone | ⟨e', hone, hseq⟩
    · rw [hnone, List.nil_append]
      refine ⟨by simp only [List.length_cons]; omega, fun x hx => ?_, fun x hx hfinds => ?_⟩
      · obtain ⟨y, hy, heq⟩ := hfrom x hx
        exact ⟨y, List.mem_cons_of_mem e hy, heq⟩
      · rcases List.mem_cons.mp hx with rfl | hx
        · exact absurd hnone hfinds
        · exact hto x hx hfinds
    · rw [hone]
      refine ⟨by simp only [List.length_append, List.length_cons, List.length_nil]; omega,
        fun x hx => ?_, fun x hx hfinds => ?_⟩
      · rcases List.mem_append.mp hx with hx | hx
        · rw [List.mem_singleton] at hx
          exact ⟨e, List.mem_cons_self, hx ▸ hseq⟩
        · obtain ⟨y, hy, heq⟩ := hfrom x hx
          exact ⟨y, List.mem_cons_of_mem e hy, heq⟩
      · rcases List.mem_cons.mp hx with rfl | hx
        · exact ⟨e', List.mem_append_left _ (List.mem_singleton.mpr rfl), hseq⟩
        · obtain ⟨y, hy, heq⟩ := hto x hx hfinds
          exact ⟨y, List.mem_append_right _ hy, heq⟩

/-- A line of the manifest: the entry, and its signature if there is one. -/
abbrev SignedEntry := ManifestEntry × Option (String × String)

/-- What `recover_max_sequence` reads from a line it wrote. -/
theorem recoverLine_jsonLine (texts : Texts T) (m : SignedEntry) (acc : Nat × Nat)
    (hcount : m.1.entryCount ≤ u64Max) (hmax : m.1.maxSequence ≤ u64Max) :
    recoverLine texts acc (texts.jsonLine (m.1.toJson m.2)) =
      (saturatingAdd u64Max acc.1 m.1.entryCount, max acc.2 m.1.maxSequence) := by
  have hnat : ∀ n, n ≤ u64Max → ((Json.number (.posInt n)).asU64.map UInt64.toNat).getD 0 = n := by
    intro n hn
    have hlt : n < 18446744073709551616 := Nat.lt_succ_of_le hn
    simpa [Json.asU64, hn] using hlt
  have hgetCount : (m.1.toJson m.2).get "entry_count" = some (.number (.posInt m.1.entryCount)) := rfl
  have hgetMax : (m.1.toJson m.2).get "max_sequence" = some (.number (.posInt m.1.maxSequence)) := rfl
  rw [recoverLine, texts.blank_jsonLine, texts.parseJson_jsonLine]
  simp only [Bool.false_eq_true, if_false, hgetCount, hgetMax, Option.bind_some, hnat _ hcount,
    hnat _ hmax]

theorem foldl_recoverLine (texts : Texts T) (ms : List SignedEntry) (acc : Nat × Nat)
    (hcount : ∀ m ∈ ms, m.1.entryCount ≤ u64Max) (hmax : ∀ m ∈ ms, m.1.maxSequence ≤ u64Max) :
    (ms.map fun m => texts.jsonLine (m.1.toJson m.2)).foldl (recoverLine texts) acc =
      ((ms.map (·.1.entryCount)).foldl (saturatingAdd u64Max) acc.1,
        (ms.map (·.1.maxSequence)).foldl max acc.2) := by
  induction ms generalizing acc with
  | nil => rfl
  | cons m ms ih =>
    have hone := recoverLine_jsonLine texts m acc (hcount m List.mem_cons_self)
      (hmax m List.mem_cons_self)
    rw [List.map_cons, List.foldl_cons, hone,
      ih _ (fun x hx => hcount x (List.mem_cons_of_mem m hx))
        fun x hx => hmax x (List.mem_cons_of_mem m hx)]
    rfl

/-- The manifest holds these entries. -/
def ManifestOf (texts : Texts T) (manifest : Option (List T)) (ms : List SignedEntry) : Prop :=
  manifest.getD [] = ms.map fun m => texts.jsonLine (m.1.toJson m.2)

/-- **What is recovered**: at least every number that the active log or the manifest knows, and no more
    than a bound on these and on the number of rotated entries. -/
theorem recoverMaxSequence_bounds {manifest : Option (List T)} {ms : List SignedEntry}
    (hms : ManifestOf texts manifest ms) {entries : List AuditEntry} {bound : Nat}
    (hbound : bound ≤ u64Max) (hentries : ∀ e ∈ entries, e.sequence ≤ bound)
    (hrecorded : ∀ m ∈ ms, m.1.maxSequence ≤ bound) (hsum : (ms.map (·.1.entryCount)).sum ≤ bound) :
    (∀ e ∈ entries, e.sequence ≤ recoverMaxSequence texts entries manifest) ∧
    (∀ m ∈ ms, m.1.maxSequence ≤ recoverMaxSequence texts entries manifest) ∧
    recoverMaxSequence texts entries manifest ≤ bound := by
  have hactive := maxSequence_le hentries
  cases manifest with
  | none =>
    have hnil : ms = [] := by
      have hlen := congrArg List.length hms
      simpa using hlen.symm
    subst hnil
    refine ⟨fun e he => sequence_le_maxSequence he, fun m hm => ?_, hactive⟩
    cases hm
  | some lines =>
    have hcount : ∀ m ∈ ms, m.1.entryCount ≤ u64Max := by
      intro m hm
      have hle := List.single_le_sum (fun _ _ => Nat.zero_le _) _
        (List.mem_map_of_mem (f := fun m : SignedEntry => m.1.entryCount) hm)
      omega
    have hlines : lines = ms.map fun m => texts.jsonLine (m.1.toJson m.2) := hms
    have hfold := foldl_recoverLine texts ms (0, 0) hcount fun m hm => (hrecorded m hm).trans hbound
    have htotal := foldl_saturatingAdd (Nat.zero_le u64Max) (ms.map (·.1.entryCount))
    have hexplicit := foldl_max_ge (ms.map (·.1.maxSequence)) 0
    rw [recoverMaxSequence, hlines, hfold]
    dsimp only
    rw [htotal]
    refine ⟨fun e he => ?_, fun m hm => ?_, ?_⟩
    · have hle := sequence_le_maxSequence he
      omega
    · have hle := hexplicit.2 _ (List.mem_map_of_mem hm)
      omega
    · have hle : (ms.map (·.1.maxSequence)).foldl max 0 ≤ bound := by
        refine foldl_max_le (Nat.zero_le _) fun x hx => ?_
        obtain ⟨m, hm, rfl⟩ := List.mem_map.mp hx
        exact hrecorded m hm
      omega

end Readers

/-! ## Where the entries are -/

/-- Fewer than `2 ^ 64 - 1` entries: the counter has room. -/
def maxWritten : Nat := 2 ^ 64 - 1

/-- **The invariant.**  The entries of the active log are the last ones that were written, the manifest
    has recorded every earlier one that can be found, and the counter is past them all. -/
structure Numbered (env : Env H T) (h : History H T) (older active : List AuditEntry)
    (ms : List SignedEntry) : Prop where
  written : h.2 = older ++ active
  increasing : h.2.Pairwise fun a b => a.sequence < b.sequence
  below : ∀ e ∈ h.2, e.sequence < h.1.globalSequence
  bound : h.1.globalSequence ≤ h.2.length + 1
  lines : h.1.lines = active.map env.texts.entryLine
  files : List.Sublist h.1.allLines (h.2.map env.texts.entryLine)
  manifest : ManifestOf env.texts h.1.disk.manifest ms
  counted : (ms.map (·.1.entryCount)).sum ≤ older.length
  recorded : ∀ m ∈ ms, m.1.maxSequence ≤ h.2.length
  known : ∀ e ∈ older, env.texts.Finds e → ∃ m ∈ ms, e.sequence ≤ m.1.maxSequence

section Steps

variable {env : Env H T} {cfg : Config} {s s' : AuditLogger H T} {w older active : List AuditEntry}
  {ms : List SignedEntry}

theorem numbered_new (env : Env H T) (cfg : Config) :
    Numbered env (AuditLogger.new cfg Disk.empty, []) [] [] [] := by
  refine ⟨rfl, .nil, fun e he => ?_, Nat.zero_le _, rfl, .refl _, rfl, Nat.le_refl _, fun m hm => ?_,
    fun e he => ?_⟩
  · cases he
  · cases hm
  · cases he

theorem sequence_le_getLast {w : List AuditEntry}
    (h : w.Pairwise fun a b => a.sequence < b.sequence) {e last : AuditEntry} (he : e ∈ w)
    (hlast : w.getLast? = some last) : e.sequence ≤ last.sequence := by
  rcases List.eq_nil_or_concat w with rfl | ⟨init, x, rfl⟩
  · cases he
  · rw [List.concat_eq_append] at h he hlast
    rw [List.getLast?_concat] at hlast
    cases hlast
    rcases List.mem_append.mp he with he | he
    · have hlt := (List.pairwise_append.mp h).2.2 e he last (List.mem_singleton.mpr rfl)
      omega
    · rw [List.mem_singleton] at he
      rw [he]

/-- What is read from the active log has numbers of written entries. -/
theorem Numbered.sequence_le (h : Numbered env (s, w) older active ms) {x : AuditEntry}
    (hx : x ∈ env.texts.readEntries s.lines) : x.sequence ≤ w.length := by
  have hlines : s.lines = active.map env.texts.entryLine := h.lines
  rw [hlines] at hx
  obtain ⟨e, he, heq⟩ := (readEntries_map env.texts active).2.1 x hx
  have hwritten : w = older ++ active := h.written
  have hlt := h.below e (by rw [hwritten]; exact List.mem_append_right _ he)
  have hle := h.bound
  dsimp only at hlt hle
  omega

/-- The lines that are left after a rotation. -/
theorem allLines_rotated_sublist {io : RotationIo} {lines : List T} (hlog : s.disk.log = some lines)
    (line : T) : List.Sublist (s.rotated cfg io line).startFile.allLines s.allLines := by
  have hrotated : ((s.renameAway cfg io (s.rotatedName cfg io)).disk.appendManifest line).rotated =
      (s.disk.rotated.filter fun f => f.1 ≠ s.rotatedName cfg io) ++ [(s.rotatedName cfg io, lines)] := by
    rw [Disk.appendManifest]
    dsimp only
    rw [rotated_renameAway, Disk.renameLog, hlog]
  have hpruned : List.Sublist (s.rotated cfg io line).startFile.disk.rotated _ :=
    rotated_prune_sublist ((s.renameAway cfg io (s.rotatedName cfg io)).disk.appendManifest line)
  have hslines : s.lines = lines := by rw [AuditLogger.lines, hlog]; rfl
  rw [AuditLogger.allLines, AuditLogger.allLines, lines_rotated hlog, List.append_nil, hslines]
  refine (hpruned.flatMap _).trans ?_
  rw [hrotated, List.flatMap_append, List.flatMap_singleton]
  exact (List.filter_sublist.flatMap _).append (.refl _)

/-- **A rotation**: the active entries become older ones, and the manifest records them. -/
theorem numbered_rotated (h : Numbered env (s, w) older active ms) {io : RotationIo}
    {entries : List AuditEntry} {tailHash : String} {line : T}
    (hcheck : checkRotation env cfg io s.disk.log = .rotate entries tailHash)
    (hline : s.rotationLine env cfg io entries tailHash = .ok line) :
    ∃ ms', Numbered env ((s.rotated cfg io line).startFile, w) (older ++ active) [] ms' := by
  obtain ⟨-, lines, hlog, rfl, -⟩ := checkRotation_eq_rotate hcheck
  have hslines : s.lines = lines := by rw [AuditLogger.lines, hlog]; rfl
  have hactive : lines = active.map env.texts.entryLine := hslines.symm.trans h.lines
  obtain ⟨hlen, hfrom, hto⟩ := readEntries_map env.texts active
  rw [← hactive] at hlen hfrom hto
  -- the line that was added
  obtain ⟨m, hm, rfl⟩ : ∃ m : SignedEntry, m.1 = manifestEntry env io (s.rotatedName cfg io)
      (env.texts.readEntries lines) tailHash s.disk.manifest ∧
      line = env.texts.jsonLine (m.1.toJson m.2) := by
    rw [AuditLogger.rotationLine, manifestLine] at hline
    split at hline
    · cases hline
    · cases hline
      exact ⟨(_, _), rfl, rfl⟩
  have hcount : m.1.entryCount = (env.texts.readEntries lines).length := by rw [hm]; rfl
  have hmax : m.1.maxSequence = maxSequence (env.texts.readEntries lines) := by rw [hm]; rfl
  have hgs : (s.rotated cfg io (env.texts.jsonLine (m.1.toJson m.2))).startFile.globalSequence =
      s.globalSequence := globalSequence_rotated io _
  refine ⟨ms ++ [m], ?_, h.increasing, ?_, ?_, ?_, ?_, ?_, ?_, ?_, ?_⟩
  · show w = older ++ active ++ []
    rw [List.append_nil]
    exact h.written
  · dsimp only
    rw [hgs]
    exact h.below
  · dsimp only
    rw [hgs]
    exact h.bound
  · exact lines_rotated hlog io _
  · -- the file of the old log takes its place
    exact (allLines_rotated_sublist hlog _).trans h.files
  · show (Disk.manifest (AuditLogger.disk (s.rotated cfg io _))).getD [] = _
    rw [manifest_rotated, Option.getD_some, List.map_append]
    have hold : s.disk.manifest.getD [] = _ := h.manifest
    rw [hold]
    rfl
  · rw [List.map_append, List.sum_append, List.length_append]
    have hold := h.counted
    simp only [List.map_cons, List.map_nil, List.sum_cons, List.sum_nil, hcount]
    omega
  · intro x hx
    rcases List.mem_append.mp hx with hx | hx
    · exact h.recorded x hx
    · rw [List.mem_singleton] at hx
      rw [hx, hmax]
      exact maxSequence_le fun e he => h.sequence_le (hslines ▸ he)
  · intro e he hfinds
    rcases List.mem_append.mp he with he | he
    · obtain ⟨x, hx, hle⟩ := h.known e he hfinds
      exact ⟨x, List.mem_append_left _ hx, hle⟩
    · obtain ⟨x, hx, heq⟩ := hto e he hfinds
      refine ⟨m, List.mem_append_right _ (List.mem_singleton.mpr rfl), ?_⟩
      rw [hmax, ← heq]
      exact sequence_le_maxSequence hx

/-- **A new entry** takes the value of the counter. -/
theorem numbered_append (h : Numbered env (s, w) older active ms) (hroom : w.length + 1 < maxWritten)
    {e : AuditEntry} (hseq : e.sequence = s.globalSequence)
    (hlines : s'.lines = s.lines ++ [env.texts.entryLine e])
    (hnext : s'.globalSequence = nextGlobalSequence s.globalSequence)
    (hmanifest : s'.disk.manifest = s.disk.manifest) (hrotated : s'.disk.rotated = s.disk.rotated) :
    Numbered env (s', w ++ [e]) older (active ++ [e]) ms := by
  have hbound : s.globalSequence ≤ w.length + 1 := h.bound
  have hgoes : s'.globalSequence = s.globalSequence + 1 := by
    have hu : u64Max = maxWritten := rfl
    rw [hnext, nextGlobalSequence, saturatingAdd]
    omega
  have hwritten : w = older ++ active := h.written
  refine ⟨?_, ?_, ?_, ?_, ?_, ?_, ?_, h.counted, ?_, h.known⟩
  · dsimp only
    rw [hwritten, List.append_assoc]
  · refine List.pairwise_append.mpr ⟨h.increasing, List.pairwise_singleton _ _, fun a ha b hb => ?_⟩
    rw [List.mem_singleton] at hb
    rw [hb, hseq]
    exact h.below a ha
  · intro x hx
    rcases List.mem_append.mp hx with hx | hx
    · have hlt : x.sequence < s.globalSequence := h.below x hx
      dsimp only
      omega
    · rw [List.mem_singleton] at hx
      dsimp only
      rw [hx, hseq]
      omega
  · dsimp only
    rw [List.length_append, List.length_singleton]
    omega
  · have hold : s.lines = active.map env.texts.entryLine := h.lines
    dsimp only
    rw [hlines, hold, List.map_append]
    rfl
  · have hall : s'.allLines = s.allLines ++ [env.texts.entryLine e] := by
      rw [AuditLogger.allLines, AuditLogger.allLines, hlines, hrotated, List.append_assoc]
    dsimp only
    rw [hall, List.map_append]
    exact List.Sublist.append h.files (.refl _)
  · show ManifestOf env.texts s'.disk.manifest ms
    rw [hmanifest]
    exact h.manifest
  · intro m hm
    have hold : m.1.maxSequence ≤ w.length := h.recorded m hm
    dsimp only
    rw [List.length_append]
    omega

/-- The state in which the entry of a call is made. -/
theorem numbered_entryBase (h : Numbered env (s, w) older active ms) {call : LogCall}
    (hstep : okStep env cfg s call = some s') :
    ∃ older' active' ms', Numbered env (entryBase env cfg s call, w) older' active' ms' := by
  obtain hbase | ⟨_, _, line, hcheck, hline, hbase⟩ := entryBase_cases hstep
  · rw [hbase]
    exact ⟨older, active, ms, h⟩
  · rw [hbase]
    obtain ⟨ms', h'⟩ := numbered_rotated h hcheck hline
    exact ⟨_, _, ms', h'⟩

/-- **A call of the run.** -/
theorem numbered_log (h : Numbered env (s, w) older active ms) (hroom : w.length + 1 < maxWritten)
    {call : LogCall} (hstep : okStep env cfg s call = some s') :
    ∃ older' active' ms',
      Numbered env (s', w ++ (writtenEntry env cfg s call).toList) older' active' ms' := by
  obtain ⟨hash, hhash, hlines, -, -, hnext, hmanifest, hrotated, -⟩ := okStep_fields hstep
  have hentry : writtenEntry env cfg s call = some (callEntry env cfg s call hash) := by
    rw [CallHash] at hhash
    rw [writtenEntry, hhash]
  obtain ⟨older', active', ms', hbase⟩ := numbered_entryBase h hstep
  rw [hentry]
  exact ⟨_, _, ms', numbered_append hbase hroom (sequence_hashedEntry hash) hlines hnext hmanifest
    hrotated⟩

/-- **A restart** finds a counter past all entries, if it finds the last one. -/
theorem numbered_restart (h : Numbered env (s, w) older active ms) (hroom : w.length < maxWritten)
    (hlast : ∀ e, w.getLast? = some e → env.texts.Finds e ∨ e.sequence = 0)
    (hstart : restart env cfg s.disk = (.ok (), s')) : Numbered env (s', w) older active ms := by
  have hu : u64Max = maxWritten := rfl
  have hwritten : w = older ++ active := h.written
  have hslines : s.lines = active.map env.texts.entryLine := h.lines
  obtain ⟨leaves, hdisk⟩ := restart_disk hstart
  -- the counter
  obtain ⟨entries, hload, hgs⟩ := globalSequence_restart hstart
  obtain rfl : entries = env.texts.readEntries s.lines := loadEntries_lines hload
  have hms : ManifestOf env.texts s.disk.manifest ms := h.manifest
  have hrecorded : ∀ m ∈ ms, m.1.maxSequence ≤ w.length := h.recorded
  have hcounted : (ms.map (·.1.entryCount)).sum ≤ w.length := by
    have hle := h.counted
    have hlen := congrArg List.length hwritten
    rw [List.length_append] at hlen
    omega
  obtain ⟨hfound, hknown, hle⟩ := recoverMaxSequence_bounds hms (by omega)
    (fun e he => h.sequence_le he) hrecorded hcounted
  rw [recoveredSequence, nextSequenceAfterRecovery, saturatingAdd] at hgs
  have hmanifest : s'.disk.manifest = s.disk.manifest := by rw [hdisk]
  refine ⟨h.written, h.increasing, ?_, ?_, ?_, ?_, ?_, h.counted, h.recorded, h.known⟩
  · intro e he
    obtain ⟨last, hget⟩ := Option.ne_none_iff_exists'.mp
      (fun hnone => List.ne_nil_of_mem he (List.getLast?_eq_none_iff.mp hnone))
    have hmem : last ∈ w := List.mem_of_getLast? hget
    have hmax : e.sequence ≤ last.sequence := sequence_le_getLast h.increasing he hget
    have hlt : last.sequence < s.globalSequence := h.below last hmem
    have hbound : s.globalSequence ≤ w.length + 1 := h.bound
    dsimp only
    rcases hlast last hget with hfinds | hzero
    · -- the last entry is found in the active log or in the manifest
      have hknows : last.sequence ≤
          recoverMaxSequence env.texts (env.texts.readEntries s.lines) s.disk.manifest := by
        rw [hwritten] at hmem
        rcases List.mem_append.mp hmem with hold | hact
        · obtain ⟨m, hm, hseq⟩ := h.known last hold hfinds
          exact hseq.trans (hknown m hm)
        · obtain ⟨x, hx, hseq⟩ := (readEntries_map env.texts active).2.2 last hact hfinds
          rw [← hseq]
          exact hfound x (hslines ▸ hx)
      omega
    · omega
  · dsimp only
    omega
  · show Option.getD s'.disk.log [] = _
    rw [hdisk]
    exact h.lines
  · show List.Sublist (List.flatMap (·.2) s'.disk.rotated ++ Option.getD s'.disk.log []) _
    rw [hdisk]
    exact h.files
  · show ManifestOf env.texts s'.disk.manifest ms
    rw [hmanifest]
    exact h.manifest

/-- **One step** of a clean run. -/
theorem numbered_historyStep {op : CleanOp} {w' : List AuditEntry}
    (h : Numbered env (s, w) older active ms) (hlast : LastFound env (s, w) op)
    (hstep : historyStep env cfg (s, w) op = some (s', w')) (hfew : w'.length < maxWritten) :
    ∃ older' active' ms', Numbered env (s', w') older' active' ms' := by
  obtain ⟨t, hclean, heq⟩ := Option.map_eq_some_iff.mp hstep
  cases op with
  | log call =>
    obtain ⟨rfl, rfl⟩ := Prod.mk.inj heq
    obtain ⟨hash, hhash, -⟩ := okStep_fields hclean
    have hentry : writtenEntry env cfg s call = some (callEntry env cfg s call hash) := by
      rw [CallHash] at hhash
      rw [writtenEntry, hhash]
    refine numbered_log h ?_ hclean
    rw [hentry, List.length_append] at hfew
    exact hfew
  | rotate io =>
    obtain ⟨rfl, rfl⟩ := Prod.mk.inj heq
    obtain rfl | ⟨_, _, line, hcheck, hline, rfl⟩ := cleanStep_rotate hclean
    · exact ⟨older, active, ms, h⟩
    · obtain ⟨ms', h'⟩ := numbered_rotated h hcheck hline
      exact ⟨_, _, ms', h'⟩
  | restart =>
    obtain ⟨rfl, rfl⟩ := Prod.mk.inj heq
    exact ⟨older, active, ms, numbered_restart h hfew hlast (cleanStep_restart hclean)⟩

/-- The history never gets shorter. -/
theorem length_historyStep {op : CleanOp} {w' : List AuditEntry}
    (hstep : historyStep env cfg (s, w) op = some (s', w')) : w.length ≤ w'.length := by
  obtain ⟨t, -, heq⟩ := Option.map_eq_some_iff.mp hstep
  cases op with
  | log call =>
    obtain ⟨-, rfl⟩ := Prod.mk.inj heq
    rw [List.length_append]
    exact Nat.le_add_right _ _
  | rotate io =>
    obtain ⟨-, rfl⟩ := Prod.mk.inj heq
    exact Nat.le_refl _
  | restart =>
    obtain ⟨-, rfl⟩ := Prod.mk.inj heq
    exact Nat.le_refl _

end Steps

/-- **Sequence numbers are never reused**, in every run in which each restart finds the entry that was
    written last: over all files, in the order of writing, they are strictly increasing. -/
theorem sequences_increase (env : Env H T) (cfg : Config) {ops : List CleanOp} {s : AuditLogger H T}
    {w : List AuditEntry}
    (hrun : run (historyStep env cfg) (AuditLogger.new cfg Disk.empty, []) ops = some (s, w))
    (hfound : EachStep (historyStep env cfg) (fun h op _ => LastFound env h op)
      (AuditLogger.new cfg Disk.empty, []) ops)
    (hfew : w.length < 2 ^ 64 - 1) :
    w.Pairwise (fun a b => a.sequence < b.sequence) ∧
      ∃ entries : List AuditEntry, s.allLines = entries.map env.texts.entryLine ∧
        entries.Pairwise fun a b => a.sequence < b.sequence := by
  have hinv : (s, w).2.length < maxWritten → ∃ older active ms, Numbered env (s, w) older active ms := by
    refine run_invariant_of_eachStep
      (I := fun h => h.2.length < maxWritten → ∃ older active ms, Numbered env h older active ms)
      ?_ hfound (fun _ => ⟨_, _, _, numbered_new env cfg⟩) hrun
    rintro ⟨s, w⟩ op ⟨s', w'⟩ - ih hlast hstep hfew
    have hlen : w.length ≤ w'.length := length_historyStep hstep
    obtain ⟨older, active, ms, h⟩ := ih (Nat.lt_of_le_of_lt hlen hfew)
    exact numbered_historyStep h hlast hstep hfew
  obtain ⟨older, active, ms, h⟩ := hinv hfew
  obtain ⟨entries, hsub, hall⟩ := List.sublist_map_iff.mp h.files
  exact ⟨h.increasing, entries, hall, h.increasing.sublist hsub⟩

/-- A restart right after a rotation, when there is no active log. -/
theorem sequences_increase_restart :
    ∃ s w, run (historyStep (plainEnv shortDigests) { plainConfig with maxFileSize := 1 })
        (AuditLogger.new { plainConfig with maxFileSize := 1 } Disk.empty, [])
        [.log (plainCall "1" "30" none), .rotate plainRotationIo, .restart,
          .log (plainCall "2" "31" none)] = some (s, w) ∧
      w.Pairwise fun a b => a.sequence < b.sequence := by
  have hsome : (run (historyStep (plainEnv shortDigests) { plainConfig with maxFileSize := 1 })
        (AuditLogger.new { plainConfig with maxFileSize := 1 } Disk.empty, [])
        [.log (plainCall "1" "30" none), .rotate plainRotationIo, .restart,
          .log (plainCall "2" "31" none)]).any (fun h => h.2.length == 2) = true := by
    decide +kernel
  obtain ⟨⟨s, w⟩, hrun, hlen⟩ := (Option.any_eq_true _ _).mp hsome
  have hlen' : w.length = 2 := by simpa using hlen
  refine ⟨s, w, hrun, (sequences_increase _ _ hrun ?_ (by omega)).1⟩
  decide +kernel

/-! ### A line that is not found again -/

/-- A long text. -/
def longText (n : Nat) : String := String.ofList (List.replicate n 'a')

theorem utf8ByteSize_longText (n : Nat) : (longText n).utf8ByteSize = n := by
  rw [longText, String.utf8ByteSize_ofList]
  induction n with
  | zero => rfl
  | succ n ih =>
    rw [List.replicate_succ, String.utf8Len_cons, ih]
    rfl

/-- A call with long parameters and long metadata. -/
def longCall (n m : Nat) : LogCall :=
  { plainCall "2" "31" none with
    req := ⟨.new "t" "f" (.string (longText n)), .allow, .object [("note", .string (longText m))], none⟩ }

/-- A log without rotation and without a tree. -/
def bareConfig : Config := { plainConfig with merkle := none }

/-- The logger after one short call. -/
def shortLog : AuditLogger (List UInt8) PlainLine :=
  (logEntry (plainEnv shortDigests) bareConfig (plainCall "1" "30" none).io
    (plainCall "1" "30" none).req (AuditLogger.new bareConfig Disk.empty)).2

/-- The entry of the long call after it. -/
def longEntry (n m : Nat) (hash : String) : AuditEntry :=
  hashedEntry (plainEnv shortDigests) (longCall n m).io (longCall n m).req shortLog hash

theorem longEntry_eq (n m : Nat) (hash : String) :
    longEntry n m hash =
      { id := "2"
        action := .new "t" "f" (.string (longText n))
        verdict := .allow
        timestamp := "2026-01-01T00:00:" ++ "31" ++ "+00:00"
        metadata := .object [("note", .string (longText m))]
        sequence := shortLog.globalSequence
        entryHash := some hash
        prevHash := shortLog.lastHash
        commitment := none
        tenantId := none
        acisEnvelope := none } := by
  have hordered : timestampOrderedAfter ("2026-01-01T00:00:" ++ "31" ++ "+00:00")
      shortLog.lastTimestamp = true := by decide +kernel
  have hnext : nextEntry (plainEnv shortDigests) (longCall n m).io (longCall n m).req shortLog =
      draftEntry (plainEnv shortDigests) (longCall n m).io (longCall n m).req shortLog :=
    if_pos hordered
  rw [longEntry, hashedEntry, hnext]
  rfl

/-- The line of the long call is as much longer as its texts are. -/
theorem len_longEntry (n m : Nat) (hash : String) :
    plainTexts.len (.entry (longEntry n m hash)) =
      plainTexts.len (.entry (longEntry 0 0 "")) + n + m + hash.utf8ByteSize := by
  have hempty : "".utf8ByteSize = 0 := rfl
  rw [longEntry_eq, longEntry_eq]
  generalize shortLog.lastHash = prev
  generalize shortLog.globalSequence = g
  cases prev with
  | none =>
    simp only [plainTexts, PlainLine.text, entryJson, plainJsonText, plainMembers, actionJson,
      verdictJson, optionalMember, Action.new, String.utf8ByteSize_append, utf8ByteSize_longText,
      Option.map_some, Option.map_none, Option.toList, List.cons_append, List.nil_append,
      List.append_nil, List.isEmpty_nil, if_true]
    omega
  | some h =>
    simp only [plainTexts, PlainLine.text, entryJson, plainJsonText, plainMembers, actionJson,
      verdictJson, optionalMember, Action.new, String.utf8ByteSize_append, utf8ByteSize_longText,
      Option.map_some, Option.map_none, Option.toList, List.cons_append, List.nil_append,
      List.append_nil, List.isEmpty_nil, if_true]
    omega

/-- The long call is within the limits of `log_entry`. -/
theorem validateRequest_longCall {n m : Nat} (hn : n ≤ 999998) (hm : m ≤ 65000) :
    validateRequest (plainEnv shortDigests) (longCall n m).req = .ok () := by
  have hquote : "\"".utf8ByteSize = 1 := by decide
  have hparams : ¬1000000 < (plainEnv shortDigests).jsonTextLen (.string (longText n)) := by
    simp only [plainEnv, plainJsonText, String.utf8ByteSize_append, utf8ByteSize_longText]
    omega
  have hmetadata : ¬maxMetadataSize <
      (plainEnv shortDigests).jsonTextLen (.object [("note", .string (longText m))]) := by
    have hopen : "\x7b".utf8ByteSize = 1 := by decide
    have hclose : "\x7d".utf8ByteSize = 1 := by decide
    have hkey : "note".utf8ByteSize = 4 := by decide
    have hcolon : "\":".utf8ByteSize = 2 := by decide
    have hlimit : maxMetadataSize = 65536 := rfl
    simp only [plainEnv, plainJsonText, plainMembers, String.utf8ByteSize_append,
      utf8ByteSize_longText]
    omega
  have hkeys : validateMetadataKeys (maxMetadataKeyDepth + 1) 0
      (.object [("note", .string (longText m))]) = .ok () := by
    have hnote : hasDangerousChars "note" = false := by decide
    simp [validateMetadataKeys, maxMetadataKeyDepth, hnote]
  have hplain : hasDangerousChars "t" = false ∧ hasDangerousChars "f" = false := by decide
  have hshallow : jsonDepth (.string (longText n)) = 0 := rfl
  have hdepth : jsonDepth (.object [("note", .string (longText m))]) = 1 := rfl
  simp [validateRequest, validateAction, longCall, Action.new, checkTargets, hplain, hparams,
    hmetadata, hkeys, hshallow, hdepth, maxMetadataDepth]

/-- Without rotation and without a tree a valid call succeeds. -/
theorem okStep_bare {env : Env H T} {cfg : Config} {s : AuditLogger H T} {call : LogCall} {hash : String}
    (hmax : cfg.maxFileSize = 0) (htree : s.merkleTree = none)
    (hvalid : validateRequest env call.req = .ok ()) (happend : call.io.append = none)
    (hsink : call.io.sink = none)
    (hhash : computeEntryHash env.digests env.canonical (nextEntry env call.io call.req s) = .ok hash) :
    okStep env cfg s call =
      some (s.writeLine env (hashedEntry env call.io call.req s hash)).advance := by
  have hskip : checkRotation env cfg call.io.rotation s.disk.log = .skip := by
    unfold checkRotation
    exact if_pos hmax
  have hrotate : maybeRotate env cfg call.io.rotation s = (.ok false, s) := by
    rw [maybeRotate, hskip]
  have hleaf : (s.writeLine env (hashedEntry env call.io call.req s hash)).appendLeaf env
      call.io.leafAppend hash = .ok (s.writeLine env (hashedEntry env call.io call.req s hash)) := by
    have hnone : (s.writeLine env (hashedEntry env call.io call.req s hash)).merkleTree = none := htree
    rw [AuditLogger.appendLeaf, hnone]
  rw [hashedEntry] at hleaf
  simp only [okStep, logEntry, hvalid, hrotate, appendEntry, hhash, happend, hleaf, hsink]
  rfl

theorem historyStep_log {env : Env H T} {cfg : Config} {s s' : AuditLogger H T} {call : LogCall}
    (hstep : okStep env cfg s call = some s') (w : List AuditEntry) :
    ∃ e, historyStep env cfg (s, w) (.log call) = some (s', w ++ [e]) ∧
      e.sequence = s.globalSequence := by
  obtain ⟨hash, hhash, -⟩ := okStep_fields hstep
  rw [CallHash] at hhash
  refine ⟨callEntry env cfg s call hash, ?_, ?_⟩
  · have hentry : writtenEntry env cfg s call = some (callEntry env cfg s call hash) := by
      rw [writtenEntry, hhash]
    rw [historyStep, cleanStep]
    simp only [hstep, Option.map_some, hentry, Option.toList_some]
  · rw [callEntry, sequence_hashedEntry]
    exact globalSequence_entryBase hstep

theorem utf8ByteSize_shortHash (bs : List UInt8) :
    (shortDigests.encodeHashHex (shortDigests.sha256 bs)).utf8ByteSize = 4 := by
  have hdigit : ∀ n : Fin 16, (hexChar n).utf8Size = 1 := by decide
  have hbyte : ∀ b : UInt8, String.utf8Len (hexByte b) = 2 := by
    intro b
    have hb := b.toNat_lt
    have hhigh := hdigit ⟨b.toNat / 16, by omega⟩
    have hlow := hdigit ⟨b.toNat % 16, by omega⟩
    rw [hexByte, String.utf8Len_cons, String.utf8Len_cons, String.utf8Len_nil]
    dsimp only at hhigh hlow
    omega
  show (String.ofList ([_, _].flatMap hexByte)).utf8ByteSize = 4
  rw [String.utf8ByteSize_ofList]
  simp only [List.flatMap_cons, List.flatMap_nil, List.append_nil, String.utf8Len_append, hbyte]

/-- What is found after the long call: the short line only. -/
theorem loadEntries_longLog {n m : Nat} (hlong : maxAuditLineSize < n + m)
    (hfits : n + m ≤ 2 * maxAuditLineSize) (bs : List UInt8) :
    let hash := shortDigests.encodeHashHex (shortDigests.sha256 bs)
    plainTexts.loadEntries (some (shortLog.lines ++ [.entry (longEntry n m hash)])) =
      .ok (plainTexts.readEntries shortLog.lines) := by
  intro hash
  have hlen := len_longEntry n m hash
  have hhash : hash.utf8ByteSize = 4 := utf8ByteSize_shortHash bs
  have hbase : plainTexts.len (.entry (longEntry 0 0 "")) ≤ 1000 := by decide +kernel
  have hshort : plainTexts.fileLen shortLog.lines ≤ 1000 := by decide +kernel
  have hlimit : maxAuditLogSize = 100 * maxAuditLineSize := rfl
  have hline : maxAuditLineSize = 1048576 := rfl
  have hsize : ¬maxAuditLogSize < plainTexts.fileLen (shortLog.lines ++ [.entry (longEntry n m hash)]) := by
    rw [fileLen_append]
    have hone : plainTexts.fileLen [.entry (longEntry n m hash)] =
        plainTexts.len (.entry (longEntry n m hash)) + 1 := by simp [Texts.fileLen]
    omega
  have hskipped : plainTexts.readEntries [.entry (longEntry n m hash)] = [] := by
    have hover : maxAuditLineSize < plainTexts.len (.entry (longEntry n m hash)) := by omega
    simp [Texts.readEntries, hover]
  rw [Texts.loadEntries, if_neg hsize, readEntries_append, hskipped, List.append_nil]

/-- Without a tree a restart succeeds if the log can be read and walked over. -/
theorem restart_bare {env : Env H T} {cfg : Config} {disk : Disk T} {entries : List AuditEntry}
    {v : ChainVerification} (htree : cfg.merkle = none)
    (hload : env.texts.loadEntries disk.log = .ok entries) (hne : entries ≠ [])
    (hverify : verifyEntries env.digests env.canonical entries = .ok v) :
    ∃ s, restart env cfg disk = (.ok (), s) ∧ s.merkleTree = none := by
  have hnone : (AuditLogger.new cfg disk : AuditLogger H T).merkleTree = none := by
    rw [AuditLogger.new, htree]
    rfl
  rw [restart_cons hload hne hverify]
  simp only [AuditLogger.restoreTree, merkleTree_restoreHead, hnone]
  exact ⟨_, rfl, rfl⟩

/-- After the restart the number of the long line is given out again. -/
theorem longLine_run {n m : Nat} (hlong : maxAuditLineSize < n + m) (hn : n ≤ 999998)
    (hm : m ≤ 65000) :
    ∃ s w, run (historyStep (plainEnv shortDigests) bareConfig) (AuditLogger.new bareConfig Disk.empty, [])
        [.log (plainCall "1" "30" none), .log (longCall n m), .restart,
          .log (plainCall "3" "32" none)] = some (s, w) ∧
      w.map (·.sequence) = [0, 1, 1] := by
  let env := plainEnv shortDigests
  have hfits : n + m ≤ 2 * maxAuditLineSize := by
    have hline : maxAuditLineSize = 1048576 := rfl
    omega
  -- the short line
  have hfirst : okStep env bareConfig (AuditLogger.new bareConfig Disk.empty) (plainCall "1" "30" none) =
      some shortLog := by decide +kernel
  obtain ⟨e₁, hstep₁, hseq₁⟩ := historyStep_log hfirst []
  -- the long line
  obtain ⟨bs, hhash⟩ : ∃ bs, computeEntryHash env.digests env.canonical
      (nextEntry env (longCall n m).io (longCall n m).req shortLog) =
        .ok (shortDigests.encodeHashHex (shortDigests.sha256 bs)) := ⟨_, rfl⟩
  have hsecond : okStep env bareConfig shortLog (longCall n m) = some _ :=
    okStep_bare rfl (by decide +kernel) (validateRequest_longCall hn hm) rfl rfl hhash
  obtain ⟨e₂, hstep₂, hseq₂⟩ := historyStep_log hsecond ([] ++ [e₁])
  -- the restart
  generalize hs₂ : AuditLogger.advance (shortLog.writeLine env (hashedEntry env (longCall n m).io
    (longCall n m).req shortLog (shortDigests.encodeHashHex (shortDigests.sha256 bs)))) = s₂ at hsecond hstep₂
  have hload : plainTexts.loadEntries s₂.disk.log = .ok (plainTexts.readEntries shortLog.lines) := by
    rw [← hs₂]
    exact loadEntries_longLog hlong hfits bs
  have hverify : verifyEntries shortDigests plainCanonical (plainTexts.readEntries shortLog.lines) =
      .ok ⟨true, 1, none⟩ := by decide +kernel
  obtain ⟨s₃, hrestart, htree⟩ : ∃ s, restart env bareConfig s₂.disk = (.ok (), s) ∧
      s.merkleTree = none := restart_bare rfl hload (by decide +kernel) hverify
  obtain ⟨entries, hload', hgs⟩ := globalSequence_restart hrestart
  obtain rfl := Except.ok.inj (hload.symm.trans hload')
  have hmanifest : s₂.disk.manifest = none := by
    have hnone : shortLog.disk.manifest = none := by decide +kernel
    rw [← hs₂]
    exact hnone
  have hcounter : s₃.globalSequence = 1 := by
    rw [hgs, recoveredSequence, hmanifest]
    decide +kernel
  -- the next line
  have hthird : okStep env bareConfig s₃ (plainCall "3" "32" none) = some _ :=
    okStep_bare rfl htree (by decide +kernel) rfl rfl rfl
  obtain ⟨e₃, hstep₃, hseq₃⟩ := historyStep_log hthird ([] ++ [e₁] ++ [e₂])
  have hclean : historyStep env bareConfig (s₂, [] ++ [e₁] ++ [e₂]) .restart =
      some (s₃, [] ++ [e₁] ++ [e₂]) := by
    rw [historyStep, cleanStep]
    simp only [hrestart, Option.map_some]
  refine ⟨_, _, run_cons_eq_some.mpr ⟨_, hstep₁, run_cons_eq_some.mpr ⟨_, hstep₂,
    run_cons_eq_some.mpr ⟨_, hclean, run_cons_eq_some.mpr ⟨_, hstep₃, rfl⟩⟩⟩⟩, ?_⟩
  have hone : shortLog.globalSequence = 1 := by decide +kernel
  rw [hone] at hseq₂
  rw [hcounter] at hseq₃
  simp only [List.map_append, List.map_cons, List.map_nil, hseq₁, hseq₂, hseq₃]
  rfl

/-- **A line that is not found again.**  Parameters and metadata are each within their limits, but the
    line of the second entry is longer than what is read; the restart takes the first entry for the
    last one. -/
theorem longLine_reuses_sequence :
    ∃ s w, run (historyStep (plainEnv shortDigests) bareConfig) (AuditLogger.new bareConfig Disk.empty, [])
        [.log (plainCall "1" "30" none), .log (longCall 999998 65000), .restart,
          .log (plainCall "3" "32" none)] = some (s, w) ∧
      w.length < 2 ^ 64 - 1 ∧ ¬w.Pairwise fun a b => a.sequence < b.sequence := by
  obtain ⟨s, w, hrun, hseq⟩ := longLine_run (n := 999998) (m := 65000) (by decide) (by decide) (by decide)
  refine ⟨s, w, hrun, ?_, fun hpair => ?_⟩
  · have hlen := congrArg List.length hseq
    simp only [List.length_map, List.length_cons, List.length_nil] at hlen
    omega
  · have hmap : (w.map (·.sequence)).Pairwise (· < ·) := List.pairwise_map.mpr hpair
    rw [hseq] at hmap
    revert hmap
    decide

end Vellaveto.Audit
