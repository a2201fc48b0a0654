/-
  ROTATION of the audit log and the restart after it (`maybe_rotate`, `rotated_path`,
  `prune_rotated_files`, `initialize_chain` and `recover_max_sequence` of
  `vellaveto-audit/src/rotation.rs`).

  PROGRAM.      A log that has reached its size is renamed, its leaf file after it, the tree is reset,
                and a line about the file goes to the manifest; old files are pruned.  The caller resets
                the chain head.  Every access to the file system can fail (`RotationIo`); an access that
                fails changes nothing.

  At a restart the sequence counter is set past the highest number that the active log and the
  manifest know of; chain head and tree are restored only if there are entries.

  CORRECTNESS.
    1. `maybeRotate_cases`    everything `maybe_rotate` can do;
    2. `restart_eq_ok`        what a restart restores.
-/
import Vellaveto.Audit.Files

namespace Vellaveto.Audit

open Vellaveto.Lib

variable {H T : Type}

def maxRotatedFiles : Nat := 100
def domainRotationManifest : String := "vellaveto/rotation-manifest/v1"

/-! ## One rotation -/

/-- What the file system, the clock and the generator of UUIDs give to one call: for each access the
    text of its error, if it fails. -/
structure RotationIo where
  metadata : Option String
  load : Option String
  rename : Option String
  leafRename : Option String
  manifestRead : Option String
  manifestAppend : Option String
  /-- the time of the rotation, to the second -/
  stamp : String
  uuid : String
  timestamp : String
  /-- the directory can be listed, and what is known of each file in it -/
  listed : Bool
  modified : String → Nat
  removable : String → Bool
  leavesRemovable : String → Bool

/-- What `maybe_rotate` finds before it changes anything. -/
inductive RotationCheck where
  | fail (error : AuditError)
  | skip
  | rotate (entries : List AuditEntry) (tailHash : String)

def RotationCheck.rotates : RotationCheck → Bool
  | .rotate _ _ => true
  | _ => false

/-- `maybe_rotate`, up to the renaming of the log. -/
def checkRotation (env : Env H T) (cfg : Config) (io : RotationIo) (log : Option (List T)) :
    RotationCheck :=
  if cfg.maxFileSize = 0 then .skip
  else
    match io.metadata with
    | some message => .fail (.io message)
    | none =>
      match log with
      | none => .skip
      | some lines =>
        if env.texts.fileLen lines < cfg.maxFileSize then .skip
        else
          match io.load with
          | some _ => .skip
          | none =>
            match env.texts.loadEntries (some lines) with
            | .error _ => .skip
            | .ok entries =>
              match entries.getLast? with
              | none => .rotate entries ""
              | some last =>
                match last.entryHash with
                | some hash => .rotate entries hash
                | none => .skip

/-- A number with ten digits: `{seq:010}`. -/
def tenDigits (n : Nat) : String :=
  let digits := toString n
  String.ofList (List.replicate (10 - digits.length) '0') ++ digits

/-- `rotated_path`. -/
def rotatedPath (cfg : Config) (io : RotationIo) (globalSequence : Nat)
    (rotated : List (String × List T)) : String :=
  let candidate := cfg.stem ++ "." ++ io.stamp ++ "-" ++ tenDigits globalSequence ++ cfg.extension
  if candidate ∈ rotated.map (·.1) then cfg.stem ++ "." ++ io.stamp ++ "-" ++ io.uuid ++ cfg.extension
  else candidate

/-- The log is renamed; a file of that name is replaced. -/
def Disk.renameLog (disk : Disk T) (name : String) : Disk T :=
  match disk.log with
  | none => disk
  | some lines =>
    { disk with
      log := none
      rotated := (disk.rotated.filter fun f => f.1 ≠ name) ++ [(name, lines)] }

/-- The leaf file is renamed after the log.  The new name is made from the stem of the log's new name:
    without an extension that stem is the old one, and the file keeps its name. -/
def Disk.renameLeaves (cfg : Config) (disk : Disk T) (name : String) : Disk T :=
  if cfg.extension = "" then disk
  else
    match disk.leaves with
    | none => disk
    | some bytes =>
      { disk with
        leaves := none
        rotatedLeaves := (disk.rotatedLeaves.filter fun f => f.1 ≠ name) ++ [(name, bytes)] }

/-- The renaming of both files, and the reset of the tree. -/
def AuditLogger.renameAway (cfg : Config) (io : RotationIo) (s : AuditLogger H T) (name : String) :
    AuditLogger H T :=
  let disk := s.disk.renameLog name
  match s.merkleTree with
  | none => { s with disk := disk }
  | some tree =>
    { s with
      disk := if io.leafRename.isSome then disk else disk.renameLeaves cfg name
      merkleTree := some tree.reset }

/-! ### The manifest -/

/-- The last line of the manifest that is not blank. -/
def Texts.lastLine (texts : Texts T) (manifest : Option (List T)) : Option T :=
  (manifest.getD []).reverse.find? fun line => !texts.blank line

/-- The hash of a manifest line. -/
def Env.lineHash (env : Env H T) (line : T) : String :=
  env.digests.encodeHashHex (env.digests.sha256 (env.texts.bytes line))

/-- `previous_hash` of the next manifest entry. -/
def Env.previousHash (env : Env H T) (manifest : Option (List T)) : String :=
  ((env.texts.lastLine manifest).map env.lineHash).getD "genesis"

/-- `manifest_digest`. -/
def Digests.manifestDigest (d : Digests H) (canonical : List UInt8) (domainSeparated : Bool) : H :=
  if domainSeparated then d.sha256 (lengthPrefixed (strBytes domainRotationManifest) ++ canonical)
  else d.sha256 canonical

/-- The highest sequence number of some entries, 0 if there are none. -/
def maxSequence (entries : List AuditEntry) : Nat := (entries.map (·.sequence)).foldl max 0

theorem foldl_max_ge (xs : List Nat) (start : Nat) :
    start ≤ xs.foldl max start ∧ ∀ x ∈ xs, x ≤ xs.foldl max start := by
  induction xs generalizing start with
  | nil => exact ⟨Nat.le_refl _, fun x hx => by cases hx⟩
  | cons y ys ih =>
    obtain ⟨hstart, hall⟩ := ih (max start y)
    rw [List.foldl_cons]
    refine ⟨by omega, fun x hx => ?_⟩
    rcases List.mem_cons.mp hx with rfl | hx
    · omega
    · exact hall x hx

theorem foldl_max_le {xs : List Nat} {start bound : Nat} (hstart : start ≤ bound)
    (hall : ∀ x ∈ xs, x ≤ bound) : xs.foldl max start ≤ bound := by
  induction xs generalizing start with
  | nil => exact hstart
  | cons x xs ih =>
    have hx := hall x List.mem_cons_self
    rw [List.foldl_cons]
    exact ih (by omega) fun y hy => hall y (List.mem_cons_of_mem x hy)

theorem sequence_le_maxSequence {entries : List AuditEntry} {e : AuditEntry} (he : e ∈ entries) :
    e.sequence ≤ maxSequence entries :=
  (foldl_max_ge _ 0).2 _ (List.mem_map_of_mem he)

theorem maxSequence_le {entries : List AuditEntry} {bound : Nat}
    (h : ∀ e ∈ entries, e.sequence ≤ bound) : maxSequence entries ≤ bound := by
  refine foldl_max_le (Nat.zero_le _) fun x hx => ?_
  obtain ⟨e, he, rfl⟩ := List.mem_map.mp hx
  exact h e he

/-- The manifest entry of a rotation. -/
def manifestEntry (env : Env H T) (io : RotationIo) (name : String) (entries : List AuditEntry)
    (tailHash : String) (manifest : Option (List T)) : ManifestEntry where
  timestamp := io.timestamp
  rotatedFile := name
  tailHash := tailHash
  startHash := (entries.head?.bind (·.prevHash)).getD ""
  entryCount := entries.length
  maxSequence := maxSequence entries
  previousHash := env.previousHash manifest

/-- The signature of a manifest entry and the key, in hex. -/
def signManifest (env : Env H T) (key : Signer) (canonical : List UInt8) : String × String :=
  (hexEncode (key.sign (env.digests.bytes (env.digests.manifestDigest canonical true))),
    hexEncode key.verifyingKey)

/-- The line of a manifest entry. -/
def manifestLine (env : Env H T) (cfg : Config) (m : ManifestEntry) : Except AuditError T :=
  match env.canonical.json (m.toJson none) with
  | .error e => .error e
  | .ok canonical =>
    .ok (env.texts.jsonLine (m.toJson (cfg.signingKey.map fun key => signManifest env key canonical)))

def Disk.appendManifest (disk : Disk T) (line : T) : Disk T :=
  { disk with manifest := some (disk.manifest.getD [] ++ [line]) }

/-! ### Pruning -/

/-- The rotated files that are removed: the oldest ones beyond the limit. -/
def pruneVictims (io : RotationIo) (disk : Disk T) : List String :=
  let names := (disk.rotated.map (·.1)).mergeSort fun a b => strLe a.toList b.toList
  let byAge := names.mergeSort fun a b => io.modified a ≤ io.modified b
  (byAge.take (disk.rotated.length - maxRotatedFiles)).filter io.removable

/-- `prune_rotated_files`.  The leaf file of a rotated log without an extension is the active one. -/
def Disk.prune (cfg : Config) (io : RotationIo) (disk : Disk T) : Disk T :=
  if !io.listed then disk
  else
    let victims := pruneVictims io disk
    let withLeaves := victims.filter io.leavesRemovable
    { disk with
      rotated := disk.rotated.filter fun f => f.1 ∉ victims
      leaves := if cfg.extension = "" ∧ withLeaves ≠ [] then none else disk.leaves
      rotatedLeaves :=
        if cfg.extension = "" then disk.rotatedLeaves
        else disk.rotatedLeaves.filter fun f => f.1 ∉ withLeaves }

/-! ### The whole rotation -/

/-- `maybe_rotate`, from the renaming of the log on. -/
def performRotation (env : Env H T) (cfg : Config) (io : RotationIo) (entries : List AuditEntry)
    (tailHash : String) (s : AuditLogger H T) : Except AuditError Bool × AuditLogger H T :=
  let name := rotatedPath cfg io s.globalSequence s.disk.rotated
  match io.rename with
  | some message => (.error (.io message), s)
  | none =>
    let s := s.renameAway cfg io name
    match io.manifestRead with
    | some message => (.error (.io message), s)
    | none =>
      match manifestLine env cfg (manifestEntry env io name entries tailHash s.disk.manifest) with
      | .error e => (.error e, s)
      | .ok line =>
        match io.manifestAppend with
        | some message => (.error (.io message), s)
        | none => (.ok true, { s with disk := (s.disk.appendManifest line).prune cfg io })

/-- `maybe_rotate`. -/
def maybeRotate (env : Env H T) (cfg : Config) (io : RotationIo) (s : AuditLogger H T) :
    Except AuditError Bool × AuditLogger H T :=
  match checkRotation env cfg io s.disk.log with
  | .fail e => (.error e, s)
  | .skip => (.ok false, s)
  | .rotate entries tailHash => performRotation env cfg io entries tailHash s

section Cases

variable {env : Env H T} {cfg : Config} {io : RotationIo} {s s' : AuditLogger H T}

/-- The file that the next rotation makes. -/
def AuditLogger.rotatedName (s : AuditLogger H T) (cfg : Config) (io : RotationIo) : String :=
  rotatedPath cfg io s.globalSequence s.disk.rotated

/-- The line that a rotation adds to the manifest. -/
def AuditLogger.rotationLine (s : AuditLogger H T) (env : Env H T) (cfg : Config) (io : RotationIo)
    (entries : List AuditEntry) (tailHash : String) : Except AuditError T :=
  manifestLine env cfg
    (manifestEntry env io (s.rotatedName cfg io) entries tailHash s.disk.manifest)

/-- The disk and the tree after a rotation; the chain head is the caller's. -/
def AuditLogger.rotated (s : AuditLogger H T) (cfg : Config) (io : RotationIo) (line : T) :
    AuditLogger H T :=
  let s' := s.renameAway cfg io (s.rotatedName cfg io)
  { s' with disk := (s'.disk.appendManifest line).prune cfg io }

theorem manifest_renameLog (disk : Disk T) (name : String) :
    (disk.renameLog name).manifest = disk.manifest := by
  rw [Disk.renameLog]
  split <;> rfl

theorem manifest_renameLeaves (disk : Disk T) (name : String) :
    (disk.renameLeaves cfg name).manifest = disk.manifest := by
  rw [Disk.renameLeaves]
  split
  · rfl
  · split <;> rfl

@[simp] theorem manifest_renameAway (name : String) :
    (s.renameAway cfg io name).disk.manifest = s.disk.manifest := by
  rw [AuditLogger.renameAway]
  cases s.merkleTree with
  | none => exact manifest_renameLog _ _
  | some tree =>
    show (if io.leafRename.isSome then _ else _ : Disk T).manifest = _
    split
    · exact manifest_renameLog _ _
    · exact (manifest_renameLeaves _ _).trans (manifest_renameLog _ _)

/-- The files after a rotation are old ones and the one it made. -/
theorem mem_rotated_renameLog {disk : Disk T} {name : String} {f : String × List T}
    (hf : f ∈ (disk.renameLog name).rotated) : f ∈ disk.rotated ∨ f.1 = name := by
  rw [Disk.renameLog] at hf
  split at hf
  · exact .inl hf
  · rcases List.mem_append.mp hf with hold | hnew
    · exact .inl (List.mem_filter.mp hold).1
    · rw [List.mem_singleton] at hnew
      exact .inr (hnew ▸ rfl)

theorem rotated_renameLeaves (disk : Disk T) (name : String) :
    (disk.renameLeaves cfg name).rotated = disk.rotated := by
  rw [Disk.renameLeaves]
  split
  · rfl
  · split <;> rfl

theorem rotated_renameAway (name : String) :
    (s.renameAway cfg io name).disk.rotated = (s.disk.renameLog name).rotated := by
  rw [AuditLogger.renameAway]
  cases s.merkleTree with
  | none => rfl
  | some tree =>
    show (if io.leafRename.isSome then _ else _ : Disk T).rotated = _
    split
    · rfl
    · exact rotated_renameLeaves _ _

theorem manifest_prune (disk : Disk T) : (disk.prune cfg io).manifest = disk.manifest := by
  rw [Disk.prune]
  split <;> rfl

theorem rotated_prune_sublist (disk : Disk T) : (disk.prune cfg io).rotated.Sublist disk.rotated := by
  rw [Disk.prune]
  split
  · exact List.Sublist.refl _
  · exact List.filter_sublist

theorem manifest_rotated (line : T) :
    (s.rotated cfg io line).disk.manifest = some (s.disk.manifest.getD [] ++ [line]) := by
  rw [AuditLogger.rotated]
  dsimp only
  rw [manifest_prune, Disk.appendManifest, manifest_renameAway]

theorem mem_rotated_rotated {line : T} {f : String × List T}
    (hf : f ∈ (s.rotated cfg io line).disk.rotated) :
    f ∈ s.disk.rotated ∨ f.1 = s.rotatedName cfg io := by
  have hmem := (rotated_prune_sublist _).subset hf
  rw [Disk.appendManifest] at hmem
  dsimp only at hmem
  rw [rotated_renameAway] at hmem
  exact mem_rotated_renameLog hmem

/-- **Everything `maybe_rotate` can do**: leave all as it is, with or without an error; rename the
    files and fail; or rotate. -/
theorem maybeRotate_cases {r : Except AuditError Bool} (h : maybeRotate env cfg io s = (r, s')) :
    (s' = s ∧ (r = .ok false ∨ ∃ e, r = .error e ∧ (io.metadata.isSome ∨ io.rename.isSome))) ∨
    ∃ entries tailHash, checkRotation env cfg io s.disk.log = .rotate entries tailHash ∧
      io.rename = none ∧
      ((∃ e, r = .error e ∧ s' = s.renameAway cfg io (s.rotatedName cfg io)) ∨
        ∃ line, s.rotationLine env cfg io entries tailHash = .ok line ∧ r = .ok true ∧
          s' = s.rotated cfg io line) := by
  rw [maybeRotate] at h
  cases hcheck : checkRotation env cfg io s.disk.log with
  | fail e =>
    rw [hcheck] at h
    cases h
    refine .inl ⟨rfl, .inr ⟨e, rfl, .inl ?_⟩⟩
    -- only the lookup of the metadata fails
    unfold checkRotation at hcheck
    split at hcheck
    · cases hcheck
    cases hmeta : io.metadata with
    | some message => rfl
    | none =>
      rw [hmeta] at hcheck
      dsimp only at hcheck
      repeat' split at hcheck
      all_goals cases hcheck
  | skip =>
    rw [hcheck] at h
    cases h
    exact .inl ⟨rfl, .inl rfl⟩
  | rotate entries tailHash =>
    rw [hcheck] at h
    simp only [performRotation] at h
    cases hrename : io.rename with
    | some message =>
      rw [hrename] at h
      cases h
      exact .inl ⟨rfl, .inr ⟨_, rfl, .inr rfl⟩⟩
    | none =>
      rw [hrename] at h
      refine .inr ⟨entries, tailHash, rfl, rfl, ?_⟩
      cases hread : io.manifestRead with
      | some message =>
        rw [hread] at h
        cases h
        exact .inl ⟨_, rfl, rfl⟩
      | none =>
        rw [hread] at h
        simp only [manifest_renameAway] at h
        cases hline : s.rotationLine env cfg io entries tailHash with
        | error e =>
          rw [AuditLogger.rotationLine, AuditLogger.rotatedName] at hline
          rw [hline] at h
          cases h
          exact .inl ⟨_, rfl, rfl⟩
        | ok line =>
          rw [AuditLogger.rotationLine, AuditLogger.rotatedName] at hline
          rw [hline] at h
          cases happend : io.manifestAppend with
          | some message =>
            rw [happend] at h
            cases h
            exact .inl ⟨_, rfl, rfl⟩
          | none =>
            rw [happend] at h
            cases h
            exact .inr ⟨line, rfl, rfl, rfl⟩

/-- A log is rotated only if it is there, can be read, and its last entry has the tail hash. -/
theorem checkRotation_eq_rotate {log : Option (List T)} {entries : List AuditEntry} {tailHash : String}
    (h : checkRotation env cfg io log = .rotate entries tailHash) :
    io.metadata = none ∧ ∃ lines, log = some lines ∧ entries = env.texts.readEntries lines ∧
      cfg.maxFileSize ≤ env.texts.fileLen lines ∧ 0 < cfg.maxFileSize ∧
      env.texts.fileLen lines ≤ maxAuditLogSize ∧
      ((entries = [] ∧ tailHash = "") ∨
        ∃ last, entries.getLast? = some last ∧ last.entryHash = some tailHash) := by
  unfold checkRotation at h
  split at h
  · cases h
  rename_i hzero
  split at h
  · cases h
  rename_i hmeta
  refine ⟨hmeta, ?_⟩
  split at h
  · cases h
  rename_i lines
  split at h
  · cases h
  rename_i hfull
  split at h
  · cases h
  split at h
  · cases h
  · rename_i loaded hload
    rw [Texts.loadEntries] at hload
    split at hload
    · cases hload
    rename_i hsize
    cases hload
    refine ⟨lines, rfl, ?_⟩
    split at h
    · rename_i hnone
      cases h
      refine ⟨rfl, by omega, by omega, by omega, .inl ⟨?_, rfl⟩⟩
      exact List.getLast?_eq_none_iff.mp hnone
    · rename_i last hlast
      split at h
      · rename_i hash hhash
        cases h
        exact ⟨rfl, by omega, by omega, by omega, .inr ⟨last, hlast, hhash⟩⟩
      · cases h

end Cases

/-! ## Restart -/

/-- What one manifest line adds to the counters of `recover_max_sequence`. -/
def recoverLine (texts : Texts T) (acc : Nat × Nat) (line : T) : Nat × Nat :=
  if texts.blank line then acc
  else
    match texts.parseJson line with
    | .error _ => acc
    | .ok entry =>
      (saturatingAdd u64Max acc.1 (((entry.get "entry_count").bind Json.asU64).map UInt64.toNat |>.getD 0),
        max acc.2 (((entry.get "max_sequence").bind Json.asU64).map UInt64.toNat |>.getD 0))

/-- `recover_max_sequence`: the highest of three. -/
def recoverMaxSequence (texts : Texts T) (activeEntries : List AuditEntry)
    (manifest : Option (List T)) : Nat :=
  match manifest with
  | none => maxSequence activeEntries
  | some lines =>
    -- the total of the entry counts, and the highest recorded number
    let counters := lines.foldl (recoverLine texts) (0, 0)
    max (max (maxSequence activeEntries) counters.2) (counters.1 - 1)

def nextSequenceAfterRecovery (maxObservedSequence : Nat) : Nat :=
  saturatingAdd u64Max maxObservedSequence 1

/-- The chain head after a restart. -/
def AuditLogger.restoreHead (s : AuditLogger H T) (verification : ChainVerification)
    (entries : List AuditEntry) : AuditLogger H T :=
  if verification.valid then
    match entries.getLast? with
    | some last => { s with lastHash := last.entryHash, lastTimestamp := some last.timestamp }
    | none => s
  else s

/-- The tree after a restart. -/
def AuditLogger.restoreTree (env : Env H T) (s : AuditLogger H T) :
    Except AuditError Unit × AuditLogger H T :=
  match s.merkleTree with
  | none => (.ok (), s)
  | some tree =>
    match tree.initializeFrom env.digests s.disk.leaves with
    | .error e => (.error e, { s with merkleTree := some tree.reset })
    | .ok (tree, leaves) =>
      (.ok (), { s with merkleTree := some tree, disk := { s.disk with leaves := leaves } })

/-- `initialize_chain`. -/
def AuditLogger.initializeChain (env : Env H T) (s : AuditLogger H T) :
    Except AuditError Unit × AuditLogger H T :=
  match env.texts.loadEntries s.disk.log with
  | .error e => (.error e, s)
  | .ok entries =>
    let s := { s with
      globalSequence := nextSequenceAfterRecovery (recoverMaxSequence env.texts entries s.disk.manifest) }
    if entries.isEmpty then (.ok (), s)
    else
      match s.verifyChain env with
      | .error e => (.error e, s)
      | .ok verification =>
        { s.restoreHead verification entries with entryCount := entries.length }.restoreTree env

/-- A fresh logger on the directory, then `initialize_chain`. -/
def restart (env : Env H T) (cfg : Config) (disk : Disk T) : Except AuditError Unit × AuditLogger H T :=
  (AuditLogger.new cfg disk).initializeChain env

section Restart

variable {env : Env H T} {cfg : Config} {disk : Disk T} {s s' : AuditLogger H T}

/-- The tree is all that is restored here, and its file may be cut. -/
theorem restoreTree_eq_ok (h : s.restoreTree env = (.ok (), s')) :
    ∃ tree leaves, s' = { s with merkleTree := tree, disk := { s.disk with leaves := leaves } } := by
  rw [AuditLogger.restoreTree] at h
  split at h
  · cases h
    exact ⟨s.merkleTree, s.disk.leaves, rfl⟩
  · split at h
    · cases h
    · cases h
      exact ⟨_, _, rfl⟩

@[simp] theorem disk_restoreHead (verification : ChainVerification) (entries : List AuditEntry) :
    (s.restoreHead verification entries).disk = s.disk := by
  rw [AuditLogger.restoreHead]
  split
  · split <;> rfl
  · rfl

@[simp] theorem merkleTree_restoreHead (verification : ChainVerification)
    (entries : List AuditEntry) :
    (s.restoreHead verification entries).merkleTree = s.merkleTree := by
  rw [AuditLogger.restoreHead]
  split
  · split <;> rfl
  · rfl

/-- On disk a restart changes at most the leaf file. -/
theorem restart_disk {r : Except AuditError Unit} (h : restart env cfg disk = (r, s')) :
    ∃ leaves, s'.disk = { disk with leaves := leaves } := by
  rw [restart, AuditLogger.initializeChain] at h
  split at h
  · cases h
    exact ⟨_, rfl⟩
  dsimp only at h
  split at h
  · cases h
    exact ⟨_, rfl⟩
  split at h
  · cases h
    exact ⟨_, rfl⟩
  rw [AuditLogger.restoreTree] at h
  dsimp only at h
  split at h
  · cases h
    exact ⟨_, disk_restoreHead _ _⟩
  · split at h
    · cases h
      exact ⟨_, disk_restoreHead _ _⟩
    · cases h
      dsimp only
      rw [disk_restoreHead]
      exact ⟨_, rfl⟩

/-- The counter after a restart. -/
def recoveredSequence (env : Env H T) (disk : Disk T) (entries : List AuditEntry) : Nat :=
  nextSequenceAfterRecovery (recoverMaxSequence env.texts entries disk.manifest)

/-- The counter is past every number of the active log, unless it is at its end. -/
theorem lt_recoveredSequence {entries : List AuditEntry} {e : AuditEntry} (he : e ∈ entries)
    (hroom : e.sequence < u64Max) : e.sequence < recoveredSequence env disk entries := by
  have hmax := sequence_le_maxSequence he
  have hle : maxSequence entries ≤ recoverMaxSequence env.texts entries disk.manifest := by
    unfold recoverMaxSequence
    split
    · exact Nat.le_refl _
    · dsimp only
      omega
  rw [recoveredSequence, nextSequenceAfterRecovery, saturatingAdd]
  omega

theorem recoveredSequence_le (entries : List AuditEntry) :
    recoveredSequence env disk entries ≤ u64Max := Nat.min_le_right _ _

/-- A restart on a log without entries. -/
theorem restart_nil (hload : env.texts.loadEntries disk.log = .ok []) :
    restart env cfg disk =
      (.ok (), { AuditLogger.new cfg disk with globalSequence := recoveredSequence env disk [] }) := by
  have hnew : (AuditLogger.new cfg disk : AuditLogger H T).disk.log = disk.log := rfl
  rw [restart, AuditLogger.initializeChain, hnew, hload]
  rfl

/-- A restart on a log with entries that can be walked over. -/
theorem restart_cons {entries : List AuditEntry} (hload : env.texts.loadEntries disk.log = .ok entries)
    (hne : entries ≠ []) {verification : ChainVerification}
    (hverify : verifyEntries env.digests env.canonical entries = .ok verification) :
    restart env cfg disk =
      AuditLogger.restoreTree env
        { (AuditLogger.new cfg disk).restoreHead verification entries with
          globalSequence := recoveredSequence env disk entries
          entryCount := entries.length } := by
  have hempty : entries.isEmpty = false := by simpa using hne
  have hnew : (AuditLogger.new cfg disk : AuditLogger H T).disk.log = disk.log := rfl
  rw [restart, AuditLogger.initializeChain, hnew, hload]
  simp only [hempty, Bool.false_eq_true, if_false, AuditLogger.verifyChain, hnew, hload, hverify]
  congr 1
  simp only [AuditLogger.restoreHead]
  split
  · cases entries.getLast? <;> rfl
  · rfl

/-- **What a restart restores**: from a log without entries only the counter, from a log with entries
    the head if the log is accepted, the counters and the tree. -/
theorem restart_eq_ok (hstart : restart env cfg disk = (.ok (), s')) :
    ∃ entries, env.texts.loadEntries disk.log = .ok entries ∧
      ((entries = [] ∧
          s' = { AuditLogger.new cfg disk with globalSequence := recoveredSequence env disk [] }) ∨
        (entries ≠ [] ∧ ∃ verification,
          verifyEntries env.digests env.canonical entries = .ok verification ∧
          AuditLogger.restoreTree env
            { (AuditLogger.new cfg disk).restoreHead verification entries with
              globalSequence := recoveredSequence env disk entries
              entryCount := entries.length } = (.ok (), s'))) := by
  have hnew : (AuditLogger.new cfg disk : AuditLogger H T).disk.log = disk.log := rfl
  have h := hstart
  rw [restart, AuditLogger.initializeChain, hnew] at h
  split at h
  · cases h
  rename_i entries hload
  refine ⟨entries, hload, ?_⟩
  by_cases hne : entries = []
  · subst hne
    rw [restart_nil hload] at hstart
    exact .inl ⟨rfl, (Prod.mk.inj hstart).2.symm⟩
  refine .inr ⟨hne, ?_⟩
  cases hverify : verifyEntries env.digests env.canonical entries with
  | ok verification =>
    rw [restart_cons hload hne hverify] at hstart
    exact ⟨verification, rfl, hstart⟩
  | error e =>
    have hempty : entries.isEmpty = false := by simpa using hne
    simp only [hempty, Bool.false_eq_true, if_false, AuditLogger.verifyChain, hnew, hload,
      hverify] at h
    cases h

/-- The counter of a restarted logger. -/
theorem globalSequence_restart (h : restart env cfg disk = (.ok (), s')) :
    ∃ entries, env.texts.loadEntries disk.log = .ok entries ∧
      s'.globalSequence = recoveredSequence env disk entries := by
  obtain ⟨entries, hload, ⟨rfl, rfl⟩ | ⟨-, v, -, htree⟩⟩ := restart_eq_ok h
  · exact ⟨[], hload, rfl⟩
  · obtain ⟨tree, leaves, rfl⟩ := restoreTree_eq_ok htree
    exact ⟨entries, hload, rfl⟩

end Restart

/-- A file system without faults. -/
def plainRotationIo : RotationIo where
  metadata := none
  load := none
  rename := none
  leafRename := none
  manifestRead := none
  manifestAppend := none
  stamp := "2026-01-01T00-00-00"
  uuid := "u"
  timestamp := "2026-01-01T00:00:00+00:00"
  listed := true
  modified _ := 0
  removable _ := true
  leavesRemovable _ := true

end Vellaveto.Audit
