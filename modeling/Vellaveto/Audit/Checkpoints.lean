/-
  CHECKPOINTS of the audit log (`vellaveto-audit/src/checkpoints.rs`, `Checkpoint` of `types.rs`).

  PROGRAM.      `create_checkpoint` signs the number of entries in the active log and the hash of the
                last one, and appends them to the checkpoint file.  `verify_checkpoints` walks over the
                hashes of the active log, and then over the checkpoints: their counts do not go down,
                they have one key, the signature holds, and entry number `entry_count` of the log has
                the recorded hash.  The model is of a build without `pqc-hybrid`.

  SPEC.         The checkpoints of a log that nobody has tampered with are valid.

  CORRECTNESS.  A rotation leaves the checkpoint file where it is, but not the log it speaks about.
    1. `hashWalk_of_hashChain`            the log of the logger is one chain of hashes;
    2. `Recorded`                         what a checkpoint has to do with the log: it stays true as the
                                          log grows;
    3. `verifyCheckpoints_valid`          checkpoints that are recorded are valid;
    4. `checkpoints_verify`               so they are in every run that does not rotate a log of which
                                          there is a checkpoint;
    5. `rotation_invalidates_checkpoint`  one checkpoint and one rotation.
-/
import Vellaveto.Audit.CleanRun

namespace Vellaveto.Audit

open Vellaveto.Lib

variable {H T : Type}

def domainCheckpoint : String := "vellaveto/checkpoint/v1"
def maxCheckpointFileSize : Nat := 10 * 1024 * 1024
def maxCheckpointLineSize : Nat := 64 * 1024

/-! ## Signing -/

/-- `signing_content_internal`. -/
def Digests.signingContent (d : Digests H) (cp : Checkpoint)
    (bindSignatureVersion domainSeparated : Bool) : List UInt8 :=
  d.bytes (d.sha256 (
    (if domainSeparated then lengthPrefixed (strBytes domainCheckpoint) else []) ++
    lengthPrefixed (strBytes cp.id) ++ lengthPrefixed (strBytes cp.timestamp) ++
    lengthPrefixed (toLeBytes cp.entryCount) ++
    lengthPrefixed (strBytes (cp.chainHeadHash.getD "")) ++
    lengthPrefixed (strBytes (cp.merkleRoot.getD "")) ++
    (if bindSignatureVersion then lengthPrefixed [UInt8.ofNat (cp.signatureVersion.getD 1)] else []) ++
    (if 2 ≤ cp.signatureVersion.getD 1 then lengthPrefixed (strBytes (cp.pqcVerifyingKey.getD ""))
      else [])))

/-- The clock and the generator of UUIDs, and the text of the error if the file cannot be written. -/
structure CheckpointIo where
  id : String
  timestamp : String
  append : Option String

/-- The checkpoint of some entries, before it is signed. -/
def unsignedCheckpoint (env : Env H T) (key : Signer) (io : CheckpointIo) (tree : Option (MerkleTree H))
    (entries : List AuditEntry) : Checkpoint where
  id := io.id
  timestamp := io.timestamp
  entryCount := entries.length
  chainHeadHash := entries.getLast?.bind (·.entryHash)
  signature := ""
  verifyingKey := hexEncode key.verifyingKey
  merkleRoot := tree.bind fun t => t.rootHex env.digests
  pqcSignature := none
  pqcVerifyingKey := none
  signatureVersion := none

/-- The checkpoint with its signature, which does not cover itself. -/
def signedCheckpoint (env : Env H T) (key : Signer) (cp : Checkpoint) : Checkpoint :=
  { cp with signature := hexEncode (key.sign (env.digests.signingContent cp true true)) }

def Disk.appendCheckpoint (texts : Texts T) (disk : Disk T) (cp : Checkpoint) : Disk T :=
  { disk with checkpoints := some (disk.checkpoints.getD [] ++ [texts.checkpointLine cp]) }

/-- `create_checkpoint`. -/
def createCheckpoint (env : Env H T) (cfg : Config) (io : CheckpointIo) (s : AuditLogger H T) :
    Except AuditError Checkpoint × AuditLogger H T :=
  match cfg.signingKey with
  | none => (.error (.validation "No signing key configured for checkpoints"), s)
  | some key =>
    match env.texts.loadEntries s.disk.log with
    | .error e => (.error e, s)
    | .ok entries =>
      let cp := signedCheckpoint env key (unsignedCheckpoint env key io s.merkleTree entries)
      match io.append with
      | some message => (.error (.io message), s)
      | none => (.ok cp, { s with disk := s.disk.appendCheckpoint env.texts cp })

/-! ## Verification -/

/-- The checkpoints that are read: blank, oversized and corrupt lines are skipped. -/
def Texts.readCheckpoints (texts : Texts T) (lines : List T) : List Checkpoint :=
  lines.filterMap fun line =>
    if texts.blank line || maxCheckpointLineSize < texts.len line then none
    else texts.parseCheckpoint line

/-- `load_checkpoints`. -/
def Texts.loadCheckpoints (texts : Texts T) (file : Option (List T)) :
    Except AuditError (List Checkpoint) :=
  match file with
  | none => .ok []
  | some lines =>
    if maxCheckpointFileSize < texts.fileLen lines then
      .error (.io ("Checkpoint file too large (" ++ toString (texts.fileLen lines) ++ " bytes, max " ++
        toString maxCheckpointFileSize ++ " bytes)"))
    else .ok (texts.readCheckpoints lines)

/-- The walk over the hashes of the log, from entry `i` on: the reason if the chain is broken. -/
def hashWalk (d : Digests H) (c : Canonical) (i : Nat) (prevHash : Option String)
    (seenHashedEntry : Bool) : List AuditEntry → Except AuditError (Option String)
  | [] => .ok none
  | entry :: rest =>
    match entry.entryHash with
    | none =>
      if seenHashedEntry then
        .ok (some ("Hash chain broken: entry " ++ toString i ++ " missing hash after hashed entries"))
      else hashWalk d c (i + 1) none seenHashedEntry rest
    | some hash =>
      if entry.prevHash ≠ prevHash then
        .ok (some ("Hash chain broken at entry " ++ toString i ++
          ": prev_hash mismatch (middle deletion detected)"))
      else
        match computeEntryHash d c entry with
        | .error e => .error e
        | .ok computed =>
          if hash ≠ computed then
            .ok (some ("Hash chain broken at entry " ++ toString i ++
              ": entry_hash mismatch (tampering detected)"))
          else hashWalk d c (i + 1) (some hash) true rest

/-- A verifying key in hex. -/
def Ed25519.decodeKey (ed : Ed25519) (verifyingKey : String) : Except AuditError (List UInt8) :=
  match hexDecode verifyingKey with
  | .error e => .error (.validation ("Invalid verifying key hex: " ++ e.display))
  | .ok bytes =>
    if bytes.length ≠ 32 then .error (.validation "Verifying key must be 32 bytes")
    else
      match ed.keyError bytes with
      | some e => .error (.validation ("Invalid verifying key: " ++ e))
      | none => .ok bytes

/-- A signature in hex. -/
def decodeSignature (signature : String) : Except AuditError (List UInt8) :=
  match hexDecode signature with
  | .error e => .error (.validation ("Invalid signature hex: " ++ e.display))
  | .ok bytes =>
    if bytes.length ≠ 64 then .error (.validation "Signature must be 64 bytes") else .ok bytes

/-- The signature of a checkpoint, in the form of today or in one of the two older ones. -/
def signatureHolds (d : Digests H) (ed : Ed25519) (cp : Checkpoint) (key signature : List UInt8) :
    Bool :=
  ed.verify key (d.signingContent cp true true) signature ||
    ed.verify key (d.signingContent cp true false) signature ||
    (cp.signatureVersion.getD 1 ≤ 1 && ed.verify key (d.signingContent cp false false) signature)

/-- Without `pqc-hybrid` a checkpoint of version 2 is rejected, for one reason or another. -/
def pqcFault (establishedPqcKey : Option String) (cp : Checkpoint) : Option String :=
  if cp.signatureVersion.getD 1 < 2 then none
  else
    match cp.pqcVerifyingKey with
    | none => some "v2 checkpoint missing PQC verifying key"
    | some pqcKey =>
      if establishedPqcKey.any (· ≠ pqcKey) then
        some "PQC verifying key changed between checkpoints (key continuity violated)"
      else some "v2 checkpoint requires pqc-hybrid feature to verify"

/-- The recorded head against the log. -/
def headFault (entries : List AuditEntry) (cp : Checkpoint) : Option String :=
  if 0 < cp.entryCount ∧ cp.entryCount ≤ entries.length then
    if cp.chainHeadHash ≠ entries[cp.entryCount - 1]?.bind (·.entryHash) then
      some ("Chain head hash mismatch at entry " ++ toString cp.entryCount)
    else none
  else if cp.entryCount = 0 ∧ cp.chainHeadHash.isSome then
    some "Chain head hash should be None for empty log"
  else if entries.length < cp.entryCount then
    some ("Audit log truncated: checkpoint references " ++ toString cp.entryCount ++
      " entries but log has only " ++ toString entries.length)
  else none

/-- One checkpoint against the log: the reason if it is invalid.  `establishedKey` is the pinned key or
    the key of the first checkpoint. -/
def checkpointFault (d : Digests H) (ed : Ed25519) (trustedPqcKey : Option String)
    (entries : List AuditEntry) (prevEntryCount : Nat) (establishedKey : Option String)
    (cp : Checkpoint) : Except AuditError (Option String) :=
  if cp.entryCount < prevEntryCount then
    .ok (some ("Entry count decreased from " ++ toString prevEntryCount ++ " to " ++
      toString cp.entryCount))
  else if establishedKey.any (· ≠ cp.verifyingKey) then
    .ok (some "Verifying key changed between checkpoints (key continuity violated)")
  else
    match ed.decodeKey cp.verifyingKey with
    | .error e => .error e
    | .ok key =>
      match decodeSignature cp.signature with
      | .error e => .error e
      | .ok signature =>
        if !signatureHolds d ed cp key signature then
          .ok (some "Ed25519 signature verification failed")
        else
          match pqcFault trustedPqcKey cp with
          | some reason => .ok (some reason)
          | none => .ok (headFault entries cp)

/-- The loop over the checkpoints, from number `i` on.  No checkpoint of version 2 passes, so none
    establishes a PQC key. -/
def checkpointLoop (d : Digests H) (ed : Ed25519) (trustedPqcKey : Option String)
    (entries : List AuditEntry) (i prevEntryCount : Nat) (establishedKey : Option String) :
    List Checkpoint → Except AuditError CheckpointVerification
  | [] => .ok ⟨true, i, none, none⟩
  | cp :: rest =>
    match checkpointFault d ed trustedPqcKey entries prevEntryCount establishedKey cp with
    | .error e => .error e
    | .ok (some reason) => .ok ⟨false, i + 1, some i, some reason⟩
    | .ok none =>
      checkpointLoop d ed trustedPqcKey entries (i + 1) cp.entryCount
        (some (establishedKey.getD cp.verifyingKey)) rest

/-- `verify_checkpoints`. -/
def verifyCheckpoints (env : Env H T) (ed : Ed25519) (cfg : Config) (s : AuditLogger H T) :
    Except AuditError CheckpointVerification :=
  match env.texts.loadCheckpoints s.disk.checkpoints with
  | .error e => .error e
  | .ok [] => .ok ⟨true, 0, none, none⟩
  | .ok (cp :: cps) =>
    match env.texts.loadEntries s.disk.log with
    | .error e => .error e
    | .ok entries =>
      match hashWalk env.digests env.canonical 0 none false entries with
      | .error e => .error e
      | .ok (some reason) => .ok ⟨false, 0, some 0, some reason⟩
      | .ok none =>
        match checkpointLoop env.digests ed cfg.trustedPqcVerifyingKey entries 0 0
            cfg.trustedVerifyingKey (cp :: cps) with
        | .error e => .error e
        | .ok verification =>
          if !verification.valid then .ok verification
          else
            -- the last checkpoint is looked at once more
            let last := (cp :: cps).getLast (List.cons_ne_nil cp cps)
            if entries.length < last.entryCount then
              .ok ⟨false, (cp :: cps).length, some ((cp :: cps).length - 1),
                some ("Entries after last checkpoint deleted: checkpoint expects " ++
                  toString last.entryCount ++ " entries but log has " ++ toString entries.length)⟩
            else .ok verification

/-- The checkpoints are found to be valid. -/
def CheckpointsValid (r : Except AuditError CheckpointVerification) : Prop :=
  ∃ v, r = .ok v ∧ v.valid = true

instance (r : Except AuditError CheckpointVerification) : Decidable (CheckpointsValid r) :=
  match r with
  | .error _ => isFalse fun ⟨_, h, _⟩ => by cases h
  | .ok v => decidable_of_iff (v.valid = true)
      ⟨fun h => ⟨v, rfl, h⟩, fun ⟨_, h, hv⟩ => Except.ok.inj h ▸ hv⟩

/-! ## The chain of hashes -/

/-- The entries are all hashed, and linked from `prev` to `head`. -/
def HashChain (d : Digests H) (c : Canonical) (prev : Option String) :
    List AuditEntry → Option String → Prop
  | [], head => head = prev
  | e :: es, head =>
    e.prevHash = prev ∧ (∃ hash, e.entryHash = some hash ∧ computeEntryHash d c e = .ok hash) ∧
      HashChain d c e.entryHash es head

section HashChain

variable {d : Digests H} {c : Canonical} {prev head : Option String} {entries : List AuditEntry}

/-- One more entry. -/
theorem HashChain.append (h : HashChain d c prev entries head) {e : AuditEntry} {hash : String}
    (hprev : e.prevHash = head) (hhash : e.entryHash = some hash)
    (hcomputed : computeEntryHash d c e = .ok hash) :
    HashChain d c prev (entries ++ [e]) (some hash) := by
  induction entries generalizing prev with
  | nil =>
    obtain rfl : head = prev := h
    exact ⟨hprev, ⟨hash, hhash, hcomputed⟩, hhash.symm⟩
  | cons x xs ih =>
    obtain ⟨hx, hhashed, hrest⟩ := h
    exact ⟨hx, hhashed, ih hrest⟩

/-- The walk finds nothing wrong with a chain. -/
theorem hashWalk_of_hashChain (h : HashChain d c prev entries head) (i : Nat) (seen : Bool) :
    hashWalk d c i prev seen entries = .ok none := by
  induction entries generalizing prev i seen with
  | nil => rfl
  | cons e es ih =>
    obtain ⟨hprev, ⟨hash, hhash, hcomputed⟩, hrest⟩ := h
    rw [hhash] at hrest
    simp only [hashWalk, hhash, hprev, ne_eq, not_true_eq_false, if_false, hcomputed]
    exact ih hrest (i + 1) true

end HashChain

/-! ## Recorded checkpoints -/

/-- The checkpoint was signed with this key, for a beginning of these entries. -/
structure Recorded (d : Digests H) (key : Signer) (entries : List AuditEntry) (cp : Checkpoint) :
    Prop where
  verifyingKey : cp.verifyingKey = hexEncode key.verifyingKey
  signature : cp.signature = hexEncode (key.sign (d.signingContent cp true true))
  version : cp.signatureVersion = none
  count : cp.entryCount ≤ entries.length
  head : cp.chainHeadHash = (entries.take cp.entryCount).getLast?.bind (·.entryHash)

section Recorded

variable {d : Digests H} {key : Signer} {entries : List AuditEntry} {cp : Checkpoint} {ed : Ed25519}

/-- It stays recorded as the log grows. -/
theorem Recorded.append (h : Recorded d key entries cp) (e : AuditEntry) :
    Recorded d key (entries ++ [e]) cp := by
  have hcount := h.count
  refine ⟨h.verifyingKey, h.signature, h.version, ?_, ?_⟩
  · rw [List.length_append]
    omega
  · rw [List.take_append_of_le_length hcount]
    exact h.head

/-- A checkpoint of an empty log stays recorded when the log is rotated. -/
theorem Recorded.rotate (h : Recorded d key entries cp) (hzero : cp.entryCount = 0) :
    Recorded d key [] cp := by
  have hhead := h.head
  rw [hzero, List.take_zero] at hhead
  exact ⟨h.verifyingKey, h.signature, h.version, by omega, by rw [List.take_nil]; exact hhead⟩

/-- What `create_checkpoint` makes is recorded. -/
theorem recorded_signedCheckpoint (env : Env H T) (key : Signer) (io : CheckpointIo)
    (tree : Option (MerkleTree H)) (entries : List AuditEntry) :
    Recorded env.digests key entries
      (signedCheckpoint env key (unsignedCheckpoint env key io tree entries)) := by
  refine ⟨rfl, rfl, rfl, Nat.le_refl _, ?_⟩
  show entries.getLast?.bind _ = (entries.take entries.length).getLast?.bind _
  rw [List.take_length]

theorem headFault_of_recorded (h : Recorded d key entries cp) : headFault entries cp = none := by
  have hcount := h.count
  have hhead := h.head
  rw [headFault]
  by_cases hzero : cp.entryCount = 0
  · rw [hzero, List.take_zero] at hhead
    have hnone : cp.chainHeadHash = none := hhead
    simp [hzero, hnone]
  · rw [if_pos ⟨by omega, hcount⟩, if_neg]
    rw [hhead, List.getLast?_take, if_neg hzero]
    have hin : cp.entryCount - 1 < entries.length := by omega
    simp [List.getElem?_eq_getElem hin]

/-- **One checkpoint**: it has a key that is established, and its signature holds. -/
theorem checkpointFault_of_recorded (hed : ed.Accepts key) (h : Recorded d key entries cp)
    {prevEntryCount : Nat} (hprev : prevEntryCount ≤ cp.entryCount) {establishedKey : Option String}
    (hkey : ∀ k, establishedKey = some k → k = hexEncode key.verifyingKey)
    (trustedPqcKey : Option String) :
    checkpointFault d ed trustedPqcKey entries prevEntryCount establishedKey cp = .ok none := by
  have hsame : establishedKey.any (· ≠ cp.verifyingKey) = false := by
    cases hest : establishedKey with
    | none => rfl
    | some k => simp [hkey k hest, h.verifyingKey]
  have hdecode : ed.decodeKey cp.verifyingKey = .ok key.verifyingKey := by
    simp [Ed25519.decodeKey, h.verifyingKey, hed.keyLen, hed.keyError]
  have hsign : decodeSignature cp.signature = .ok (key.sign (d.signingContent cp true true)) := by
    rw [decodeSignature, h.signature, hexDecode_hexEncode]
    simp [hed.signatureLen]
  have hholds : signatureHolds d ed cp key.verifyingKey (key.sign (d.signingContent cp true true)) =
      true := by
    rw [signatureHolds, (hed.verify _ _).mpr rfl]
    rfl
  have hpqc : pqcFault trustedPqcKey cp = none := by
    rw [pqcFault, h.version]
    rfl
  rw [checkpointFault, if_neg (by omega), if_neg (by rw [hsame]; exact Bool.false_ne_true), hdecode]
  simp only [hsign, hholds, hpqc, headFault_of_recorded h]
  rfl

/-- **The loop** over checkpoints that are recorded in order. -/
theorem checkpointLoop_of_recorded (hed : ed.Accepts key) {cps : List Checkpoint}
    (hall : ∀ cp ∈ cps, Recorded d key entries cp)
    (hsorted : cps.Pairwise fun a b => a.entryCount ≤ b.entryCount) (prevEntryCount : Nat)
    (hprev : ∀ cp ∈ cps, prevEntryCount ≤ cp.entryCount) {establishedKey : Option String}
    (hkey : ∀ k, establishedKey = some k → k = hexEncode key.verifyingKey)
    (trustedPqcKey : Option String) (i : Nat) :
    checkpointLoop d ed trustedPqcKey entries i prevEntryCount establishedKey cps =
      .ok ⟨true, i + cps.length, none, none⟩ := by
  induction cps generalizing i prevEntryCount establishedKey with
  | nil => rfl
  | cons cp cps ih =>
    have hcp := hall cp List.mem_cons_self
    have hfault := checkpointFault_of_recorded hed hcp (hprev cp List.mem_cons_self) hkey trustedPqcKey
    obtain ⟨hafter, hrest⟩ := List.pairwise_cons.mp hsorted
    rw [checkpointLoop, hfault]
    dsimp only
    rw [ih (fun x hx => hall x (List.mem_cons_of_mem cp hx)) hrest _ hafter]
    · rw [List.length_cons]
      congr 2
      omega
    · intro k hk
      cases hk
      cases hest : establishedKey with
      | none => exact hcp.verifyingKey
      | some k => exact hkey k hest

end Recorded

/-! ## The checkpoint file -/

/-- The active log is one chain of hashes up to the head of the logger, and the checkpoints in the file
    are recorded in it, in order. -/
structure Checkpointed (env : Env H T) (key : Signer) (s : AuditLogger H T)
    (entries : List AuditEntry) : Prop where
  lines : LinesOf env.texts s.lines entries
  chain : HashChain env.digests env.canonical none entries s.lastHash
  recorded : ∀ cp ∈ env.texts.readCheckpoints (s.disk.checkpoints.getD []),
    Recorded env.digests key entries cp
  sorted : (env.texts.readCheckpoints (s.disk.checkpoints.getD [])).Pairwise
    fun a b => a.entryCount ≤ b.entryCount

/-- The files are small enough to be read: the checkpoint file, and the log if there are checkpoints. -/
def FilesFit (env : Env H T) (s : AuditLogger H T) : Prop :=
  env.texts.fileLen (s.disk.checkpoints.getD []) ≤ maxCheckpointFileSize ∧
    (env.texts.readCheckpoints (s.disk.checkpoints.getD []) ≠ [] →
      env.texts.fileLen s.lines ≤ maxAuditLogSize)

instance (env : Env H T) (s : AuditLogger H T) : Decidable (FilesFit env s) :=
  inferInstanceAs (Decidable (_ ∧ (_ → _)))

section Verify

variable {env : Env H T} {ed : Ed25519} {cfg : Config} {key : Signer} {s s' : AuditLogger H T}
  {entries : List AuditEntry}

theorem loadCheckpoints_eq {file : Option (List T)}
    (hfit : env.texts.fileLen (file.getD []) ≤ maxCheckpointFileSize) :
    env.texts.loadCheckpoints file = .ok (env.texts.readCheckpoints (file.getD [])) := by
  cases file with
  | none => rfl
  | some lines =>
    rw [Option.getD_some] at hfit
    rw [Texts.loadCheckpoints, if_neg (by omega)]
    rfl

theorem loadEntries_eq {log : Option (List T)}
    (hfit : env.texts.fileLen (log.getD []) ≤ maxAuditLogSize) :
    env.texts.loadEntries log = .ok (env.texts.readEntries (log.getD [])) := by
  cases log with
  | none => rfl
  | some lines =>
    rw [Option.getD_some] at hfit
    rw [Texts.loadEntries, if_neg (by omega)]
    rfl

/-- **Recorded checkpoints are valid.** -/
theorem verifyCheckpoints_valid (hed : ed.Accepts key) (h : Checkpointed env key s entries)
    (hpinned : ∀ k, cfg.trustedVerifyingKey = some k → k = hexEncode key.verifyingKey)
    (hfit : FilesFit env s) : CheckpointsValid (verifyCheckpoints env ed cfg s) := by
  rw [verifyCheckpoints, loadCheckpoints_eq hfit.1]
  have hall := h.recorded
  have hsorted := h.sorted
  have hlog := hfit.2
  cases hcps : env.texts.readCheckpoints (s.disk.checkpoints.getD []) with
  | nil => exact ⟨_, rfl, rfl⟩
  | cons cp cps =>
    rw [hcps] at hall hsorted hlog
    have hload : env.texts.loadEntries s.disk.log = .ok (env.texts.readEntries (s.disk.log.getD [])) :=
      loadEntries_eq (hlog (List.cons_ne_nil _ _))
    have hread : env.texts.readEntries (s.disk.log.getD []) = entries := h.lines.readEntries
    have hwalk := hashWalk_of_hashChain h.chain 0 false
    have hloop := checkpointLoop_of_recorded (i := 0) hed hall hsorted 0
      (fun _ _ => Nat.zero_le _) hpinned cfg.trustedPqcVerifyingKey
    have hlast := (hall _ (List.getLast_mem (List.cons_ne_nil cp cps))).count
    rw [hread] at hload
    simp only [hload, hwalk, hloop]
    rw [if_neg (by simp), if_neg (by omega)]
    exact ⟨_, rfl, rfl⟩

/-- A checkpoint that is written is read after the others, unless its line is too long. -/
theorem readCheckpoints_concat (texts : Texts T) (lines : List T) (cp : Checkpoint) :
    texts.readCheckpoints (lines ++ [texts.checkpointLine cp]) = texts.readCheckpoints lines ++ [cp] ∨
      texts.readCheckpoints (lines ++ [texts.checkpointLine cp]) = texts.readCheckpoints lines := by
  by_cases hlen : maxCheckpointLineSize < texts.len (texts.checkpointLine cp)
  · right
    simp [Texts.readCheckpoints, hlen]
  · left
    simp [Texts.readCheckpoints, hlen, texts.blank_checkpointLine,
      texts.parseCheckpoint_checkpointLine]

/-! ### Steps -/

theorem checkpoints_rotated (cfg : Config) (s : AuditLogger H T) (io : RotationIo) (line : T) :
    (s.rotated cfg io line).startFile.disk.checkpoints = s.disk.checkpoints := by
  have hprune : ∀ disk : Disk T, (disk.prune cfg io).checkpoints = disk.checkpoints := by
    intro disk
    rw [Disk.prune]
    split <;> rfl
  have hlog : ∀ (disk : Disk T) name, (disk.renameLog name).checkpoints = disk.checkpoints := by
    intro disk name
    rw [Disk.renameLog]
    split <;> rfl
  have hleaves : ∀ (disk : Disk T) name,
      (disk.renameLeaves cfg name).checkpoints = disk.checkpoints := by
    intro disk name
    rw [Disk.renameLeaves]
    split
    · rfl
    · split <;> rfl
  show ((s.renameAway cfg io _).disk.appendManifest line |>.prune cfg io).checkpoints = _
  rw [hprune]
  show (s.renameAway cfg io _).disk.checkpoints = _
  rw [AuditLogger.renameAway]
  cases s.merkleTree with
  | none => exact hlog _ _
  | some tree =>
    show (if io.leafRename.isSome then _ else _ : Disk T).checkpoints = _
    split
    · exact hlog _ _
    · exact (hleaves _ _).trans (hlog _ _)

/-- **The condition** on a call: its line is read back as it was written, and it does not rotate a log
    of which there is a checkpoint. -/
structure KeepsCheckpoints (env : Env H T) (cfg : Config) (s : AuditLogger H T) (call : LogCall) :
    Prop where
  readable : ∀ hash, CallHash env cfg s call hash →
    env.texts.Readable (callEntry env cfg s call hash)
  rotation : (checkRotation env cfg call.io.rotation s.disk.log).rotates = true →
    ∀ cp ∈ env.texts.readCheckpoints (s.disk.checkpoints.getD []), cp.entryCount = 0

instance (env : Env H T) (cfg : Config) (s : AuditLogger H T) (call : LogCall) :
    Decidable (KeepsCheckpoints env cfg s call) :=
  decidable_of_iff
    ((∀ hash, computeEntryHash env.digests env.canonical
        (nextEntry env call.io call.req (entryBase env cfg s call)) = .ok hash →
          env.texts.Readable (callEntry env cfg s call hash)) ∧
      ((checkRotation env cfg call.io.rotation s.disk.log).rotates = true →
        ∀ cp ∈ env.texts.readCheckpoints (s.disk.checkpoints.getD []), cp.entryCount = 0))
    ⟨fun h => ⟨h.1, h.2⟩, fun h => ⟨h.readable, h.rotation⟩⟩

/-- The state in which the entry is made. -/
theorem checkpointed_entryBase {call : LogCall} (h : Checkpointed env key s entries)
    (hkeeps : KeepsCheckpoints env cfg s call) (hstep : okStep env cfg s call = some s') :
    ∃ entries', Checkpointed env key (entryBase env cfg s call) entries' := by
  obtain hbase | ⟨_, _, line, hcheck, -, hbase⟩ := entryBase_cases hstep
  · rw [hbase]
    exact ⟨entries, h⟩
  · obtain ⟨-, lines, hlog, -⟩ := checkRotation_eq_rotate hcheck
    have hzero := hkeeps.rotation (by rw [hcheck]; rfl)
    have hcps := checkpoints_rotated cfg s call.io.rotation line
    rw [hbase]
    refine ⟨[], ?_, rfl, ?_, ?_⟩
    · rw [lines_rotated hlog]
      exact LinesOf.nil _
    · rw [hcps]
      exact fun cp hcp => (h.recorded cp hcp).rotate (hzero cp hcp)
    · rw [hcps]
      exact h.sorted

/-- **A call keeps the checkpoints.** -/
theorem checkpointed_okStep {call : LogCall} (h : Checkpointed env key s entries)
    (hkeeps : KeepsCheckpoints env cfg s call) (hstep : okStep env cfg s call = some s') :
    ∃ entries', Checkpointed env key s' entries' := by
  obtain ⟨entries₀, hbase⟩ := checkpointed_entryBase h hkeeps hstep
  obtain ⟨hash, hhash, hlines, hlast, -, -, -, -, hcps⟩ := okStep_fields hstep
  refine ⟨entries₀ ++ [callEntry env cfg s call hash], ?_, ?_, ?_, ?_⟩
  · rw [hlines]
    exact hbase.lines.concat (hkeeps.readable hash hhash)
  · rw [hlast]
    -- the hash does not cover the field it is stored in
    exact hbase.chain.append (prevHash_hashedEntry hash) rfl hhash
  · rw [hcps]
    exact fun cp hcp => (hbase.recorded cp hcp).append _
  · rw [hcps]
    exact hbase.sorted

/-- **A checkpoint is recorded** after the others. -/
theorem checkpointed_createCheckpoint {io : CheckpointIo} {cp : Checkpoint}
    (h : Checkpointed env key s entries) (hkey : cfg.signingKey = some key)
    (hcreate : createCheckpoint env cfg io s = (.ok cp, s')) : Checkpointed env key s' entries := by
  rw [createCheckpoint, hkey] at hcreate
  dsimp only at hcreate
  split at hcreate
  · cases hcreate
  rename_i loaded hload
  obtain rfl : loaded = entries := (loadEntries_lines hload).trans h.lines.readEntries
  split at hcreate
  · cases hcreate
  cases hcreate
  have hnew := recorded_signedCheckpoint env key io s.merkleTree loaded
  refine ⟨h.lines, h.chain, ?_, ?_⟩
  · intro cp hcp
    rcases readCheckpoints_concat env.texts (s.disk.checkpoints.getD []) (signedCheckpoint env key
        (unsignedCheckpoint env key io s.merkleTree loaded)) with hread | hread
    · rcases List.mem_append.mp (hread ▸ hcp) with hold | hlast
      · exact h.recorded cp hold
      · rw [List.mem_singleton] at hlast
        exact hlast ▸ hnew
    · exact h.recorded cp (hread ▸ hcp)
  · rcases readCheckpoints_concat env.texts (s.disk.checkpoints.getD []) (signedCheckpoint env key
        (unsignedCheckpoint env key io s.merkleTree loaded)) with hread | hread
    · -- the new one counts all entries
      refine hread.symm ▸ List.pairwise_append.mpr ⟨h.sorted, List.pairwise_singleton _ _, ?_⟩
      intro a ha b hb
      rw [List.mem_singleton] at hb
      subst hb
      exact (h.recorded a ha).count
    · exact hread.symm ▸ h.sorted

end Verify

/-! ## Runs -/

/-- A call of `log_entry` or of `create_checkpoint`. -/
inductive TrailOp where
  | log (call : LogCall)
  | checkpoint (io : CheckpointIo)

/-- A call that succeeds. -/
def trailStep (env : Env H T) (cfg : Config) (s : AuditLogger H T) : TrailOp → Option (AuditLogger H T)
  | .log call => okStep env cfg s call
  | .checkpoint io =>
    match createCheckpoint env cfg io s with
    | (.ok _, s') => some s'
    | (.error _, _) => none

def KeepsCheckpointsOp (env : Env H T) (cfg : Config) (s : AuditLogger H T) : TrailOp → Prop
  | .log call => KeepsCheckpoints env cfg s call
  | .checkpoint _ => True

instance (env : Env H T) (cfg : Config) (s : AuditLogger H T) (op : TrailOp) :
    Decidable (KeepsCheckpointsOp env cfg s op) :=
  match op with
  | .log call => inferInstanceAs (Decidable (KeepsCheckpoints env cfg s call))
  | .checkpoint _ => isTrue trivial

/-- **Checkpoints of an untampered log verify**, after every run of calls that succeed, with one signing
    key, in which no log is rotated of which there is a checkpoint, as long as the files are small
    enough to be read. -/
theorem checkpoints_verify (env : Env H T) {ed : Ed25519} {cfg : Config} {key : Signer}
    (hed : ed.Accepts key) (hkey : cfg.signingKey = some key)
    (hpinned : ∀ k, cfg.trustedVerifyingKey = some k → k = hexEncode key.verifyingKey)
    {ops : List TrailOp} {t : AuditLogger H T}
    (hkeeps : EachStep (trailStep env cfg) (fun s op _ => KeepsCheckpointsOp env cfg s op)
      (AuditLogger.new cfg Disk.empty) ops)
    (hrun : run (trailStep env cfg) (AuditLogger.new cfg Disk.empty) ops = some t)
    (hfit : FilesFit env t) : CheckpointsValid (verifyCheckpoints env ed cfg t) := by
  have hend : ∃ entries, Checkpointed env key t entries := by
    refine run_invariant_of_eachStep (I := fun s => ∃ entries, Checkpointed env key s entries) ?_
      hkeeps ?_ hrun
    · intro s op s' _ h hC hstep
      obtain ⟨entries, h⟩ := h
      cases op with
      | log call => exact checkpointed_okStep h hC hstep
      | checkpoint io =>
        rw [trailStep] at hstep
        split at hstep
        · rename_i cp s'' hcreate
          cases hstep
          exact ⟨entries, checkpointed_createCheckpoint h hkey hcreate⟩
        · cases hstep
    · refine ⟨[], LinesOf.nil _, rfl, ?_, ?_⟩
      · intro cp hcp
        cases hcp
      · exact List.Pairwise.nil
  obtain ⟨entries, h⟩ := hend
  exact verifyCheckpoints_valid hed h hpinned hfit

/-! ### A rotation after a checkpoint -/

/-- A signature is the content, filled up with zeros. -/
def plainSigner : Signer where
  verifyingKey := List.replicate 32 7
  sign content := (content ++ List.replicate 64 0).take 64

def plainEd25519 : Ed25519 where
  keyError _ := none
  verify key content signature := key = plainSigner.verifyingKey ∧ signature = plainSigner.sign content

theorem plainEd25519_accepts : plainEd25519.Accepts plainSigner where
  keyLen := rfl
  keyError := rfl
  signatureLen content := by simp [plainSigner]
  verify content signature := by simp [plainEd25519]

/-- A log that is rotated at every call if `maxFileSize` is 1, with a key for its checkpoints. -/
def signedConfig (maxFileSize : Nat) : Config :=
  { plainConfig with maxFileSize := maxFileSize, signingKey := some plainSigner }

def plainCheckpoint (id : String) : CheckpointIo := ⟨id, "2026-01-01T00:00:40+00:00", none⟩

/-- A checkpoint of an empty log, and one of its first entry, which is not rotated. -/
theorem checkpoints_verify_first :
    let env := plainEnv shortDigests
    let cfg := signedConfig 1
    ∃ t : AuditLogger (List UInt8) PlainLine,
      run (trailStep env cfg) (AuditLogger.new cfg Disk.empty)
        [.checkpoint (plainCheckpoint "c0"), .log (plainCall "1" "30" none),
          .checkpoint (plainCheckpoint "c1")] = some t ∧
      CheckpointsValid (verifyCheckpoints env plainEd25519 cfg t) := by
  intro env cfg
  have hfits : ∃ t ∈ run (trailStep env cfg) (AuditLogger.new cfg Disk.empty)
      [.checkpoint (plainCheckpoint "c0"), .log (plainCall "1" "30" none),
        .checkpoint (plainCheckpoint "c1")], FilesFit env t := by
    decide +kernel
  obtain ⟨t, hrun, hfit⟩ := hfits
  refine ⟨t, hrun, checkpoints_verify env plainEd25519_accepts rfl ?_ ?_ hrun hfit⟩
  · intro k hk
    cases hk
  · decide +kernel

/-- **A rotation after a checkpoint.**  The log is rotated by the second call; the checkpoint of the
    first entry is compared with the second one. -/
theorem rotation_invalidates_checkpoint :
    let env := plainEnv shortDigests
    let cfg := signedConfig 1
    plainEd25519.Accepts plainSigner ∧
    ∃ t : AuditLogger (List UInt8) PlainLine,
      run (trailStep env cfg) (AuditLogger.new cfg Disk.empty)
        [.log (plainCall "1" "30" none), .checkpoint (plainCheckpoint "c1"),
          .log (plainCall "2" "31" none)] = some t ∧
      FilesFit env t ∧
      ¬CheckpointsValid (verifyCheckpoints env plainEd25519 cfg t) := by
  intro env cfg
  have hinvalid : ∃ t ∈ run (trailStep env cfg) (AuditLogger.new cfg Disk.empty)
      [.log (plainCall "1" "30" none), .checkpoint (plainCheckpoint "c1"),
        .log (plainCall "2" "31" none)],
      FilesFit env t ∧ ¬CheckpointsValid (verifyCheckpoints env plainEd25519 cfg t) := by
    decide +kernel
  exact ⟨plainEd25519_accepts, hinvalid⟩

end Vellaveto.Audit
