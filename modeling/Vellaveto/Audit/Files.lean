/-
  THE FILES of the audit trail and the logger that owns them (`vellaveto-audit/src/logger.rs`,
  `trusted_audit_fs.rs`, `load_entries` of `verification.rs`).

  A file of the trail is a list of LINES; a line is a text of some type `T`, of which the code uses its
  length, whether it is blank, its bytes, and what `serde_json` reads from it (`Texts`).  Strings and
  integers survive the way through JSON; that an ENTRY does is a property of that entry (`Readable`),
  since its metadata may hold floating-point numbers and its line may be longer than what is read.

  The logger is its chain head, its two counters, the Merkle tree if there is one, and the disk.
-/
import Mathlib.Algebra.BigOperators.Group.List.Basic
import Vellaveto.Audit.Chain
import Vellaveto.Audit.Merkle

namespace Vellaveto.Audit

open Vellaveto.Lib

variable {H T : Type}

/-! ## Lines -/

/-- `serde_json` on the lines of the audit files. -/
structure Texts (T : Type) where
  /-- the bytes of the line, without the newline -/
  len : T → Nat
  /-- `line.trim().is_empty()` -/
  blank : T → Bool
  bytes : T → List UInt8
  entryLine : AuditEntry → T
  parseEntry : T → Option AuditEntry
  jsonLine : Json → T
  /-- `serde_json::from_str::<Value>`, or the text of the error -/
  parseJson : T → Except String Json
  checkpointLine : Checkpoint → T
  parseCheckpoint : T → Option Checkpoint
  blank_entryLine : ∀ e, blank (entryLine e) = false
  sequence_parseEntry : ∀ {e e'}, parseEntry (entryLine e) = some e' → e'.sequence = e.sequence
  blank_jsonLine : ∀ (m : ManifestEntry) signed, blank (jsonLine (m.toJson signed)) = false
  parseJson_jsonLine : ∀ (m : ManifestEntry) signed,
    parseJson (jsonLine (m.toJson signed)) = .ok (m.toJson signed)
  blank_checkpointLine : ∀ cp, blank (checkpointLine cp) = false
  parseCheckpoint_checkpointLine : ∀ cp, parseCheckpoint (checkpointLine cp) = some cp

def maxAuditLogSize : Nat := 100 * 1024 * 1024
def maxAuditLineSize : Nat := 1024 * 1024

/-- The bytes of a file. -/
def Texts.fileLen (texts : Texts T) (lines : List T) : Nat := (lines.map fun l => texts.len l + 1).sum

/-- The entries that are read from the lines of a log: blank, oversized and corrupt lines are
    skipped. -/
def Texts.readEntries (texts : Texts T) (lines : List T) : List AuditEntry :=
  lines.filterMap fun line =>
    if texts.blank line || maxAuditLineSize < texts.len line then none else texts.parseEntry line

/-- `load_entries`. -/
def Texts.loadEntries (texts : Texts T) (log : Option (List T)) :
    Except AuditError (List AuditEntry) :=
  match log with
  | none => .ok []
  | some lines =>
    if maxAuditLogSize < texts.fileLen lines then
      .error (.validation ("Audit log too large (" ++ toString (texts.fileLen lines) ++ " bytes, max " ++
        toString maxAuditLogSize ++ " bytes). Use log rotation."))
    else .ok (texts.readEntries lines)

/-- The line of the entry is read as that entry. -/
structure Texts.Readable (texts : Texts T) (e : AuditEntry) : Prop where
  len : texts.len (texts.entryLine e) ≤ maxAuditLineSize
  parse : texts.parseEntry (texts.entryLine e) = some e

instance (texts : Texts T) (e : AuditEntry) : Decidable (texts.Readable e) :=
  decidable_of_iff (texts.len (texts.entryLine e) ≤ maxAuditLineSize ∧
    texts.parseEntry (texts.entryLine e) = some e) ⟨fun h => ⟨h.1, h.2⟩, fun h => ⟨h.len, h.parse⟩⟩

@[simp] theorem readEntries_nil (texts : Texts T) : texts.readEntries [] = [] := rfl

theorem readEntries_append (texts : Texts T) (xs ys : List T) :
    texts.readEntries (xs ++ ys) = texts.readEntries xs ++ texts.readEntries ys :=
  List.filterMap_append

theorem readEntries_readable {texts : Texts T} {e : AuditEntry} (h : texts.Readable e) :
    texts.readEntries [texts.entryLine e] = [e] := by
  have hlen := h.len
  simp [Texts.readEntries, texts.blank_entryLine, h.parse, Nat.not_lt.mpr hlen]

/-- An entry's line gives at most one entry, with its sequence number. -/
theorem readEntries_entryLine (texts : Texts T) (e : AuditEntry) :
    texts.readEntries [texts.entryLine e] = [] ∨
      ∃ e', texts.readEntries [texts.entryLine e] = [e'] ∧ e'.sequence = e.sequence := by
  cases hparse : texts.parseEntry (texts.entryLine e) with
  | none =>
    left
    simp [Texts.readEntries, hparse]
  | some e' =>
    by_cases hlen : maxAuditLineSize < texts.len (texts.entryLine e)
    · left
      simp [Texts.readEntries, hlen]
    · right
      refine ⟨e', ?_, texts.sequence_parseEntry hparse⟩
      simp [Texts.readEntries, hparse, hlen, texts.blank_entryLine]

theorem fileLen_append (texts : Texts T) (xs ys : List T) :
    texts.fileLen (xs ++ ys) = texts.fileLen xs + texts.fileLen ys := by
  simp [Texts.fileLen]

/-! ## The logger -/

/-- An Ed25519 signing key: its verifying key, and signing. -/
structure Signer where
  verifyingKey : List UInt8
  sign : List UInt8 → List UInt8

/-- Ed25519 verification. -/
structure Ed25519 where
  /-- `VerifyingKey::from_bytes`: the text of the error, if these are not the bytes of a key -/
  keyError : List UInt8 → Option String
  /-- the key, the content and the signature -/
  verify : List UInt8 → List UInt8 → List UInt8 → Bool

/-- Verification with the key of the signer accepts exactly what it signed. -/
structure Ed25519.Accepts (ed : Ed25519) (key : Signer) : Prop where
  keyLen : key.verifyingKey.length = 32
  keyError : ed.keyError key.verifyingKey = none
  signatureLen : ∀ content, (key.sign content).length = 64
  verify : ∀ content signature,
    ed.verify key.verifyingKey content signature = true ↔ signature = key.sign content

/-- What the logger takes from elsewhere. -/
structure Env (H T : Type) where
  digests : Digests H
  canonical : Canonical
  texts : Texts T
  /-- the length of the JSON text of a value -/
  jsonTextLen : Json → Nat
  /-- redaction, at the configured level -/
  redactAction : Action → Action
  redactVerdict : Verdict → Verdict
  redactMetadata : Json → Json
  redactReason : String → String

/-- How a logger was built. -/
structure Config where
  /-- the name of the log file without its extension, and the extension with its dot -/
  stem : String
  extension : String
  /-- 0 for no rotation -/
  maxFileSize : Nat
  /-- the limit of the Merkle tree, if there is one -/
  merkle : Option Nat
  signingKey : Option Signer
  trustedVerifyingKey : Option String
  trustedPqcVerifyingKey : Option String
  sinkFailureFatal : Bool

/-- The directory of the log. -/
structure Disk (T : Type) where
  /-- the active log, if the file exists -/
  log : Option (List T)
  leaves : LeafFile
  manifest : Option (List T)
  /-- the rotated logs by name, the newest last -/
  rotated : List (String × List T)
  rotatedLeaves : List (String × List UInt8)
  checkpoints : Option (List T)
deriving DecidableEq

def Disk.empty : Disk T := ⟨none, none, none, [], [], none⟩

/-- `AuditLogger`, as far as it changes, and its disk. -/
structure AuditLogger (H T : Type) where
  lastHash : Option String
  lastTimestamp : Option String
  entryCount : Nat
  globalSequence : Nat
  merkleTree : Option (MerkleTree H)
  disk : Disk T
deriving DecidableEq

/-- `AuditLogger::new` on a directory. -/
def AuditLogger.new (cfg : Config) (disk : Disk T) : AuditLogger H T :=
  ⟨none, none, 0, 0, cfg.merkle.map MerkleTree.new, disk⟩

/-- `verify_chain`. -/
def AuditLogger.verifyChain (env : Env H T) (s : AuditLogger H T) :
    Except AuditError ChainVerification :=
  match env.texts.loadEntries s.disk.log with
  | .error e => .error e
  | .ok entries => verifyEntries env.digests env.canonical entries

/-! ## Plain lines

  Concrete inputs are of a kind whose JSON text needs no escapes. -/

/-- A line, by what it was written for. -/
inductive PlainLine where
  | entry (e : AuditEntry)
  | json (v : Json)
  | checkpoint (cp : Checkpoint)
  | other (text : String)
deriving DecidableEq

/-- An optional text field, left out if it is absent. -/
def optionalMember (key : String) (value : Option String) : List (String × Json) :=
  (value.map fun s => (key, Json.string s)).toList

/-- The JSON value of an entry. -/
def entryJson (e : AuditEntry) : Json :=
  .object ([("id", .string e.id), ("action", actionJson e.action), ("verdict", verdictJson e.verdict),
      ("timestamp", .string e.timestamp), ("metadata", e.metadata),
      ("sequence", .number (.posInt e.sequence))] ++
    optionalMember "entry_hash" e.entryHash ++ optionalMember "prev_hash" e.prevHash ++
    optionalMember "commitment" e.commitment ++ optionalMember "tenant_id" e.tenantId ++
    (e.acisEnvelope.map fun envelope => ("acis_envelope",
      Json.object [("reason", .string envelope.reason), ("rest", envelope.rest)])).toList)

/-- The JSON value of a checkpoint. -/
def checkpointJson (cp : Checkpoint) : Json :=
  .object ([("id", .string cp.id), ("timestamp", .string cp.timestamp),
      ("entry_count", .number (.posInt cp.entryCount)),
      ("chain_head_hash", (cp.chainHeadHash.map Json.string).getD .null),
      ("signature", .string cp.signature), ("verifying_key", .string cp.verifyingKey)] ++
    optionalMember "merkle_root" cp.merkleRoot ++ optionalMember "pqc_signature" cp.pqcSignature ++
    optionalMember "pqc_verifying_key" cp.pqcVerifyingKey ++
    (cp.signatureVersion.map fun v => ("signature_version", Json.number (.posInt v))).toList)

def PlainLine.text : PlainLine → String
  | .entry e => plainJsonText (entryJson e)
  | .json v => plainJsonText v
  | .checkpoint cp => plainJsonText (checkpointJson cp)
  | .other text => text

def plainTexts : Texts PlainLine where
  len l := l.text.utf8ByteSize
  blank l := match l with
    | .other text => text.toList.all (· == ' ')
    | _ => false
  bytes l := strBytes l.text
  entryLine := .entry
  parseEntry l := match l with
    | .entry e => some e
    | _ => none
  jsonLine := .json
  parseJson l := match l with
    | .json v => .ok v
    | .entry e => .ok (entryJson e)
    | .checkpoint cp => .ok (checkpointJson cp)
    | .other _ => .error "expected value at line 1 column 1"
  checkpointLine := .checkpoint
  parseCheckpoint l := match l with
    | .checkpoint cp => some cp
    | _ => none
  blank_entryLine _ := rfl
  sequence_parseEntry h := Option.some.inj h ▸ rfl
  blank_jsonLine _ _ := rfl
  parseJson_jsonLine _ _ := rfl
  blank_checkpointLine _ := rfl
  parseCheckpoint_checkpointLine _ := rfl

/-- Plain lines, no redaction, and the given hash. -/
def plainEnv (d : Digests H) : Env H PlainLine where
  digests := d
  canonical := plainCanonical
  texts := plainTexts
  jsonTextLen v := (plainJsonText v).utf8ByteSize
  redactAction := id
  redactVerdict := id
  redactMetadata := id
  redactReason := id

/-- A log with a Merkle tree that is never rotated. -/
def plainConfig : Config := ⟨"audit", ".log", 0, some defaultMaxLeafCount, none, none, none, false⟩

end Vellaveto.Audit
