/-
  THE CREDENTIAL VAULT (`vellaveto-mcp-shield/src/credential_vault.rs`, and of `crypto.rs` the store
  it is kept in).

  The vault is a list of credentials with a status, in memory, and an encrypted file.  A new
  credential is APPENDED to the file; every change of a status REWRITES the file, and is undone in
  memory when that fails.  A process can stop at any point and another one open the file again.

  What happens outside is a parameter of a call:

  * the clock, and the random bytes of a generated credential;
  * what becomes of a write (`AppendIo`, `PersistIo`).  An append can fail or the process stop after
    any number of bytes.  A rewrite goes to another file which is then renamed, so the file is the
    old or the new one; a failed rewrite may leave either.

  The file is a list of `Chunk`s, whole records and torn ones.  `read_all_entries` finds the records
  by their lengths, so behind a torn record it looks at the wrong bytes; what it cuts out there is
  no output of `encrypt`, and the authenticated cipher does not decrypt it.

  An entry carries the number of the call that added it (`id`), which no operation looks at: it is
  what "the same vault entry" means across restarts, since two entries may hold equal credentials.
-/
import Vellaveto.Lib.Run
import Vellaveto.Shield.Sanitizer
import Vellaveto.Types.Chars

namespace Vellaveto.Shield

open Vellaveto.Lib

/-! ## Credentials -/

/-- `MAX_CREDENTIAL_LEN`. -/
def maxCredentialLen : Nat := 4096

/-- `MAX_SIGNATURE_LEN`. -/
def maxSignatureLen : Nat := 4096

/-- `MAX_PROVIDER_KEY_ID_LEN`. -/
def maxProviderKeyIdLen : Nat := 256

/-- `MAX_CREDENTIAL_EPOCH`. -/
def maxCredentialEpoch : Nat := u64Max / 2

/-- `MAX_VAULT_ENTRIES`, the value of `MAX_CREDENTIAL_POOL_SIZE`. -/
def maxVaultEntries : Nat := 10000

/-- `MAX_ACTIVE_AGE_SECS`. -/
def maxActiveAgeSecs : Nat := 3600

/-- `CredentialType`. -/
inductive CredentialType where
  | subscriber
  | premiumSubscriber
  | apiAccess
deriving DecidableEq, Repr

/-- `BlindCredential`. -/
structure BlindCredential where
  credential : List UInt8
  signature : List UInt8
  providerKeyId : String
  issuedEpoch : Nat
  credentialType : CredentialType
deriving DecidableEq, Repr

/-- `BlindCredential::validate`. -/
def BlindCredential.validate (c : BlindCredential) : Except String Unit :=
  if c.credential.isEmpty then .error "credential must not be empty"
  else if maxCredentialLen < c.credential.length then
    .error ("credential length " ++ toString c.credential.length ++ " exceeds maximum " ++
      toString maxCredentialLen)
  else if c.signature.isEmpty then .error "signature must not be empty"
  else if maxSignatureLen < c.signature.length then
    .error ("signature length " ++ toString c.signature.length ++ " exceeds maximum " ++
      toString maxSignatureLen)
  else if c.providerKeyId.isEmpty then .error "provider_key_id must not be empty"
  else if maxProviderKeyIdLen < c.providerKeyId.utf8ByteSize then
    .error ("provider_key_id length " ++ toString c.providerKeyId.utf8ByteSize ++
      " exceeds maximum " ++ toString maxProviderKeyIdLen)
  else if hasDangerousChars c.providerKeyId then
    .error "provider_key_id contains dangerous characters"
  else if maxCredentialEpoch < c.issuedEpoch then
    .error ("issued_epoch " ++ toString c.issuedEpoch ++ " exceeds maximum " ++
      toString maxCredentialEpoch)
  else .ok ()

/-- `CredentialStatus`. -/
inductive CredentialStatus where
  | available
  | active
  | consumed
  | expired
deriving DecidableEq, Repr

/-- The text of `{:?}`. -/
def CredentialStatus.debug : CredentialStatus → String
  | available => "Available"
  | active => "Active"
  | consumed => "Consumed"
  | expired => "Expired"

/-- `VaultEntry`, and `StoredVaultEntry`, which has the same fields. -/
structure VaultEntry where
  id : Nat
  credential : BlindCredential
  status : CredentialStatus
  activatedAt : Option Nat
deriving DecidableEq, Repr

/-! ## The store -/

/-- `MAX_STORE_ENTRIES`. -/
def maxStoreEntries : Nat := 100000

/-- `MAX_STORE_FILE_SIZE`. -/
def maxStoreFileSize : Nat := 256 * 1024 * 1024

/-- Version and salt. -/
def headerLen : Nat := 17

/-- What the vault does not decide: the length of an entry as JSON, and the text of the error when
    the store is read at the wrong bytes. -/
structure VaultEnv where
  jsonLen : VaultEntry → Nat
  misreadError : String

/-- Length field, nonce, text and tag of a record. -/
def VaultEnv.recordLen (env : VaultEnv) (e : VaultEntry) : Nat := 4 + 24 + env.jsonLen e + 16

/-- A part of the store file: a whole record, or the first bytes of one. -/
inductive Chunk where
  | record (e : VaultEntry)
  | torn (e : VaultEntry) (written : Nat)
deriving DecidableEq, Repr

/-- The length of a part in bytes. -/
def VaultEnv.chunkLen (env : VaultEnv) : Chunk → Nat
  | .record e => env.recordLen e
  | .torn e written => min written (env.recordLen e - 1)

/-- The length of the file behind the header. -/
def VaultEnv.fileLen (env : VaultEnv) (file : List Chunk) : Nat := (file.map env.chunkLen).sum

/-- The loop of `read_all_entries`.  Fewer than four bytes at the end are not looked at. -/
def readLoop (env : VaultEnv) : List Chunk → Nat → Except ShieldError (List VaultEntry)
  | [], _ => .ok []
  | chunk :: rest, count =>
    if env.fileLen (chunk :: rest) < 4 then .ok []
    else if maxStoreEntries ≤ count then
      .error (.decryption ("store contains more than " ++ toString maxStoreEntries ++
        " entries (possible corruption or attack)"))
    else
      match chunk with
      | .record e => (readLoop env rest (count + 1)).map (e :: ·)
      | .torn _ _ => .error (.decryption env.misreadError)

/-- `read_all_entries`. -/
def readAllEntries (env : VaultEnv) (file : List Chunk) : Except ShieldError (List VaultEntry) :=
  let len := headerLen + env.fileLen file
  if maxStoreFileSize < len then
    .error (.decryption ("store file too large (" ++ toString len ++ " bytes, max " ++
      toString maxStoreFileSize ++ " bytes)"))
  else readLoop env file 0

/-- How far an append got. -/
inductive Appended where
  | nothing
  | part (written : Nat)
  | whole
deriving DecidableEq, Repr

/-- The file after an append that got so far. -/
def Appended.file (a : Appended) (file : List Chunk) (e : VaultEntry) : List Chunk :=
  match a with
  | nothing => file
  | part written => file ++ [.torn e written]
  | whole => file ++ [.record e]

/-- What becomes of an append. -/
inductive AppendIo where
  | ok
  | failed (e : ShieldError) (got : Appended)
  | stopped (got : Appended)
deriving DecidableEq, Repr

/-- What becomes of a rewrite; `replaced` says whether the file is the new one. -/
inductive PersistIo where
  | ok
  | failed (e : ShieldError) (replaced : Bool)
  | stopped (replaced : Bool)
deriving DecidableEq, Repr

/-! ## The vault -/

/-- How a call ends without a value: with an error, or because the process stops. -/
inductive Halt where
  | error (e : ShieldError)
  | stopped
deriving DecidableEq, Repr

/-- `CredentialVault` with its file.  `nextId` numbers the entries. -/
structure CredentialVault where
  entries : List VaultEntry
  poolSize : Nat
  replenishThreshold : Nat
  currentEpoch : Nat
  file : List Chunk
  nextId : Nat
deriving DecidableEq, Repr

/-- A method of the vault. -/
abbrev VaultCall := Act CredentialVault Halt

/-- `CredentialVault::new`. -/
def CredentialVault.new (env : VaultEnv) (file : List Chunk)
    (nextId poolSize replenishThreshold : Nat) : Except ShieldError CredentialVault := do
  let raw ← readAllEntries env file
  let entries := raw.take maxVaultEntries
  pure
    { entries := entries
      poolSize := min poolSize maxVaultEntries
      replenishThreshold := replenishThreshold
      currentEpoch := entries.foldl (fun epoch e => max epoch e.credential.issuedEpoch) 0
      file := file
      nextId := nextId }

/-- `persist_entries`: the file becomes the records of the entries. -/
def persistEntries (io : PersistIo) : VaultCall Unit := fun v =>
  let rewritten := { v with file := v.entries.map .record }
  match io with
  | .ok => (.ok (), rewritten)
  | .failed e replaced => (.error (.error e), if replaced then rewritten else v)
  | .stopped replaced => (.error .stopped, if replaced then rewritten else v)

/-- Undo a change in memory when the call returns an error. -/
def orRollback {α : Type} (call : VaultCall α) (rollback : List VaultEntry → List VaultEntry) :
    VaultCall α := fun v =>
  match call v with
  | (.error (.error e), w) => (.error (.error e), { w with entries := rollback w.entries })
  | result => result

/-- Change the entries at some places. -/
def modifyAll (indices : List Nat) (f : VaultEntry → VaultEntry) (entries : List VaultEntry) :
    List VaultEntry :=
  indices.foldl (fun es i => es.modify i f) entries

/-- Change the entries, and persist them or change them back. -/
def changeEntries (indices : List Nat) (f undo : VaultEntry → VaultEntry) (io : PersistIo) :
    VaultCall Unit := do
  Act.update fun v => { v with entries := modifyAll indices f v.entries }
  orRollback (persistEntries io) (modifyAll indices undo)

/-- The places of the entries that satisfy a test. -/
def indicesWhere (p : VaultEntry → Bool) (entries : List VaultEntry) : List Nat :=
  (List.range entries.length).filter fun i => (entries[i]?).any p

/-- The append of `add_credential`, and the push to memory that follows it. -/
def appendEntry (entry : VaultEntry) (io : AppendIo) : VaultCall Unit := fun v =>
  match io with
  | .ok =>
    (.ok (), { v with file := v.file ++ [.record entry], entries := v.entries ++ [entry] })
  | .failed e got => (.error (.error e), { v with file := got.file v.file entry })
  | .stopped got => (.error .stopped, { v with file := got.file v.file entry })

/-- `add_credential`, from the capacity check on. -/
def addValidated (c : BlindCredential) (io : AppendIo) : VaultCall Unit := do
  let v ← Act.read
  if maxVaultEntries ≤ v.entries.length then
    Act.stop (.error (.config ("vault capacity exhausted (max " ++ toString maxVaultEntries ++ ")")))
  else do
    Act.update fun v =>
      { v with currentEpoch := max v.currentEpoch c.issuedEpoch, nextId := v.nextId + 1 }
    appendEntry ⟨v.nextId, c, .available, none⟩ io

/-- `add_credential`. -/
def addCredential (c : BlindCredential) (io : AppendIo) : VaultCall Unit :=
  match c.validate with
  | .error reason => Act.stop (.error (.config reason))
  | .ok () => addValidated c io

/-- `consume_credential`. -/
def consumeCredential (now : Nat) (io : PersistIo) : VaultCall (BlindCredential × Nat) := do
  let v ← Act.read
  match v.entries.zipIdx.find? (fun p => p.1.status == .available) with
  | none => Act.stop (.error (.config "no available credentials in vault (fail-closed)"))
  | some (entry, idx) => do
    changeEntries [idx] (fun e => { e with status := .active, activatedAt := some now })
      (fun e => { e with status := .available, activatedAt := none }) io
    pure (entry.credential, idx)

/-- `mark_consumed`. -/
def markConsumed (index : Nat) (io : PersistIo) : VaultCall Unit := do
  let v ← Act.read
  match v.entries[index]? with
  | none =>
    Act.stop (.error (.config ("credential index " ++ toString index ++
      " out of bounds (vault size " ++ toString v.entries.length ++ ")")))
  | some entry =>
    if entry.status ≠ .active then
      Act.stop (.error (.credentialVault ("credential at index " ++ toString index ++
        " has status " ++ entry.status.debug ++ ", only Active credentials can be consumed")))
    else
      changeEntries [index] (fun e => { e with status := .consumed, activatedAt := none })
        (fun e => { e with status := entry.status, activatedAt := entry.activatedAt }) io

/-- `expire_old_epochs`. -/
def expireOldEpochs (epoch : Nat) (io : PersistIo) : VaultCall Nat := do
  let v ← Act.read
  let expired := indicesWhere
    (fun e => e.status == .available && decide (e.credential.issuedEpoch < epoch)) v.entries
  (if 0 < expired.length then
    changeEntries expired (fun e => { e with status := .expired })
      (fun e => { e with status := .available }) io
  else pure () : VaultCall Unit)
  Act.update fun v => { v with currentEpoch := max v.currentEpoch epoch }
  pure expired.length

/-- `available_count`, and `needs_replenishment` of `status`. -/
def CredentialVault.needsReplenishment (v : CredentialVault) : Bool :=
  (v.entries.countP fun e => e.status == .available) < v.replenishThreshold

/-- `generate_local_credential`, with its random bytes. -/
def generateLocalCredential (epoch : Nat) (credential : Fin 32 → UInt8) (signature : Fin 64 → UInt8) :
    BlindCredential :=
  ⟨List.ofFn credential, List.ofFn signature, "self-generated", epoch, .subscriber⟩

/-- The random bytes of one generated credential, and what becomes of its append. -/
structure Draw where
  credential : Fin 32 → UInt8
  signature : Fin 64 → UInt8
  io : AppendIo

/-- The loop of `replenish`.  A round adds an entry, so there are at most as many as the pool lacks,
    and one more that finds it full. -/
def replenishLoop (epoch : Nat) (draws : Nat → Draw) : Nat → Nat → VaultCall Nat
  | 0, added => pure added
  | rounds + 1, added => do
    let v ← Act.read
    if !v.needsReplenishment then pure added
    else if v.poolSize ≤ v.entries.length then pure added
    else do
      let draw := draws added
      addCredential (generateLocalCredential epoch draw.credential draw.signature) draw.io
      replenishLoop epoch draws rounds (added + 1)

/-- `replenish`. -/
def replenish (draws : Nat → Draw) : VaultCall Nat := do
  let v ← Act.read
  replenishLoop v.currentEpoch draws (v.poolSize - v.entries.length + 1) 0

/-- An Active entry whose session is long gone. -/
def VaultEntry.isOrphaned (e : VaultEntry) (now : Nat) : Bool :=
  e.status == .active &&
    match e.activatedAt with
    | some ts => decide (maxActiveAgeSecs < now - ts)
    | none => true

/-- `reclaim_orphaned_active`. -/
def reclaimOrphanedActive (now : Nat) (io : PersistIo) : VaultCall Nat := do
  let v ← Act.read
  let reclaimed := indicesWhere (fun e => e.isOrphaned now) v.entries
  if reclaimed.isEmpty then pure 0
  else do
    changeEntries reclaimed (fun e => { e with status := .expired, activatedAt := none })
      (fun e => { e with status := .active }) io
    pure reclaimed.length

/-! ## Processes -/

/-- The vault over time.  While no process runs, only the file of `vault` is there; `returned` are
    the entries that `consume_credential` has returned, the last one first. -/
structure VaultSystem where
  vault : CredentialVault
  running : Bool
  returned : List Nat

/-- A new, empty store. -/
def VaultSystem.new : VaultSystem :=
  ⟨⟨[], 0, 0, 0, [], 0⟩, false, []⟩

/-- A call on the vault, or the end or the start of a process. -/
inductive VaultOp where
  | openVault (poolSize replenishThreshold : Nat) (failure : Option ShieldError)
  | stop
  | addCredential (c : BlindCredential) (io : AppendIo)
  | consumeCredential (now : Nat) (io : PersistIo)
  | markConsumed (index : Nat) (io : PersistIo)
  | expireOldEpochs (epoch : Nat) (io : PersistIo)
  | replenish (draws : Nat → Draw)
  | reclaimOrphanedActive (now : Nat) (io : PersistIo)

namespace VaultSystem

/-- Perform a call, if a process has the vault open; the call may be where it stops. -/
def after {α : Type} (s : VaultSystem) (call : VaultCall α) : VaultSystem :=
  if s.running then
    { s with
      vault := (call s.vault).2
      running :=
        match (call s.vault).1 with
        | .error .stopped => false
        | _ => true }
  else s

/-- The entry that `consume_credential` returns, if it does. -/
def consumedEntry (s : VaultSystem) (now : Nat) (io : PersistIo) : Option VaultEntry :=
  if s.running then
    match (consumeCredential now io s.vault).1 with
    | .ok (_, idx) => s.vault.entries[idx]?
    | .error _ => none
  else none

/-- Open the file, in a new process. -/
def openFile (env : VaultEnv) (s : VaultSystem) (poolSize replenishThreshold : Nat) : VaultSystem :=
  match CredentialVault.new env s.vault.file s.vault.nextId poolSize replenishThreshold with
  | .ok v => { s with vault := v, running := true }
  | .error _ => { s with running := false }

end VaultSystem

/-- One event. -/
def vaultStep (env : VaultEnv) (s : VaultSystem) : VaultOp → Option VaultSystem
  | .openVault poolSize threshold none => some (s.openFile env poolSize threshold)
  | .openVault _ _ (some _) => some { s with running := false }
  | .stop => some { s with running := false }
  | .addCredential c io => some (s.after (addCredential c io))
  | .consumeCredential now io =>
    some { s.after (consumeCredential now io) with
      returned := ((s.consumedEntry now io).map VaultEntry.id).toList ++ s.returned }
  | .markConsumed index io => some (s.after (markConsumed index io))
  | .expireOldEpochs epoch io => some (s.after (expireOldEpochs epoch io))
  | .replenish draws => some (s.after (replenish draws))
  | .reclaimOrphanedActive now io => some (s.after (reclaimOrphanedActive now io))

end Vellaveto.Shield
