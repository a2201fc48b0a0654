/-
  THE ENCRYPTED STORE, BYTE BY BYTE (`vellaveto-mcp-shield/src/crypto.rs`).

  `write_encrypted_entry` appends a record to the file: four bytes of length, the nonce, the ciphertext.
  Where a call fails, the bytes that have reached the file stay there; the next call appends behind
  them.  (`rewrite_all_entries` writes a file of its own and renames it.)  `read_all_entries` goes from
  record to record and has nothing to find the next one by but the length of the one before.

    1. **Program** — `writeEncryptedEntry`, with the nonce that is drawn and the fault that the disk has
       as arguments, and `readAllEntries`.  The cipher is a parameter: `Aead`.
    2. **Reading** — `readLoop_records`: whole records, and fewer than four bytes behind them, are read
       back; `readLoop_torn`: a record that breaks off behind its length makes the read fail.
    3. **The vault** — `readAllEntries_rendered`: on a file of records, the last of which may be torn,
       this is how `CredentialVault` sees its store.
    4. **Runs** — `committed_entries_readable`: what was committed is read back in every state of a run
       in which no call leaves four bytes or more that are no record.
    5. **A torn record** — `torn_record_unreadable`, `torn_record_loses_entries`.
-/
import Vellaveto.Lib.Frames
import Vellaveto.Lib.Run
import Vellaveto.Shield.CredentialVault

namespace Vellaveto.Shield.EncryptedAuditStore

open Vellaveto.Lib

/-! ### Program -/

/-- XChaCha20-Poly1305 under the key of the store. -/
structure Aead where
  encrypt : List UInt8 → List UInt8 → Option (List UInt8)
  decrypt : List UInt8 → List UInt8 → Option (List UInt8)
  decrypt_encrypt : ∀ nonce plaintext ciphertext,
    encrypt nonce plaintext = some ciphertext → decrypt nonce ciphertext = some plaintext

/-- `NONCE_LEN`. -/
def nonceLen : Nat := 24

/-- `SALT_LEN`. -/
def saltLen : Nat := 16

/-- `FORMAT_VERSION`. -/
def formatVersion : UInt8 := 1

/-- The file that `EncryptedAuditStore::new` makes where there is none. -/
def newFile (salt : Fin saltLen → UInt8) : List UInt8 := formatVersion :: List.ofFn salt

/-- `encrypt`, with the nonce that is drawn. -/
def encrypt (cipher : Aead) (nonce : Fin nonceLen → UInt8) (plaintext : List UInt8) :
    Except ShieldError (List UInt8) :=
  match cipher.encrypt (List.ofFn nonce) plaintext with
  | some ciphertext => .ok (List.ofFn nonce ++ ciphertext)
  | none => .error (.encryption "encrypt: aead::Error")

/-- `decrypt`. -/
def decrypt (cipher : Aead) (data : List UInt8) : Except ShieldError (List UInt8) :=
  if data.length < nonceLen then .error (.decryption "data too short for nonce")
  else
    match cipher.decrypt (data.take nonceLen) (data.drop nonceLen) with
    | some plaintext => .ok plaintext
    | none => .error (.decryption "decrypt: aead::Error")

/-- The bytes that a call has to write. -/
def entryRecord (cipher : Aead) (nonce : Fin nonceLen → UInt8) (plaintext : List UInt8) :
    Except ShieldError (List UInt8) := do
  let encrypted ← encrypt cipher nonce plaintext
  if 2 ^ 32 ≤ encrypted.length then
    .error (.encryption "encrypted entry too large for u32 length")
  else .ok (frame 4 encrypted)

/-- A fault of the disk: how many bytes have reached the file, and what is reported. -/
structure Fault where
  written : Nat
  error : String
deriving DecidableEq, Repr

/-- What reaches the file of a record. -/
def reached (record : List UInt8) : Option Fault → List UInt8
  | none => record
  | some fault => record.take fault.written

/-- `write_encrypted_entry`: the file afterwards, and what is returned. -/
def writeEncryptedEntry (cipher : Aead) (file plaintext : List UInt8) (nonce : Fin nonceLen → UInt8)
    (fault : Option Fault) : List UInt8 × Except ShieldError Unit :=
  match entryRecord cipher nonce plaintext with
  | .error e => (file, .error e)
  | .ok record =>
    (file ++ reached record fault,
      match fault with
      | none => .ok ()
      | some fault => .error (.io fault.error))

/-- The loop of `read_all_entries`, from the bytes that are left. -/
def readLoop (cipher : Aead) (data : List UInt8) (count : Nat) :
    Except ShieldError (List (List UInt8)) :=
  if data.length < 4 then .ok []
  else if maxStoreEntries ≤ count then
    .error (.decryption ("store contains more than " ++ toString maxStoreEntries ++
      " entries (possible corruption or attack)"))
  else
    let len := leNat (data.take 4)
    if (data.drop 4).length < len then .error (.decryption "truncated entry")
    else do
      let plaintext ← decrypt cipher ((data.drop 4).take len)
      let entries ← readLoop cipher ((data.drop 4).drop len) (count + 1)
      .ok (plaintext :: entries)
termination_by data.length
decreasing_by
  simp only [List.length_drop]
  omega

/-- `read_all_entries`. -/
def readAllEntries (cipher : Aead) (file : List UInt8) : Except ShieldError (List (List UInt8)) :=
  if maxStoreFileSize < file.length then
    .error (.decryption ("store file too large (" ++ toString file.length ++ " bytes, max " ++
      toString maxStoreFileSize ++ " bytes)"))
  else if file.length < headerLen then .ok []
  else readLoop cipher (file.drop headerLen) 0

/-! ### Reading -/

section Reading

variable {cipher : Aead} {nonce : Fin nonceLen → UInt8} {plaintext data tail : List UInt8}

/-- What was encrypted is decrypted. -/
theorem decrypt_of_encrypt (h : encrypt cipher nonce plaintext = .ok data) :
    decrypt cipher data = .ok plaintext := by
  unfold encrypt at h
  split at h
  · rename_i ciphertext hciphertext
    cases h
    have hlen : (List.ofFn nonce).length = nonceLen := List.length_ofFn
    have hlong : ¬ (List.ofFn nonce ++ ciphertext).length < nonceLen := by
      rw [List.length_append]
      omega
    unfold decrypt
    rw [if_neg hlong, List.take_left' hlen, List.drop_left' hlen]
    rw [cipher.decrypt_encrypt _ _ _ hciphertext]
  · cases h

/-- A record is a frame around data that decrypts to the plaintext. -/
theorem entryRecord_spec {record : List UInt8} (h : entryRecord cipher nonce plaintext = .ok record) :
    ∃ data, record = frame 4 data ∧ data.length < 2 ^ 32 ∧ decrypt cipher data = .ok plaintext := by
  unfold entryRecord at h
  cases hdata : encrypt cipher nonce plaintext with
  | error e =>
    rw [hdata] at h
    cases h
  | ok data =>
    rw [hdata] at h
    replace h : (if 2 ^ 32 ≤ data.length then _ else .ok (frame 4 data)) = Except.ok record := h
    split at h
    · cases h
    · rename_i hsmall
      cases h
      exact ⟨data, rfl, Nat.lt_of_not_le hsmall, decrypt_of_encrypt hdata⟩

/-- Data that a reader finds in a record, and what it decrypts to. -/
def Decrypts (cipher : Aead) (data plaintext : List UInt8) : Prop :=
  data.length < 2 ^ 32 ∧ decrypt cipher data = .ok plaintext

/-- One round of the loop, at a whole record. -/
theorem readLoop_frame (hdata : Decrypts cipher data plaintext) {count : Nat}
    (hcount : count < maxStoreEntries) :
    readLoop cipher (frame 4 data ++ tail) count =
      (readLoop cipher tail (count + 1)).map (plaintext :: ·) := by
  have hsize : data.length < 256 ^ 4 := hdata.1
  have hlong : ¬ (frame 4 data ++ tail).length < 4 := by
    rw [List.length_append, length_frame]
    omega
  have hroom : ¬ maxStoreEntries ≤ count := by omega
  have hwhole : ¬ (data ++ tail).length < data.length := by
    rw [List.length_append]
    omega
  rw [readLoop, if_neg hlong, if_neg hroom]
  simp only
  rw [take_frame_append, drop_frame_append, leNat_leBytes hsize, if_neg hwhole, List.take_left,
    List.drop_left, hdata.2]
  cases readLoop cipher tail (count + 1) <;> rfl

/-- **Whole records** are read back, and fewer than four bytes behind them are not looked at. -/
theorem readLoop_records {datas entries : List (List UInt8)}
    (hdatas : List.Forall₂ (Decrypts cipher) datas entries) (htail : tail.length < 4) {count : Nat}
    (hcount : count + entries.length ≤ maxStoreEntries) :
    readLoop cipher ((datas.map (frame 4)).flatten ++ tail) count = .ok entries := by
  induction hdatas generalizing count with
  | nil =>
    rw [List.map_nil, List.flatten_nil, List.nil_append, readLoop, if_pos htail]
  | cons hdata _ ih =>
    rw [List.length_cons] at hcount
    rw [List.map_cons, List.flatten_cons, List.append_assoc, readLoop_frame hdata (by omega),
      ih (by omega)]
    rfl

/-- **A torn record** behind whole ones makes the read fail. -/
theorem readLoop_torn {datas entries : List (List UInt8)}
    (hdatas : List.Forall₂ (Decrypts cipher) datas entries) (hsize : data.length < 2 ^ 32) {k : Nat}
    (hk : 4 ≤ k) (htorn : k < (frame 4 data).length) {count : Nat}
    (hcount : count + entries.length < maxStoreEntries) :
    readLoop cipher ((datas.map (frame 4)).flatten ++ (frame 4 data).take k) count =
      .error (.decryption "truncated entry") := by
  induction hdatas generalizing count with
  | nil =>
    have hlong : ¬ ((frame 4 data).take k).length < 4 := by
      rw [List.length_take]
      omega
    have hroom : ¬ maxStoreEntries ≤ count := by
      rw [List.length_nil] at hcount
      omega
    have hshort := length_drop_take_frame htorn hk
    rw [List.map_nil, List.flatten_nil, List.nil_append, readLoop, if_neg hlong, if_neg hroom]
    simp only
    rw [take_take_frame hk, leNat_leBytes hsize, if_pos hshort]
  | cons hdata _ ih =>
    rw [List.length_cons] at hcount
    rw [List.map_cons, List.flatten_cons, List.append_assoc, readLoop_frame hdata (by omega),
      ih (by omega)]
    rfl

/-- The header is skipped. -/
theorem readAllEntries_newFile {salt : Fin saltLen → UInt8} {body : List UInt8}
    (hsize : (newFile salt ++ body).length ≤ maxStoreFileSize) :
    readAllEntries cipher (newFile salt ++ body) = readLoop cipher body 0 := by
  have hheader : (newFile salt).length = headerLen := by
    rw [newFile, List.length_cons, List.length_ofFn]
    rfl
  have hlong : ¬ (newFile salt ++ body).length < headerLen := by
    rw [List.length_append]
    omega
  unfold readAllEntries
  rw [if_neg (Nat.not_lt_of_le hsize), if_neg hlong, List.drop_left' hheader]

end Reading

/-! ### The records of the vault

  `CredentialVault` sees the file as a list of records, the last of which may be torn.  On such a file the
  two ways of reading agree. -/

/-- How the entries of the vault are written: as JSON, and encrypted with their nonces. -/
structure Rendering (env : VaultEnv) (cipher : Aead) where
  json : VaultEntry → List UInt8
  data : VaultEntry → List UInt8
  decrypts : ∀ e, Decrypts cipher (data e) (json e)
  length : ∀ e, (data e).length = 24 + env.jsonLen e + 16

section Vault

variable {env : VaultEnv} {cipher : Aead} (r : Rendering env cipher)

/-- Whole records, and perhaps the first bytes of another one. -/
def storeFile (entries : List VaultEntry) (torn : Option (VaultEntry × Nat)) : List Chunk :=
  entries.map Chunk.record ++ torn.toList.map fun p => Chunk.torn p.1 p.2

/-- The bytes of a part of the file. -/
def Rendering.bytes : Chunk → List UInt8
  | .record e => frame 4 (r.data e)
  | .torn e written => (frame 4 (r.data e)).take (min written (env.recordLen e - 1))

theorem length_bytes (chunk : Chunk) : (r.bytes chunk).length = env.chunkLen chunk := by
  cases chunk with
  | record e =>
    show (frame 4 (r.data e)).length = 4 + 24 + env.jsonLen e + 16
    rw [length_frame, r.length]
    omega
  | torn e written =>
    show ((frame 4 (r.data e)).take _).length = min written (env.recordLen e - 1)
    have hrecord : env.recordLen e = 4 + 24 + env.jsonLen e + 16 := rfl
    rw [List.length_take, length_frame, r.length]
    omega

theorem length_flatMap_bytes (file : List Chunk) : (file.flatMap r.bytes).length = env.fileLen file := by
  rw [List.length_flatMap, VaultEnv.fileLen]
  exact congrArg List.sum (List.map_congr_left fun chunk _ => length_bytes r chunk)

/-- A store with too many entries is refused before the next one is looked at. -/
theorem readLoop_full {data : List UInt8} {count : Nat} (hlong : ¬ data.length < 4)
    (hfull : maxStoreEntries ≤ count) :
    readLoop cipher data count =
      .error (.decryption ("store contains more than " ++ toString maxStoreEntries ++
        " entries (possible corruption or attack)")) := by
  rw [readLoop, if_neg hlong, if_pos hfull]

/-- The first bytes of a record. -/
theorem readLoop_bytes_torn (hmisread : env.misreadError = "truncated entry") (e : VaultEntry)
    (written count : Nat) :
    readLoop cipher (r.bytes (.torn e written)) count =
      (Shield.readLoop env [.torn e written] count).map (List.map r.json) := by
  have hlen : env.fileLen [.torn e written] = (r.bytes (.torn e written)).length := by
    rw [length_bytes]
    exact Nat.add_zero _
  simp only [Shield.readLoop, hlen]
  split
  · rename_i hshort
    rw [readLoop, if_pos hshort]
    rfl
  · rename_i hlong
    split
    · rename_i hfull
      exact readLoop_full hlong hfull
    · rename_i hroom
      have hbound : (frame 4 (r.data e)).length = env.recordLen e := length_bytes r (.record e)
      have hpos : 0 < env.recordLen e := Nat.succ_pos _
      rw [length_bytes] at hlong
      have hkept : env.chunkLen (.torn e written) = min written (env.recordLen e - 1) := rfl
      have htorn := @readLoop_torn cipher (r.data e) [] [] .nil (r.decrypts e).1
        (min written (env.recordLen e - 1)) (by omega) (by omega) count (Nat.lt_of_not_le hroom)
      rw [hmisread]
      exact htorn

/-- The loop on whole records, and the first bytes of another one. -/
theorem readLoop_rendered (hmisread : env.misreadError = "truncated entry")
    (entries : List VaultEntry) (torn : Option (VaultEntry × Nat)) (count : Nat) :
    readLoop cipher ((storeFile entries torn).flatMap r.bytes) count =
      (Shield.readLoop env (storeFile entries torn) count).map (List.map r.json) := by
  unfold storeFile
  induction entries generalizing count with
  | nil =>
    cases torn with
    | none =>
      show readLoop cipher [] count = .ok []
      rw [readLoop, if_pos (by decide)]
    | some last =>
      show readLoop cipher (r.bytes (.torn last.1 last.2) ++ []) count = _
      rw [List.append_nil]
      exact readLoop_bytes_torn r hmisread last.1 last.2 count
  | cons e entries ih =>
    generalize torn.toList.map (fun p => Chunk.torn p.1 p.2) = behind at ih
    have hlong : ¬ env.fileLen (.record e :: (entries.map Chunk.record ++ behind)) < 4 := by
      show ¬ env.recordLen e + _ < 4
      have hrecord : env.recordLen e = 4 + 24 + env.jsonLen e + 16 := rfl
      omega
    rw [List.map_cons, List.cons_append, List.flatMap_cons]
    simp only [Shield.readLoop, if_neg hlong]
    split
    · rename_i hfull
      rw [← length_flatMap_bytes r] at hlong
      exact readLoop_full hlong hfull
    · rename_i hroom
      show readLoop cipher (frame 4 (r.data e) ++ _) count = _
      rw [readLoop_frame (r.decrypts e) (Nat.lt_of_not_le hroom), ih]
      cases Shield.readLoop env (entries.map Chunk.record ++ behind) (count + 1) <;> rfl

/-- **Both ways of reading agree.** -/
theorem readAllEntries_rendered (hmisread : env.misreadError = "truncated entry")
    (salt : Fin saltLen → UInt8) (entries : List VaultEntry) (torn : Option (VaultEntry × Nat)) :
    readAllEntries cipher (newFile salt ++ (storeFile entries torn).flatMap r.bytes) =
      (Shield.readAllEntries env (storeFile entries torn)).map (List.map r.json) := by
  have hlength : (newFile salt ++ (storeFile entries torn).flatMap r.bytes).length =
      headerLen + env.fileLen (storeFile entries torn) := by
    rw [List.length_append, length_flatMap_bytes, newFile, List.length_cons, List.length_ofFn]
    rfl
  unfold Shield.readAllEntries
  simp only
  split
  · rename_i hlarge
    rw [← hlength] at hlarge ⊢
    unfold readAllEntries
    rw [if_pos hlarge]
    rfl
  · rename_i hsmall
    rw [readAllEntries_newFile (by rw [hlength]; exact Nat.le_of_not_lt hsmall)]
    exact readLoop_rendered r hmisread entries torn 0

end Vault

/-! ### Runs -/

/-- The file, the number of bytes behind its last whole record, the plaintexts of the calls that returned
    `Ok`, and those of the calls that failed with their record whole in the file. -/
structure StoreSystem where
  file : List UInt8
  tail : Nat
  committed : List (List UInt8)
  unsynced : List (List UInt8)
deriving DecidableEq, Repr

def StoreSystem.new (salt : Fin saltLen → UInt8) : StoreSystem where
  file := newFile salt
  tail := 0
  committed := []
  unsynced := []

inductive StoreAction where
  | write (plaintext : List UInt8) (nonce : Fin nonceLen → UInt8) (fault : Option Fault)

/-- The bytes behind the last whole record, when these bytes of a record are appended. -/
def tailAfter (tail : Nat) (record written : List UInt8) : Nat :=
  if tail = 0 ∧ written = record then 0 else tail + written.length

def storeStep (cipher : Aead) (s : StoreSystem) : StoreAction → Option StoreSystem
  | .write plaintext nonce fault =>
    let (file, result) := writeEncryptedEntry cipher s.file plaintext nonce fault
    some
      { file := file
        tail :=
          match entryRecord cipher nonce plaintext with
          | .ok record => tailAfter s.tail record (reached record fault)
          | .error _ => s.tail
        committed :=
          match result with
          | .ok () => s.committed ++ [plaintext]
          | .error _ => s.committed
        unsynced :=
          match result, entryRecord cipher nonce plaintext with
          | .error _, .ok record =>
            if reached record fault = record then s.unsynced ++ [plaintext] else s.unsynced
          | _, _ => s.unsynced }

/-- What a call leaves in the file is a whole record directly behind the others, or leaves fewer than
    four bytes behind them. -/
def LeavesNoPart (cipher : Aead) (s : StoreSystem) : StoreAction → Prop
  | .write plaintext nonce fault =>
    ∀ record, entryRecord cipher nonce plaintext = .ok record →
      (s.tail = 0 ∧ reached record fault = record) ∨ s.tail + (reached record fault).length < 4

/-- Within the limits, reading gives what was committed, in order; nothing else, unless a call failed with
    its record whole in the file. -/
def Readable (cipher : Aead) (s : StoreSystem) : Prop :=
  s.file.length ≤ maxStoreFileSize → s.committed.length + s.unsynced.length ≤ maxStoreEntries →
    ∃ entries, readAllEntries cipher s.file = .ok entries ∧ s.committed.Sublist entries ∧
      (s.unsynced = [] → entries = s.committed)

/-- The file is a header, whole records and fewer than four bytes. -/
structure Layout (cipher : Aead) (salt : Fin saltLen → UInt8) (s : StoreSystem)
    (datas entries : List (List UInt8)) (tail : List UInt8) : Prop where
  file : s.file = newFile salt ++ ((datas.map (frame 4)).flatten ++ tail)
  datas : List.Forall₂ (Decrypts cipher) datas entries
  tail : tail.length = s.tail
  short : s.tail < 4
  committed : s.committed.Sublist entries
  length : entries.length = s.committed.length + s.unsynced.length

section Steps

variable {cipher : Aead} {salt : Fin saltLen → UInt8} {s s' : StoreSystem} {a : StoreAction}
  {datas entries : List (List UInt8)} {tail : List UInt8}

/-- What is laid out so can be read. -/
theorem Layout.readable (h : Layout cipher salt s datas entries tail) : Readable cipher s := by
  intro hsize hentries
  refine ⟨entries, ?_, h.committed, ?_⟩
  · rw [h.file] at hsize ⊢
    rw [readAllEntries_newFile hsize]
    refine readLoop_records h.datas ?_ ?_
    · rw [h.tail]
      exact h.short
    · rw [h.length]
      omega
  · intro hsynced
    have hlength := h.length
    rw [hsynced, List.length_nil] at hlength
    exact (h.committed.eq_of_length hlength.symm).symm

/-- A whole record more. -/
theorem Layout.append_record (h : Layout cipher salt s datas entries tail) (hzero : s.tail = 0)
    {data plaintext : List UInt8} (hdata : Decrypts cipher data plaintext)
    (hfile : s'.file = s.file ++ frame 4 data) (htail : s'.tail = 0)
    (hcommitted : s'.committed.Sublist (entries ++ [plaintext]))
    (hlength : s'.committed.length + s'.unsynced.length =
      s.committed.length + s.unsynced.length + 1) :
    Layout cipher salt s' (datas ++ [data]) (entries ++ [plaintext]) [] := by
  obtain rfl : tail = [] := List.eq_nil_of_length_eq_zero (h.tail.trans hzero)
  refine ⟨?_, ?_, htail.symm, ?_, hcommitted, ?_⟩
  · rw [hfile, h.file]
    simp only [List.map_append, List.map_cons, List.map_nil, List.flatten_append, List.flatten_cons,
      List.flatten_nil, List.append_nil, List.append_assoc]
  · exact List.rel_append h.datas (.cons hdata .nil)
  · rw [htail]
    exact Nat.succ_pos 3
  · rw [List.length_append, List.length_singleton, h.length, hlength]

/-- A few bytes more. -/
theorem Layout.append_bytes (h : Layout cipher salt s datas entries tail) {written : List UInt8}
    (hshort : s.tail + written.length < 4) (hfile : s'.file = s.file ++ written)
    (htail : s'.tail = s.tail + written.length) (hcommitted : s'.committed = s.committed)
    (hunsynced : s'.unsynced = s.unsynced) :
    Layout cipher salt s' datas entries (tail ++ written) := by
  refine ⟨?_, h.datas, ?_, ?_, ?_, ?_⟩
  · rw [hfile, h.file]
    simp only [List.append_assoc]
  · rw [List.length_append, h.tail, htail]
  · rw [htail]
    exact hshort
  · rw [hcommitted]
    exact h.committed
  · rw [hcommitted, hunsynced]
    exact h.length

/-- What a step can do: nothing, append a record, or append the bytes of one that a fault lets through. -/
theorem storeStep_cases {plaintext : List UInt8} {nonce : Fin nonceLen → UInt8}
    {fault : Option Fault} (hstep : storeStep cipher s (.write plaintext nonce fault) = some s') :
    ((∃ e, entryRecord cipher nonce plaintext = .error e) ∧ s' = s) ∨
    ∃ record, entryRecord cipher nonce plaintext = .ok record ∧
      s'.file = s.file ++ reached record fault ∧
      s'.tail = tailAfter s.tail record (reached record fault) ∧
      ((fault = none ∧ s'.committed = s.committed ++ [plaintext] ∧ s'.unsynced = s.unsynced) ∨
        (s'.committed = s.committed ∧
          s'.unsynced =
            if reached record fault = record then s.unsynced ++ [plaintext] else s.unsynced)) := by
  simp only [storeStep, writeEncryptedEntry, Option.some.injEq] at hstep
  cases hrecord : entryRecord cipher nonce plaintext with
  | error e =>
    rw [hrecord] at hstep
    exact .inl ⟨⟨e, rfl⟩, hstep.symm⟩
  | ok record =>
    rw [hrecord] at hstep
    right
    cases fault with
    | none =>
      cases hstep
      exact ⟨record, rfl, rfl, rfl, .inl ⟨rfl, rfl, rfl⟩⟩
    | some fault =>
      cases hstep
      exact ⟨record, rfl, rfl, rfl, .inr ⟨rfl, rfl⟩⟩

/-- **One step** keeps the layout, if it leaves no part of a record that is read. -/
theorem Layout.step (h : Layout cipher salt s datas entries tail) (hpart : LeavesNoPart cipher s a)
    (hstep : storeStep cipher s a = some s') :
    ∃ datas' entries' tail', Layout cipher salt s' datas' entries' tail' := by
  obtain ⟨plaintext, nonce, fault⟩ := a
  rcases storeStep_cases hstep with ⟨-, rfl⟩ | ⟨record, hrecord, hfile, htail, hresult⟩
  · exact ⟨datas, entries, tail, h⟩
  obtain ⟨data, rfl, hdata⟩ := entryRecord_spec hrecord
  rcases hpart _ hrecord with ⟨hzero, hwhole⟩ | hshort
  · rw [hwhole] at hfile htail hresult
    rw [tailAfter, if_pos ⟨hzero, rfl⟩] at htail
    refine ⟨_, _, _, h.append_record hzero hdata hfile htail ?_ ?_⟩
    · rcases hresult with ⟨-, hcommitted, -⟩ | ⟨hcommitted, -⟩
      · rw [hcommitted]
        exact h.committed.append_right [plaintext]
      · rw [hcommitted]
        exact h.committed.trans (List.sublist_append_left entries [plaintext])
    · rcases hresult with ⟨-, hcommitted, hunsynced⟩ | ⟨hcommitted, hunsynced⟩
      · rw [hcommitted, hunsynced, List.length_append, List.length_singleton]
        omega
      · rw [hcommitted, hunsynced, if_pos rfl, List.length_append, List.length_singleton]
        omega
  · have hpartial : reached (frame 4 data) fault ≠ frame 4 data := by
      intro hwhole
      rw [hwhole, length_frame] at hshort
      omega
    rw [tailAfter, if_neg fun hboth => hpartial hboth.2] at htail
    rcases hresult with ⟨rfl, -, -⟩ | ⟨hcommitted, hunsynced⟩
    · exact absurd rfl hpartial
    · rw [if_neg hpartial] at hunsynced
      exact ⟨_, _, _, h.append_bytes hshort hfile htail hcommitted hunsynced⟩

end Steps

/-- **What was committed stays readable** in every state of a run in which no call leaves four bytes or more
    behind the whole records. -/
theorem committed_entries_readable (cipher : Aead) (salt : Fin saltLen → UInt8)
    (actions : List StoreAction)
    (hparts : EachStep (storeStep cipher) (fun s a _ => LeavesNoPart cipher s a) (.new salt) actions) :
    EachStep (storeStep cipher) (fun _ _ s => Readable cipher s) (.new salt) actions := by
  refine EachStep.of_invariant
    (I := fun s => ∃ datas entries tail, Layout cipher salt s datas entries tail) ?_ hparts ?_
  · rintro s a s' - ⟨datas, entries, tail, hs⟩ hpart hstep
    obtain ⟨datas', entries', tail', hs'⟩ := hs.step hpart hstep
    exact ⟨⟨datas', entries', tail', hs'⟩, hs'.readable⟩
  · refine ⟨[], [], [], ?_, .nil, rfl, Nat.succ_pos 3, .slnil, rfl⟩
    exact (List.append_nil _).symm

instance (cipher : Aead) (s : StoreSystem) : (a : StoreAction) → Decidable (LeavesNoPart cipher s a)
  | .write plaintext nonce fault =>
    match hrecord : entryRecord cipher nonce plaintext with
    | .error _ => isTrue fun record h => by cases hrecord.symm.trans h
    | .ok record =>
      decidable_of_iff
        ((s.tail = 0 ∧ reached record fault = record) ∨ s.tail + (reached record fault).length < 4)
        ⟨fun h r hr => Except.ok.inj (hrecord.symm.trans hr) ▸ h, fun h => h record hrecord⟩

/-- The ciphertext and the tag of `a` under the key and the nonce of zeros. -/
def sealedA : List UInt8 :=
  [25, 132, 31, 76, 136, 102, 239, 171, 108, 107, 83, 41, 174, 249, 227, 103, 82]

/-- XChaCha20-Poly1305 under the key of zeros, for that one text. -/
def zeroKey : Aead where
  encrypt nonce plaintext :=
    if nonce = List.replicate 24 0 ∧ plaintext = [97] then some sealedA else none
  decrypt nonce ciphertext :=
    if nonce = List.replicate 24 0 ∧ ciphertext = sealedA then some [97] else none
  decrypt_encrypt := by
    intro nonce plaintext ciphertext h
    split at h
    · rename_i hone
      cases h
      rw [if_pos ⟨hone.1, rfl⟩, hone.2]
    · cases h

/-- A call that writes `a`. -/
def writeA (fault : Option Fault) : StoreAction := .write [97] (fun _ => 0) fault

/-- Three bytes of a record that was not written do no harm. -/
theorem committed_entries_readable_short :
    let calls := [writeA none, writeA none, writeA (some ⟨3, "No space left on device"⟩)]
    EachStep (storeStep zeroKey) (fun _ _ s => Readable zeroKey s) (.new fun _ => 7) calls ∧
      (run (storeStep zeroKey) (.new fun _ => 7) calls).map (fun s => (s.committed, s.tail)) =
        some ([[97], [97]], 3) :=
  ⟨committed_entries_readable zeroKey _ _ (by decide +kernel), by decide +kernel⟩

/-- Every entry written as `a`, under the key of zeros. -/
def renderA : Rendering ⟨fun _ => 1, "truncated entry"⟩ zeroKey where
  json _ := [97]
  data _ := List.replicate 24 0 ++ sealedA
  decrypts _ := ⟨by decide, by decide +kernel⟩
  length _ := rfl

/-- A record and nine bytes of another one: both ways of reading refuse the file. -/
theorem readAllEntries_rendered_torn :
    let entry : VaultEntry := ⟨1, ⟨[1], [2], "key", 3, .subscriber⟩, .available, none⟩
    readAllEntries zeroKey
      (newFile (fun _ => 7) ++ (storeFile [entry] (some (entry, 9))).flatMap renderA.bytes) =
        .error (.decryption "truncated entry") := by
  intro entry
  rw [readAllEntries_rendered renderA rfl]
  decide +kernel

/-! ### A torn record -/

/-- **A torn record** makes everything before it unreadable: a call that fails behind the length of its
    record, and before its end. -/
theorem torn_record_unreadable {cipher : Aead} {salt : Fin saltLen → UInt8} {s s' : StoreSystem}
    {datas entries : List (List UInt8)} (h : Layout cipher salt s datas entries [])
    {plaintext record : List UInt8} {nonce : Fin nonceLen → UInt8} {fault : Fault}
    (hrecord : entryRecord cipher nonce plaintext = .ok record) (hlength : 4 ≤ fault.written)
    (hshort : fault.written < record.length)
    (hstep : storeStep cipher s (.write plaintext nonce (some fault)) = some s')
    (hsize : s'.file.length ≤ maxStoreFileSize) (hentries : entries.length < maxStoreEntries) :
    readAllEntries cipher s'.file = .error (.decryption "truncated entry") := by
  rcases storeStep_cases hstep with ⟨⟨e, he⟩, -⟩ | ⟨record', hrecord', hfile, -, -⟩
  · cases hrecord.symm.trans he
  · cases hrecord.symm.trans hrecord'
    obtain ⟨data, rfl, hdata⟩ := entryRecord_spec hrecord
    rw [h.file, List.append_nil, List.append_assoc] at hfile
    rw [hfile] at hsize ⊢
    rw [readAllEntries_newFile hsize]
    exact readLoop_torn h.datas hdata.1 hlength hshort (by omega)

/-- The entry that was committed before a torn record cannot be read. -/
theorem torn_record_loses_entries :
    let calls := [writeA none, writeA (some ⟨4, "No space left on device"⟩)]
    ¬ EachStep (storeStep zeroKey) (fun _ _ s => Readable zeroKey s) (.new fun _ => 7) calls := by
  intro calls heach
  obtain ⟨-, hrest⟩ := heach _ rfl
  obtain ⟨hreadable, -⟩ := hrest _ rfl
  obtain ⟨entries, hread, -⟩ := hreadable (by decide +kernel) (by decide +kernel)
  have htorn : (run (storeStep zeroKey) (.new fun _ => 7) calls).map
      (fun s => readAllEntries zeroKey s.file) =
        some (.error (.decryption "truncated entry")) := by decide +kernel
  cases hread.symm.trans (Option.some.inj htorn)

end Vellaveto.Shield.EncryptedAuditStore
