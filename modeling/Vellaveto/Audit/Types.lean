/-
  TYPES OF THE AUDIT TRAIL: entries, checkpoints and what the verifiers report
  (`vellaveto-audit/src/types.rs`, `merkle.rs`), and the hash functions everything rests on.

  SHA-256 is an arbitrary function here.  Its values are 32-byte arrays in the code (`Hash32`); the
  results that assume it free of collisions cannot be about so few values, so a DIGEST is a value of
  any type `H` that can be written as bytes and read back (`Digests`).
-/
import Vellaveto.Json
import Vellaveto.Lib.Hex
import Vellaveto.Types.Core

namespace Vellaveto.Audit

open Vellaveto.Lib

/-- `AuditError`. -/
inductive AuditError where
  | io (message : String)
  | serialization (message : String)
  | validation (message : String)
deriving DecidableEq, Repr

/-! ## Digests -/

/-- SHA-256 and the bytes of its values. -/
structure Digests (H : Type) where
  sha256 : List UInt8 → H
  /-- the bytes of a digest -/
  bytes : H → List UInt8
  /-- the digest with these bytes: `copy_from_slice` after the length has been checked -/
  ofBytes : List UInt8 → Option H
  ofBytes_bytes : ∀ h, ofBytes (bytes h) = some h
  bytes_of_ofBytes : ∀ {bs h}, ofBytes bs = some h → bytes h = bs

/-- `[u8; 32]`. -/
abbrev Hash32 := {bs : List UInt8 // bs.length = 32}

/-- The digests of the code, for any function in the place of SHA-256. -/
def Digests.ofSha256 (sha256 : List UInt8 → Hash32) : Digests Hash32 where
  sha256 := sha256
  bytes h := h.1
  ofBytes bs := if h : bs.length = 32 then some ⟨bs, h⟩ else none
  ofBytes_bytes h := dif_pos h.2
  bytes_of_ofBytes {bs h} heq := by
    split at heq
    · cases heq; rfl
    · cases heq

/-- `encode_hash_hex`. -/
def Digests.encodeHashHex {H : Type} (d : Digests H) (h : H) : String := hexEncode (d.bytes h)

theorem Digests.bytes_injective {H : Type} (d : Digests H) : Function.Injective d.bytes := by
  intro a b hab
  have h : d.ofBytes (d.bytes a) = d.ofBytes (d.bytes b) := by rw [hab]
  simpa [d.ofBytes_bytes] using h

theorem Digests.encodeHashHex_injective {H : Type} (d : Digests H) :
    Function.Injective d.encodeHashHex := by
  intro a b hab
  exact d.bytes_injective (hexEncode_injective hab)

/-! ### Two simple hashes

  Concrete inputs use one of two functions in the place of SHA-256: the input itself, which has no
  collisions, and a short checksum, which is quick to compute. -/

/-- A byte string that shows where it ends: its length in ones, a zero, and the string. -/
def selfDelimited (bs : List UInt8) : List UInt8 := List.replicate bs.length 1 ++ 0 :: bs

/-- Read such a string back. -/
def unDelimited (bs : List UInt8) : Option (List UInt8) :=
  let ones := bs.takeWhile (· == 1)
  match bs.drop ones.length with
  | 0 :: rest => if rest.length = ones.length then some rest else none
  | _ => none

theorem takeWhile_selfDelimited (bs rest : List UInt8) :
    (selfDelimited bs ++ rest).takeWhile (· == 1) = List.replicate bs.length 1 := by
  rw [selfDelimited, List.append_assoc, List.takeWhile_append_of_pos (by simp)]
  simp

theorem selfDelimited_append_inj {a b rest rest' : List UInt8}
    (h : selfDelimited a ++ rest = selfDelimited b ++ rest') : a = b ∧ rest = rest' := by
  have hones := congrArg (List.takeWhile (· == 1)) h
  rw [takeWhile_selfDelimited, takeWhile_selfDelimited] at hones
  have hlen : a.length = b.length := by simpa using congrArg List.length hones
  have hsame : (selfDelimited a).length = (selfDelimited b).length := by simp [selfDelimited, hlen]
  obtain ⟨hab, hrest⟩ := List.append_inj h hsame
  rw [selfDelimited, selfDelimited, hlen] at hab
  exact ⟨(List.cons.inj (List.append_cancel_left hab)).2, hrest⟩

/-- A "hash" without collisions: the input itself. -/
def plainDigests : Digests (List UInt8) where
  sha256 := id
  bytes := selfDelimited
  ofBytes := unDelimited
  ofBytes_bytes bs := by
    have hones := takeWhile_selfDelimited bs []
    rw [List.append_nil] at hones
    have hdrop : (selfDelimited bs).drop bs.length = 0 :: bs := by
      rw [selfDelimited, List.drop_left' (by simp)]
    simp [unDelimited, hones, hdrop]
  bytes_of_ofBytes {bs h} heq := by
    simp only [unDelimited] at heq
    split at heq
    · rename_i rest hdrop
      split at heq
      · rename_i hlen
        cases heq
        have hones : bs.takeWhile (· == 1) = List.replicate h.length 1 := by
          rw [List.eq_replicate_iff]
          refine ⟨hlen.symm, fun b hb => ?_⟩
          have hall := List.all_takeWhile (l := bs) (p := (· == 1))
          simpa using List.all_eq_true.mp hall b hb
        have hpre := List.prefix_iff_eq_take.mp (List.takeWhile_prefix (l := bs) (· == 1))
        have hsplit := List.take_append_drop (bs.takeWhile (· == 1)).length bs
        rw [hdrop, ← hpre, hones] at hsplit
        exact hsplit
      · cases heq
    · cases heq

/-- A checksum of two bytes. -/
def checksum (bs : List UInt8) : Nat := bs.foldl (fun acc b => (acc * 257 + b.toNat + 1) % 65521) 7

/-- The checksum in the place of SHA-256. -/
def shortDigests : Digests (List UInt8) where
  sha256 bs := [UInt8.ofNat (checksum bs / 256), UInt8.ofNat (checksum bs % 256)]
  bytes := id
  ofBytes := some
  ofBytes_bytes _ := rfl
  bytes_of_ofBytes h := Option.some.inj h |>.symm

/-! ## Entries -/

/-- `AcisDecisionEnvelope`: the audit trail rewrites the reason and carries the other fields along. -/
structure AcisDecisionEnvelope where
  reason : String
  rest : Json
deriving DecidableEq, Repr

/-- `AuditEntry`. -/
structure AuditEntry where
  id : String
  action : Action
  verdict : Verdict
  timestamp : String
  metadata : Json
  sequence : Nat
  entryHash : Option String
  prevHash : Option String
  commitment : Option String
  tenantId : Option String
  acisEnvelope : Option AcisDecisionEnvelope
deriving DecidableEq, Repr

/-- `ChainVerification`. -/
structure ChainVerification where
  valid : Bool
  entriesChecked : Nat
  firstBrokenAt : Option Nat
deriving DecidableEq, Repr

/-- `Checkpoint`. -/
structure Checkpoint where
  id : String
  timestamp : String
  entryCount : Nat
  chainHeadHash : Option String
  signature : String
  verifyingKey : String
  merkleRoot : Option String
  pqcSignature : Option String
  pqcVerifyingKey : Option String
  signatureVersion : Option Nat
deriving DecidableEq, Repr

/-- `CheckpointVerification`. -/
structure CheckpointVerification where
  valid : Bool
  checkpointsChecked : Nat
  firstInvalidAt : Option Nat
  failureReason : Option String
deriving DecidableEq, Repr

/-- An entry of the rotation manifest, as `maybe_rotate` makes it. -/
structure ManifestEntry where
  timestamp : String
  rotatedFile : String
  tailHash : String
  startHash : String
  entryCount : Nat
  maxSequence : Nat
  previousHash : String
deriving DecidableEq, Repr

/-- Its JSON value, with the signature and the verifying key once it is signed; the keys are in the
    order of a `BTreeMap`. -/
def ManifestEntry.toJson (m : ManifestEntry) (signed : Option (String × String)) : Json :=
  .object ([("entry_count", .number (.posInt m.entryCount)),
      ("max_sequence", .number (.posInt m.maxSequence)), ("previous_hash", .string m.previousHash),
      ("rotated_file", .string m.rotatedFile)] ++
    (signed.map fun s => ("signature", Json.string s.1)).toList ++
    [("start_hash", .string m.startHash), ("tail_hash", .string m.tailHash),
      ("timestamp", .string m.timestamp)] ++
    (signed.map fun s => ("verifying_key", Json.string s.2)).toList)

/-- `RotationVerification`. -/
structure RotationVerification where
  valid : Bool
  filesChecked : Nat
  firstFailure : Option String
deriving DecidableEq, Repr

end Vellaveto.Audit
