/-
  HEXADECIMAL TEXT of bytes: what `encode` and `decode` of the `hex` crate compute.

  Encoding writes two LOWER-CASE digits a byte, the high half first.  Decoding works on the bytes of
  the text, takes both cases and reports the first thing it finds wrong.  `hexDecode_hexEncode` is the
  round trip; that encoding is injective follows from it.
-/
import Mathlib.Data.List.Basic
import Vellaveto.Lib.Encoding

namespace Vellaveto.Lib

/-- The digit of a value below 16. -/
def hexChar (n : Nat) : Char := if n < 10 then Char.ofNat (48 + n) else Char.ofNat (87 + n)

/-- The two digits of a byte. -/
def hexByte (b : UInt8) : List Char := [hexChar (b.toNat / 16), hexChar (b.toNat % 16)]

/-- `hex::encode`. -/
def hexEncode (bs : List UInt8) : String := String.ofList (bs.flatMap hexByte)

/-- `hex::FromHexError`, as far as decoding to a vector produces it. -/
inductive FromHexError where
  | invalidHexCharacter (c : Char) (index : Nat)
  | oddLength
deriving DecidableEq, Repr

/-- The `Display` text of the error. -/
def FromHexError.display : FromHexError → String
  | .invalidHexCharacter c index =>
    "Invalid character '" ++ String.ofList [c] ++ "' at position " ++ toString index
  | .oddLength => "Odd number of digits"

/-- The value of the digit at `index`. -/
def hexValue (b : UInt8) (index : Nat) : Except FromHexError UInt8 :=
  match hexDigit b with
  | some v => .ok v
  | none => .error (.invalidHexCharacter (Char.ofNat b.toNat) index)

/-- Decode the digits from `index` on, two at a time. -/
def hexPairs : List UInt8 → Nat → Except FromHexError (List UInt8)
  | hi :: lo :: rest, index => do
    let h ← hexValue hi index
    let l ← hexValue lo (index + 1)
    let bs ← hexPairs rest (index + 2)
    .ok ((h * 16 + l) :: bs)
  | _, _ => .ok []

/-- `hex::decode`. -/
def hexDecode (s : String) : Except FromHexError (List UInt8) :=
  let bytes := strBytes s
  if bytes.length % 2 = 1 then .error .oddLength else hexPairs bytes 0

/-- The digit of a value below 16 is one byte of UTF-8, and it is read as that value. -/
theorem hexDigit_hexChar : ∀ n < 16,
    ∃ b, String.utf8EncodeChar (hexChar n) = [b] ∧ hexDigit b = some (UInt8.ofNat n) := by
  have hall : ∀ n : Fin 16, ((String.utf8EncodeChar (hexChar n)).map hexDigit) =
      [some (UInt8.ofNat n)] := by decide
  intro n hn
  have h := hall ⟨n, hn⟩
  obtain ⟨b, hb, hd⟩ := List.map_eq_singleton_iff.mp h
  exact ⟨b, hb, hd⟩

/-- The two halves of a byte make the byte. -/
theorem halves_eq (b : UInt8) :
    UInt8.ofNat (b.toNat / 16) * 16 + UInt8.ofNat (b.toNat % 16) = b := by
  have hb : b.toNat < 256 := b.toNat_lt
  have h16 : UInt8.toNat 16 = 16 := rfl
  apply UInt8.toNat_inj.mp
  simp only [UInt8.toNat_add, UInt8.toNat_mul, UInt8.toNat_ofNat', h16]
  omega

theorem hexPairs_hexByte (b : UInt8) (bs : List UInt8) (index : Nat) :
    hexPairs (utf8Encode (hexByte b) ++ bs) index =
      (hexPairs bs (index + 2)).map (b :: ·) := by
  have hb : b.toNat < 256 := b.toNat_lt
  obtain ⟨hi, hhi, hvhi⟩ := hexDigit_hexChar (b.toNat / 16) (by omega)
  obtain ⟨lo, hlo, hvlo⟩ := hexDigit_hexChar (b.toNat % 16) (by omega)
  have hbytes : utf8Encode (hexByte b) ++ bs = hi :: lo :: bs := by
    simp [utf8Encode, hexByte, hhi, hlo]
  rw [hbytes]
  cases h : hexPairs bs (index + 2) with
  | error e => simp [hexPairs, hexValue, hvhi, hvlo, h, bind, Except.bind, Except.map]
  | ok xs =>
    simp [hexPairs, hexValue, hvhi, hvlo, h, bind, Except.bind, Except.map, halves_eq]

theorem utf8Encode_hexBytes_cons (b : UInt8) (bs : List UInt8) :
    utf8Encode ((b :: bs).flatMap hexByte) =
      utf8Encode (hexByte b) ++ utf8Encode (bs.flatMap hexByte) := by
  simp [utf8Encode]

theorem length_utf8Encode_hexByte (b : UInt8) : (utf8Encode (hexByte b)).length = 2 := by
  have hb : b.toNat < 256 := b.toNat_lt
  obtain ⟨hi, hhi, -⟩ := hexDigit_hexChar (b.toNat / 16) (by omega)
  obtain ⟨lo, hlo, -⟩ := hexDigit_hexChar (b.toNat % 16) (by omega)
  simp [utf8Encode, hexByte, hhi, hlo]

theorem hexPairs_flatMap_hexByte (bs : List UInt8) (index : Nat) :
    hexPairs (utf8Encode (bs.flatMap hexByte)) index = .ok bs := by
  induction bs generalizing index with
  | nil => rfl
  | cons b bs ih =>
    rw [utf8Encode_hexBytes_cons, hexPairs_hexByte, ih]
    rfl

/-- Two digits a byte. -/
theorem length_utf8Encode_hexBytes (bs : List UInt8) :
    (utf8Encode (bs.flatMap hexByte)).length = 2 * bs.length := by
  induction bs with
  | nil => rfl
  | cons b bs ih =>
    rw [utf8Encode_hexBytes_cons, List.length_append, length_utf8Encode_hexByte, ih, List.length_cons]
    omega

/-- **Round trip.** -/
@[simp] theorem hexDecode_hexEncode (bs : List UInt8) : hexDecode (hexEncode bs) = .ok bs := by
  have hlen := length_utf8Encode_hexBytes bs
  simp only [hexDecode, hexEncode, strBytes_eq, String.toList_ofList]
  rw [if_neg (by omega), hexPairs_flatMap_hexByte]

theorem hexEncode_injective : Function.Injective hexEncode := by
  intro a b hab
  have h : hexDecode (hexEncode a) = hexDecode (hexEncode b) := by rw [hab]
  simpa using h

theorem length_strBytes_hexEncode (bs : List UInt8) :
    (strBytes (hexEncode bs)).length = 2 * bs.length := by
  rw [hexEncode, strBytes_eq, String.toList_ofList, length_utf8Encode_hexBytes]

theorem hexEncode_cons_ne_empty (b : UInt8) (bs : List UInt8) : hexEncode (b :: bs) ≠ "" := by
  intro h
  have hempty : hexEncode (b :: bs) = hexEncode [] := h
  cases hexEncode_injective hempty

end Vellaveto.Lib
