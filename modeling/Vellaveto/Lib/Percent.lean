/-
  PERCENT-DECODING to UTF-8: what `percent_decode_str(s).decode_utf8()` of the `percent-encoding`
  crate computes.

  Decoding works on the UTF-8 BYTES of the text: `%` followed by two hexadecimal digits stands for
  the byte they spell, everything else stays as it is, and the result must again be valid UTF-8.
-/
import Mathlib.Data.List.Basic

namespace Vellaveto.Lib

/-- The UTF-8 bytes of a text. -/
def utf8Encode (cs : List Char) : List UInt8 := cs.flatMap String.utf8EncodeChar

/-- A continuation byte of UTF-8. -/
def isContinuation (b : UInt8) : Bool := 0x80 ≤ b && b ≤ 0xBF

/-- The six payload bits of a continuation byte. -/
def payload (b : UInt8) : Nat := b.toNat % 64

/-- Strict UTF-8 decoding: no overlong forms, no surrogates, nothing above `U+10FFFF`. -/
def utf8Decode : List UInt8 → Option (List Char)
  | [] => some []
  | b0 :: bs =>
    if b0 < 0x80 then (utf8Decode bs).map (Char.ofNat b0.toNat :: ·)
    else
      match bs with
      | b1 :: bs1 =>
        if 0xC2 ≤ b0 && b0 ≤ 0xDF && isContinuation b1 then
          (utf8Decode bs1).map (Char.ofNat (b0.toNat % 32 * 64 + payload b1) :: ·)
        else
          match bs1 with
          | b2 :: bs2 =>
            let c := b0.toNat % 16 * 4096 + payload b1 * 64 + payload b2
            if 0xE0 ≤ b0 && b0 ≤ 0xEF && isContinuation b1 && isContinuation b2
                && 0x800 ≤ c && !(0xD800 ≤ c && c ≤ 0xDFFF) then
              (utf8Decode bs2).map (Char.ofNat c :: ·)
            else
              match bs2 with
              | b3 :: bs3 =>
                let c := b0.toNat % 8 * 262144 + payload b1 * 4096 + payload b2 * 64 + payload b3
                if 0xF0 ≤ b0 && b0 ≤ 0xF4 && isContinuation b1 && isContinuation b2
                    && isContinuation b3 && 0x10000 ≤ c && c ≤ 0x10FFFF then
                  (utf8Decode bs3).map (Char.ofNat c :: ·)
                else none
              | [] => none
          | [] => none
      | [] => none

/-- The value of an ASCII hexadecimal digit. -/
def hexDigit (b : UInt8) : Option UInt8 :=
  if 0x30 ≤ b && b ≤ 0x39 then some (b - 0x30)
  else if 0x61 ≤ b && b ≤ 0x66 then some (b - 0x61 + 10)
  else if 0x41 ≤ b && b ≤ 0x46 then some (b - 0x41 + 10)
  else none

/-- Replace every `%XX` by the byte it spells. -/
def percentDecodeBytes : List UInt8 → List UInt8
  | [] => []
  | 0x25 :: hi :: lo :: bs =>
    match hexDigit hi, hexDigit lo with
    | some h, some l => (h * 16 + l) :: percentDecodeBytes bs
    | _, _ => 0x25 :: percentDecodeBytes (hi :: lo :: bs)
  | b :: bs => b :: percentDecodeBytes bs

/-- Percent-decode and read back as UTF-8; `none` when the bytes are no valid UTF-8. -/
def percentDecodeUtf8 (cs : List Char) : Option (List Char) :=
  utf8Decode (percentDecodeBytes (utf8Encode cs))

example : percentDecodeUtf8 "/etc/%70asswd".toList = some "/etc/passwd".toList := by
  decide +kernel

example : percentDecodeUtf8 "%C3%A9%25".toList = some "é%".toList := by decide +kernel

example : percentDecodeUtf8 "%ff".toList = none := by decide +kernel

end Vellaveto.Lib
