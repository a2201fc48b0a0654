/-
  UNAMBIGUOUS ENCODINGS of texts and numbers as bytes.

  A hash over several fields is only as good as the encoding it is fed with.  A number is written in a
  FIXED number of bytes, a byte string after its own length; what is read in the same order can be
  read in one way only.  Each lemma below splits one field off the front: equal encodings have equal
  first fields and equal rests.  Lengths and numbers are `u64`s: beyond `2 ^ 64` the eight bytes wrap.
-/
import Mathlib.Algebra.Ring.Nat
import Mathlib.Data.List.Basic
import Vellaveto.Lib.Percent

namespace Vellaveto.Lib

/-- `u64::to_le_bytes`, one byte after the other. -/
def leBytes : Nat → Nat → List UInt8
  | 0, _ => []
  | width + 1, n => UInt8.ofNat (n % 256) :: leBytes width (n / 256)

/-- `u64::to_le_bytes`. -/
def toLeBytes (n : Nat) : List UInt8 := leBytes 8 n

/-- `str::as_bytes`. -/
def strBytes (s : String) : List UInt8 := s.toByteArray.data.toList

/-- A byte string after its length: `hash_field`. -/
def lengthPrefixed (data : List UInt8) : List UInt8 := toLeBytes data.length ++ data

@[simp] theorem length_leBytes (width n : Nat) : (leBytes width n).length = width := by
  induction width generalizing n with
  | zero => rfl
  | succ width ih => simp [leBytes, ih]

theorem leBytes_inj {width m n : Nat} (hm : m < 256 ^ width) (hn : n < 256 ^ width)
    (h : leBytes width m = leBytes width n) : m = n := by
  induction width generalizing m n with
  | zero =>
    rw [Nat.pow_zero] at hm hn
    omega
  | succ width ih =>
    obtain ⟨hlow, hhigh⟩ := List.cons.inj h
    have hmod : m % 256 = n % 256 := by
      have hbyte := congrArg UInt8.toNat hlow
      simp only [UInt8.toNat_ofNat'] at hbyte
      omega
    have hdiv : m / 256 = n / 256 := by
      refine ih ?_ ?_ hhigh
      · rw [Nat.pow_succ] at hm
        omega
      · rw [Nat.pow_succ] at hn
        omega
    omega

theorem toLeBytes_append_inj {m n : Nat} {rest rest' : List UInt8} (hm : m < 2 ^ 64)
    (hn : n < 2 ^ 64) (h : toLeBytes m ++ rest = toLeBytes n ++ rest') : m = n ∧ rest = rest' := by
  obtain ⟨hbytes, hrest⟩ := List.append_inj h (by simp [toLeBytes])
  exact ⟨leBytes_inj (by omega) (by omega) hbytes, hrest⟩

theorem lengthPrefixed_append_inj {a b rest rest' : List UInt8} (ha : a.length < 2 ^ 64)
    (hb : b.length < 2 ^ 64) (h : lengthPrefixed a ++ rest = lengthPrefixed b ++ rest') :
    a = b ∧ rest = rest' := by
  simp only [lengthPrefixed, List.append_assoc] at h
  obtain ⟨hlen, htail⟩ := toLeBytes_append_inj ha hb h
  exact List.append_inj htail hlen

theorem lengthPrefixed_inj {a b : List UInt8} (ha : a.length < 2 ^ 64) (hb : b.length < 2 ^ 64)
    (h : lengthPrefixed a = lengthPrefixed b) : a = b := by
  have happ : lengthPrefixed a ++ [] = lengthPrefixed b ++ [] := by rw [h]
  exact (lengthPrefixed_append_inj ha hb happ).1

theorem strBytes_eq (s : String) : strBytes s = utf8Encode s.toList := by
  rw [strBytes, ← String.utf8Encode_toList, List.utf8Encode, List.data_toByteArray]
  rfl

theorem strBytes_injective : Function.Injective strBytes := by
  intro s t hst
  exact String.toByteArray_inj.mp (ByteArray.ext (Array.ext' hst))

end Vellaveto.Lib
