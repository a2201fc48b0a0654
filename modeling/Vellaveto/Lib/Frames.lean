/-
  FRAMES: byte strings in a file, one after the other, each behind its own length.

  A frame is a length in a fixed number of bytes, the lowest byte first, and that many bytes of data.
  Nothing marks where a frame begins: a reader finds the next one only because it has read the one
  before.  The lemmas say what a reader sees at the front of a file:

    1. `leNat_leBytes`                      the length that was written;
    2. `take_frame_append`, `drop_frame_append`   a whole frame, and what is behind it;
    3. `take_take_frame`, `length_drop_take_frame`   the first bytes of a frame whose rest is missing:
                                            the length is there, and the data is shorter than it.
-/
import Vellaveto.Lib.Encoding

namespace Vellaveto.Lib

/-- `from_le_bytes`. -/
def leNat : List UInt8 → Nat
  | [] => 0
  | b :: bs => b.toNat + 256 * leNat bs

theorem leNat_leBytes {width n : Nat} (hn : n < 256 ^ width) : leNat (leBytes width n) = n := by
  induction width generalizing n with
  | zero =>
    rw [Nat.pow_zero] at hn
    rw [leBytes, leNat]
    omega
  | succ width ih =>
    rw [Nat.pow_succ] at hn
    have hdiv : n / 256 < 256 ^ width := by omega
    have hbyte : (UInt8.ofNat (n % 256)).toNat = n % 256 := by
      rw [UInt8.toNat_ofNat']
      omega
    rw [leBytes, leNat, ih hdiv, hbyte]
    omega

/-- Data behind its length. -/
def frame (width : Nat) (data : List UInt8) : List UInt8 := leBytes width data.length ++ data

section Frame

variable (width : Nat) (data rest : List UInt8)

@[simp] theorem length_frame : (frame width data).length = width + data.length := by
  rw [frame, List.length_append, length_leBytes]

theorem take_frame_append : (frame width data ++ rest).take width = leBytes width data.length := by
  rw [frame, List.append_assoc]
  exact List.take_left' (length_leBytes width _)

theorem drop_frame_append : (frame width data ++ rest).drop width = data ++ rest := by
  rw [frame, List.append_assoc]
  exact List.drop_left' (length_leBytes width _)

variable {width data} {k : Nat}

theorem take_take_frame (hk : width ≤ k) :
    ((frame width data).take k).take width = leBytes width data.length := by
  rw [List.take_take, Nat.min_eq_left hk, ← List.append_nil (frame width data)]
  exact take_frame_append width data []

theorem length_drop_take_frame (hk : k < (frame width data).length) (hwidth : width ≤ k) :
    (((frame width data).take k).drop width).length < data.length := by
  rw [length_frame] at hk
  rw [List.length_drop, List.length_take, length_frame]
  omega

end Frame

end Vellaveto.Lib
