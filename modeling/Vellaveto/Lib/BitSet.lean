/-
  SETS OF SMALL NUMBERS as words of bits.

      fn set(&mut self, i)        { self.bits[i / w] |= 1 << (i % w); }
      fn contains(&self, i)       { self.bits[i / w] & (1 << (i % w)) != 0 }

  A set is a list of words of `w` bits each; number `i` is bit `i % w` of word `i / w`.

  CORRECTNESS.
    1. `contains_set`         after `set`, the set contains that number and what it contained before;
    2. `eq_of_contains_eq`    two sets of the same number of words that contain the same are EQUAL, so
                              that a hash set of such sets compares what they contain.
-/
import Mathlib.Data.List.GetD
import Mathlib.Tactic.Common

namespace Vellaveto.Lib.BitSet

variable {w : Nat}

/-- `bits[i / w] |= 1 << (i % w)`. -/
def set (bits : List (BitVec w)) (i : Nat) : List (BitVec w) :=
  bits.modify (i / w) fun word => word ||| 1#w <<< (i % w)

/-- `bits[i / w] & (1 << (i % w)) != 0`; there is nothing beyond the last word. -/
def contains (bits : List (BitVec w)) (i : Nat) : Bool :=
  bits.getD (i / w) 0#w &&& 1#w <<< (i % w) != 0#w

@[simp] theorem length_set (bits : List (BitVec w)) (i : Nat) : (set bits i).length = bits.length :=
  List.length_modify ..

/-- Testing a word against one bit reads that bit. -/
theorem and_shiftLeft_bne_zero {word : BitVec w} {k : Nat} (hk : k < w) :
    (word &&& 1#w <<< k != 0#w) = word.getLsbD k := by
  rw [← BitVec.twoPow_eq, BitVec.and_twoPow]
  cases hbit : word.getLsbD k with
  | false => simp
  | true =>
    have hne : BitVec.twoPow w k ≠ 0#w := by
      intro h
      have hone := congrArg (fun v => v.getLsbD k) h
      simp [hk] at hone
    simp [hne]

theorem contains_eq_getLsbD (hw : 0 < w) (bits : List (BitVec w)) (i : Nat) :
    contains bits i = (bits.getD (i / w) 0#w).getLsbD (i % w) :=
  and_shiftLeft_bne_zero (Nat.mod_lt i hw)

/-- The empty set. -/
theorem contains_replicate (hw : 0 < w) (n i : Nat) :
    contains (List.replicate n 0#w) i = false := by
  rw [contains_eq_getLsbD hw]
  have hword : (List.replicate n 0#w).getD (i / w) 0#w = 0#w := by
    rw [List.getD_eq_getElem?_getD, List.getElem?_replicate]
    split <;> rfl
  rw [hword, BitVec.getLsbD_zero]

/-- The words after `set`: only the one that holds the number changes. -/
theorem getD_set {bits : List (BitVec w)} {i : Nat} (hi : i / w < bits.length) (k : Nat) :
    (set bits i).getD k 0#w =
      if i / w = k then bits.getD k 0#w ||| 1#w <<< (i % w) else bits.getD k 0#w := by
  rw [set, List.getD_eq_getElem?_getD, List.getD_eq_getElem?_getD]
  split
  · rename_i hk
    subst hk
    rw [List.getElem?_modify_eq, List.getElem?_eq_getElem hi]
    rfl
  · rename_i hk
    rw [List.getElem?_modify_ne _ _ hk]

/-- **One number more.** -/
theorem contains_set {bits : List (BitVec w)} {i : Nat} (hw : 0 < w) (hi : i / w < bits.length)
    (j : Nat) : contains (set bits i) j = (decide (j = i) || contains bits j) := by
  rw [contains_eq_getLsbD hw, contains_eq_getLsbD hw, getD_set hi]
  have hi' := Nat.mod_lt i hw
  split
  · -- the same word: two numbers in it are one if they are the same bit
    rename_i hword
    have hsame : i % w = j % w ↔ j = i := by
      constructor
      · intro hbit
        rw [← Nat.div_add_mod j w, ← Nat.div_add_mod i w, hbit, hword]
      · intro hji
        rw [hji]
    rw [BitVec.getLsbD_or, ← BitVec.twoPow_eq, BitVec.getLsbD_twoPow, Bool.or_comm]
    simp [hi', hsame]
  · rename_i hword
    have hne : j ≠ i := fun hji => hword (by rw [hji])
    simp [hne]

/-- **Equal sets are equal words.** -/
theorem eq_of_contains_eq (hw : 0 < w) {bits bits' : List (BitVec w)}
    (hlen : bits.length = bits'.length) (h : ∀ i, contains bits i = contains bits' i) :
    bits = bits' := by
  refine List.ext_getElem hlen fun k hk hk' => ?_
  refine BitVec.eq_of_getLsbD_eq fun b hb => ?_
  have hdiv : (k * w + b) / w = k := by
    rw [Nat.mul_comm, Nat.mul_add_div hw, Nat.div_eq_of_lt hb, Nat.add_zero]
  have hmod : (k * w + b) % w = b := by
    rw [Nat.mul_comm, Nat.mul_add_mod, Nat.mod_eq_of_lt hb]
  have hbit := h (k * w + b)
  rw [contains_eq_getLsbD hw, contains_eq_getLsbD hw, hdiv, hmod, List.getD_eq_getElem _ _ hk,
    List.getD_eq_getElem _ _ hk'] at hbit
  exact hbit

end Vellaveto.Lib.BitSet
