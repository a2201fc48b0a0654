/-
  WHAT A GLOB MATCH COSTS (`literal_child_matches_parent_glob_from` of `verified_capability_glob.rs`).

  The matcher is a plain backtracking recursion: a star first tries to stand for nothing, and if that
  fails it takes one byte and tries again.  Nothing is remembered, so with several stars the same rest
  of the pattern meets the same rest of the value again and again.

  `literalChildMatchesParentGlobFromCounted` is the matcher with a counter of its calls.

    1. `counted_fst`      counting changes no answer;
    2. `counted_snd_le`   a pattern of `m` bytes with `k` stars makes at most `(m + 1) * C(n + k, k)`
                          calls on a value of `n` bytes.  The induction is on the pattern; every star
                          sums the bound over the rests of the value (`starCounted_snd_le`).

  One star gives `(m + 1) * (n + 1)`.  Two do not.
-/
import Mathlib.Data.Nat.Choose.Basic
import Vellaveto.Mcp.CapabilityPattern

namespace Vellaveto.Capability

open Vellaveto.Lib Vellaveto.Lib.Glob

/-- The branch of a star: the rest of the pattern, or one byte and the star again. -/
def starCounted (rest : List UInt8 → Bool × Nat) : List UInt8 → Bool × Nat
  | [] =>
    let skipped := rest []
    (skipped.1, skipped.2 + 1)
  | childHead :: childTail =>
    let skipped := rest (childHead :: childTail)
    if skipped.1 then (true, skipped.2 + 1)
    else
      let consumed := starCounted rest childTail
      (consumed.1, skipped.2 + consumed.2 + 1)

/-- `literal_child_matches_parent_glob_from`, with the number of its calls. -/
def literalChildMatchesParentGlobFromCounted : List UInt8 → List UInt8 → Bool × Nat
  | [] => fun child => (child.isEmpty, 1)
  | patternHead :: tail =>
    if patternHead = starByte then starCounted (literalChildMatchesParentGlobFromCounted tail)
    else fun child =>
      match child with
      | [] => (false, 1)
      | childHead :: childTail =>
        if patternHead = questionByte then
          let rest := literalChildMatchesParentGlobFromCounted tail childTail
          (rest.1, rest.2 + 1)
        else if byteEqIgnoreAsciiCase patternHead childHead then
          let rest := literalChildMatchesParentGlobFromCounted tail childTail
          (rest.1, rest.2 + 1)
        else (false, 1)

/-- The calls that `literal_child_matches_parent_glob` makes. -/
def literalChildMatchesParentGlobCalls (parentPattern childLiteral : String) : Nat :=
  (literalChildMatchesParentGlobFromCounted (asBytes parentPattern) (asBytes childLiteral)).2

/-! ## The answer -/

theorem starCounted_fst {rest : List UInt8 → Bool × Nat} {ts : List (Token UInt8)}
    (h : ∀ v, (rest v).1 = globMatches ts v) (v : List UInt8) :
    (starCounted rest v).1 = globMatches (.star :: ts) v := by
  induction v with
  | nil =>
    rw [globMatches_star_nil, ← h]
    rfl
  | cons b v ih =>
    rw [globMatches_star_cons, ← h, ← ih, starCounted]
    dsimp only
    split
    · rename_i hskipped
      rw [hskipped]
      rfl
    · rename_i hskipped
      rw [Bool.eq_false_iff.mpr hskipped, Bool.false_or]

/-- Counting changes no answer. -/
theorem counted_fst (pattern child : List UInt8) :
    (literalChildMatchesParentGlobFromCounted pattern child).1 =
      literalChildMatchesParentGlobFrom pattern child := by
  unfold literalChildMatchesParentGlobFrom
  induction pattern generalizing child with
  | nil => rfl
  | cons b pattern ih =>
    rw [literalChildMatchesParentGlobFromCounted, tokens, List.map_cons, ← tokens, globToken]
    split
    · exact starCounted_fst ih child
    · cases child with
      | nil =>
        dsimp only
        split <;> rfl
      | cons a child =>
        dsimp only
        split
        · rw [globMatches_one_cons, ih, Bool.true_and]
        · rw [globMatches_one_cons]
          split
          · rename_i hbyte
            rw [hbyte, ih, Bool.true_and]
          · rename_i hbyte
            rw [Bool.eq_false_iff.mpr hbyte, Bool.false_and]

/-! ## The calls -/

/-- A star over a rest that costs at most `c * C(n + k, k)`. -/
theorem starCounted_snd_le {rest : List UInt8 → Bool × Nat} {c k : Nat}
    (h : ∀ v, (rest v).2 ≤ c * (v.length + k).choose k) (v : List UInt8) :
    (starCounted rest v).2 ≤ (c + 1) * (v.length + (k + 1)).choose (k + 1) := by
  induction v with
  | nil =>
    have hrest := h []
    simp only [List.length_nil, Nat.zero_add, Nat.choose_self, Nat.mul_one] at hrest ⊢
    show (rest []).2 + 1 ≤ c + 1
    omega
  | cons b v ih =>
    have hrest := h (b :: v)
    rw [List.length_cons] at hrest ⊢
    have hpascal : (v.length + 1 + (k + 1)).choose (k + 1) =
        (v.length + 1 + k).choose k + (v.length + (k + 1)).choose (k + 1) := by
      rw [show v.length + 1 + (k + 1) = v.length + 1 + k + 1 by omega, Nat.choose_succ_succ,
        show v.length + 1 + k = v.length + (k + 1) by omega]
    have hpos : 0 < (v.length + 1 + k).choose k := Nat.choose_pos (by omega)
    rw [hpascal, Nat.mul_add, Nat.add_mul, Nat.one_mul]
    rw [starCounted]
    dsimp only
    split
    · show (rest (b :: v)).2 + 1 ≤ _
      omega
    · show (rest (b :: v)).2 + (starCounted rest v).2 + 1 ≤ _
      omega

/-- One byte of the pattern against one byte of the value. -/
theorem mul_choose_succ_le (m n k : Nat) :
    (m + 1) * (n + k).choose k + 1 ≤ (m + 1 + 1) * (n + 1 + k).choose k := by
  have hmono : (n + k).choose k ≤ (n + 1 + k).choose k := Nat.choose_le_choose k (by omega)
  have hpos : 0 < (n + 1 + k).choose k := Nat.choose_pos (by omega)
  have hmul : (m + 1) * (n + k).choose k ≤ (m + 1) * (n + 1 + k).choose k :=
    Nat.mul_le_mul_left (m + 1) hmono
  rw [Nat.add_mul (m + 1) 1, Nat.one_mul]
  omega

theorem counted_snd_le (pattern child : List UInt8) :
    (literalChildMatchesParentGlobFromCounted pattern child).2 ≤
      (pattern.length + 1) *
        (child.length + pattern.count starByte).choose (pattern.count starByte) := by
  induction pattern generalizing child with
  | nil =>
    simp [literalChildMatchesParentGlobFromCounted]
  | cons b pattern ih =>
    rw [literalChildMatchesParentGlobFromCounted]
    split
    · rename_i hstar
      rw [hstar, List.count_cons_self, List.length_cons]
      exact starCounted_snd_le ih child
    · rename_i hstar
      rw [List.count_cons_of_ne hstar, List.length_cons]
      cases child with
      | nil =>
        show 1 ≤ _
        rw [List.length_nil, Nat.zero_add, Nat.choose_self]
        omega
      | cons a child =>
        have hrest := ih child
        have hstep := mul_choose_succ_le pattern.length child.length (pattern.count starByte)
        rw [List.length_cons]
        dsimp only
        split
        · dsimp only
          omega
        · split
          · dsimp only
            omega
          · dsimp only
            omega

/-- **The cost of a match.**  A pattern with `k` stars makes at most `(|p| + 1) * C(|v| + k, k)` calls
    on a value `v`. -/
theorem literalChildMatchesParentGlobCalls_le (parentPattern childLiteral : String) :
    literalChildMatchesParentGlobCalls parentPattern childLiteral ≤
      ((asBytes parentPattern).length + 1) *
        ((asBytes childLiteral).length + (asBytes parentPattern).count starByte).choose
          ((asBytes parentPattern).count starByte) :=
  counted_snd_le _ _

/-- Two stars and two bytes: 15 calls, 14 of them recursive, where `(|p| + 1) * (|v| + 1)` is 12. -/
theorem literalChildMatchesParentGlobCalls_two_stars :
    literalChildMatchesParentGlobCalls "**b" "aa" = 15 ∧
      ((asBytes "**b").length + 1) * ((asBytes "aa").length + 1) = 12 ∧
      ¬literalChildMatchesParentGlobCalls "**b" "aa" - 1 ≤
        ((asBytes "**b").length + 1) * ((asBytes "aa").length + 1) := by
  decide

end Vellaveto.Capability
