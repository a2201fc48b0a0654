/-
  TWO-POINTER MERGE of strictly sorted lists.

  One step takes the smaller head, or BOTH heads when they are equal, so that an element of both
  lists comes out once.  `mergeSorted` collects what the steps take; `scanMerged` asks a decision
  list along the way and stops at the first answer.

    1. `mergeSorted_filter`  merging what two tests keep of a strictly sorted list is what either
                             test keeps of it, in order and without repetition;
    2. `scanMerged_eq`       scanning while merging is scanning the merged list.
-/
import Mathlib.Order.Lattice
import Vellaveto.Lib.Decision

namespace Vellaveto.Lib

variable {α ε ν : Type*} [LinearOrder α]

/-- What one step takes, and what is left of the two lists. -/
def mergeStep : List α → List α → Option (α × List α × List α)
  | t :: ts, a :: as =>
    if t < a then some (t, ts, a :: as)
    else if a < t then some (a, t :: ts, as)
    else some (t, ts, as)
  | t :: ts, [] => some (t, ts, [])
  | [], a :: as => some (a, [], as)
  | [], [] => none

/-- The merge loop; `fuel` bounds the number of steps. -/
def mergeLoop : Nat → List α → List α → List α
  | 0, _, _ => []
  | fuel + 1, ts, as =>
    match mergeStep ts as with
    | none => []
    | some (x, ts, as) => x :: mergeLoop fuel ts as

/-- The merge of two lists.  Every step uses up at least one element. -/
def mergeSorted (ts as : List α) : List α := mergeLoop (ts.length + as.length) ts as

/-- The loop that asks about each element as it is taken. -/
def scanLoop (ask : α → Except ε (Option ν)) : Nat → List α → List α → Except ε (Option ν)
  | 0, _, _ => .ok none
  | fuel + 1, ts, as =>
    match mergeStep ts as with
    | none => .ok none
    | some (x, ts, as) => orAsk (ask x) (scanLoop ask fuel ts as)

/-- The decision about two lists that are merged on the way. -/
def scanMerged (ask : α → Except ε (Option ν)) (ts as : List α) : Except ε (Option ν) :=
  scanLoop ask (ts.length + as.length) ts as

theorem scanLoop_eq (ask : α → Except ε (Option ν)) (fuel : Nat) (ts as : List α) :
    scanLoop ask fuel ts as = firstDecision ask (mergeLoop fuel ts as) := by
  induction fuel generalizing ts as with
  | zero => rfl
  | succ fuel ih =>
    rw [scanLoop, mergeLoop]
    cases mergeStep ts as with
    | none => rfl
    | some next =>
      obtain ⟨x, ts', as'⟩ := next
      show orAsk (ask x) (scanLoop ask fuel ts' as') = _
      rw [ih, firstDecision]

/-- Scanning while merging is scanning the merged list. -/
theorem scanMerged_eq (ask : α → Except ε (Option ν)) (ts as : List α) :
    scanMerged ask ts as = firstDecision ask (mergeSorted ts as) :=
  scanLoop_eq ask _ ts as

/-! ## One step -/

theorem mergeStep_left {x : α} (ts as : List α) (hlt : ∀ a ∈ as, x < a) :
    mergeStep (x :: ts) as = some (x, ts, as) := by
  cases as with
  | nil => rfl
  | cons a as => rw [mergeStep, if_pos (hlt a List.mem_cons_self)]

theorem mergeStep_right {x : α} (ts as : List α) (hlt : ∀ t ∈ ts, x < t) :
    mergeStep ts (x :: as) = some (x, ts, as) := by
  cases ts with
  | nil => rfl
  | cons t ts =>
    have hxt : x < t := hlt t List.mem_cons_self
    rw [mergeStep, if_neg (lt_asymm hxt), if_pos hxt]

theorem mergeStep_both (x : α) (ts as : List α) :
    mergeStep (x :: ts) (x :: as) = some (x, ts, as) := by
  rw [mergeStep, if_neg (lt_irrefl x), if_neg (lt_irrefl x)]

/-! ## The whole merge -/

theorem mergeLoop_filter {l : List α} (hl : l.Pairwise (· < ·)) (p q : α → Bool) (fuel : Nat)
    (hfuel : (l.filter p).length + (l.filter q).length ≤ fuel) :
    mergeLoop fuel (l.filter p) (l.filter q) = l.filter fun x => p x || q x := by
  induction l generalizing fuel with
  | nil => cases fuel <;> rfl
  | cons x l ih =>
    obtain ⟨hx, hl'⟩ := List.pairwise_cons.mp hl
    have hxp : ∀ y ∈ l.filter p, x < y := fun y hy => hx y (List.mem_of_mem_filter hy)
    have hxq : ∀ y ∈ l.filter q, x < y := fun y hy => hx y (List.mem_of_mem_filter hy)
    by_cases hp : p x = true <;> by_cases hq : q x = true
    · rw [List.filter_cons_of_pos hp, List.filter_cons_of_pos hq] at hfuel ⊢
      rw [List.filter_cons_of_pos (by rw [hp, hq]; rfl)]
      simp only [List.length_cons] at hfuel
      obtain ⟨fuel, rfl⟩ : ∃ k, fuel = k + 1 := ⟨fuel - 1, by omega⟩
      rw [mergeLoop, mergeStep_both]
      exact congrArg (x :: ·) (ih hl' fuel (by omega))
    · rw [List.filter_cons_of_pos hp, List.filter_cons_of_neg hq] at hfuel ⊢
      rw [List.filter_cons_of_pos (by rw [hp]; rfl)]
      simp only [List.length_cons] at hfuel
      obtain ⟨fuel, rfl⟩ : ∃ k, fuel = k + 1 := ⟨fuel - 1, by omega⟩
      rw [mergeLoop, mergeStep_left _ _ hxq]
      exact congrArg (x :: ·) (ih hl' fuel (by omega))
    · rw [List.filter_cons_of_neg hp, List.filter_cons_of_pos hq] at hfuel ⊢
      rw [List.filter_cons_of_pos (by rw [hq, Bool.or_true])]
      simp only [List.length_cons] at hfuel
      obtain ⟨fuel, rfl⟩ : ∃ k, fuel = k + 1 := ⟨fuel - 1, by omega⟩
      rw [mergeLoop, mergeStep_right _ _ hxp]
      exact congrArg (x :: ·) (ih hl' fuel (by omega))
    · rw [List.filter_cons_of_neg hp, List.filter_cons_of_neg hq] at hfuel ⊢
      rw [List.filter_cons_of_neg (by simp [hp, hq])]
      exact ih hl' fuel hfuel

/-- **Merging two selections of one sorted list gives their union, in order.** -/
theorem mergeSorted_filter {l : List α} (hl : l.Pairwise (· < ·)) (p q : α → Bool) :
    mergeSorted (l.filter p) (l.filter q) = l.filter fun x => p x || q x :=
  mergeLoop_filter hl p q _ (Nat.le_refl _)

end Vellaveto.Lib
