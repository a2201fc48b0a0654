/-
  A BOUNDED MEMORY: a set that takes new elements until it is full.

  It holds the elements whose FIRST appearance came before `cap` others (`mem_rememberAll`); an element
  that first comes after that is never remembered, however often it comes again.
-/
import Mathlib.Data.Finset.Card
import Mathlib.Data.List.Induction
import Mathlib.Data.List.TakeWhile

namespace Vellaveto.Lib

variable {α : Type*} [DecidableEq α]

/-- Take an element into the memory, if it is new and there is room. -/
def remember (cap : Nat) (seen : Finset α) (x : α) : Finset α :=
  if x ∈ seen then seen else if seen.card < cap then insert x seen else seen

/-- The memory of a history. -/
def rememberAll (cap : Nat) (history : List α) : Finset α := history.foldl (remember cap) ∅

/-- How many different elements came before the first appearance of this one. -/
def distinctBefore (history : List α) (x : α) : Nat := (history.takeWhile (· ≠ x)).toFinset.card

theorem distinctBefore_append_of_mem {history : List α} {x : α} (h : x ∈ history) (y : α) :
    distinctBefore (history ++ [y]) x = distinctBefore history x := by
  unfold distinctBefore
  rw [List.takeWhile_append]
  split
  · rename_i hall
    have hx := List.takeWhile_eq_self_iff.mp (List.IsPrefix.eq_of_length (List.takeWhile_prefix _) hall) x h
    simp at hx
  · rfl

theorem distinctBefore_append_of_notMem {history : List α} {x : α} (h : x ∉ history) :
    distinctBefore (history ++ [x]) x = history.toFinset.card := by
  have hall : history.takeWhile (· ≠ x) = history :=
    List.takeWhile_eq_self_iff.mpr fun y hy => by
      rw [decide_eq_true_iff]
      rintro rfl
      exact h hy
  unfold distinctBefore
  rw [List.takeWhile_append, hall, if_pos rfl]
  simp

theorem distinctBefore_le (history : List α) (x : α) :
    distinctBefore history x ≤ history.toFinset.card := by
  refine Finset.card_le_card fun y hy => ?_
  rw [List.mem_toFinset] at hy ⊢
  exact (List.takeWhile_prefix _).subset hy

/-- One more element of the history changes nothing for those that were in it. -/
theorem first_append_iff {cap : Nat} {history : List α} {x y : α} (hxy : x = y → y ∈ history) :
    x ∈ history ++ [y] ∧ distinctBefore (history ++ [y]) x < cap ↔
      x ∈ history ∧ distinctBefore history x < cap := by
  constructor
  · rintro ⟨hmem, hfew⟩
    have hx : x ∈ history := by
      rcases List.mem_append.mp hmem with hx | hx
      · exact hx
      · obtain rfl := List.mem_singleton.mp hx
        exact hxy rfl
    rw [distinctBefore_append_of_mem hx] at hfew
    exact ⟨hx, hfew⟩
  · rintro ⟨hx, hfew⟩
    exact ⟨List.mem_append_left _ hx, by rw [distinctBefore_append_of_mem hx]; exact hfew⟩

/-- **What a bounded memory holds.** -/
theorem rememberAll_spec (cap : Nat) (history : List α) :
    (rememberAll cap history).card = min cap history.toFinset.card ∧
      ∀ x, x ∈ rememberAll cap history ↔ x ∈ history ∧ distinctBefore history x < cap := by
  induction history using List.reverseRecOn with
  | nil => simp [rememberAll]
  | append_singleton history y ih =>
    obtain ⟨hcard, hmem⟩ := ih
    have hstep : rememberAll cap (history ++ [y]) = remember cap (rememberAll cap history) y := by
      rw [rememberAll, List.foldl_append]
      rfl
    have hset : (history ++ [y]).toFinset = insert y history.toFinset := by
      ext z
      simp
    rw [hstep, hset, remember]
    by_cases hy : y ∈ history
    · -- an element that came before: it is in the memory, or it came too late for it
      have hkeep : (if y ∈ rememberAll cap history then rememberAll cap history
          else if (rememberAll cap history).card < cap then insert y (rememberAll cap history)
          else rememberAll cap history) = rememberAll cap history := by
        split_ifs with hin hroom
        · rfl
        · refine absurd ((hmem y).mpr ⟨hy, ?_⟩) hin
          have hle := distinctBefore_le history y
          omega
        · rfl
      rw [hkeep, Finset.insert_eq_self.mpr (List.mem_toFinset.mpr hy)]
      exact ⟨hcard, fun x => (hmem x).trans (first_append_iff fun _ => hy).symm⟩
    · -- a new element: it is taken if there is room
      have hnew : y ∉ rememberAll cap history := fun h => hy ((hmem y).mp h).1
      have hcount : (insert y history.toFinset).card = history.toFinset.card + 1 :=
        Finset.card_insert_of_notMem fun h => hy (List.mem_toFinset.mp h)
      have hfirst := distinctBefore_append_of_notMem hy
      rw [if_neg hnew, hcount]
      split_ifs with hroom
      · refine ⟨by rw [Finset.card_insert_of_notMem hnew]; omega, fun x => ?_⟩
        rw [Finset.mem_insert]
        by_cases hxy : x = y
        · subst hxy
          exact ⟨fun _ => ⟨by simp, by omega⟩, fun _ => .inl rfl⟩
        · rw [first_append_iff fun h => absurd h hxy, ← hmem x]
          exact ⟨fun h => h.resolve_left hxy, .inr⟩
      · refine ⟨by omega, fun x => ?_⟩
        by_cases hxy : x = y
        · subst hxy
          refine ⟨fun h => absurd h hnew, ?_⟩
          rintro ⟨-, hfew⟩
          omega
        · rw [first_append_iff fun h => absurd h hxy]
          exact hmem x

/-- A memory holds the elements that came first. -/
theorem mem_rememberAll {cap : Nat} {history : List α} {x : α} :
    x ∈ rememberAll cap history ↔ x ∈ history ∧ distinctBefore history x < cap :=
  (rememberAll_spec cap history).2 x

end Vellaveto.Lib
