/-
  LOOKING FOR A LIST IN ANOTHER: a scan for a subsequence, and a search that uses up what it finds.

  Both are greedy.  The scan (`advance`) goes through the list once and counts how many elements of the
  sequence it has met so far; it meets all of them exactly if the sequence is a subsequence of the list
  (`length_le_foldl_advance_iff`).  The search (`takeAll`) takes, for each element of the sequence, the
  first entry of the list that is equal and not used yet; it succeeds exactly if the sequence is
  contained in the list with multiplicities (`takeAll_iff`).
-/
import Mathlib.Data.List.Perm.Basic

namespace Vellaveto.Lib

variable {α : Type*} [DecidableEq α]

/-! ### In order -/

/-- One step of the scan: `found` elements of the sequence have been met. -/
def advance (sequence : List α) (found : Nat) (x : α) : Nat :=
  if sequence[found]? = some x then found + 1 else found

/-- **The scan meets the rest of the sequence** exactly if that is a subsequence. -/
theorem length_le_foldl_advance_iff (sequence xs : List α) (found : Nat) :
    sequence.length ≤ xs.foldl (advance sequence) found ↔ (sequence.drop found).Sublist xs := by
  induction xs generalizing found with
  | nil =>
    rw [List.foldl_nil, List.sublist_nil, List.drop_eq_nil_iff]
  | cons x xs ih =>
    rw [List.foldl_cons, ih, advance]
    cases hnext : sequence[found]? with
    | none =>
      -- everything was met before
      have hdone : sequence.drop found = [] := List.drop_eq_nil_of_le (List.getElem?_eq_none_iff.mp hnext)
      simp [hdone]
    | some a =>
      obtain ⟨hlt, ha⟩ := List.getElem?_eq_some_iff.mp hnext
      have hdrop : sequence.drop found = a :: sequence.drop (found + 1) := by
        rw [List.drop_eq_getElem_cons hlt, ha]
      by_cases hax : a = x
      · subst hax
        rw [if_pos rfl, hdrop, List.cons_sublist_cons]
      · have hne : ¬ some a = some x := fun h => hax (Option.some.inj h)
        rw [if_neg hne, hdrop]
        constructor
        · intro h
          exact h.cons x
        · intro h
          exact List.Sublist.of_cons_of_ne hax h

/-! ### With multiplicities -/

/-- The entries that are not used. -/
def unused (xs : List α) (used : List Bool) : List α :=
  ((xs.zip used).filter fun e => !e.2).map Prod.fst

/-- Use the first entry that is equal to `a` and not used yet. -/
def takeUnused (xs : List α) (used : List Bool) (a : α) : Option (List Bool) :=
  ((xs.zip used).findIdx? fun e => !e.2 && e.1 == a).map fun i => used.set i true

/-- Do so for each element of the sequence. -/
def takeAll (xs : List α) : List Bool → List α → Bool
  | _, [] => true
  | used, a :: sequence =>
    match takeUnused xs used a with
    | some used' => takeAll xs used' sequence
    | none => false

theorem takeUnused_cons (x a : α) (u : Bool) (xs : List α) (used : List Bool) :
    takeUnused (x :: xs) (u :: used) a =
      if !u && x == a then some (true :: used) else (takeUnused xs used a).map (u :: ·) := by
  unfold takeUnused
  rw [List.zip_cons_cons, List.findIdx?_cons]
  split
  · rfl
  · rw [Option.map_map, Option.map_map]
    rfl

/-- **One element**: there is no such entry, or it is the first one that goes. -/
theorem takeUnused_spec (xs : List α) (used : List Bool) (a : α) :
    (a ∉ unused xs used ∧ takeUnused xs used a = none) ∨
      ∃ used', takeUnused xs used a = some used' ∧ a ∈ unused xs used ∧
        unused xs used' = (unused xs used).erase a := by
  induction xs generalizing used with
  | nil => exact .inl ⟨List.not_mem_nil, rfl⟩
  | cons x xs ih =>
    cases used with
    | nil => exact .inl ⟨List.not_mem_nil, rfl⟩
    | cons u used =>
      rw [takeUnused_cons]
      cases u with
      | true =>
        -- a used entry is passed over
        have hsame : ∀ used', unused (x :: xs) (true :: used') = unused xs used' := fun _ => rfl
        rcases ih used with ⟨hnone, htake⟩ | ⟨used', htake, hmem, herase⟩
        · exact .inl ⟨hnone, by rw [htake]; rfl⟩
        · exact .inr ⟨true :: used', by rw [htake]; rfl, hmem, by rw [hsame, hsame, herase]⟩
      | false =>
        have hcons : ∀ used', unused (x :: xs) (false :: used') = x :: unused xs used' := fun _ => rfl
        rw [hcons]
        by_cases hxa : x = a
        · subst hxa
          refine .inr ⟨true :: used, by simp, List.mem_cons_self, ?_⟩
          rw [List.erase_cons_head]
          rfl
        · rcases ih used with ⟨hnone, htake⟩ | ⟨used', htake, hmem, herase⟩
          · refine .inl ⟨fun hmem => ?_, by simp [hxa, htake]⟩
            rcases List.mem_cons.mp hmem with heq | hmem
            · exact hxa heq.symm
            · exact hnone hmem
          · refine .inr ⟨false :: used', by simp [hxa, htake], List.mem_cons_of_mem x hmem, ?_⟩
            rw [hcons, herase, List.erase_cons_tail (by simpa using hxa)]

theorem cons_subperm_iff {a : α} {xs ys : List α} :
    (a :: xs).Subperm ys ↔ a ∈ ys ∧ xs.Subperm (ys.erase a) := by
  constructor
  · intro h
    have herase := h.erase a
    rw [List.erase_cons_head] at herase
    exact ⟨h.subset List.mem_cons_self, herase⟩
  · rintro ⟨hmem, h⟩
    exact ((List.subperm_cons a).mpr h).trans (List.perm_cons_erase hmem).symm.subperm

/-- **All elements** are taken exactly if the sequence is contained in what is not used. -/
theorem takeAll_iff (xs : List α) (used : List Bool) (sequence : List α) :
    takeAll xs used sequence = true ↔ sequence.Subperm (unused xs used) := by
  induction sequence generalizing used with
  | nil => exact iff_of_true rfl (List.nil_subperm)
  | cons a sequence ih =>
    rw [takeAll, cons_subperm_iff]
    rcases takeUnused_spec xs used a with ⟨hnone, htake⟩ | ⟨used', htake, hmem, herase⟩
    · simp [htake, hnone]
    · simp [htake, ih, hmem, herase]

omit [DecidableEq α] in
/-- At first nothing is used. -/
theorem unused_replicate (xs : List α) : unused xs (List.replicate xs.length false) = xs := by
  induction xs with
  | nil => rfl
  | cons x xs ih => exact congrArg (x :: ·) ih

end Vellaveto.Lib
