/-
  TABLES: finite maps that are updated many entries at a time.

  A `HashMap` of the source is an `AList`, a list of entries with distinct keys; everything a proof
  needs of one is what `lookup` answers.  Loops that insert or remove entry after entry are
  `insertAll` and `eraseAll`, `retain` is the method of that name, `mapValues` a loop over mutable
  values and `modifyValue` a change of one of them; each has ONE lemma that says what `lookup` answers
  afterwards.
-/
import Mathlib.Data.List.AList
import Mathlib.Data.List.Induction
import Mathlib.Tactic.Common

namespace Vellaveto.Lib

variable {α : Type*} {β : Type*} [DecidableEq α]

/-- The value that the last entry with this key gives. -/
def lastOf (a : α) (ps : List (α × β)) : Option β := ps.reverse.lookup a

theorem lastOf_append_singleton (a b : α) (v : β) (ps : List (α × β)) :
    lastOf a (ps ++ [(b, v)]) = if a = b then some v else lastOf a ps := by
  rw [lastOf, List.reverse_append, List.reverse_singleton, List.singleton_append, List.lookup_cons]
  by_cases h : a = b
  · simp [h]
  · have hne : (a == b) = false := by simpa using h
    simp [hne, h, lastOf]

/-- Only a listed entry can be the last one. -/
theorem mem_of_lastOf_eq_some {a : α} {v : β} {ps : List (α × β)} (h : lastOf a ps = some v) :
    (a, v) ∈ ps := by
  induction ps using List.reverseRecOn with
  | nil => cases h
  | append_singleton ps p ih =>
    obtain ⟨b, w⟩ := p
    rw [lastOf_append_singleton] at h
    split at h
    · rename_i hab
      cases hab
      cases h
      simp
    · exact List.mem_append_left _ (ih h)

/-- A key that is listed has a last entry. -/
theorem exists_lastOf_of_mem {a : α} {v : β} {ps : List (α × β)} (h : (a, v) ∈ ps) :
    ∃ w, lastOf a ps = some w := by
  induction ps using List.reverseRecOn with
  | nil => cases h
  | append_singleton ps p ih =>
    obtain ⟨b, w⟩ := p
    rw [lastOf_append_singleton]
    split
    · exact ⟨w, rfl⟩
    · rename_i hab
      rcases List.mem_append.mp h with hmem | hmem
      · exact ih hmem
      · simp [hab] at hmem

theorem lookup_insert_eq (t : AList fun _ : α => β) (a b : α) (v : β) :
    (t.insert a v).lookup b = if b = a then some v else t.lookup b := by
  by_cases h : b = a
  · subst h
    rw [AList.lookup_insert, if_pos rfl]
  · rw [AList.lookup_insert_ne h, if_neg h]

theorem lookup_erase_eq (t : AList fun _ : α => β) (a b : α) :
    (t.erase a).lookup b = if b = a then none else t.lookup b := by
  by_cases h : b = a
  · subst h
    rw [AList.lookup_erase, if_pos rfl]
  · rw [AList.lookup_erase_ne h, if_neg h]

/-- Insert the entries in order; a later one overwrites an earlier one. -/
def insertAll (t : AList fun _ : α => β) (ps : List (α × β)) : AList fun _ : α => β :=
  ps.foldl (fun t p => t.insert p.1 p.2) t

theorem lookup_insertAll (t : AList fun _ : α => β) (ps : List (α × β)) (a : α) :
    (insertAll t ps).lookup a = (lastOf a ps).or (t.lookup a) := by
  induction ps using List.reverseRecOn with
  | nil => rfl
  | append_singleton ps p ih =>
    obtain ⟨b, v⟩ := p
    rw [insertAll, List.foldl_append, List.foldl_cons, List.foldl_nil, lastOf_append_singleton]
    by_cases hab : a = b
    · subst hab
      rw [AList.lookup_insert, if_pos rfl, Option.some_or]
    · rw [AList.lookup_insert_ne hab, if_neg hab]
      exact ih

/-- Remove the keys in order. -/
def eraseAll (t : AList fun _ : α => β) (ks : List α) : AList fun _ : α => β :=
  ks.foldl (fun t k => t.erase k) t

theorem lookup_eraseAll (t : AList fun _ : α => β) (ks : List α) (a : α) :
    (eraseAll t ks).lookup a = if a ∈ ks then none else t.lookup a := by
  induction ks generalizing t with
  | nil => simp [eraseAll]
  | cons k ks ih =>
    rw [eraseAll, List.foldl_cons]
    refine (ih (t.erase k)).trans ?_
    by_cases hak : a = k
    · subst hak
      simp
    · rw [AList.lookup_erase_ne hak]
      simp [hak]

/-- `HashMap::retain`. -/
def retain (p : α → β → Bool) (t : AList fun _ : α => β) : AList fun _ : α => β :=
  ⟨t.entries.filter fun e => p e.1 e.2, t.nodupKeys.sublist List.filter_sublist⟩

theorem mem_entries_iff {t : AList fun _ : α => β} {a : α} {v : β} :
    ⟨a, v⟩ ∈ t.entries ↔ t.lookup a = some v := AList.mem_lookup_iff.symm

theorem lookup_retain_eq_some {p : α → β → Bool} {t : AList fun _ : α => β} {a : α} {v : β} :
    (retain p t).lookup a = some v ↔ t.lookup a = some v ∧ p a v = true := by
  rw [← mem_entries_iff, ← mem_entries_iff, retain, List.mem_filter]

/-- Change every value. -/
def mapValues (f : α → β → β) (t : AList fun _ : α => β) : AList fun _ : α => β :=
  ⟨t.entries.map fun e => ⟨e.1, f e.1 e.2⟩, by
    rw [List.NodupKeys, List.keys, List.map_map]
    exact t.nodupKeys⟩

theorem lookup_mapValues (f : α → β → β) (t : AList fun _ : α => β) (a : α) :
    (mapValues f t).lookup a = (t.lookup a).map (f a) := by
  refine Option.ext fun v => ?_
  rw [Option.map_eq_some_iff, ← mem_entries_iff, mapValues, List.mem_map]
  constructor
  · rintro ⟨⟨b, w⟩, he, heq⟩
    cases heq
    exact ⟨w, mem_entries_iff.mp he, rfl⟩
  · rintro ⟨w, hw, rfl⟩
    exact ⟨⟨a, w⟩, mem_entries_iff.mpr hw, rfl⟩

/-- `HashMap::get_mut`: change the value of one key, if there is one. -/
def modifyValue (a : α) (f : β → β) (t : AList fun _ : α => β) : AList fun _ : α => β :=
  mapValues (fun b v => if b = a then f v else v) t

theorem lookup_modifyValue (a b : α) (f : β → β) (t : AList fun _ : α => β) :
    (modifyValue a f t).lookup b = (t.lookup b).map fun v => if b = a then f v else v :=
  lookup_mapValues _ t b

end Vellaveto.Lib
