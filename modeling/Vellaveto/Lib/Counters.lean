/-
  COUNTERS: a table that counts how often each key was seen, with two limits.

  A counter SATURATES at `limit`, and the table takes no new key once it holds `cap` of them.  What
  the table answers is then a property of the history alone: it counts exactly the occurrences of the
  first `cap` distinct keys (`tracked`), and every sum of counters is the true number of those
  occurrences, cut at `limit` (`Counts.satSum`).
-/
import Mathlib.Algebra.BigOperators.Group.List.Lemmas
import Mathlib.Algebra.Ring.Nat
import Mathlib.Data.List.AList
import Mathlib.Data.List.Induction

namespace Vellaveto.Lib

variable {α : Type*}

/-! ## Saturating sums -/

/-- Addition that stops at the limit. -/
def saturatingAdd (limit a b : Nat) : Nat := min (a + b) limit

/-- The fold of a saturating addition. -/
def satSum (limit : Nat) (xs : List Nat) : Nat := xs.foldl (saturatingAdd limit) 0

theorem foldl_saturatingAdd {limit start : Nat} (hstart : start ≤ limit) (xs : List Nat) :
    xs.foldl (saturatingAdd limit) start = min (start + xs.sum) limit := by
  induction xs generalizing start with
  | nil => simp [hstart]
  | cons x xs ih =>
    have hnext : saturatingAdd limit start x ≤ limit := Nat.min_le_right _ _
    rw [List.foldl_cons, ih hnext, List.sum_cons, saturatingAdd]
    omega

/-- Saturating along the way is saturating at the end. -/
theorem satSum_eq (limit : Nat) (xs : List Nat) : satSum limit xs = min xs.sum limit := by
  rw [satSum, foldl_saturatingAdd (Nat.zero_le limit), Nat.zero_add]

/-- … and cutting each summand first makes no difference. -/
theorem min_sum_map_min (limit : Nat) (f : α → Nat) (as : List α) :
    min (as.map fun a => min (f a) limit).sum limit = min (as.map f).sum limit := by
  induction as with
  | nil => rfl
  | cons a as ih =>
    rw [List.map_cons, List.map_cons, List.sum_cons, List.sum_cons]
    omega

/-! ## The table -/

variable [DecidableEq α]

/-- Count one more occurrence of a key. -/
def bump (limit cap : Nat) (t : AList fun _ : α => Nat) (a : α) : AList fun _ : α => Nat :=
  match t.lookup a with
  | some count => t.insert a (saturatingAdd limit count 1)
  | none => if t.keys.length < cap then t.insert a 1 else t

/-- Count a whole history. -/
def bumpAll (limit cap : Nat) (as : List α) : AList fun _ : α => Nat :=
  as.foldl (bump limit cap) ∅

/-- The keys that the table has room for: the first `cap` distinct ones. -/
def tracked (cap : Nat) (as : List α) : List α := as.eraseDups.take cap

theorem mem_of_mem_tracked {cap : Nat} {as : List α} {a : α} (h : a ∈ tracked cap as) : a ∈ as :=
  List.mem_eraseDups.mp (List.mem_of_mem_take h)

/-- One more occurrence brings in a key only if it is new and there is room. -/
theorem tracked_append_singleton (cap : Nat) (as : List α) (a : α) :
    tracked cap (as ++ [a]) =
      if a ∈ as ∨ cap ≤ (tracked cap as).length then tracked cap as else tracked cap as ++ [a] := by
  rw [tracked, List.eraseDups_append]
  by_cases ha : a ∈ as
  · have hnone : [a].removeAll as = [] := by simp [List.removeAll, ha]
    rw [hnone, if_pos (.inl ha), List.eraseDups_nil, List.append_nil, tracked]
  · have hone : [a].removeAll as = [a] := by simp [List.removeAll, ha]
    rw [hone, show [a].eraseDups = [a] from rfl, List.take_append, tracked, List.length_take]
    by_cases hfull : cap ≤ as.eraseDups.length
    · rw [if_pos (.inr (by omega)), Nat.sub_eq_zero_of_le hfull, List.take_zero, List.append_nil]
    · have hshort : as.eraseDups.length ≤ cap := by omega
      have hroom : [a].length ≤ cap - as.eraseDups.length := by
        show 1 ≤ _
        omega
      rw [if_neg (by simp only [ha, false_or]; omega), List.take_of_length_le hshort,
        List.take_of_length_le hroom]

section Table

variable (limit cap : Nat)

/-- **What the table holds**: the tracked keys, each with its number of occurrences cut at the
    limit. -/
structure Counts (as : List α) (t : AList fun _ : α => Nat) : Prop where
  keys_perm : t.keys.Perm (tracked cap as)
  lookup_eq : ∀ a ∈ tracked cap as, t.lookup a = some (min (as.count a) limit)

variable {limit cap}

/-- Room for the next key, read off the table. -/
theorem Counts.length_keys {as : List α} {t : AList fun _ : α => Nat} (h : Counts limit cap as t) :
    t.keys.length = (tracked cap as).length := h.keys_perm.length_eq

/-- A key that was seen is not tracked only when the table is full. -/
theorem length_tracked_of_not_mem {as : List α} {a : α} (ha : a ∈ as) (hnot : a ∉ tracked cap as) :
    cap ≤ (tracked cap as).length := by
  rw [tracked, List.length_take]
  by_contra hroom
  have hle : as.eraseDups.length ≤ cap := by omega
  rw [tracked, List.take_of_length_le hle, List.mem_eraseDups] at hnot
  exact hnot ha

theorem Counts.bump {as : List α} {t : AList fun _ : α => Nat} (h : Counts limit cap as t) (a : α)
    (hlimit : 0 < limit) : Counts limit cap (as ++ [a]) (bump limit cap t a) := by
  have htracked := tracked_append_singleton cap as a
  have hcount : ∀ b, b ≠ a → (as ++ [a]).count b = as.count b := by
    intro b hb
    rw [List.count_append, List.count_singleton]
    have hne : (a == b) = false := by simpa using fun h : a = b => hb h.symm
    simp [hne]
  have hcount_self : (as ++ [a]).count a = as.count a + 1 := by simp
  by_cases hmem : a ∈ tracked cap as
  · -- a tracked key: its counter goes up by one
    have hlookup := h.lookup_eq a hmem
    rw [if_pos (.inl (mem_of_mem_tracked hmem))] at htracked
    rw [Lib.bump, hlookup]
    constructor
    · rw [htracked, AList.keys_insert]
      have hkey : a ∈ t.keys := h.keys_perm.mem_iff.mpr hmem
      exact (List.perm_cons_erase hkey).symm.trans h.keys_perm
    · intro b hb
      rw [htracked] at hb
      by_cases hba : b = a
      · subst hba
        rw [AList.lookup_insert, hcount_self, saturatingAdd]
        refine congrArg some ?_
        omega
      · rw [AList.lookup_insert_ne hba, h.lookup_eq b hb, hcount b hba]
  · have hlookup : t.lookup a = none := by
      rw [AList.lookup_eq_none, AList.mem_keys, h.keys_perm.mem_iff]
      exact hmem
    rw [Lib.bump, hlookup]
    dsimp only
    by_cases hroom : t.keys.length < cap
    · -- a new key, and there is room for it
      have hnew : a ∉ as := fun ha => by
        have hfull := length_tracked_of_not_mem ha hmem
        have hlen := h.length_keys
        omega
      have hlen := h.length_keys
      rw [if_neg (by simp only [hnew, false_or]; omega)] at htracked
      rw [if_pos hroom]
      constructor
      · have hnotmem : a ∉ t := by rw [AList.mem_keys, h.keys_perm.mem_iff]; exact hmem
        rw [htracked, AList.keys_insert, List.erase_of_not_mem (AList.mem_keys.not.mp hnotmem)]
        exact (List.Perm.cons a h.keys_perm).trans (List.perm_append_singleton a _).symm
      · intro b hb
        rw [htracked] at hb
        by_cases hba : b = a
        · subst hba
          rw [AList.lookup_insert, hcount_self, List.count_eq_zero_of_not_mem hnew]
          refine congrArg some ?_
          omega
        · rw [AList.lookup_insert_ne hba, hcount b hba]
          refine h.lookup_eq b ?_
          simpa [hba] using hb
    · -- the table is full: the key is not counted
      have hlen := h.length_keys
      rw [if_pos (.inr (by omega))] at htracked
      rw [if_neg hroom]
      refine ⟨by rw [htracked]; exact h.keys_perm, fun b hb => ?_⟩
      rw [htracked] at hb
      have hba : b ≠ a := fun hba => hmem (hba ▸ hb)
      rw [h.lookup_eq b hb, hcount b hba]

theorem counts_bumpAll (hlimit : 0 < limit) (as : List α) :
    Counts limit cap as (bumpAll limit cap as) := by
  induction as using List.reverseRecOn with
  | nil =>
    refine ⟨?_, ?_⟩
    · simp [bumpAll, tracked]
    · intro a ha
      simp [tracked] at ha
  | append_singleton as a ih =>
    rw [bumpAll, List.foldl_append, List.foldl_cons, List.foldl_nil]
    exact ih.bump a hlimit

/-- The counters of the keys that satisfy `p`, in the order of the keys. -/
theorem map_snd_filter_entries (t : AList fun _ : α => Nat) (p : α → Bool) :
    (t.entries.filter fun e => p e.1).map (·.2) =
      (t.keys.filter p).map fun a => (t.lookup a).getD 0 := by
  rw [AList.keys, List.keys, List.filter_map, List.map_map]
  refine List.map_congr_left fun e he => ?_
  have hmem : e ∈ t.entries := (List.mem_filter.mp he).1
  have hlookup : t.lookup e.1 = some e.2 := AList.mem_lookup_iff.mpr hmem
  show e.2 = (t.lookup e.1).getD 0
  rw [hlookup, Option.getD_some]

/-- **Sums of counters are exact up to the two limits.** -/
theorem Counts.satSum {as : List α} {t : AList fun _ : α => Nat} (h : Counts limit cap as t)
    (p : α → Bool) :
    satSum limit ((t.entries.filter fun e => p e.1).map (·.2)) =
      min (as.countP fun a => decide (a ∈ tracked cap as) && p a) limit := by
  have hnodup : (tracked cap as).Nodup := h.keys_perm.nodup_iff.mp t.keys_nodup
  -- the counters of the tracked keys …
  have hkeys : ((t.keys.filter p).map fun a => (t.lookup a).getD 0).sum =
      (((tracked cap as).filter p).map fun a => min (as.count a) limit).sum := by
    rw [((h.keys_perm.filter p).map fun a => (t.lookup a).getD 0).sum_eq]
    refine congrArg List.sum (List.map_congr_left fun a ha => ?_)
    rw [h.lookup_eq a (List.mem_filter.mp ha).1, Option.getD_some]
  -- … add up to the occurrences of tracked keys
  have hperm : (as.dedup.filter fun a => decide (a ∈ tracked cap as) && p a).Perm
      ((tracked cap as).filter p) := by
    refine (List.perm_ext_iff_of_nodup ((List.nodup_dedup as).filter _) (hnodup.filter _)).mpr ?_
    intro a
    simp only [List.mem_filter, List.mem_dedup, Bool.and_eq_true, decide_eq_true_eq]
    exact ⟨fun h => h.2, fun h => ⟨mem_of_mem_tracked h.1, h⟩⟩
  rw [map_snd_filter_entries, satSum_eq, hkeys, min_sum_map_min,
    ← List.sum_map_count_dedup_filter_eq_countP, (hperm.map fun a => as.count a).sum_eq]

end Table

/-- The sum over the values of a table is that without one of them, and that one. -/
theorem sum_map_kerase {β : Type*} (weight : β → Nat) (a : α) (es : List (Σ _ : α, β)) :
    ((es.kerase a).map fun e => weight e.2).sum + ((es.dlookup a).map weight).getD 0 =
      (es.map fun e => weight e.2).sum := by
  induction es with
  | nil => rfl
  | cons e es ih =>
    obtain ⟨b, v⟩ := e
    by_cases h : a = b
    · subst h
      have herase : List.kerase a ((⟨a, v⟩ : Σ _ : α, β) :: es) = es := List.kerase_cons_eq rfl
      rw [herase, List.dlookup_cons_eq, List.map_cons, List.sum_cons, Nat.add_comm]
      rfl
    · rw [List.kerase_cons_ne h, List.dlookup_cons_ne _ _ h, List.map_cons, List.map_cons,
        List.sum_cons, List.sum_cons]
      omega

end Vellaveto.Lib
