/-
  INDEXES: a table of entries and an index from a key to the one live entry with that key.

  `Exact` says that the index gives an id for a key exactly if the entry with that id is live and has
  the key; as an index gives one id at most, no two live entries then share a key (`Exact.unique`).
  A table and an index that are edited separately stay exact when the two edits fit:

    1. `Exact.replace`   an entry changes, but neither whether it is live nor its key;
    2. `Exact.add`       an entry becomes live whose key no live entry has, and gets its key;
    3. `Exact.drop`      some entries are no longer live, and exactly their keys go;
    4. `exact_of_unique` the index is built anew from live entries with distinct keys.
-/
import Mathlib.Tactic.Common

namespace Vellaveto.Lib

variable {ι κ ε : Type*} {live : ε → Prop} {key : ε → κ} {entries entries' : ι → Option ε}
  {index index' : κ → Option ι}

/-- The index maps exactly the keys of the live entries to their ids. -/
def Exact (live : ε → Prop) (key : ε → κ) (entries : ι → Option ε) (index : κ → Option ι) : Prop :=
  ∀ k i, index k = some i ↔ ∃ e, entries i = some e ∧ live e ∧ key e = k

/-- Live entries with the same key are the same entry. -/
theorem Exact.unique (h : Exact live key entries index) {i j : ι} {e f : ε}
    (he : entries i = some e) (hf : entries j = some f) (hlive : live e) (hlive' : live f)
    (hkey : key e = key f) : i = j := by
  have hi : index (key e) = some i := (h _ i).mpr ⟨e, he, hlive, rfl⟩
  have hj : index (key f) = some j := (h _ j).mpr ⟨f, hf, hlive', rfl⟩
  rw [hkey, hj] at hi
  exact (Option.some.inj hi).symm

/-- A key that no live entry has is not in the index. -/
theorem Exact.index_eq_none (h : Exact live key entries index) {k : κ}
    (hk : ∀ i e, entries i = some e → live e → key e ≠ k) : index k = none := by
  cases hi : index k with
  | none => rfl
  | some i =>
    obtain ⟨e, he, hlive, hkey⟩ := (h k i).mp hi
    exact absurd hkey (hk i e he hlive)

theorem Exact.of_eq (h : Exact live key entries index) (hentries : ∀ i, entries' i = entries i)
    (hindex : ∀ k, index' k = index k) : Exact live key entries' index' := by
  intro k i
  rw [hentries, hindex]
  exact h k i

/-- An entry changes in what the index does not see. -/
theorem Exact.replace [DecidableEq ι] (h : Exact live key entries index) {i : ι} {e : ε} (e' : ε)
    (he : entries i = some e) (hlive : live e' ↔ live e) (hkey : key e' = key e)
    (hentries : ∀ j, entries' j = if j = i then some e' else entries j) :
    Exact live key entries' index := by
  intro k j
  rw [h k j, hentries]
  by_cases hj : j = i
  · subst hj
    rw [if_pos rfl, he]
    constructor
    · rintro ⟨x, hx, hxLive, hxKey⟩
      cases hx
      exact ⟨e', rfl, hlive.mpr hxLive, hkey.trans hxKey⟩
    · rintro ⟨x, hx, hxLive, hxKey⟩
      cases hx
      exact ⟨e, rfl, hlive.mp hxLive, hkey.symm.trans hxKey⟩
  · rw [if_neg hj]

/-- An entry becomes live. -/
theorem Exact.add [DecidableEq ι] [DecidableEq κ] (h : Exact live key entries index) {i : ι} {e : ε}
    (hlive : live e) (hold : ∀ x, entries i = some x → ¬live x)
    (hkey : ∀ j x, entries j = some x → live x → key x ≠ key e)
    (hentries : ∀ j, entries' j = if j = i then some e else entries j)
    (hindex : ∀ k, index' k = if k = key e then some i else index k) :
    Exact live key entries' index' := by
  intro k j
  rw [hindex, hentries]
  by_cases hk : k = key e
  · rw [if_pos hk]
    constructor
    · intro hj
      cases hj
      exact ⟨e, if_pos rfl, hlive, hk.symm⟩
    · rintro ⟨x, hx, hxLive, hxKey⟩
      by_cases hj : j = i
      · rw [hj]
      · rw [if_neg hj] at hx
        exact absurd (hxKey.trans hk) (hkey j x hx hxLive)
  · rw [if_neg hk, h k j]
    refine exists_congr fun x => ?_
    by_cases hj : j = i
    · subst hj
      rw [if_pos rfl]
      constructor
      · rintro ⟨hx, hxLive, -⟩
        exact absurd hxLive (hold x hx)
      · rintro ⟨hx, -, hxKey⟩
        cases hx
        exact absurd hxKey.symm hk
    · rw [if_neg hj]

/-- Entries are no longer live, or gone, and their keys go. -/
theorem Exact.drop (h : Exact live key entries index) (dropped : ι → Prop)
    (hentries : ∀ i e, live e → (entries' i = some e ↔ entries i = some e ∧ ¬dropped i))
    (hindex : ∀ k i, index' k = some i ↔ index k = some i ∧
      ¬∃ j e, dropped j ∧ entries j = some e ∧ live e ∧ key e = k) :
    Exact live key entries' index' := by
  intro k i
  rw [hindex, h k i]
  constructor
  · rintro ⟨⟨e, he, hlive, hkey⟩, hnone⟩
    refine ⟨e, (hentries i e hlive).mpr ⟨he, fun hdrop => hnone ?_⟩, hlive, hkey⟩
    exact ⟨i, e, hdrop, he, hlive, hkey⟩
  · rintro ⟨e, he', hlive, hkey⟩
    obtain ⟨he, hkept⟩ := (hentries i e hlive).mp he'
    refine ⟨⟨e, he, hlive, hkey⟩, ?_⟩
    rintro ⟨j, f, hdrop, hf, hfLive, hfKey⟩
    -- the key of a live entry is its own, so the entry that is dropped would be this one
    have hij : i = j := h.unique he hf hlive hfLive (hkey.trans hfKey.symm)
    exact hkept (hij ▸ hdrop)

/-- An index that leads to live entries only, to one for each of their keys, is exact if no two of
    them share a key. -/
theorem exact_of_unique
    (hsound : ∀ k i, index k = some i → ∃ e, entries i = some e ∧ live e ∧ key e = k)
    (hcomplete : ∀ i e, entries i = some e → live e → ∃ j, index (key e) = some j)
    (hunique : ∀ i j e f, entries i = some e → entries j = some f → live e → live f →
      key e = key f → i = j) : Exact live key entries index := by
  intro k i
  refine ⟨hsound k i, ?_⟩
  rintro ⟨e, he, hlive, rfl⟩
  obtain ⟨j, hj⟩ := hcomplete i e he hlive
  obtain ⟨f, hf, hfLive, hfKey⟩ := hsound _ j hj
  rw [hunique i j e f he hf hlive hfLive hfKey.symm]
  exact hj

end Vellaveto.Lib
