/-
  SPANS: keeping non-overlapping intervals greedily, and what the kept ones COVER.

  A list of half-open spans `[lo m, hi m)`, sorted by start and, at one start, longest first, is
  scanned once: a span is kept when it starts at or after the end of the last kept one.  The kept
  spans are disjoint.  What they cover is another matter: a span that starts inside a kept one and
  ends after it is dropped whole, so the part of it that sticks out is left to the spans that come
  later.

  1. **Program** — `keepFree`.

  2. **Specification** — `Covers kept all`: every position of every span lies in a kept one.

  3. **The crux** — the CHAIN of a span list (`Cut`), which needs no scan and no order: start at `0`
     and go on, from each point, to the end of the longest span among those that start first at or
     after it.  `cut_of_kept` and `kept_of_cut` say that the chain's points are the ends of the
     kept spans.

  4. `covers_keepFree_iff`: the kept spans cover everything EXACTLY WHEN the list is `Seamless`,
     that is, when wherever the chain stops strictly inside a span another span starts.

  Empty spans are allowed throughout.  They cover nothing and the chain passes over them.
-/
import Mathlib.Algebra.Ring.Nat
import Mathlib.Data.List.Pairwise
import Mathlib.Tactic.Common

namespace Vellaveto.Lib

variable {σ : Type*} {lo hi : σ → Nat}

/-! ## The scan -/

/-- Keep the spans that start at or after `free`, the end of the last one kept. -/
def keepFree (lo hi : σ → Nat) : Nat → List σ → List σ
  | _, [] => []
  | free, m :: ms => if free ≤ lo m then m :: keepFree lo hi (hi m) ms else keepFree lo hi free ms

/-- Sorted by start and, at one start, longest first. -/
def LongestFirst (lo hi : σ → Nat) (a b : σ) : Prop := lo a < lo b ∨ (lo a = lo b ∧ hi b ≤ hi a)

theorem mem_of_mem_keepFree {free : Nat} {ms : List σ} {k : σ} (hk : k ∈ keepFree lo hi free ms) :
    k ∈ ms := by
  induction ms generalizing free with
  | nil => exact hk
  | cons m ms ih =>
    rw [keepFree] at hk
    split at hk
    · rcases List.mem_cons.mp hk with rfl | hk
      · exact List.mem_cons_self
      · exact List.mem_cons_of_mem m (ih hk)
    · exact List.mem_cons_of_mem m (ih hk)

/-- The first span is always kept. -/
theorem keepFree_zero_eq_nil_iff {ms : List σ} : keepFree lo hi 0 ms = [] ↔ ms = [] := by
  cases ms with
  | nil => exact Iff.rfl
  | cons m ms =>
    rw [keepFree, if_pos (Nat.zero_le _)]
    simp

/-- Nothing is kept from before `free`. -/
theorem le_of_mem_keepFree {free : Nat} {ms : List σ} (hspan : ∀ m ∈ ms, lo m ≤ hi m) {k : σ}
    (hk : k ∈ keepFree lo hi free ms) : free ≤ lo k := by
  induction ms generalizing free with
  | nil => cases hk
  | cons m ms ih =>
    have hm : lo m ≤ hi m := hspan m List.mem_cons_self
    have hms : ∀ n ∈ ms, lo n ≤ hi n := fun n hn => hspan n (List.mem_cons_of_mem m hn)
    rw [keepFree] at hk
    split at hk
    · rename_i hfree
      rcases List.mem_cons.mp hk with rfl | hk
      · exact hfree
      · have hle := ih hms hk
        omega
    · exact ih hms hk

/-- **The kept spans are disjoint**, and in order. -/
theorem pairwise_keepFree {free : Nat} {ms : List σ} (hspan : ∀ m ∈ ms, lo m ≤ hi m) :
    (keepFree lo hi free ms).Pairwise fun a b => hi a ≤ lo b := by
  induction ms generalizing free with
  | nil => exact List.Pairwise.nil
  | cons m ms ih =>
    have hms : ∀ n ∈ ms, lo n ≤ hi n := fun n hn => hspan n (List.mem_cons_of_mem m hn)
    rw [keepFree]
    split
    · exact List.pairwise_cons.mpr ⟨fun b hb => le_of_mem_keepFree hms hb, ih hms⟩
    · exact ih hms

/-- A span that is not kept starts inside a kept one. -/
theorem exists_kept_over_start {free : Nat} {ms : List σ}
    (hsorted : ms.Pairwise (LongestFirst lo hi)) {m : σ} (hm : m ∈ ms) (hfree : free ≤ lo m) :
    ∃ k ∈ keepFree lo hi free ms, lo k ≤ lo m ∧ (k = m ∨ lo m < hi k) := by
  induction ms generalizing free with
  | nil => cases hm
  | cons n ms ih =>
    obtain ⟨hhead, htail⟩ := List.pairwise_cons.mp hsorted
    rw [keepFree]
    rcases List.mem_cons.mp hm with rfl | hm
    · rw [if_pos hfree]
      exact ⟨m, List.mem_cons_self, le_refl _, Or.inl rfl⟩
    · split
      · -- `n` is kept: `m` is either inside it or still to be decided
        have hle : lo n ≤ lo m := by
          rcases hhead m hm with h | h <;> omega
        rcases Nat.lt_or_ge (lo m) (hi n) with hin | hout
        · exact ⟨n, List.mem_cons_self, hle, Or.inr hin⟩
        · obtain ⟨k, hk, h⟩ := ih htail hm hout
          exact ⟨k, List.mem_cons_of_mem n hk, h⟩
      · exact ih htail hm hfree

/-! ## The chain -/

/-- `m` is the longest of the spans that start first at or after `p`. -/
structure FirstFrom (lo hi : σ → Nat) (ms : List σ) (p : Nat) (m : σ) : Prop where
  mem : m ∈ ms
  nonempty : lo m < hi m
  start : p ≤ lo m
  first : ∀ n ∈ ms, lo n < hi n → p ≤ lo n → LongestFirst lo hi m n

/-- The points of the chain that starts at `0`. -/
inductive Cut (lo hi : σ → Nat) (ms : List σ) : Nat → Prop where
  | zero : Cut lo hi ms 0
  | next {p : Nat} {m : σ} (hp : Cut lo hi ms p) (hm : FirstFrom lo hi ms p m) :
      Cut lo hi ms (hi m)

/-- The chain depends on which spans there are, not on their order. -/
theorem Cut.of_mem_iff {ms ns : List σ} (hmem : ∀ m, m ∈ ms ↔ m ∈ ns) {p : Nat}
    (hp : Cut lo hi ms p) : Cut lo hi ns p := by
  induction hp with
  | zero => exact Cut.zero
  | next _ hm ih =>
    refine Cut.next ih ⟨(hmem _).mp hm.mem, hm.nonempty, hm.start, ?_⟩
    intro n hn hpos hle
    exact hm.first n ((hmem n).mpr hn) hpos hle

/-- Every kept span continues the chain.  The invariant of the scan: `q` is the last point of the
    chain, the spans that start from `q` on are all still to come, and `free` is beyond `q` only
    by empty spans, which no later span precedes. -/
theorem firstFrom_of_kept {all ms : List σ} {free q : Nat} (hspan : ∀ m ∈ ms, lo m ≤ hi m)
    (hsorted : ms.Pairwise (LongestFirst lo hi)) (hsub : ∀ m ∈ ms, m ∈ all) (hq : Cut lo hi all q)
    (hqfree : q ≤ free) (hcome : ∀ n ∈ all, lo n < hi n → q ≤ lo n → n ∈ ms ∧ free ≤ lo n)
    {k : σ} (hk : k ∈ keepFree lo hi free ms) (hne : lo k < hi k) :
    ∃ p, Cut lo hi all p ∧ FirstFrom lo hi all p k := by
  induction ms generalizing free q with
  | nil => cases hk
  | cons m ms ih =>
    obtain ⟨hhead, htail⟩ := List.pairwise_cons.mp hsorted
    have hm : lo m ≤ hi m := hspan m List.mem_cons_self
    have hms : ∀ n ∈ ms, lo n ≤ hi n := fun n hn => hspan n (List.mem_cons_of_mem m hn)
    have hsub' : ∀ n ∈ ms, n ∈ all := fun n hn => hsub n (List.mem_cons_of_mem m hn)
    -- a span from `q` on other than `m` is in the rest
    have hrest : ∀ n ∈ all, lo n < hi n → q ≤ lo n → n ≠ m → n ∈ ms := by
      intro n hn hpos hle hnm
      rcases List.mem_cons.mp (hcome n hn hpos hle).1 with h | h
      · exact absurd h hnm
      · exact h
    rw [keepFree] at hk
    split at hk
    · rename_i hfree
      rcases Nat.lt_or_ge (lo m) (hi m) with hpos | hempty
      · -- a nonempty span is kept: it is the next link
        have hfirst : FirstFrom lo hi all q m := by
          refine ⟨hsub m List.mem_cons_self, hpos, by omega, ?_⟩
          intro n hn hnpos hle
          by_cases hnm : n = m
          · rw [hnm]
            exact Or.inr ⟨rfl, le_refl _⟩
          · exact hhead n (hrest n hn hnpos hle hnm)
        rcases List.mem_cons.mp hk with rfl | hk
        · exact ⟨q, hq, hfirst⟩
        · refine ih hms htail hsub' (Cut.next hq hfirst) (le_refl _) ?_ hk
          intro n hn hnpos hle
          have hnm : n ≠ m := by
            rintro rfl
            omega
          exact ⟨hrest n hn hnpos (by omega) hnm, hle⟩
      · -- an empty span is kept: the chain stays where it is
        rcases List.mem_cons.mp hk with rfl | hk
        · omega
        · refine ih hms htail hsub' hq (by omega) ?_ hk
          intro n hn hnpos hle
          have hnm : n ≠ m := by
            rintro rfl
            omega
          have hmem := hrest n hn hnpos hle hnm
          refine ⟨hmem, ?_⟩
          rcases hhead n hmem with h | h <;> omega
    · rename_i hfree
      refine ih hms htail hsub' hq hqfree ?_ hk
      intro n hn hnpos hle
      have hstart : free ≤ lo n := (hcome n hn hnpos hle).2
      have hnm : n ≠ m := by
        rintro rfl
        omega
      exact ⟨hrest n hn hnpos hle hnm, hstart⟩

section Sorted

variable {ms : List σ} (hspan : ∀ m ∈ ms, lo m ≤ hi m)
  (hsorted : ms.Pairwise (LongestFirst lo hi))

include hspan hsorted

theorem firstFrom_of_mem_keepFree {k : σ} (hk : k ∈ keepFree lo hi 0 ms) (hne : lo k < hi k) :
    ∃ p, Cut lo hi ms p ∧ FirstFrom lo hi ms p k :=
  firstFrom_of_kept hspan hsorted (fun _ hm => hm) Cut.zero (le_refl 0)
    (fun _ hn _ _ => ⟨hn, Nat.zero_le _⟩) hk hne

/-- The end of a kept span is a point of the chain. -/
theorem cut_of_kept {k : σ} (hk : k ∈ keepFree lo hi 0 ms) (hne : lo k < hi k) :
    Cut lo hi ms (hi k) := by
  obtain ⟨p, hp, hfirst⟩ := firstFrom_of_mem_keepFree hspan hsorted hk hne
  exact Cut.next hp hfirst

/-- A kept span starts with the longest span there is at that place. -/
theorem hi_le_of_kept {k m : σ} (hk : k ∈ keepFree lo hi 0 ms) (hne : lo k < hi k) (hm : m ∈ ms)
    (hstart : lo m = lo k) : hi m ≤ hi k := by
  obtain ⟨p, _, hfirst⟩ := firstFrom_of_mem_keepFree hspan hsorted hk hne
  rcases Nat.lt_or_ge (lo m) (hi m) with hpos | hempty
  · have hp : p ≤ lo m := hstart ▸ hfirst.start
    rcases hfirst.first m hm hpos hp with h | h <;> omega
  · omega

omit hsorted in
/-- Two kept spans are the same one, or one of them ends before the other starts. -/
theorem kept_disjoint {k l : σ} (hk : k ∈ keepFree lo hi 0 ms) (hl : l ∈ keepFree lo hi 0 ms) :
    k = l ∨ hi k ≤ lo l ∨ hi l ≤ lo k := by
  have hsymm : Std.Symm fun a b : σ => hi a ≤ lo b ∨ hi b ≤ lo a := ⟨fun _ _ h => h.symm⟩
  have hpair : (keepFree lo hi 0 ms).Pairwise fun a b => hi a ≤ lo b ∨ hi b ≤ lo a :=
    (pairwise_keepFree hspan).imp Or.inl
  by_cases hkl : k = l
  · exact Or.inl hkl
  · exact Or.inr (hpair.forall hk hl hkl)

/-- A point of the chain is `0` or the end of a kept span. -/
theorem kept_of_cut {p : Nat} (hp : Cut lo hi ms p) :
    p = 0 ∨ ∃ k ∈ keepFree lo hi 0 ms, lo k < hi k ∧ hi k = p := by
  induction hp with
  | zero => exact Or.inl rfl
  | @next p m _ hm ih =>
    obtain ⟨k, hk, hle, hover⟩ := exists_kept_over_start hsorted hm.mem (Nat.zero_le (lo m))
    have hmpos := hm.nonempty
    have hmstart := hm.start
    have hover : lo m < hi k := by
      rcases hover with rfl | h
      · exact hmpos
      · exact h
    -- `k` cannot start before `p`: there the chain's last span lies
    have hpk : p ≤ lo k := by
      rcases ih with rfl | ⟨l, hl, hlpos, rfl⟩
      · exact Nat.zero_le _
      · rcases kept_disjoint hspan hk hl with rfl | h | h <;> omega
    have hkpos : lo k < hi k := by omega
    have hfirst := hm.first k (mem_of_mem_keepFree hk) hkpos hpk
    have hstart : lo m = lo k := by
      rcases hfirst with h | h <;> omega
    have hlongest := hi_le_of_kept hspan hsorted hk hkpos hm.mem hstart
    refine Or.inr ⟨k, hk, hkpos, ?_⟩
    rcases hfirst with h | h <;> omega

end Sorted

/-! ## Coverage -/

/-- Every position of a span of `ms` lies in a span of `kept`. -/
def Covers (lo hi : σ → Nat) (kept ms : List σ) : Prop :=
  ∀ m ∈ ms, ∀ i, lo m ≤ i → i < hi m → ∃ k ∈ kept, lo k ≤ i ∧ i < hi k

/-- Wherever the chain stops strictly inside a span, a nonempty span starts. -/
def Seamless (lo hi : σ → Nat) (ms : List σ) : Prop :=
  ∀ p, Cut lo hi ms p → ∀ m ∈ ms, lo m < p → p < hi m → ∃ n ∈ ms, lo n = p ∧ p < hi n

theorem Seamless.of_mem_iff {ms ns : List σ} (hmem : ∀ m, m ∈ ms ↔ m ∈ ns)
    (hseam : Seamless lo hi ms) : Seamless lo hi ns := by
  intro p hp m hm hlo hhi
  have hp' : Cut lo hi ms p := hp.of_mem_iff fun m => (hmem m).symm
  obtain ⟨n, hn, hstart⟩ := hseam p hp' m ((hmem m).mpr hm) hlo hhi
  exact ⟨n, (hmem n).mp hn, hstart⟩

section Sorted

variable {ms : List σ} (hspan : ∀ m ∈ ms, lo m ≤ hi m)
  (hsorted : ms.Pairwise (LongestFirst lo hi))

include hspan hsorted

/-- From a point of the chain inside `m` on, a seamless list is covered to the end of `m`. -/
theorem covered_from_cut (hseam : Seamless lo hi ms) {m : σ} (hm : m ∈ ms) {p i : Nat}
    (hp : Cut lo hi ms p) (hstart : lo m < p) (hpi : p ≤ i) (hi' : i < hi m) :
    ∃ k ∈ keepFree lo hi 0 ms, lo k ≤ i ∧ i < hi k := by
  obtain ⟨n, hn, hnstart, hnpos⟩ := hseam p hp m hm hstart (by omega)
  obtain ⟨k, hk, hle, hover⟩ := exists_kept_over_start hsorted hn (Nat.zero_le (lo n))
  have hover : p < hi k := by
    rcases hover with rfl | h <;> omega
  rcases Nat.lt_or_ge i (hi k) with hin | hout
  · exact ⟨k, hk, by omega, hin⟩
  · have hcut := cut_of_kept hspan hsorted hk (by omega)
    exact covered_from_cut hseam hm hcut (by omega) hout hi'
termination_by i - p

/-- **Greedy selection covers every span exactly when the list is seamless.** -/
theorem covers_keepFree_iff : Covers lo hi (keepFree lo hi 0 ms) ms ↔ Seamless lo hi ms := by
  constructor
  · intro hcover p hp m hm hstart hstop
    obtain ⟨k, hk, hle, hlt⟩ := hcover m hm p (by omega) hstop
    refine ⟨k, mem_of_mem_keepFree hk, ?_, hlt⟩
    -- the chain reached `p` by a kept span, which `k` cannot overlap
    rcases kept_of_cut hspan hsorted hp with rfl | ⟨l, hl, hlpos, rfl⟩
    · omega
    · rcases kept_disjoint hspan hk hl with rfl | h | h <;> omega
  · intro hseam m hm i hlo hhi
    obtain ⟨k, hk, hle, hover⟩ := exists_kept_over_start hsorted hm (Nat.zero_le (lo m))
    rcases Nat.lt_or_ge i (hi k) with hin | hout
    · exact ⟨k, hk, by omega, hin⟩
    · rcases hover with rfl | hover
      · omega
      · have hcut := cut_of_kept hspan hsorted hk (by omega)
        exact covered_from_cut hspan hsorted hseam hm hcut hover hout hhi

end Sorted

end Vellaveto.Lib
