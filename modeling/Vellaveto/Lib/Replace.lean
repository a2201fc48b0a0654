/-
  REPLACING every occurrence of one word after another.

  A text in which some parts were exchanged for KEYS is restored by replacing each key with what it
  stands for, key after key and in any order.  A replacement is global, so it could also hit a
  place that is no key: two keys that overlap, or a restored part that happens to look like one.
  Two conditions exclude this:

  1. `OverlapFree keys` — no key starts inside a key, other than that key at its own start;

  2. every key starts with one MARKER, whose first letter does not come again in it, and the
     original text does not contain the marker.

  `restore_step` is the induction over the segments of the text, `restore_all` the induction over
  the keys.
-/
import Mathlib.Data.List.Infix
import Mathlib.Tactic.Common

namespace Vellaveto.Lib

variable {α : Type*} [DecidableEq α]

/-! ## Replacement -/

/-- Replace the occurrences of `src`, after skipping `skip` letters. -/
def replaceFrom (src dst : List α) : Nat → List α → List α
  | _, [] => []
  | skip + 1, _ :: cs => replaceFrom src dst skip cs
  | 0, c :: cs =>
    if src <+: c :: cs then dst ++ replaceFrom src dst (src.length - 1) cs
    else c :: replaceFrom src dst 0 cs

/-- `str::replace`: from left to right, the occurrences that do not overlap.  An empty `src` occurs
    before every letter and at the end. -/
def replaceAll (src dst text : List α) : List α :=
  if src = [] then dst ++ text.flatMap (fun c => c :: dst) else replaceFrom src dst 0 text

theorem replaceFrom_append (src dst u v : List α) :
    replaceFrom src dst u.length (u ++ v) = replaceFrom src dst 0 v := by
  induction u with
  | nil => rfl
  | cons c u ih => exact ih

/-- An occurrence at the start is replaced, and the rest comes after it. -/
theorem replaceAll_self_append {src : List α} (hsrc : src ≠ []) (dst v : List α) :
    replaceAll src dst (src ++ v) = dst ++ replaceAll src dst v := by
  rw [replaceAll, replaceAll, if_neg hsrc, if_neg hsrc]
  obtain ⟨c, w, rfl⟩ := List.exists_cons_of_ne_nil hsrc
  have hprefix : c :: w <+: c :: (w ++ v) := List.prefix_append (c :: w) v
  rw [List.cons_append, replaceFrom, if_pos hprefix, List.length_cons, Nat.add_sub_cancel,
    replaceFrom_append]

/-- Where no occurrence starts, the text stays. -/
theorem replaceAll_append {src : List α} (hsrc : src ≠ []) (dst : List α) {u v : List α}
    (hnone : ∀ i, i < u.length → ¬ src <+: u.drop i ++ v) :
    replaceAll src dst (u ++ v) = u ++ replaceAll src dst v := by
  induction u with
  | nil => rfl
  | cons c u ih =>
    have hhead : ¬ src <+: c :: (u ++ v) := hnone 0 (Nat.zero_lt_succ _)
    have htail : ∀ i, i < u.length → ¬ src <+: u.drop i ++ v :=
      fun i hi => hnone (i + 1) (Nat.succ_lt_succ hi)
    have ih := ih htail
    rw [replaceAll, if_neg hsrc] at ih ⊢
    rw [List.cons_append, replaceFrom, if_neg hhead, ih, List.cons_append]

/-! ## Segments -/

/-- A segment of a text: as it was, or a key for what was there. -/
inductive Segment (α : Type*) where
  | plain (text : List α)
  | mark (key original : List α)

namespace Segment

/-- The text, with the keys of `done` restored. -/
def render (done : List (List α)) : Segment α → List α
  | plain text => text
  | mark key original => if key ∈ done then original else key

/-- The text that the segment came from. -/
def original : Segment α → List α
  | plain text => text
  | mark _ original => original

end Segment

def renderAll (done : List (List α)) (segments : List (Segment α)) : List α :=
  segments.flatMap fun s => s.render done

def originalText (segments : List (Segment α)) : List α := segments.flatMap fun s => s.original

/-! ## Keys -/

/-- No key starts inside a key, other than that key at its own start; nor can what follows in the
    text complete one there. -/
def OverlapFree (keys : List α → Prop) : Prop :=
  ∀ k l, keys k → keys l → ∀ i, i < l.length → (k <+: l.drop i ∨ l.drop i <+: k) → i = 0 ∧ k = l

/-- Every key starts with the marker `a :: marker`, and `a` is not in `marker`. -/
structure Marked (a : α) (marker : List α) (keys : List α → Prop) : Prop where
  starts : ∀ k, keys k → a :: marker <+: k
  once : a ∉ marker

variable {a : α} {marker : List α} {keys : List α → Prop} {done : List (List α)}

omit [DecidableEq α] in
/-- A prefix of `u ++ v` that is longer than `u` ends inside `v`. -/
theorem exists_prefix_of_append {w u v : List α} (h : w <+: u ++ v) (hlen : u.length ≤ w.length) :
    ∃ r, w = u ++ r ∧ r <+: v := by
  have hu : u <+: w := List.prefix_of_prefix_length_le (List.prefix_append u v) h hlen
  obtain ⟨r, rfl⟩ := hu
  exact ⟨r, rfl, (List.prefix_append_right_inj u).mp h⟩

/-- **A marker that starts in restored text is in the original text**: it cannot run on into a key,
    because a key starts with the marker's first letter. -/
theorem marker_infix_original (hmarked : Marked a marker keys) {segments : List (Segment α)}
    (hkeys : ∀ key original, .mark key original ∈ segments → keys key) {u : List α} (hu : u ≠ [])
    (h : a :: marker <+: u ++ renderAll done segments) :
    a :: marker <:+: u ++ originalText segments := by
  induction segments generalizing u with
  | nil => exact h.isInfix
  | cons s segments ih =>
    have hkeys' : ∀ key original, .mark key original ∈ segments → keys key :=
      fun key original hmem => hkeys key original (List.mem_cons_of_mem s hmem)
    have hrestored : ∀ t, t = s.original →
        a :: marker <+: u ++ (t ++ renderAll done segments) →
        a :: marker <:+: u ++ (s.original ++ originalText segments) := by
      rintro t rfl h
      rw [← List.append_assoc] at h ⊢
      exact ih hkeys' (by simp [hu]) h
    show a :: marker <:+: u ++ (s.original ++ originalText segments)
    have h : a :: marker <+: u ++ (s.render done ++ renderAll done segments) := h
    cases s with
    | plain text => exact hrestored text rfl h
    | mark key original =>
      by_cases hdone : key ∈ done
      · rw [Segment.render, if_pos hdone] at h
        exact hrestored original rfl h
      · rw [Segment.render, if_neg hdone] at h
        obtain ⟨r, rfl⟩ := hmarked.starts key (hkeys key original List.mem_cons_self)
        rcases Nat.lt_or_ge u.length (a :: marker).length with hshort | hlong
        · -- the marker would go on with the key's first letter
          exfalso
          obtain ⟨w, hw, hprefix⟩ := exists_prefix_of_append h (Nat.le_of_lt hshort)
          obtain ⟨c, u, rfl⟩ := List.exists_cons_of_ne_nil hu
          rw [List.cons_append, List.cons.injEq] at hw
          obtain ⟨rfl, hw⟩ := hw
          cases w with
          | nil =>
            rw [List.append_nil] at hw
            rw [hw, List.length_cons] at hshort
            exact Nat.lt_irrefl _ hshort
          | cons d w =>
            have hd : d = a := by
              obtain ⟨_, heq⟩ := hprefix
              simpa using congrArg List.head? heq
            refine hmarked.once ?_
            rw [hw, hd]
            simp
        · have hpre : a :: marker <+: u :=
            List.prefix_of_prefix_length_le h (List.prefix_append u _) hlong
          exact (hpre.trans (List.prefix_append u _)).isInfix

omit [DecidableEq α] in
/-- Words that open with `a`, close with `b` and have neither inside do not overlap. -/
theorem overlapFree_of_delimited {b : α}
    (hshape : ∀ k, keys k → ∃ body, k = a :: (body ++ [b]) ∧ a ∉ body ∧ b ∉ body) (hab : a ≠ b) :
    OverlapFree keys := by
  intro k l hk hl i hi hover
  obtain ⟨kb, rfl, hka, hkb⟩ := hshape k hk
  obtain ⟨lb, rfl, hla, hlb⟩ := hshape l hl
  cases i with
  | succ i =>
    -- inside `l` there is no `a` to open `k`
    exfalso
    have hdrop : (lb ++ [b]).drop i ≠ [] := by
      rw [Ne, List.drop_eq_nil_iff]
      simp only [List.length_cons] at hi
      omega
    obtain ⟨c, rest, hc⟩ := List.exists_cons_of_ne_nil hdrop
    have hmem : c ∈ lb ++ [b] := List.mem_of_mem_drop (hc ▸ List.mem_cons_self)
    have hca : c = a := by
      rw [List.drop_succ_cons, hc] at hover
      rcases hover with ⟨r, h⟩ | ⟨r, h⟩
      · exact (List.cons.inj h).1.symm
      · exact (List.cons.inj h).1
    rcases List.mem_append.mp hmem with h | h
    · exact hla (hca ▸ h)
    · exact hab (hca ▸ List.mem_singleton.mp h)
  | zero =>
    -- the first `b` closes both
    refine ⟨rfl, ?_⟩
    rw [List.drop_zero] at hover
    have hclose : ∀ {u v r : List α}, b ∉ u → b ∉ v → u ++ [b] ++ r = v ++ [b] → u = v := by
      intro u v r hu hv h
      rcases List.append_eq_append_iff.mp ((List.append_assoc u [b] r).symm.trans h) with
        ⟨w, rfl, hw⟩ | ⟨w, rfl, hw⟩
      · cases w with
        | nil => exact (List.append_nil u).symm
        | cons d w =>
          rw [List.singleton_append, List.cons_append, List.cons.injEq] at hw
          exact absurd (List.mem_append_right u (hw.1 ▸ List.mem_cons_self)) hv
      · cases w with
        | nil => exact List.append_nil v
        | cons d w =>
          rw [List.cons_append, List.cons.injEq] at hw
          exact absurd (List.mem_append_right v (hw.1 ▸ List.mem_cons_self)) hu
    rcases hover with ⟨r, h⟩ | ⟨r, h⟩
    · rw [hclose hkb hlb (List.cons.inj h).2]
    · rw [hclose hlb hkb (List.cons.inj h).2]

/-! ## Restoring -/

section Restore

variable (hmarked : Marked a marker keys) (hfree : OverlapFree keys)
  {segments : List (Segment α)} (hkeys : ∀ key original, .mark key original ∈ segments → keys key)
  (hclean : ¬ a :: marker <:+: originalText segments)

include hmarked hfree hkeys hclean

/-- **One replacement restores one key**, everywhere it stands and nowhere else. -/
theorem restore_step {k v : List α} (hk : keys k)
    (hv : ∀ original, .mark k original ∈ segments → original = v) :
    replaceAll k v (renderAll done segments) = renderAll (k :: done) segments := by
  have hk_ne : k ≠ [] := by
    obtain ⟨r, rfl⟩ := hmarked.starts k hk
    simp
  induction segments with
  | nil =>
    rw [replaceAll, if_neg hk_ne]
    rfl
  | cons s segments ih =>
    have hkeys' : ∀ key original, .mark key original ∈ segments → keys key :=
      fun key original hmem => hkeys key original (List.mem_cons_of_mem s hmem)
    have hclean' : ¬ a :: marker <:+: originalText segments :=
      fun h => hclean (h.trans (List.suffix_append s.original _).isInfix)
    have ih := ih hkeys' hclean' fun original hmem => hv original (List.mem_cons_of_mem s hmem)
    -- no key starts in text that is restored already
    have hrestored : replaceAll k v (s.original ++ renderAll done segments) =
        s.original ++ renderAll (k :: done) segments := by
      rw [← ih]
      refine replaceAll_append hk_ne v fun i hi hocc => hclean ?_
      have hne : s.original.drop i ≠ [] := by
        rw [Ne, List.drop_eq_nil_iff]
        omega
      have hinfix := marker_infix_original hmarked hkeys' hne ((hmarked.starts k hk).trans hocc)
      have hsuffix : s.original.drop i ++ originalText segments <:+
          s.original ++ originalText segments := by
        obtain ⟨t, ht⟩ := List.drop_suffix i s.original
        refine ⟨t, ?_⟩
        rw [← List.append_assoc, ht]
      exact hinfix.trans hsuffix.isInfix
    show replaceAll k v (s.render done ++ renderAll done segments) =
      s.render (k :: done) ++ renderAll (k :: done) segments
    cases s with
    | plain text => exact hrestored
    | mark key original =>
      have hkey : keys key := hkeys key original List.mem_cons_self
      by_cases hdone : key ∈ done
      · rw [Segment.render, if_pos hdone, Segment.render, if_pos (List.mem_cons_of_mem k hdone)]
        exact hrestored
      · rw [Segment.render, if_neg hdone, Segment.render]
        by_cases hkk : key = k
        · subst hkk
          rw [replaceAll_self_append hk_ne, ih, if_pos List.mem_cons_self,
            hv original List.mem_cons_self]
        · rw [if_neg (by simp [hkk, hdone]), ← ih]
          refine replaceAll_append hk_ne v fun i hi hocc => ?_
          have hover : k <+: key.drop i ∨ key.drop i <+: k :=
            List.prefix_or_prefix_of_prefix hocc (List.prefix_append _ _)
          exact hkk (hfree k key hk hkey i hi hover).2.symm

/-- **Replacing key after key restores all of them**, in whatever order they come. -/
theorem restore_all {entries : List (List α × List α)} (hentries : ∀ e ∈ entries, keys e.1)
    (hv : ∀ e ∈ entries, ∀ original, .mark e.1 original ∈ segments → original = e.2)
    (hall : ∀ key original, .mark key original ∈ segments → key ∈ done ∨ ∃ e ∈ entries, e.1 = key) :
    entries.foldl (fun text e => replaceAll e.1 e.2 text) (renderAll done segments) =
      originalText segments := by
  induction entries generalizing done with
  | nil =>
    refine congrArg List.flatten (List.map_congr_left fun s hs => ?_)
    cases s with
    | plain text => rfl
    | mark key original =>
      rcases hall key original hs with h | ⟨e, he, _⟩
      · exact if_pos h
      · cases he
  | cons e entries ih =>
    have hstep : replaceAll e.1 e.2 (renderAll done segments) = renderAll (e.1 :: done) segments :=
      restore_step hmarked hfree hkeys hclean (hentries e List.mem_cons_self)
        (hv e List.mem_cons_self)
    rw [List.foldl_cons, hstep]
    refine ih (fun e' he' => hentries e' (List.mem_cons_of_mem e he'))
      (fun e' he' => hv e' (List.mem_cons_of_mem e he')) ?_
    intro key original hmem
    rcases hall key original hmem with h | ⟨e', he', rfl⟩
    · exact Or.inl (List.mem_cons_of_mem _ h)
    · rcases List.mem_cons.mp he' with rfl | he'
      · exact Or.inl List.mem_cons_self
      · exact Or.inr ⟨e', he', rfl⟩

end Restore

end Vellaveto.Lib
