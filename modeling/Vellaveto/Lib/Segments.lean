/-
  WORDS INSIDE JOINED SEGMENTS.

  Segments are joined with a separator between them.  A word without the separator that occurs in the
  joined text occurs in ONE of the segments, and every segment of a split text occurs in the text: a
  property of the form "no such word occurs" therefore passes from a text to every text that is put
  together from some of its segments.  The segments of a text stand at the end of another's exactly if the
  text itself does, behind a separator.
-/
import Mathlib.Data.List.Basic
import Mathlib.Data.List.Infix

namespace Vellaveto.Lib

variable {α : Type} {x sep : α} {word left right : List α} {segments : List (List α)}

/-- A word whose first letter does not occur on the left starts on the right. -/
theorem infix_of_not_mem (hx : x ∉ left) (h : x :: word <:+: left ++ right) :
    x :: word <:+: right := by
  induction left with
  | nil => exact h
  | cons a left ih =>
    rw [List.cons_append] at h
    rcases List.infix_cons_iff.mp h with hpre | hin
    · obtain ⟨rest, hrest⟩ := hpre
      obtain ⟨hxa, -⟩ := List.cons.inj hrest
      exact absurd (hxa ▸ List.mem_cons_self) hx
    · exact ih (fun hmem => hx (List.mem_cons_of_mem a hmem)) hin

/-- A word without the separator does not reach over it. -/
theorem infix_append_sep (hsep : sep ∉ word) (h : word <:+: left ++ sep :: right) :
    word <:+: left ∨ word <:+: right := by
  induction left with
  | nil =>
    rcases List.infix_cons_iff.mp h with hpre | hin
    · cases word with
      | nil => exact .inl (List.nil_infix)
      | cons a word =>
        rw [List.cons_prefix_cons] at hpre
        exact absurd (hpre.1 ▸ List.mem_cons_self) hsep
    · exact .inr hin
  | cons a left ih =>
    rw [List.cons_append] at h
    rcases List.infix_cons_iff.mp h with hpre | hin
    · left
      have hleft : a :: left <+: a :: (left ++ sep :: right) := ⟨sep :: right, rfl⟩
      rcases Nat.lt_or_ge (a :: left).length word.length with hlong | hshort
      · -- the word would reach over the separator
        have hsepPre : (a :: left) ++ [sep] <+: a :: (left ++ sep :: right) :=
          ⟨right, by simp⟩
        have hlen : ((a :: left) ++ [sep]).length ≤ word.length := by
          rw [List.length_append, List.length_singleton]
          omega
        have hin : (a :: left) ++ [sep] <+: word :=
          List.prefix_of_prefix_length_le hsepPre hpre hlen
        exact absurd (hin.subset (by simp)) hsep
      · exact (List.prefix_of_prefix_length_le hpre hleft hshort).isInfix
    · rcases ih hin with h' | h'
      · exact .inl (List.infix_cons h')
      · exact .inr h'

theorem infix_intercalate (hsep : sep ∉ word) (hne : word ≠ [])
    (h : word <:+: [sep].intercalate segments) : ∃ segment ∈ segments, word <:+: segment := by
  induction segments with
  | nil => exact absurd (List.infix_nil.mp h) hne
  | cons segment segments ih =>
    cases segments with
    | nil =>
      rw [List.intercalate_singleton] at h
      exact ⟨segment, List.mem_cons_self, h⟩
    | cons segment' segments =>
      rw [List.intercalate_cons_cons, List.append_assoc, List.singleton_append] at h
      rcases infix_append_sep hsep h with h | h
      · exact ⟨segment, List.mem_cons_self, h⟩
      · obtain ⟨found, hmem, hin⟩ := ih h
        exact ⟨found, List.mem_cons_of_mem segment hmem, hin⟩

theorem infix_intercalate_of_mem {segment : List α} (h : segment ∈ segments) :
    segment <:+: [sep].intercalate segments := by
  induction segments with
  | nil => cases h
  | cons first segments ih =>
    cases segments with
    | nil =>
      rw [List.mem_singleton.mp h, List.intercalate_singleton]
    | cons second segments =>
      rw [List.intercalate_cons_cons, List.append_assoc]
      rcases List.mem_cons.mp h with rfl | h
      · exact List.infix_append_left
      · exact (ih h).trans (List.infix_append_right.trans List.infix_append_right)

/-- Two lists of segments that are joined. -/
theorem intercalate_append {front behind : List (List α)} (hfront : front ≠ []) (hbehind : behind ≠ []) :
    [sep].intercalate (front ++ behind) =
      [sep].intercalate front ++ sep :: [sep].intercalate behind := by
  induction front with
  | nil => exact absurd rfl hfront
  | cons segment front ih =>
    cases front with
    | nil =>
      rw [List.singleton_append, List.intercalate_cons_of_ne_nil hbehind, List.intercalate_singleton,
        List.append_assoc, List.singleton_append]
    | cons segment' front =>
      have hjoined := ih (List.cons_ne_nil segment' front)
      rw [List.cons_append, List.cons_append, List.intercalate_cons_cons, ← List.cons_append, hjoined,
        List.intercalate_cons_cons]
      simp only [List.append_assoc]

variable [DecidableEq α]

theorem infix_of_mem_splitOn {segment text : List α} (h : segment ∈ text.splitOn sep) :
    segment <:+: text := by
  have hin : segment <:+: [sep].intercalate (text.splitOn sep) := infix_intercalate_of_mem h
  rwa [List.intercalate_splitOn] at hin

theorem not_mem_of_mem_splitOn {segment text : List α} (h : segment ∈ text.splitOn sep) :
    sep ∉ segment := by
  induction text generalizing segment with
  | nil =>
    rw [List.splitOn_nil, List.mem_singleton] at h
    rw [h]
    exact List.not_mem_nil
  | cons a text ih =>
    rw [List.splitOn_cons_eq_if_modifyHead] at h
    split at h
    · rcases List.mem_cons.mp h with rfl | h
      · exact List.not_mem_nil
      · exact ih h
    · rename_i hne
      cases hsplit : text.splitOn sep with
      | nil => exact absurd hsplit (List.splitOn_ne_nil sep text)
      | cons first rest =>
        rw [hsplit, List.modifyHead_cons] at h
        rcases List.mem_cons.mp h with rfl | h
        · have hfirst : sep ∉ first := ih (hsplit ▸ List.mem_cons_self)
          intro hmem
          rcases List.mem_cons.mp hmem with rfl | hmem
          · exact hne (beq_self_eq_true _)
          · exact hfirst hmem
        · exact ih (hsplit ▸ List.mem_cons_of_mem first h)

/-- **The segments of a text stand at the end of another's** exactly if the texts are the same, or the one
    stands at the end of the other behind a separator. -/
theorem splitOn_suffix_iff {text ending : List α} :
    ending.splitOn sep <:+ text.splitOn sep ↔ text = ending ∨ sep :: ending <:+ text := by
  constructor
  · rintro ⟨front, hfront⟩
    have hjoin := congrArg ([sep].intercalate) hfront
    rw [List.intercalate_splitOn] at hjoin
    by_cases hnil : front = []
    · rw [hnil, List.nil_append, List.intercalate_splitOn] at hjoin
      exact .inl hjoin.symm
    · rw [intercalate_append hnil (List.splitOn_ne_nil sep ending), List.intercalate_splitOn] at hjoin
      exact .inr ⟨_, hjoin⟩
  · rintro (rfl | ⟨front, rfl⟩)
    · exact List.suffix_refl _
    · rw [List.splitOn_append_cons_self]
      exact List.suffix_append _ _

end Vellaveto.Lib
