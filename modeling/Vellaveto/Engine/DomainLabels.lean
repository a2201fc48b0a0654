/-
  WILDCARD PATTERNS AND LABELS (`match_domain_pattern` of `vellaveto-engine/src/domain.rs`).

  A wildcard pattern is compared with the END of the domain, and the byte before that end has to be a
  dot.  On label lists this says that the labels of the text behind the wildcard are the last labels of
  the domain: a pattern never matches inside a label.

  Two kinds of wildcard pattern are no such pattern, and `validate_domain_pattern` refuses both: `*.` alone,
  whose dot is taken away as a dot at the end, and a second wildcard before a name with an underscore, which
  has no normal form.

    1. **Labels** — `labels`; `matchDomainPattern_iff_labels`: what a match says, for any pattern.
    2. **Normal texts** — `alreadyNormal_iff`; `normalizeDomainForMatch_wildcard`: a wildcard in front of
       a normal text; `not_wildcard_of_ascii`: no ASCII text gets a wildcard by normalizing it.
    3. **Label suffixes** — `domain_pattern_labels`.
-/
import Mathlib.Data.List.DropRight
import Vellaveto.Engine.DomainNormal
import Vellaveto.Lib.Segments

namespace Vellaveto.Domain

open Vellaveto.Lib

/-! ### Labels -/

/-- The labels of a domain, between its dots. -/
def labels (s : String) : List (List Char) := s.toList.splitOn '.'

/-- The text starts with the wildcard. -/
def HasWildcard (s : String) : Prop := ['*', '.'] <+: s.toList

instance (s : String) : Decidable (HasWildcard s) := inferInstanceAs (Decidable (_ <+: _))

section Match

variable {ext : Externals} {d p : String}

theorem hasWildcard_iff {q : String} : HasWildcard q ↔ ∃ s, q = "*." ++ s := by
  constructor
  · rintro ⟨rest, hrest⟩
    refine ⟨String.ofList rest, String.ext ?_⟩
    rw [String.toList_append, @String.toList_ofList rest]
    exact hrest.symm
  · rintro ⟨s, rfl⟩
    rw [HasWildcard, String.toList_append]
    exact List.prefix_append _ _

/-- **What a match says**, for any pattern: its normal form is the domain, or the domain ends in the labels
    behind its wildcard. -/
theorem matchDomainPattern_iff_labels (hd : normalizeDomainForMatch ext d = some d) :
    matchDomainPattern ext d p = true ↔
      ∃ q, normalizeDomainForMatch ext p = some q ∧
        ((¬ HasWildcard q ∧ q = d) ∨ ∃ s, q = "*." ++ s ∧ labels s <:+ labels d) := by
  unfold matchDomainPattern
  rw [hd]
  cases normalizeDomainForMatch ext p with
  | none => simp
  | some q =>
    simp only [Option.some.injEq, exists_eq_left']
    cases hq : stripPrefix ['*', '.'] q.toList with
    | none =>
      have hplain : ¬ HasWildcard q := stripPrefix_eq_none_iff.mp hq
      have hno : ¬ ∃ s, q = "*." ++ s ∧ labels s <:+ labels d := by
        rintro ⟨s, hs, -⟩
        exact hplain (hasWildcard_iff.mpr ⟨s, hs⟩)
      simp only [hno, hplain, not_false_eq_true, true_and, or_false, beq_iff_eq]
      exact eq_comm
    | some rest =>
      have hrest := stripPrefix_eq_some_iff.mp hq
      have hwild : HasWildcard q := ⟨rest, hrest.symm⟩
      simp only [hwild, not_true_eq_false, false_and, false_or, Bool.or_eq_true, beq_iff_eq,
        List.isSuffixOf_iff_suffix]
      rw [← splitOn_suffix_iff]
      constructor
      · intro hlabels
        refine ⟨String.ofList rest, String.ext ?_, ?_⟩
        · rw [String.toList_append, @String.toList_ofList rest]
          exact hrest
        · rw [labels, String.toList_ofList]
          exact hlabels
      · rintro ⟨s, hs, hlabels⟩
        have hsame : rest = s.toList := by
          rw [hs, String.toList_append] at hrest
          exact (List.append_cancel_left hrest).symm
        rw [hsame]
        exact hlabels

end Match

/-! ### Normal texts -/

/-- An ASCII text that normalizing leaves as it is. -/
def AlreadyNormal (ext : Externals) (s : String) : Prop :=
  s.toList.all isAscii = true ∧ normalizeDomainForMatch ext s = some s

section Normal

variable {ext : Externals} {s p : String}

theorem all_isAscii_trimEnd {cs : List Char} (h : cs.all isAscii = true) :
    (trimEndMatches '.' cs).all isAscii = true := by
  rw [List.all_eq_true] at h ⊢
  intro c hc
  exact h c (trimEndMatches_subset '.' cs hc)

theorem all_isAscii_splitWildcard {cs : List Char} (h : cs.all isAscii = true) :
    (splitWildcard cs).2.all isAscii = true := by
  rw [← splitWildcard_append cs, List.all_append, Bool.and_eq_true] at h
  exact h.2

/-- A normal text is its own normal form, and no dot stands at its end. -/
theorem AlreadyNormal.normalForm_eq (hidna : Idna ext.domainToAscii) (h : AlreadyNormal ext s) :
    s.toList.getLast? ≠ some '.' ∧ normalForm ext s.toList = some s.toList := by
  obtain ⟨hascii, hnormal⟩ := h
  rw [normalizeDomainForMatch_eq hidna] at hnormal
  obtain ⟨form, hform, rfl⟩ := Option.map_eq_some_iff.mp hnormal
  rw [String.toList_ofList] at hascii hform ⊢
  exact normalForm_ascii (all_isAscii_splitWildcard (all_isAscii_trimEnd hascii))
    (getLast?_trimEndMatches '.' form) hform

/-- Without capital letters, underscores and wildcards there is nothing to do; otherwise a text
    without a wildcard has only characters of a domain. -/
theorem AlreadyNormal.chars (hidna : Idna ext.domainToAscii) (h : AlreadyNormal ext s)
    (hplain : ¬ HasWildcard s) (hlower : ¬ s.toList.all isAsciiLowerDomainChar = true) :
    s.toList.all isDomainChar = true ∧ s.toList.map Char.toLower = s.toList := by
  have hform := (h.normalForm_eq hidna).2
  have hsplit : splitWildcard s.toList = ([], s.toList) := by
    rw [splitWildcard, stripPrefix_eq_none_iff.mpr hplain]
  rw [normalForm, if_neg hlower, hsplit] at hform
  simp only [h.1, if_true, List.nil_append] at hform
  split at hform
  · rename_i hdomain
    exact ⟨hdomain, Option.some.inj hform⟩
  · cases hform

/-- **A wildcard in front of a normal text** stays as it is. -/
theorem normalizeDomainForMatch_wildcard (hidna : Idna ext.domainToAscii) (h : AlreadyNormal ext s)
    (hne : s ≠ "") (hs : s.toList.all isAsciiLowerDomainChar = true ∨ ¬ HasWildcard s) :
    normalizeDomainForMatch ext ("*." ++ s) = some ("*." ++ s) := by
  have hdot := (h.normalForm_eq hidna).1
  have hlist : ("*." ++ s).toList = ['*', '.'] ++ s.toList := String.toList_append
  have hend : (['*', '.'] ++ s.toList).getLast? ≠ some '.' := by
    rw [List.getLast?_append_of_ne_nil _ (by simpa using hne)]
    exact hdot
  have hform : normalForm ext (['*', '.'] ++ s.toList) = some (['*', '.'] ++ s.toList) := by
    by_cases hlower : s.toList.all isAsciiLowerDomainChar = true
    · refine normalForm_of_lower ?_
      rw [List.all_append, hlower]
      decide
    · obtain ⟨hdomain, hsame⟩ := h.chars hidna (hs.resolve_left hlower) hlower
      refine (normalForm_eq_self_iff ?_ ?_).mpr (.inr ?_)
      · rw [List.all_append, h.1]
        decide
      · rw [List.map_append, hsame]
        rfl
      · exact (splitWildcard_wildcard s.toList).symm ▸ hdomain
  rw [normalizeDomainForMatch_eq hidna, hlist, trimEndMatches_eq_self hend, hform, Option.map_some,
    String.ofList_append, String.ofList_toList]

/-- **No ASCII text gets a wildcard** by normalizing it. -/
theorem not_wildcard_of_ascii (hidna : Idna ext.domainToAscii) (hascii : p.toList.all isAscii = true)
    (hplain : ¬ HasWildcard p) {q : String} (hq : normalizeDomainForMatch ext p = some q) :
    ¬ HasWildcard q := by
  rw [normalizeDomainForMatch_eq hidna] at hq
  obtain ⟨form, hform, rfl⟩ := Option.map_eq_some_iff.mp hq
  have hfront : trimEndMatches '.' p.toList <+: p.toList := List.rdropWhile_prefix _ _
  have htrimmed : ¬ ['*', '.'] <+: trimEndMatches '.' p.toList := fun h => hplain (h.trans hfront)
  have hsplit : splitWildcard (trimEndMatches '.' p.toList) = ([], trimEndMatches '.' p.toList) := by
    rw [splitWildcard, stripPrefix_eq_none_iff.mpr htrimmed]
  have hchars := all_isAscii_trimEnd hascii
  rw [HasWildcard, String.toList_ofList]
  unfold normalForm at hform
  rw [hsplit] at hform
  generalize trimEndMatches '.' p.toList = cs at hform htrimmed hchars
  split at hform
  · cases hform
    exact htrimmed
  · simp only [hchars, if_true, List.nil_append] at hform
    split at hform
    · rename_i hdomain
      cases hform
      rintro ⟨rest, hrest⟩
      have hstar : '*' ∈ cs.map Char.toLower := by
        rw [← hrest]
        exact List.mem_cons_self
      exact absurd (List.all_eq_true.mp (all_isDomainChar_lower hdomain) '*' hstar) (by decide)
    · cases hform

end Normal

/-! ### Label suffixes -/

/-- **Patterns and labels.**  A wildcard before a normal text, that is not empty and has no wildcard of its
    own before an underscore, matches the domains that end in its labels; a pattern without a wildcard matches
    the domain it is after normalizing; and whatever matches, matches whole labels. -/
theorem domain_pattern_labels (ext : Externals) (hidna : Idna ext.domainToAscii) (d : String)
    (hd : AlreadyNormal ext d) :
    (∀ s, AlreadyNormal ext s → s ≠ "" →
      (s.toList.all isAsciiLowerDomainChar = true ∨ ¬ HasWildcard s) →
      (matchDomainPattern ext d ("*." ++ s) = true ↔ labels s <:+ labels d)) ∧
    (∀ p, (p.toList.all isAscii = true ∧ ¬ HasWildcard p ∨
        ∀ q, normalizeDomainForMatch ext p = some q → ¬ HasWildcard q) →
      (matchDomainPattern ext d p = true ↔ normalizeDomainForMatch ext p = some d)) ∧
    ∀ p, matchDomainPattern ext d p = true → ∃ q, normalizeDomainForMatch ext p = some q ∧
      (q = d ∨ ∃ s, q = "*." ++ s ∧ labels s <:+ labels d) := by
  refine ⟨fun s hs hne hform => ?_, fun p hp => ?_, fun p hmatch => ?_⟩
  · rw [matchDomainPattern_iff_labels hd.2, normalizeDomainForMatch_wildcard hidna hs hne hform]
    simp only [Option.some.injEq, exists_eq_left', hasWildcard_iff]
    constructor
    · rintro (⟨hplain, -⟩ | ⟨s', hs', hlabels⟩)
      · exact absurd ⟨s, rfl⟩ hplain
      · have hsame : s = s' := by
          have hlist := congrArg String.toList hs'
          rw [String.toList_append, String.toList_append] at hlist
          exact String.ext (List.append_cancel_left hlist)
        rw [hsame]
        exact hlabels
    · intro hlabels
      exact .inr ⟨s, rfl, hlabels⟩
  · have hplain : ∀ q, normalizeDomainForMatch ext p = some q → ¬ HasWildcard q := by
      intro q hq
      rcases hp with ⟨hascii, hp⟩ | hp
      · exact not_wildcard_of_ascii hidna hascii hp hq
      · exact hp q hq
    rw [matchDomainPattern_iff_labels hd.2]
    constructor
    · rintro ⟨q, hq, ⟨-, rfl⟩ | ⟨s, hs, -⟩⟩
      · exact hq
      · exact absurd (hasWildcard_iff.mpr ⟨s, hs⟩) (hplain q hq)
    · intro hq
      exact ⟨d, hq, .inl ⟨hplain d hq, rfl⟩⟩
  · obtain ⟨q, hq, ⟨-, hsame⟩ | hlabels⟩ := (matchDomainPattern_iff_labels hd.2).mp hmatch
    · exact ⟨q, hq, .inl hsame⟩
    · exact ⟨q, hq, .inr hlabels⟩

theorem domain_pattern_labels_api :
    (matchDomainPattern fullStopExternals "api._x.com" "*._x.com" = true ↔
      labels "_x.com" <:+ labels "api._x.com") ∧
    (matchDomainPattern fullStopExternals "api._x.com" "API._x.com." = true ↔
      normalizeDomainForMatch fullStopExternals "API._x.com." = some "api._x.com") := by
  have h := domain_pattern_labels fullStopExternals idna_asciiIdna "api._x.com"
    ⟨by decide +kernel, by decide +kernel⟩
  exact ⟨h.1 "_x.com" ⟨by decide +kernel, by decide +kernel⟩ (by decide) (.inr (by decide)),
    h.2.1 "API._x.com." (.inl ⟨by decide, by decide⟩)⟩

/-- The wildcard alone is the label `*`, and a second wildcard before an underscore matches nothing. -/
theorem wildcard_alone_is_label :
    (AlreadyNormal fullStopExternals "*" ∧ AlreadyNormal fullStopExternals "" ∧
      matchDomainPattern fullStopExternals "*" ("*." ++ "") = true ∧ ¬ labels "" <:+ labels "*") ∧
    (matchDomainPattern fullStopExternals "" ("*." ++ "") = false ∧ labels "" <:+ labels "") ∧
    AlreadyNormal fullStopExternals "*._x.com" ∧
      matchDomainPattern fullStopExternals "*._x.com" ("*." ++ "*._x.com") = false ∧
      labels "*._x.com" <:+ labels "*._x.com" := by
  refine ⟨⟨⟨?_, ?_⟩, ⟨?_, ?_⟩, ?_, ?_⟩, ⟨?_, List.suffix_refl _⟩, ⟨?_, ?_⟩, ?_, List.suffix_refl _⟩
  all_goals decide +kernel

end Vellaveto.Domain
