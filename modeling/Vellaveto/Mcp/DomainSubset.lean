/-
  CONTAINMENT OF DOMAIN PATTERNS, both ways (`verified_capability_domain.rs`).

  `domain_pattern_is_subset` compares the two normalized patterns; what it is to decide is whether the
  parent matches every domain that the child matches.  A passing test is enough (`CapabilityTarget`).
  For the converse, every child pattern that matches anything has domains that tell it from a parent
  that does not contain it:

    1. the domain the pattern itself is about (`exists_apex`);
    2. for a pattern `*.s`, also one domain BELOW `s` (`exists_below`), which an exact parent misses.

  `idna` makes these domains hard to name: `＊` (U+FF0A) becomes `*`, so a pattern without a `*` may
  still turn into a wildcard, or into a text that the code refuses to read as a pattern.  Such a
  pattern matches nothing, and the test fails on it although nothing is trivially contained.
-/
import Mathlib.Tactic.Common
import Vellaveto.Mcp.CapabilityTarget
import Vellaveto.Types.Unicode

namespace Vellaveto.Capability

open Vellaveto.Lib

/-- What the code relies on in `idna::domain_to_ascii`: the answer is in lower case, and the labels
    of a domain are converted one by one (UTS #46).  So a label may be put in front of a domain, and
    what follows the first label of the answer is the conversion of a part of the domain. -/
structure ConvertsLabels (domainToAscii : String → Option String) : Prop where
  lowercase : ∀ {domain ascii}, domainToAscii domain = some ascii → toAsciiLowercase ascii = ascii
  prepend : ∀ {domain ascii}, domainToAscii domain = some ascii →
    domainToAscii ("é." ++ domain) = some ("xn--9ca." ++ ascii)
  dropFirst : ∀ {domain ascii : String} {label rest : List Char}, domainToAscii domain = some ascii →
    ascii.toList = label ++ '.' :: rest → '.' ∉ label → rest ≠ [] →
    ∃ part, part ≠ [] ∧ part <:+ domain.toList ∧
      domainToAscii (String.ofList part) = some (String.ofList rest)

/-! ## Normalization, step by step -/

section Normalization

variable (domainToAscii : String → Option String)

/-- Normalization of a text without trailing dots and without metacharacters. -/
def normalizePlain (input : List Char) : Option (List Char) :=
  if input.all isAscii && !input.all Domain.isDomainChar then none
  else if input.all isLowerDomainChar then some input
  else
    match domainToAscii (String.ofList input) with
    | some ascii => some (toAsciiLowercase ascii).toList
    | none => if input.all isAscii then some (input.map Char.toLower) else none

/-- The text can stand as it is: it has characters, no metacharacters, and no dot at the end. -/
structure IsPlain (input : List Char) : Prop where
  nonempty : input ≠ []
  noMeta : input.any isMetacharacter = false
  noDot : input.getLast? ≠ some '.'

/-- The second half of `normalize_domain_candidate`, after the shape is checked. -/
theorem normalize_rest {s : String} (wildcardPrefix : String) {input stripped : List Char}
    (hstripped : stripped = wildcardPrefix.toList ++ input) :
    (if input.all isAscii && !input.all Domain.isDomainChar then none
      else if input.all isLowerDomainChar && stripped == s.toList then some s
      else if input.all isLowerDomainChar then some (wildcardPrefix ++ String.ofList input)
      else
        match domainToAscii (String.ofList input) with
        | some ascii => some (wildcardPrefix ++ toAsciiLowercase ascii)
        | none =>
          if input.all isAscii then
            if input.all Domain.isDomainChar then
              some (wildcardPrefix ++ toAsciiLowercase (String.ofList input))
            else none
          else none) =
      (normalizePlain domainToAscii input).map fun r => wildcardPrefix ++ String.ofList r := by
  unfold normalizePlain
  cases hrefused : input.all isAscii && !input.all Domain.isDomainChar with
  | true => rfl
  | false =>
    cases hlower : input.all isLowerDomainChar with
    | true =>
      cases hsame : stripped == s.toList with
      | true =>
        have hs : s.toList = wildcardPrefix.toList ++ input := by
          rw [← hstripped, beq_iff_eq.mp hsame]
        have hs' : s = wildcardPrefix ++ String.ofList input := by
          rw [← String.toList_inj, hs]
          simp
        simp [← hs']
      | false => simp
    | false =>
      cases domainToAscii (String.ofList input) with
      | some ascii => simp
      | none =>
        cases hascii : input.all isAscii with
        | false => simp
        | true =>
          have hdomain : input.all Domain.isDomainChar = true := by
            rw [hascii] at hrefused
            simpa using hrefused
          simp [hdomain, toAsciiLowercase]

/-- What a pattern that normalizes looks like: its own wildcard and a plain rest, or plain. -/
theorem normalizeDomainCandidate_eq_some {s n : String} {allowWildcardPrefix : Bool}
    (h : normalizeDomainCandidate domainToAscii s allowWildcardPrefix = some n) :
    (∃ rest r, allowWildcardPrefix = true ∧ IsPlain rest ∧
        normalizePlain domainToAscii rest = some r ∧ n.toList = '*' :: '.' :: r) ∨
      (IsPlain (trimEndMatches '.' s.toList) ∧
        normalizePlain domainToAscii (trimEndMatches '.' s.toList) = some n.toList) := by
  unfold normalizeDomainCandidate at h
  dsimp only at h
  have hdot := getLast?_trimEndMatches '.' s.toList
  generalize trimEndMatches '.' s.toList = stripped at h hdot ⊢
  split at h
  · cases h
  · rename_i hempty
    cases hstarred : allowWildcardPrefix && ['*', '.'].isPrefixOf stripped with
    | true =>
      obtain ⟨rfl, hstar⟩ := Bool.and_eq_true_iff.mp hstarred
      obtain ⟨rest, rfl⟩ := List.isPrefixOf_iff_prefix.mp hstar
      rw [hstarred] at h
      simp only [if_true, List.cons_append, List.nil_append, List.drop_succ_cons, List.drop_zero,
        domainPatternShapeValid, Bool.not_true, Bool.false_and, Bool.or_false, Bool.false_or] at h
      split at h
      · cases h
      · rename_i hshape
        obtain ⟨hmeta, hne⟩ : rest.any isMetacharacter = false ∧ rest ≠ [] := by simpa using hshape
        have hrest := (normalize_rest domainToAscii "*." (by rfl)).symm.trans h
        obtain ⟨r, hr, rfl⟩ := Option.map_eq_some_iff.mp hrest
        refine Or.inl ⟨rest, r, rfl, ⟨hne, hmeta, ?_⟩, hr, by simp⟩
        intro hlast
        rw [List.getLast?_append_of_ne_nil _ hne] at hdot
        exact hdot hlast
    | false =>
      rw [hstarred] at h
      simp only [Bool.false_eq_true, if_false, domainPatternShapeValid, Bool.not_false,
        Bool.true_and, Bool.or_self, Bool.true_or, Bool.and_true, Bool.not_not] at h
      split at h
      · cases h
      · rename_i hmeta
        have hrest := (normalize_rest domainToAscii "" (by simp)).symm.trans h
        obtain ⟨r, hr, rfl⟩ := Option.map_eq_some_iff.mp hrest
        exact Or.inr ⟨⟨by simpa using hempty, by simpa using hmeta, hdot⟩, by simpa using hr⟩

/-- A plain text is normalized as it is. -/
theorem normalizeDomainForMatch_plain {domain : String} (h : IsPlain domain.toList) :
    normalizeDomainForMatch domainToAscii domain =
      (normalizePlain domainToAscii domain.toList).map String.ofList := by
  have hempty : domain.toList.isEmpty = false := by
    rw [List.isEmpty_eq_false_iff]
    exact h.nonempty
  unfold normalizeDomainForMatch normalizeDomainCandidate
  simp only [trimEndMatches_eq_self h.noDot, hempty, h.noMeta, domainPatternShapeValid,
    Bool.false_and, Bool.false_eq_true, if_false, Bool.not_false, Bool.or_self, Bool.true_and,
    Bool.not_true]
  have hinput : domain.toList = "".toList ++ domain.toList := rfl
  refine (normalize_rest domainToAscii "" hinput).trans ?_
  simp

/-- Matching a plain text. -/
theorem domainMatchesPattern_ofList {pattern : String} {input : List Char} (h : IsPlain input)
    {r : List Char} (hr : normalizePlain domainToAscii input = some r) :
    domainMatchesPattern domainToAscii pattern (String.ofList input) = true ↔
      ∃ w s, patternDomain domainToAscii pattern = some (w, s) ∧
        (if w then normalizedDomainMatchesSuffix r s = true else r = s) := by
  have hplain : IsPlain (String.ofList input).toList := by rwa [String.toList_ofList]
  rw [domainMatchesPattern_iff, normalizeDomainForMatch_plain domainToAscii hplain,
    String.toList_ofList, hr]
  constructor
  · rintro ⟨d, w, s, hd, hpattern, hmatch⟩
    obtain rfl : String.ofList r = d := by simpa using hd
    rw [String.toList_ofList] at hmatch
    exact ⟨w, s, hpattern, hmatch⟩
  · rintro ⟨w, s, hpattern, hmatch⟩
    refine ⟨String.ofList r, w, s, rfl, hpattern, ?_⟩
    rw [String.toList_ofList]
    exact hmatch

/-! ## Domains that a pattern matches -/

/-- How a pattern comes to be about a domain: it brings its own wildcard, or it is plain and is read as
    what it normalizes to. -/
theorem patternDomain_eq_some {pattern : String} {w : Bool} {s : List Char}
    (h : patternDomain domainToAscii pattern = some (w, s)) :
    (∃ rest, w = true ∧ IsPlain rest ∧ normalizePlain domainToAscii rest = some s) ∨
      ∃ input r, IsPlain input ∧ normalizePlain domainToAscii input = some r ∧
        ((w = false ∧ r = s ∧ r.any isMetacharacter = false) ∨ (w = true ∧ r = '*' :: '.' :: s ∧ s ≠ [])) := by
  unfold patternDomain normalizeDomainPatternForMatch at h
  obtain ⟨n, hn, hsplit⟩ := Option.bind_eq_some_iff.mp h
  unfold splitNormalizedDomainPattern stripPrefix at hsplit
  rcases normalizeDomainCandidate_eq_some domainToAscii hn with
    ⟨rest, r, -, hplain, hr, hrest⟩ | ⟨hplain, hr⟩
  · rw [hrest] at hsplit
    simp only [List.isPrefixOf_cons_cons_self, List.isPrefixOf_nil_left, if_true, List.length_cons,
      List.length_nil, List.drop_succ_cons, List.drop_zero] at hsplit
    split at hsplit
    · cases hsplit
    · cases hsplit
      exact Or.inl ⟨rest, rfl, hplain, hr⟩
  · refine Or.inr ⟨_, n.toList, hplain, hr, ?_⟩
    generalize n.toList = r at hsplit ⊢
    cases hstarred : ['*', '.'].isPrefixOf r with
    | true =>
      obtain ⟨rest, rfl⟩ := List.isPrefixOf_iff_prefix.mp hstarred
      rw [hstarred] at hsplit
      simp only [if_true, List.length_cons, List.length_nil, List.cons_append, List.nil_append,
        List.drop_succ_cons, List.drop_zero] at hsplit
      split at hsplit
      · cases hsplit
      · rename_i hne
        cases hsplit
        exact Or.inr ⟨rfl, rfl, by simpa using hne⟩
    | false =>
      rw [hstarred] at hsplit
      simp only [Bool.false_eq_true, if_false] at hsplit
      split at hsplit
      · cases hsplit
      · rename_i hmeta
        cases hsplit
        exact Or.inl ⟨rfl, rfl, by simpa using hmeta⟩

theorem isDomainChar_of_isLowerDomainChar {c : Char} (h : isLowerDomainChar c = true) :
    Domain.isDomainChar c = true := by
  have hletter : c.isLower = true → c.isAlphanum = true := by
    intro hlower
    show (c.isUpper || c.isLower || c.isDigit) = true
    rw [hlower, Bool.or_true, Bool.true_or]
  have hdigit : c.isDigit = true → c.isAlphanum = true := by
    intro hdigit
    show (c.isUpper || c.isLower || c.isDigit) = true
    rw [hdigit, Bool.or_true]
  simp only [isLowerDomainChar, Domain.isDomainChar, Domain.isAsciiAlphanumeric, Bool.or_eq_true] at h ⊢
  tauto

/-- Lower-case ASCII is normalized already. -/
theorem normalizePlain_lower {input : List Char} (h : input.all isLowerDomainChar = true) :
    normalizePlain domainToAscii input = some input := by
  have hdomain : input.all Domain.isDomainChar = true := by
    rw [List.all_eq_true] at h ⊢
    exact fun c hc => isDomainChar_of_isLowerDomainChar (h c hc)
  simp [normalizePlain, hdomain, h]

/-- One label more in front of a plain text. -/
theorem IsPlain.cons_label {input : List Char} (h : IsPlain input) {c : Char}
    (hc : isMetacharacter c = false) : IsPlain (c :: '.' :: input) := by
  refine ⟨List.cons_ne_nil _ _, ?_, ?_⟩
  · have hdot : isMetacharacter '.' = false := rfl
    rw [List.any_cons, List.any_cons, hc, hdot, h.noMeta]
    rfl
  · obtain ⟨x, input, rfl⟩ := List.exists_cons_of_ne_nil h.nonempty
    exact h.noDot

/-- A domain below one that is lower-case ASCII. -/
theorem exists_below_lower {r : List Char} (h : IsPlain r) (hlower : r.all isLowerDomainChar = true) :
    IsPlain ('a' :: '.' :: r) ∧
      normalizePlain domainToAscii ('a' :: '.' :: r) = some (['a'] ++ '.' :: r) := by
  refine ⟨h.cons_label (by decide), normalizePlain_lower domainToAscii ?_⟩
  rw [List.all_cons, List.all_cons, hlower]
  decide

/-- A domain below one that `idna` converts. -/
theorem exists_below_idna (hidna : ConvertsLabels domainToAscii) {input : List Char}
    (h : IsPlain input) {ascii : String} (hascii : domainToAscii (String.ofList input) = some ascii) :
    IsPlain ('é' :: '.' :: input) ∧
      normalizePlain domainToAscii ('é' :: '.' :: input) =
        some ("xn--9ca".toList ++ '.' :: ascii.toList) := by
  refine ⟨h.cons_label (by decide), ?_⟩
  have htext : String.ofList ('é' :: '.' :: input) = "é." ++ String.ofList input := by
    rw [← String.toList_inj]
    simp
  have hnotAscii : ('é' :: '.' :: input).all isAscii = false := by
    rw [List.all_cons, show isAscii 'é' = false by decide, Bool.false_and]
  have hnotLower : ('é' :: '.' :: input).all isLowerDomainChar = false := by
    rw [List.all_cons, show isLowerDomainChar 'é' = false by decide, Bool.false_and]
  have hconverted := hidna.prepend hascii
  unfold normalizePlain
  rw [htext, hconverted, hnotAscii, hnotLower]
  simp only [Bool.false_and, Bool.false_eq_true, if_false]
  rw [hidna.lowercase hconverted, String.toList_append]
  rfl

/-- **Below.**  A domain that normalizes has a domain below it that does. -/
theorem exists_below (hidna : ConvertsLabels domainToAscii) {input r : List Char} (h : IsPlain input)
    (hr : normalizePlain domainToAscii input = some r) :
    ∃ input' label, IsPlain input' ∧
      normalizePlain domainToAscii input' = some (label ++ '.' :: r) := by
  have hcases := hr
  unfold normalizePlain at hcases
  split at hcases
  · cases hcases
  · rename_i hrefused
    split at hcases
    · rename_i hlower
      cases hcases
      exact ⟨_, _, exists_below_lower domainToAscii h hlower⟩
    · split at hcases
      · rename_i ascii hascii
        cases hcases
        rw [hidna.lowercase hascii]
        exact ⟨_, _, exists_below_idna domainToAscii hidna h hascii⟩
      · -- `idna` refuses an ASCII domain: it is put into lower case
        split at hcases
        · rename_i hascii
          cases hcases
          have hdomain : input.all Domain.isDomainChar = true := by
            rw [hascii] at hrefused
            simpa using hrefused
          rw [List.all_eq_true] at hascii hdomain
          have hchar : ∀ c ∈ input, isLowerDomainChar c.toLower = true ∧
              isMetacharacter c.toLower = false ∧ (c.toLower = '.' → c = '.') := by
            intro c hc
            refine forall_ascii (P := fun c => Domain.isDomainChar c = true →
              isLowerDomainChar c.toLower = true ∧ isMetacharacter c.toLower = false ∧
                (c.toLower = '.' → c = '.')) (by decide) (hascii c hc) (hdomain c hc)
          have hplain : IsPlain (input.map Char.toLower) := by
            refine ⟨?_, ?_, ?_⟩
            · intro hnil
              exact h.nonempty (List.map_eq_nil_iff.mp hnil)
            · rw [List.any_map, List.any_eq_false]
              intro c hc
              simpa using (hchar c hc).2.1
            · intro hlast
              rw [List.getLast?_map, Option.map_eq_some_iff] at hlast
              obtain ⟨c, hc, hdot⟩ := hlast
              have hc' := (hchar c (List.mem_of_getLast? hc)).2.2 hdot
              exact h.noDot (hc' ▸ hc)
          refine ⟨_, _, exists_below_lower domainToAscii hplain ?_⟩
          rw [List.all_map, List.all_eq_true]
          exact fun c hc => (hchar c hc).1
        · cases hcases

/-! ## Exactness -/

/-- A wildcard that came out of the conversion: the plain pattern has no star, so `idna` made it. -/
theorem idna_of_star {input s : List Char} (h : IsPlain input)
    (hr : normalizePlain domainToAscii input = some ('*' :: '.' :: s)) :
    ∃ ascii, domainToAscii (String.ofList input) = some ascii ∧
      (toAsciiLowercase ascii).toList = '*' :: '.' :: s := by
  have hstar : '*' ∉ input := by
    intro hmem
    have hmeta := List.any_eq_false.mp h.noMeta '*' hmem
    exact hmeta rfl
  unfold normalizePlain at hr
  split at hr
  · cases hr
  · split at hr
    · cases hr
      exact absurd List.mem_cons_self hstar
    · split at hr
      · rename_i ascii hascii
        exact ⟨ascii, hascii, Option.some.inj hr⟩
      · split at hr
        · rename_i hascii
          have hmem : '*' ∈ input.map Char.toLower := by
            rw [Option.some.inj hr]
            exact List.mem_cons_self
          obtain ⟨c, hc, hlower⟩ := List.mem_map.mp hmem
          have hc' : c = '*' := forall_ascii (P := fun c => c.toLower = '*' → c = '*') (by decide)
            (List.all_eq_true.mp hascii c hc) hlower
          exact absurd (hc' ▸ hc) hstar
        · cases hr

/-- A pattern that turns into a wildcard by conversion has a domain below it without a star. -/
theorem exists_below_star (hidna : ConvertsLabels domainToAscii) {input s : List Char}
    (h : IsPlain input) (hs : s ≠ [])
    (hr : normalizePlain domainToAscii input = some ('*' :: '.' :: s)) :
    ∃ input', IsPlain input' ∧
      normalizePlain domainToAscii input' = some ("xn--9ca".toList ++ '.' :: s) := by
  obtain ⟨ascii, hascii, hstar⟩ := idna_of_star domainToAscii h hr
  rw [hidna.lowercase hascii] at hstar
  have hlabel : ascii.toList = ['*'] ++ '.' :: s := hstar
  obtain ⟨part, hne, hsuffix, hpart⟩ := hidna.dropFirst hascii hlabel (by decide) hs
  rw [String.toList_ofList] at hsuffix
  have hplain : IsPlain part := by
    obtain ⟨before, rfl⟩ := hsuffix
    refine ⟨hne, ?_, ?_⟩
    · have hmeta := h.noMeta
      rw [List.any_append, Bool.or_eq_false_iff] at hmeta
      exact hmeta.2
    · have hdot := h.noDot
      rwa [List.getLast?_append_of_ne_nil _ hne] at hdot
  obtain ⟨hplain', hbelow⟩ := exists_below_idna domainToAscii hidna hplain hpart
  refine ⟨_, hplain', ?_⟩
  rw [hbelow, String.toList_ofList (l := s)]

/-- Every pattern that is about a domain matches one: the domain itself. -/
theorem exists_apex {pattern : String} {w : Bool} {s : List Char}
    (h : patternDomain domainToAscii pattern = some (w, s)) :
    ∃ domain, domainMatchesPattern domainToAscii pattern domain = true := by
  rcases patternDomain_eq_some domainToAscii h with
    ⟨rest, rfl, hplain, hr⟩ | ⟨input, r, hplain, hr, hform⟩
  · refine ⟨String.ofList rest, (domainMatchesPattern_ofList domainToAscii hplain hr).mpr ?_⟩
    exact ⟨true, s, h, (matchesSuffix_iff s s).mpr (Or.inl rfl)⟩
  · refine ⟨String.ofList input, (domainMatchesPattern_ofList domainToAscii hplain hr).mpr ?_⟩
    rcases hform with ⟨rfl, rfl, -⟩ | ⟨rfl, rfl, -⟩
    · exact ⟨false, r, h, rfl⟩
    · exact ⟨true, s, h, (matchesSuffix_iff _ s).mpr (Or.inr ⟨['*'], rfl⟩)⟩

/-- What lies below a domain under a star lies under the star, or the star is part of the suffix. -/
theorem matchesSuffix_of_star {c s : List Char}
    (h : normalizedDomainMatchesSuffix ('*' :: '.' :: c) s = true) :
    s = '*' :: '.' :: c ∨ normalizedDomainMatchesSuffix c s = true := by
  rw [matchesSuffix_iff] at h ⊢
  rcases h with rfl | ⟨pre, hpre⟩
  · exact Or.inl rfl
  · right
    rcases pre with _ | ⟨x, _ | ⟨y, pre⟩⟩
    · cases (List.cons.inj hpre).1
    · exact Or.inl (List.cons.inj (List.cons.inj hpre).2).2
    · exact Or.inr ⟨pre, (List.cons.inj (List.cons.inj hpre).2).2⟩

/-- A domain with another label in front of `c` does not lie under the star. -/
theorem not_matchesSuffix_star {label c : List Char} (h : '*' ∉ label) :
    normalizedDomainMatchesSuffix (label ++ '.' :: c) ('*' :: '.' :: c) = false := by
  rw [Bool.eq_false_iff]
  intro hmatch
  rw [matchesSuffix_iff] at hmatch
  have hsplit : label ++ '.' :: c = label ++ ['.'] ++ c := by simp
  rcases hmatch with hsame | ⟨pre, hpre⟩
  · have hlabel : label ++ ['.'] = ['*', '.'] := by
      refine @List.append_cancel_right _ _ c _ ?_
      rw [← hsplit, hsame]
      rfl
    have hmem : '*' ∈ label ++ ['.'] := by rw [hlabel]; decide
    simp [h] at hmem
  · have hlabel : label ++ ['.'] = pre ++ ['.', '*', '.'] := by
      refine @List.append_cancel_right _ _ c _ ?_
      rw [← hsplit, hpre]
      simp
    have hmem : '*' ∈ label ++ ['.'] := by rw [hlabel]; simp
    simp [h] at hmem

/-- Containment of what is matched makes the test pass, for a pattern that matches something. -/
theorem domainPatternIsSubset_complete (hidna : ConvertsLabels domainToAscii) {parent child : String}
    {cw : Bool} {cs : List Char} (hchild : patternDomain domainToAscii child = some (cw, cs))
    (hall : ∀ domain, domainMatchesPattern domainToAscii child domain = true →
      domainMatchesPattern domainToAscii parent domain = true) :
    domainPatternIsSubset domainToAscii parent child = true := by
  -- a plain domain that the child matches is matched by the parent
  have hmatch : ∀ input r, IsPlain input → normalizePlain domainToAscii input = some r →
      (if cw then normalizedDomainMatchesSuffix r cs = true else r = cs) →
      ∃ w s, patternDomain domainToAscii parent = some (w, s) ∧
        (if w then normalizedDomainMatchesSuffix r s = true else r = s) := by
    intro input r hplain hr hin
    rw [← domainMatchesPattern_ofList domainToAscii hplain hr]
    exact hall _ ((domainMatchesPattern_ofList domainToAscii hplain hr).mpr ⟨cw, cs, hchild, hin⟩)
  rw [domainPatternIsSubset_iff]
  rcases patternDomain_eq_some domainToAscii hchild with
    ⟨rest, rfl, hplain, hr⟩ | ⟨input, r, hplain, hr, hform⟩
  · obtain ⟨pw, ps, hparent, hapex⟩ := hmatch rest cs hplain hr ((matchesSuffix_iff cs cs).mpr (Or.inl rfl))
    refine ⟨pw, ps, true, cs, hparent, hchild, ?_⟩
    cases pw with
    | true => exact hapex
    | false =>
      -- an exact parent misses the domain below
      obtain ⟨input', label, hplain', hr'⟩ := exists_below domainToAscii hidna hplain hr
      obtain ⟨w, s, hparent', hbelow⟩ := hmatch input' _ hplain' hr'
        ((matchesSuffix_iff _ cs).mpr (Or.inr ⟨label, rfl⟩))
      obtain ⟨rfl, rfl⟩ : false = w ∧ ps = s := by simpa using hparent.symm.trans hparent'
      have happex : cs = ps := hapex
      have hlen := congrArg List.length hbelow
      rw [List.length_append, List.length_cons, happex] at hlen
      omega
  · rcases hform with ⟨rfl, rfl, -⟩ | ⟨rfl, rfl, hne⟩
    · obtain ⟨pw, ps, hparent, hself⟩ := hmatch input r hplain hr rfl
      refine ⟨pw, ps, false, r, hparent, hchild, ?_⟩
      cases pw with
      | true => exact hself
      | false => exact ⟨rfl, hself.symm⟩
    · -- the star came out of the conversion
      obtain ⟨pw, ps, hparent, hself⟩ := hmatch input _ hplain hr
        ((matchesSuffix_iff _ cs).mpr (Or.inr ⟨['*'], rfl⟩))
      refine ⟨pw, ps, true, cs, hparent, hchild, ?_⟩
      cases pw with
      | false =>
        have hps : '*' :: '.' :: cs = ps := hself
        rcases patternDomain_eq_some domainToAscii hparent with
          ⟨_, hw, -⟩ | ⟨_, r, -, -, ⟨-, rfl, hmeta⟩ | ⟨hw, -⟩⟩
        · cases hw
        · rw [← hps] at hmeta
          cases hmeta
        · cases hw
      | true =>
        rcases matchesSuffix_of_star hself with rfl | hbelow
        · obtain ⟨input', hplain', hr'⟩ := exists_below_star domainToAscii hidna hplain hne hr
          obtain ⟨w, s, hparent', hin⟩ := hmatch input' _ hplain' hr'
            ((matchesSuffix_iff _ cs).mpr (Or.inr ⟨_, rfl⟩))
          obtain ⟨rfl, rfl⟩ : true = w ∧ '*' :: '.' :: cs = s := by
            simpa using hparent.symm.trans hparent'
          rw [if_pos rfl, not_matchesSuffix_star (by decide)] at hin
          cases hin
        · exact hbelow

/-- **Domain containment is decided exactly**, for patterns that match anything: the test passes
    exactly if the child matches some domain, and the parent matches every domain that it matches. -/
theorem domainPatternIsSubset_exact (hidna : ConvertsLabels domainToAscii) (parent child : String) :
    domainPatternIsSubset domainToAscii parent child = true ↔
      (∃ domain, domainMatchesPattern domainToAscii child domain = true) ∧
        ∀ domain, domainMatchesPattern domainToAscii child domain = true →
          domainMatchesPattern domainToAscii parent domain = true := by
  constructor
  · intro h
    obtain ⟨-, -, cw, cs, -, hchild, -⟩ := (domainPatternIsSubset_iff domainToAscii parent child).mp h
    refine ⟨exists_apex domainToAscii hchild, ?_⟩
    intro domain hdomain
    exact domainPatternIsSubset_sound domainToAscii h hdomain
  · rintro ⟨⟨domain, hdomain⟩, hall⟩
    obtain ⟨-, cw, cs, -, hchild, -⟩ := (domainMatchesPattern_iff domainToAscii child domain).mp hdomain
    exact domainPatternIsSubset_complete domainToAscii hidna hchild hall

end Normalization

/-! ## A small `idna`

    It knows ASCII, one accented letter and the full-width star, which is enough for the patterns
    below. -/

/-- What one character is converted to. -/
def convertChar (c : Char) : Option (List Char) :=
  if c = 'é' then some "xn--9ca".toList
  else if c = '＊' then some ['*']
  else if isAscii c then some [c.toLower]
  else none

def convertChars : List Char → Option (List Char)
  | [] => some []
  | c :: cs => (convertChar c).bind fun converted => (convertChars cs).map (converted ++ ·)

/-- `idna::domain_to_ascii` on these characters. -/
def smallIdna (domain : String) : Option String := (convertChars domain.toList).map String.ofList

/-- One character becomes the dot, or something without a dot; and it becomes lower-case ASCII. -/
theorem convertChar_eq_some {c : Char} {converted : List Char} (h : convertChar c = some converted) :
    (converted = ['.'] ∨ '.' ∉ converted) ∧
      ∀ d ∈ converted, isAscii d = true ∧ d.toLower = d ∧ convertChar d = some [d] := by
  have hall : ∀ cs : List Char,
      (cs.all fun d => isAscii d && (d.toLower == d && convertChar d == some [d])) = true →
        ∀ d ∈ cs, isAscii d = true ∧ d.toLower = d ∧ convertChar d = some [d] := by
    intro cs hcs d hd
    have hd' := List.all_eq_true.mp hcs d hd
    rw [Bool.and_eq_true, Bool.and_eq_true, beq_iff_eq, beq_iff_eq] at hd'
    exact hd'
  unfold convertChar at h
  split at h
  · cases h
    exact ⟨Or.inr (by decide), hall _ (by decide)⟩
  · split at h
    · cases h
      exact ⟨Or.inr (by decide), hall _ (by decide)⟩
    · split at h
      · rename_i hascii
        cases h
        refine ⟨?_, ?_⟩
        · by_cases hdot : c.toLower = '.'
          · exact Or.inl (by rw [hdot])
          · refine Or.inr ?_
            rw [List.mem_singleton]
            exact fun h => hdot h.symm
        · intro d hd
          rw [List.mem_singleton.mp hd]
          exact forall_ascii (P := fun c => isAscii c.toLower = true ∧ c.toLower.toLower = c.toLower ∧
            convertChar c.toLower = some [c.toLower]) (by decide) hascii
      · cases h

theorem convertChars_eq_some {cs converted : List Char} (h : convertChars cs = some converted) :
    ∀ d ∈ converted, isAscii d = true ∧ d.toLower = d ∧ convertChar d = some [d] := by
  induction cs generalizing converted with
  | nil =>
    cases h
    intro d hd
    cases hd
  | cons c cs ih =>
    obtain ⟨first, hfirst, htail⟩ := Option.bind_eq_some_iff.mp h
    obtain ⟨rest, hrest, rfl⟩ := Option.map_eq_some_iff.mp htail
    intro d hd
    rcases List.mem_append.mp hd with hd | hd
    · exact (convertChar_eq_some hfirst).2 d hd
    · exact ih hrest d hd

/-- What follows the first dot of the answer comes from the end of the text. -/
theorem convertChars_dropFirst {cs label rest : List Char}
    (h : convertChars cs = some (label ++ '.' :: rest)) (hlabel : '.' ∉ label) (hrest : rest ≠ []) :
    ∃ part, part ≠ [] ∧ part <:+ cs ∧ convertChars part = some rest := by
  induction cs generalizing label with
  | nil => simp [convertChars] at h
  | cons c cs ih =>
    obtain ⟨first, hfirst, hmap⟩ := Option.bind_eq_some_iff.mp h
    obtain ⟨tail, htail, heq⟩ := Option.map_eq_some_iff.mp hmap
    rcases (convertChar_eq_some hfirst).1 with rfl | hdot
    · -- the dot itself
      cases label with
      | nil =>
        obtain rfl : tail = rest := (List.cons.inj heq).2
        refine ⟨cs, ?_, List.suffix_cons c cs, htail⟩
        rintro rfl
        cases htail
        exact hrest rfl
      | cons x label =>
        have hx : '.' = x := (List.cons.inj heq).1
        exact absurd (hx ▸ List.mem_cons_self) hlabel
    · obtain ⟨label', rfl⟩ : ∃ label', label = first ++ label' := by
        rcases List.append_eq_append_iff.mp heq with ⟨label', rfl, -⟩ | ⟨excess, rfl, hexcess⟩
        · exact ⟨label', rfl⟩
        · cases excess with
          | nil => exact ⟨[], by simp⟩
          | cons x excess =>
            have hx : '.' = x := (List.cons.inj hexcess).1
            exact absurd (hx ▸ by simp) hdot
      rw [List.append_assoc] at heq
      have heq' := List.append_cancel_left heq
      rw [heq'] at htail
      obtain ⟨part, hne, hsuffix, hpart⟩ := ih htail fun h => hlabel (List.mem_append_right _ h)
      exact ⟨part, hne, hsuffix.trans (List.suffix_cons c cs), hpart⟩

/-- Lower-case ASCII is converted already. -/
theorem convertChars_self {cs : List Char} (h : ∀ d ∈ cs, convertChar d = some [d]) :
    convertChars cs = some cs := by
  induction cs with
  | nil => rfl
  | cons d cs ih =>
    rw [convertChars, h d List.mem_cons_self, ih fun e he => h e (List.mem_cons_of_mem d he)]
    rfl

theorem smallIdna_eq_some {domain ascii : String} :
    smallIdna domain = some ascii ↔ convertChars domain.toList = some ascii.toList := by
  unfold smallIdna
  rw [Option.map_eq_some_iff]
  constructor
  · rintro ⟨cs, hcs, rfl⟩
    rw [hcs, String.toList_ofList]
  · intro h
    exact ⟨ascii.toList, h, String.ofList_toList⟩

theorem smallIdna_convertsLabels : ConvertsLabels smallIdna where
  lowercase := by
    intro domain ascii h
    have hchars := convertChars_eq_some (smallIdna_eq_some.mp h)
    rw [toAsciiLowercase, List.map_congr_left fun d hd => (hchars d hd).2.1, List.map_id',
      String.ofList_toList]
  prepend := by
    intro domain ascii h
    rw [smallIdna_eq_some] at h ⊢
    rw [String.toList_append, String.toList_append]
    have hlabel : ∀ cs, convertChars ("é.".toList ++ cs) =
        (convertChars cs).map ("xn--9ca.".toList ++ ·) := by
      intro cs
      have hfirst : convertChar 'é' = some "xn--9ca".toList := by decide
      have hdot : convertChar '.' = some ['.'] := by decide
      change convertChars ('é' :: '.' :: cs) = _
      rw [convertChars, convertChars, hfirst, hdot]
      cases convertChars cs <;> rfl
    rw [hlabel, h]
    rfl
  dropFirst := by
    intro domain ascii label rest h hsplit hlabel hrest
    rw [smallIdna_eq_some, hsplit] at h
    obtain ⟨part, hne, hsuffix, hpart⟩ := convertChars_dropFirst h hlabel hrest
    refine ⟨part, hne, hsuffix, ?_⟩
    rw [smallIdna_eq_some, String.toList_ofList, String.toList_ofList, hpart]

/-- A pattern with a full-width star in front is a wildcard, too. -/
theorem domainPatternIsSubset_exact_api :
    (∃ domain, domainMatchesPattern smallIdna "＊.api.example.com" domain = true) ∧
      ∀ domain, domainMatchesPattern smallIdna "＊.api.example.com" domain = true →
        domainMatchesPattern smallIdna "*.example.com" domain = true := by
  refine (domainPatternIsSubset_exact smallIdna smallIdna_convertsLabels _ _).mp ?_
  decide +kernel

/-- With a full-width star inside, a pattern normalizes and matches nothing; so the parent contains
    it, and the test fails. -/
theorem void_pattern_not_subset :
    (∀ domain ascii, smallIdna domain = some ascii →
      smallIdna ascii = some ascii ∧ ascii.toList.all isAscii = true ∧
        toAsciiLowercase ascii = ascii) ∧
      normalizeDomainPatternForMatch smallIdna "example.com" = some "example.com" ∧
      normalizeDomainPatternForMatch smallIdna "foo＊.com" = some "foo*.com" ∧
      ¬(domainPatternIsSubset smallIdna "example.com" "foo＊.com" = true ↔
        ∀ domain, domainMatchesPattern smallIdna "foo＊.com" domain = true →
          domainMatchesPattern smallIdna "example.com" domain = true) := by
  have hruns : normalizeDomainPatternForMatch smallIdna "example.com" = some "example.com" ∧
      normalizeDomainPatternForMatch smallIdna "foo＊.com" = some "foo*.com" ∧
      patternDomain smallIdna "foo＊.com" = none ∧
      domainPatternIsSubset smallIdna "example.com" "foo＊.com" = false := by
    decide +kernel
  obtain ⟨hparent, hchild, hnone, hfails⟩ := hruns
  refine ⟨?_, hparent, hchild, ?_⟩
  · intro domain ascii h
    have hchars := convertChars_eq_some (smallIdna_eq_some.mp h)
    refine ⟨smallIdna_eq_some.mpr (convertChars_self fun d hd => (hchars d hd).2.2), ?_,
      smallIdna_convertsLabels.lowercase h⟩
    rw [List.all_eq_true]
    exact fun d hd => (hchars d hd).1
  · intro hexact
    have hvoid : ∀ domain, domainMatchesPattern smallIdna "foo＊.com" domain = true →
        domainMatchesPattern smallIdna "example.com" domain = true := by
      intro domain hdomain
      obtain ⟨-, w, s, -, hpattern, -⟩ := (domainMatchesPattern_iff smallIdna _ domain).mp hdomain
      rw [hnone] at hpattern
      cases hpattern
    rw [hexact.mpr hvoid] at hfails
    cases hfails

end Vellaveto.Capability
