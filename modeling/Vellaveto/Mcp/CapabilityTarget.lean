/-
  TARGETS of a capability grant: paths and domains (`verified_capability_path.rs`,
  `verified_capability_domain.rs`).

  A path is normalized before a grant's patterns see it: empty and `.` components go, `..` takes one
  component back and is refused at the top.  Domains are compared after normalization (trailing
  dots, IDNA, lower case), and a pattern `*.suffix` stands for the suffix and everything below it.

  CORRECTNESS.
    1. `matchesSuffix_iff`            below a suffix = equal to it, or ending in a dot and it;
    2. `matchesSuffix_trans`          what is below a domain below `s` is below `s`;
    3. `domainPatternIsSubset_sound`  a child domain pattern that passes matches only what its parent
                                      matches, whatever IDNA does to the three texts.
-/
import Vellaveto.Engine.Domain

namespace Vellaveto.Capability

open Vellaveto.Lib

/-- `checked_add` of an unsigned integer with this largest value. -/
def checkedAdd (max a b : Nat) : Option Nat := if a + b ≤ max then some (a + b) else none

def usizeMax : Nat := 2 ^ 64 - 1

/-! ## Paths -/

/-- `path_component_next_depth`. -/
def pathComponentNextDepth (currentDepth : Nat) (componentIsEmptyOrDot componentIsDotdot : Bool) :
    Option Nat :=
  if componentIsEmptyOrDot then some currentDepth
  else if componentIsDotdot then
    if currentDepth = 0 then none else some (currentDepth - 1)
  else checkedAdd usizeMax currentDepth 1

/-- One round of the loop of `normalize_path_for_grant`. -/
def nextComponents (components : List (List Char)) (component : List Char) :
    Option (List (List Char)) := do
  let nextDepth ← pathComponentNextDepth components.length
    (component.isEmpty || component == ['.']) (component == ['.', '.'])
  match compare nextDepth components.length with
  | .lt => some components.dropLast
  | .eq => some components
  | .gt => some (components ++ [component])

/-- `normalize_path_for_grant`. -/
def normalizePathForGrant (path : String) : Option String :=
  if path.toList.contains (Char.ofNat 0) then none
  else do
    let components ← (path.toList.splitOn '/').foldlM nextComponents []
    let joined := ['/'].intercalate components
    some (String.ofList (if path.toList.head? = some '/' then '/' :: joined else joined))

example : normalizePathForGrant "/safe/./a//b/../c/" = some "/safe/a/c" := by decide +kernel

example : normalizePathForGrant "/safe/../../etc/passwd" = none := by decide +kernel

/-! ## Domains -/

/-- `domain_pattern_shape_valid`. -/
def domainPatternShapeValid (hasWildcardPrefix hasOtherMetacharacters suffixIsEmpty : Bool) : Bool :=
  !hasOtherMetacharacters && (!hasWildcardPrefix || !suffixIsEmpty)

/-- `normalized_domain_suffix_matches`. -/
def normalizedDomainSuffixMatches
    (candidateEqualsSuffix candidateHasSuffixWithDotBoundary : Bool) : Bool :=
  candidateEqualsSuffix || candidateHasSuffixWithDotBoundary

/-- `normalized_domain_pattern_matches`. -/
def normalizedDomainPatternMatches (patternIsWildcard wildcardSuffixMatch exactMatch : Bool) : Bool :=
  if patternIsWildcard then wildcardSuffixMatch else exactMatch

/-- `normalized_domain_pattern_subset`. -/
def normalizedDomainPatternSubset (parentIsWildcard childIsWildcard childMatchesParentSuffix
    exactPatternsEqual : Bool) : Bool :=
  if parentIsWildcard then childMatchesParentSuffix else !childIsWildcard && exactPatternsEqual

/-- `*` or `?`. -/
def isMetacharacter (c : Char) : Bool := c = '*' || c = '?'

/-- Bytes that need no IDNA here: lower-case letters, digits, dots, hyphens and underscores. -/
def isLowerDomainChar (c : Char) : Bool :=
  c.isLower || c.isDigit || c = '.' || c = '-' || c = '_'

section Domains

variable (domainToAscii : String → Option String)

/-- `normalize_domain_candidate`. -/
def normalizeDomainCandidate (s : String) (allowWildcardPrefix : Bool) : Option String :=
  let stripped := trimEndMatches '.' s.toList
  if stripped.isEmpty then none
  else
    let hasWildcardPrefix := allowWildcardPrefix && ['*', '.'].isPrefixOf stripped
    let idnaInput := if hasWildcardPrefix then stripped.drop 2 else stripped
    let hasOtherMetacharacters :=
      idnaInput.any isMetacharacter || (!hasWildcardPrefix && stripped.any isMetacharacter)
    if !domainPatternShapeValid hasWildcardPrefix hasOtherMetacharacters idnaInput.isEmpty then none
    else
      let wildcardPrefix := if hasWildcardPrefix then "*." else ""
      let isAsciiLower := idnaInput.all isLowerDomainChar
      if idnaInput.all isAscii && !idnaInput.all Domain.isDomainChar then none
      else if isAsciiLower && stripped == s.toList then some s
      else if isAsciiLower then some (wildcardPrefix ++ String.ofList idnaInput)
      else
        match domainToAscii (String.ofList idnaInput) with
        | some ascii => some (wildcardPrefix ++ toAsciiLowercase ascii)
        | none =>
          if idnaInput.all isAscii then
            if idnaInput.all Domain.isDomainChar then
              some (wildcardPrefix ++ toAsciiLowercase (String.ofList idnaInput))
            else none
          else none

/-- `split_normalized_domain_pattern`: is it a wildcard, and the domain it is about. -/
def splitNormalizedDomainPattern (pattern : String) : Option (Bool × List Char) :=
  match stripPrefix ['*', '.'] pattern.toList with
  | some suffix => if suffix.isEmpty then none else some (true, suffix)
  | none => if pattern.toList.any isMetacharacter then none else some (false, pattern.toList)

/-- `normalized_domain_matches_suffix`. -/
def normalizedDomainMatchesSuffix (candidate suffix : List Char) : Bool :=
  let candidateEqualsSuffix := candidate == suffix
  let candidateHasSuffixWithDotBoundary :=
    decide (suffix.length < candidate.length) && suffix.isSuffixOf candidate &&
      candidate[candidate.length - suffix.length - 1]? == some '.'
  normalizedDomainSuffixMatches candidateEqualsSuffix candidateHasSuffixWithDotBoundary

/-- `normalize_domain_pattern_for_match`. -/
def normalizeDomainPatternForMatch (pattern : String) : Option String :=
  normalizeDomainCandidate domainToAscii pattern true

/-- `normalize_domain_for_match`. -/
def normalizeDomainForMatch (domain : String) : Option String :=
  normalizeDomainCandidate domainToAscii domain false

/-- `domain_matches_pattern`. -/
def domainMatchesPattern (pattern domain : String) : Bool :=
  match normalizeDomainForMatch domainToAscii domain with
  | none => false
  | some normalizedDomain =>
    match normalizeDomainPatternForMatch domainToAscii pattern with
    | none => false
    | some normalizedPattern =>
      match splitNormalizedDomainPattern normalizedPattern with
      | none => false
      | some (patternIsWildcard, suffix) =>
        let exactMatch := normalizedDomain.toList == suffix
        let wildcardSuffixMatch := normalizedDomainMatchesSuffix normalizedDomain.toList suffix
        normalizedDomainPatternMatches patternIsWildcard wildcardSuffixMatch exactMatch

/-- `domain_pattern_is_subset`. -/
def domainPatternIsSubset (parentPattern childPattern : String) : Bool :=
  match normalizeDomainPatternForMatch domainToAscii parentPattern with
  | none => false
  | some normalizedParent =>
    match normalizeDomainPatternForMatch domainToAscii childPattern with
    | none => false
    | some normalizedChild =>
      match splitNormalizedDomainPattern normalizedParent with
      | none => false
      | some (parentIsWildcard, parentSuffix) =>
        match splitNormalizedDomainPattern normalizedChild with
        | none => false
        | some (childIsWildcard, childSuffix) =>
          let exactPatternsEqual := parentSuffix == childSuffix
          let childMatchesParentSuffix := normalizedDomainMatchesSuffix childSuffix parentSuffix
          normalizedDomainPatternSubset parentIsWildcard childIsWildcard childMatchesParentSuffix
            exactPatternsEqual

/-! ## Containment of domain patterns -/

/-- Below a suffix: equal to it, or ending in a dot and it. -/
theorem matchesSuffix_iff (candidate suffix : List Char) :
    normalizedDomainMatchesSuffix candidate suffix = true ↔
      candidate = suffix ∨ ∃ pre, candidate = pre ++ '.' :: suffix := by
  unfold normalizedDomainMatchesSuffix normalizedDomainSuffixMatches
  simp only [Bool.or_eq_true_iff, Bool.and_eq_true_iff, decide_eq_true_eq, beq_iff_eq]
  refine or_congr Iff.rfl ?_
  constructor
  · rintro ⟨⟨hlen, hsuffix⟩, hdot⟩
    obtain ⟨pre, rfl⟩ := List.isSuffixOf_iff_suffix.mp hsuffix
    rw [List.length_append] at hlen hdot
    -- the character before the suffix is the last one of what stands before it
    rcases List.eq_nil_or_concat pre with rfl | ⟨init, last, rfl⟩
    · simp at hlen
    · have hindex : (init ++ [last]).length + suffix.length - suffix.length - 1 = init.length := by
        simp
      rw [List.concat_eq_append, hindex, List.append_assoc, List.singleton_append,
        List.getElem?_append_right (le_refl _), Nat.sub_self, List.getElem?_cons_zero,
        Option.some.injEq] at hdot
      exact ⟨init, by rw [List.concat_eq_append, hdot, List.append_assoc, List.singleton_append]⟩
  · rintro ⟨pre, rfl⟩
    have hindex : (pre ++ '.' :: suffix).length - suffix.length - 1 = pre.length := by
      simp [List.length_append]
      omega
    refine ⟨⟨by simp; omega, ?_⟩, ?_⟩
    · exact List.isSuffixOf_iff_suffix.mpr ⟨pre ++ ['.'], by simp⟩
    · rw [hindex, List.getElem?_append_right (le_refl _), Nat.sub_self, List.getElem?_cons_zero]

/-- What is below a domain that is below `s` is below `s`. -/
theorem matchesSuffix_trans {d c s : List Char} (hdc : normalizedDomainMatchesSuffix d c = true)
    (hcs : normalizedDomainMatchesSuffix c s = true) : normalizedDomainMatchesSuffix d s = true := by
  rw [matchesSuffix_iff] at hdc hcs ⊢
  rcases hdc with rfl | ⟨pre, rfl⟩
  · exact hcs
  · rcases hcs with rfl | ⟨pre', rfl⟩
    · exact Or.inr ⟨pre, rfl⟩
    · exact Or.inr ⟨pre ++ '.' :: pre', by simp⟩

/-- The domain a pattern is about, once it is normalized and split. -/
def patternDomain (pattern : String) : Option (Bool × List Char) :=
  (normalizeDomainPatternForMatch domainToAscii pattern).bind splitNormalizedDomainPattern

/-- What a match of a domain says. -/
theorem domainMatchesPattern_iff (pattern domain : String) :
    domainMatchesPattern domainToAscii pattern domain = true ↔
      ∃ d w s, normalizeDomainForMatch domainToAscii domain = some d ∧
        patternDomain domainToAscii pattern = some (w, s) ∧
        (if w then normalizedDomainMatchesSuffix d.toList s = true else d.toList = s) := by
  unfold domainMatchesPattern patternDomain
  cases normalizeDomainForMatch domainToAscii domain with
  | none => simp
  | some d =>
    cases normalizeDomainPatternForMatch domainToAscii pattern with
    | none => simp
    | some p =>
      cases hsplit : splitNormalizedDomainPattern p with
      | none => simp [hsplit]
      | some ws =>
        obtain ⟨w, s⟩ := ws
        cases w <;> simp [hsplit, normalizedDomainPatternMatches]

/-- What containment of two domain patterns says. -/
theorem domainPatternIsSubset_iff (parent child : String) :
    domainPatternIsSubset domainToAscii parent child = true ↔
      ∃ pw ps cw cs, patternDomain domainToAscii parent = some (pw, ps) ∧
        patternDomain domainToAscii child = some (cw, cs) ∧
        (if pw then normalizedDomainMatchesSuffix cs ps = true else cw = false ∧ ps = cs) := by
  unfold domainPatternIsSubset patternDomain
  cases normalizeDomainPatternForMatch domainToAscii parent with
  | none => simp
  | some p =>
    cases normalizeDomainPatternForMatch domainToAscii child with
    | none => simp
    | some c =>
      cases hp : splitNormalizedDomainPattern p with
      | none => simp [hp]
      | some pws =>
        cases hc : splitNormalizedDomainPattern c with
        | none => simp [hp, hc]
        | some cws =>
          obtain ⟨pw, ps⟩ := pws
          obtain ⟨cw, cs⟩ := cws
          cases pw <;> simp [hp, hc, normalizedDomainPatternSubset]

/-- **Containment.**  A child domain pattern that passes matches only what its parent matches. -/
theorem domainPatternIsSubset_sound {parent child domain : String}
    (h : domainPatternIsSubset domainToAscii parent child = true)
    (hmatch : domainMatchesPattern domainToAscii child domain = true) :
    domainMatchesPattern domainToAscii parent domain = true := by
  obtain ⟨pw, ps, cw, cs, hparent, hchild, hsub⟩ := (domainPatternIsSubset_iff _ _ _).mp h
  obtain ⟨d, w, s, hd, hchild', hd'⟩ := (domainMatchesPattern_iff _ _ _).mp hmatch
  obtain ⟨rfl, rfl⟩ : cw = w ∧ cs = s := by simpa using hchild.symm.trans hchild'
  refine (domainMatchesPattern_iff _ _ _).mpr ⟨d, pw, ps, hd, hparent, ?_⟩
  cases pw with
  | true =>
    cases cw with
    | true => exact matchesSuffix_trans hd' hsub
    | false =>
      have hd'' : d.toList = cs := hd'
      rw [hd'']
      exact hsub
  | false =>
    obtain ⟨rfl, rfl⟩ := hsub
    exact hd'

end Domains

end Vellaveto.Capability
