/-
  WHAT NORMALIZING A DOMAIN LEAVES (`normalize_domain_for_match`, `match_domain_pattern` of
  `vellaveto-engine/src/domain.rs`).

  `normalize_domain_for_match` strips the dots at the end FIRST and maps the rest to ASCII afterwards.
  The mapping turns other full stops (U+3002, U+FF0E, U+FF61) into dots, so that a dot can stand at
  the end of the result; and it lets characters pass which the test for ASCII texts refuses.  What is
  normalized is then not normal: normalizing it again gives something else, or nothing.

    1. **IDNA** — `Idna`: what is assumed of `domain_to_ascii`.
    2. **Normal forms** — `normalizeDomainForMatch_eq`: the function under these assumptions.
    3. **Stability** — `stableDomain_iff`: the normal form of a domain is normal, and matches what the
       domain matches, exactly if the domain is ASCII or its ASCII form is accepted.
    4. **A full stop** — `full_stop_not_stable`: no ASCII domain with another full stop behind it is
       stable; `full_stop_leaves_blocklist`.
-/
import Mathlib.Tactic.Tauto
import Vellaveto.Engine.Domain

namespace Vellaveto.Domain

open Vellaveto.Lib

/-! ### IDNA -/

/-- The full stops of UTS 46 other than the dot. -/
def fullStops : List Char := ['。', '．', '｡']

theorem ne_dot_of_mem_fullStops : ∀ c ∈ fullStops, c ≠ '.' ∧ isAscii c = false := by
  intro c hc
  simp only [fullStops, List.mem_cons, List.not_mem_nil, or_false] at hc
  rcases hc with rfl | rfl | rfl
  · decide
  · decide
  · decide

/-- What is documented of `domain_to_ascii`: the result is ASCII and is mapped to itself, a text that is
    ASCII is only put into lower case, and every full stop counts as a dot. -/
structure Idna (domainToAscii : String → Option String) : Prop where
  ascii : ∀ s r, domainToAscii s = some r → r.toList.all isAscii = true
  asciiText : ∀ s r, s.toList.all isAscii = true → domainToAscii s = some r → r = toAsciiLowercase s
  idempotent : ∀ s r, domainToAscii s = some r → domainToAscii r = some r
  fullStop : ∀ front behind, ∀ c ∈ fullStops,
    domainToAscii (String.ofList (front ++ c :: behind)) =
      domainToAscii (String.ofList (front ++ '.' :: behind))

/-! ### Normal forms -/

/-- The wildcard at the start, and the text behind it. -/
def splitWildcard (cs : List Char) : List Char × List Char :=
  match stripPrefix ['*', '.'] cs with
  | some rest => (['*', '.'], rest)
  | none => ([], cs)

section Chars

variable {c : Char}

theorem isAsciiAlphanumeric_eq (c : Char) :
    isAsciiAlphanumeric c = (c.isUpper || c.isLower || c.isDigit) := rfl

theorem isAscii_of_le {last : UInt32} (hlast : last.toNat < 128) (h : c.val ≤ last) :
    isAscii c = true := by
  rw [UInt32.le_iff_toNat_le] at h
  rw [isAscii, decide_eq_true_eq]
  show c.val.toNat < 128
  omega

theorem isAscii_of_isDomainChar (h : isDomainChar c = true) : isAscii c = true := by
  rw [isDomainChar, isAsciiAlphanumeric_eq] at h
  simp only [Bool.or_eq_true, decide_eq_true_eq] at h
  rcases h with ((((hupper | hlower) | hdigit) | rfl) | rfl) | rfl
  · exact isAscii_of_le (by decide) (of_decide_eq_true hupper).2
  · exact isAscii_of_le (by decide) (of_decide_eq_true (Bool.and_eq_true_iff.mp hlower).2)
  · exact isAscii_of_le (by decide) (of_decide_eq_true (Bool.and_eq_true_iff.mp hdigit).2)
  · decide
  · decide
  · decide

theorem isDomainChar_toLower (h : isDomainChar c = true) : isDomainChar c.toLower = true :=
  forall_ascii (P := fun c => isDomainChar c = true → isDomainChar c.toLower = true) (by decide)
    (isAscii_of_isDomainChar h) h

theorem toLower_toLower (h : isAscii c = true) : c.toLower.toLower = c.toLower :=
  forall_ascii (P := fun c => c.toLower.toLower = c.toLower) (by decide) h

theorem toLower_eq_dot_iff (h : isAscii c = true) : c.toLower = '.' ↔ c = '.' :=
  forall_ascii (P := fun c => c.toLower = '.' ↔ c = '.') (by decide) h

end Chars

section Split

variable {cs : List Char}

theorem splitWildcard_append (cs : List Char) : (splitWildcard cs).1 ++ (splitWildcard cs).2 = cs := by
  unfold splitWildcard
  split
  · rename_i rest hrest
    exact (stripPrefix_eq_some_iff.mp hrest).symm
  · rfl

theorem splitWildcard_wildcard (rest : List Char) :
    splitWildcard ('*' :: '.' :: rest) = (['*', '.'], rest) := by
  have h : stripPrefix ['*', '.'] ('*' :: '.' :: rest) = some rest := stripPrefix_eq_some_iff.mpr rfl
  rw [splitWildcard, h]

theorem splitWildcard_cases (cs : List Char) :
    (∃ rest, splitWildcard cs = (['*', '.'], rest)) ∨ splitWildcard cs = ([], cs) := by
  unfold splitWildcard
  cases stripPrefix ['*', '.'] cs with
  | none => exact .inr rfl
  | some rest => exact .inl ⟨rest, rfl⟩

theorem splitWildcard_fst (cs : List Char) :
    (splitWildcard cs).1.all isAscii = true ∧
      (splitWildcard cs).1.map Char.toLower = (splitWildcard cs).1 := by
  rcases splitWildcard_cases cs with ⟨rest, h⟩ | h
  · rw [h]
    exact ⟨rfl, rfl⟩
  · rw [h]
    exact ⟨rfl, rfl⟩

theorem splitWildcard_of_no_star (h : '*' ∉ cs) : splitWildcard cs = ([], cs) := by
  have hnone : stripPrefix ['*', '.'] cs = none := by
    rw [stripPrefix_eq_none_iff]
    exact fun hstart => h (hstart.subset List.mem_cons_self)
  rw [splitWildcard, hnone]

end Split

section Normal

variable (ext : Externals)

/-- The normal form of a text without dots at its end. -/
def normalForm (cs : List Char) : Option (List Char) :=
  if cs.all isAsciiLowerDomainChar then some cs
  else
    let (wildcard, input) := splitWildcard cs
    if input.all isAscii then
      if input.all isDomainChar then some (wildcard ++ input.map Char.toLower) else none
    else (ext.domainToAscii (String.ofList input)).map fun r => wildcard ++ r.toList

variable {ext}

/-- The text behind the wildcard. -/
theorem normalizeRest_eq (hidna : Idna ext.domainToAscii) (wildcard : String) (input : List Char) :
    (if input.all isAscii && !input.all isDomainChar then none
      else
        match ext.domainToAscii (String.ofList input) with
        | some ascii => some (wildcard ++ ascii)
        | none =>
          if input.all isAscii then
            if input.all isDomainChar then
              some (wildcard ++ toAsciiLowercase (String.ofList input))
            else none
          else none) =
      (if input.all isAscii then
        if input.all isDomainChar then some (wildcard.toList ++ input.map Char.toLower) else none
      else (ext.domainToAscii (String.ofList input)).map fun r => wildcard.toList ++ r.toList).map
        String.ofList := by
  have hlower : wildcard ++ toAsciiLowercase (String.ofList input) =
      String.ofList (wildcard.toList ++ input.map Char.toLower) := by
    rw [toAsciiLowercase, String.toList_ofList, String.ofList_append, String.ofList_toList]
  cases hascii : input.all isAscii with
  | false =>
    cases ext.domainToAscii (String.ofList input) with
    | none => rfl
    | some r =>
      simp only [Bool.false_and, Bool.false_eq_true, if_false, Option.map_some]
      rw [String.ofList_append, String.ofList_toList, String.ofList_toList]
  | true =>
    cases hdomain : input.all isDomainChar with
    | false => rfl
    | true =>
      cases hform : ext.domainToAscii (String.ofList input) with
      | none => simp [hlower]
      | some r =>
        have hr := hidna.asciiText (String.ofList input) r (by rw [String.toList_ofList, hascii]) hform
        simp [hr, hlower]

/-- **The function under these assumptions.**  An ASCII text is put into lower case, whether IDNA accepts
    it or not. -/
theorem normalizeDomainForMatch_eq (hidna : Idna ext.domainToAscii) (s : String) :
    normalizeDomainForMatch ext s =
      (normalForm ext (trimEndMatches '.' s.toList)).map String.ofList := by
  unfold normalizeDomainForMatch normalForm splitWildcard
  generalize trimEndMatches '.' s.toList = cs
  simp only
  split
  · rfl
  · cases stripPrefix ['*', '.'] cs with
    | none => exact normalizeRest_eq hidna "" cs
    | some rest => exact normalizeRest_eq hidna "*." rest

/-! ### Stability -/

/-- What is required of a normal form: no full stop at its end, and only characters of an ASCII domain. -/
def AcceptedForm (form : List Char) : Prop :=
  form.getLast? ≠ some '.' ∧
    (form.all isAsciiLowerDomainChar = true ∨ (splitWildcard form).2.all isDomainChar = true)

theorem normalForm_of_lower {cs : List Char} (h : cs.all isAsciiLowerDomainChar = true) :
    normalForm ext cs = some cs := by
  rw [normalForm, if_pos h]

/-- An ASCII text in lower case that is accepted is its own normal form, and no other ASCII text is. -/
theorem normalForm_eq_self_iff {cs : List Char} (hascii : cs.all isAscii = true)
    (hlower : cs.map Char.toLower = cs) :
    normalForm ext cs = some cs ↔
      cs.all isAsciiLowerDomainChar = true ∨ (splitWildcard cs).2.all isDomainChar = true := by
  have hsplit := splitWildcard_append cs
  have hinput : (splitWildcard cs).2.all isAscii = true := by
    rw [← hsplit, List.all_append, Bool.and_eq_true] at hascii
    exact hascii.2
  have hsame : (splitWildcard cs).2.map Char.toLower = (splitWildcard cs).2 := by
    rw [← hsplit, List.map_append] at hlower
    exact (List.append_inj hlower (List.length_map _)).2
  unfold normalForm
  split
  · rename_i hall
    simp [hall]
  · rename_i hall
    simp only [hinput, if_true, hsame, hsplit]
    simp [hall]

/-- What `domain_to_ascii` returns is in lower case. -/
theorem toLower_of_domainToAscii (hidna : Idna ext.domainToAscii) {s r : String}
    (h : ext.domainToAscii s = some r) : r.toList.map Char.toLower = r.toList := by
  have hr := hidna.asciiText r r (hidna.ascii s r h) (hidna.idempotent s r h)
  have hlist := congrArg String.toList hr
  rw [toAsciiLowercase, String.toList_ofList] at hlist
  exact hlist.symm

/-- So the form with its wildcard is ASCII and in lower case. -/
theorem isAscii_form (hidna : Idna ext.domainToAscii) {cs : List Char} {s r : String}
    (h : ext.domainToAscii s = some r) : ((splitWildcard cs).1 ++ r.toList).all isAscii = true := by
  rw [List.all_append, (splitWildcard_fst cs).1, hidna.ascii s r h, Bool.and_self]

theorem toLower_form (hidna : Idna ext.domainToAscii) {cs : List Char} {s r : String}
    (h : ext.domainToAscii s = some r) :
    ((splitWildcard cs).1 ++ r.toList).map Char.toLower = (splitWildcard cs).1 ++ r.toList := by
  rw [List.map_append, (splitWildcard_fst cs).2, toLower_of_domainToAscii hidna h]

theorem isAscii_of_lower {cs : List Char} (h : cs.all isAsciiLowerDomainChar = true) :
    cs.all isAscii = true := by
  rw [List.all_eq_true] at h ⊢
  intro c hc
  have hlower := h c hc
  by_cases hstar : c = '*'
  · rw [hstar]
    decide
  · refine isAscii_of_isDomainChar ?_
    simp only [isAsciiLowerDomainChar, hstar, decide_false, Bool.or_false, Bool.or_eq_true] at hlower
    rw [isDomainChar, isAsciiAlphanumeric_eq]
    simp only [Bool.or_eq_true]
    tauto

/-- The last character of an ASCII text in lower case is a dot only if it was one. -/
theorem getLast?_lower {wildcard input : List Char} (hascii : input.all isAscii = true)
    (h : (wildcard ++ input).getLast? ≠ some '.') :
    (wildcard ++ input.map Char.toLower).getLast? ≠ some '.' := by
  rcases List.eq_nil_or_concat input with rfl | ⟨init, c, rfl⟩
  · exact h
  · rw [List.concat_eq_append] at *
    have hc : isAscii c = true := List.all_eq_true.mp hascii c (by simp)
    have hdot : c ≠ '.' := by simpa using h
    simpa [toLower_eq_dot_iff hc] using hdot

/-- The characters of an ASCII domain in lower case are such characters again. -/
theorem all_isDomainChar_lower {input : List Char} (h : input.all isDomainChar = true) :
    (input.map Char.toLower).all isDomainChar = true := by
  rw [List.all_map, List.all_eq_true]
  intro c hc
  exact isDomainChar_toLower (List.all_eq_true.mp h c hc)

/-- Lower case behind the wildcard moves no wildcard. -/
theorem splitWildcard_lower {cs : List Char} (hdomain : (splitWildcard cs).2.all isDomainChar = true) :
    splitWildcard ((splitWildcard cs).1 ++ (splitWildcard cs).2.map Char.toLower) =
      ((splitWildcard cs).1, (splitWildcard cs).2.map Char.toLower) := by
  rcases splitWildcard_cases cs with ⟨rest, hwildcard⟩ | hnone
  · rw [hwildcard]
    exact splitWildcard_wildcard _
  · rw [hnone] at hdomain ⊢
    refine splitWildcard_of_no_star fun hmem => ?_
    exact absurd (List.all_eq_true.mp (all_isDomainChar_lower hdomain) '*' hmem) (by decide)

/-- An ASCII domain in lower case is its own normal form. -/
theorem normalForm_lower {cs : List Char} (hdomain : (splitWildcard cs).2.all isDomainChar = true) :
    normalForm ext ((splitWildcard cs).1 ++ (splitWildcard cs).2.map Char.toLower) =
      some ((splitWildcard cs).1 ++ (splitWildcard cs).2.map Char.toLower) := by
  have hwildcard := splitWildcard_fst cs
  have hdomain' := all_isDomainChar_lower hdomain
  have hascii : ∀ c ∈ (splitWildcard cs).2, isAscii c = true := fun c hc =>
    isAscii_of_isDomainChar (List.all_eq_true.mp hdomain c hc)
  refine (normalForm_eq_self_iff ?_ ?_).mpr (.inr ?_)
  · rw [List.all_append, hwildcard.1, Bool.true_and, List.all_eq_true]
    intro c hc
    exact isAscii_of_isDomainChar (List.all_eq_true.mp hdomain' c hc)
  · rw [List.map_append, hwildcard.2, List.map_map]
    exact congrArg _ (List.map_congr_left fun c hc => toLower_toLower (hascii c hc))
  · rw [splitWildcard_lower hdomain]
    exact hdomain'

/-- **ASCII domains** have normal forms that are normal. -/
theorem normalForm_ascii {cs form : List Char} (hascii : (splitWildcard cs).2.all isAscii = true)
    (hdot : cs.getLast? ≠ some '.') (h : normalForm ext cs = some form) :
    form.getLast? ≠ some '.' ∧ normalForm ext form = some form := by
  unfold normalForm at h
  split at h
  · rename_i hall
    cases h
    exact ⟨hdot, normalForm_of_lower hall⟩
  · simp only [hascii, if_true] at h
    split at h
    · rename_i hdomain
      cases h
      rw [← splitWildcard_append cs] at hdot
      exact ⟨getLast?_lower hascii hdot, normalForm_lower hdomain⟩
    · cases h

/-- Other domains have the form that IDNA gives them. -/
theorem normalForm_of_nonAscii {cs : List Char} (hascii : ¬ (splitWildcard cs).2.all isAscii = true) :
    normalForm ext cs = (ext.domainToAscii (String.ofList (splitWildcard cs).2)).map
      fun r => (splitWildcard cs).1 ++ r.toList := by
  have hlower : ¬ cs.all isAsciiLowerDomainChar = true := by
    intro hall
    have hall' := isAscii_of_lower hall
    rw [← splitWildcard_append cs, List.all_append, Bool.and_eq_true] at hall'
    exact hascii hall'.2
  rw [normalForm, if_neg hlower]
  simp only
  rw [if_neg hascii]

/-- A domain is stable: its normal form does not end in a full stop, is its own normal form, and matches
    what the domain matches. -/
def StableDomain (ext : Externals) (d : String) : Prop :=
  ∀ n, normalizeDomainForMatch ext d = some n →
    n.toList.getLast? ≠ some '.' ∧ normalizeDomainForMatch ext n = some n ∧
      ∀ p, matchDomainPattern ext d p = matchDomainPattern ext n p

/-- The domain, without dots at its end and a wildcard at its start, is ASCII, or its ASCII form is
    accepted. -/
def AsciiFormAccepted (ext : Externals) (d : String) : Prop :=
  let (wildcard, input) := splitWildcard (trimEndMatches '.' d.toList)
  input.all isAscii = true ∨
    ∀ r, ext.domainToAscii (String.ofList input) = some r → AcceptedForm (wildcard ++ r.toList)

/-- Stability, on texts. -/
theorem stableDomain_iff_normalForm (hidna : Idna ext.domainToAscii) (d : String) :
    StableDomain ext d ↔ ∀ form, normalForm ext (trimEndMatches '.' d.toList) = some form →
      form.getLast? ≠ some '.' ∧ normalForm ext form = some form := by
  unfold StableDomain
  rw [normalizeDomainForMatch_eq hidna]
  constructor
  · intro hstable form hform
    have hn := hstable (String.ofList form) (by rw [hform]; rfl)
    rw [normalizeDomainForMatch_eq hidna, String.toList_ofList] at hn
    refine ⟨hn.1, ?_⟩
    rw [trimEndMatches_eq_self hn.1] at hn
    exact Option.map_injective (fun _ _ => String.ofList_injective) hn.2.1
  · intro hforms n hn
    obtain ⟨form, hform, rfl⟩ := Option.map_eq_some_iff.mp hn
    obtain ⟨hdot, hself⟩ := hforms form hform
    have hnormal : normalizeDomainForMatch ext (String.ofList form) = some (String.ofList form) := by
      rw [normalizeDomainForMatch_eq hidna, String.toList_ofList, trimEndMatches_eq_self hdot, hself]
      rfl
    refine ⟨by rw [String.toList_ofList]; exact hdot, hnormal, fun p => ?_⟩
    unfold matchDomainPattern
    rw [hnormal, normalizeDomainForMatch_eq hidna, hform]
    rfl

end Normal

/-- **When normalizing is stable.** -/
theorem stableDomain_iff (ext : Externals) (hidna : Idna ext.domainToAscii) (d : String) :
    StableDomain ext d ↔ AsciiFormAccepted ext d := by
  rw [stableDomain_iff_normalForm hidna]
  unfold AsciiFormAccepted
  have hdot := getLast?_trimEndMatches '.' d.toList
  generalize trimEndMatches '.' d.toList = cs at hdot
  by_cases hascii : (splitWildcard cs).2.all isAscii = true
  · refine iff_of_true (fun form hform => normalForm_ascii hascii hdot hform) (.inl hascii)
  · have hform := @normalForm_of_nonAscii ext cs hascii
    simp only [hform, hascii, Bool.false_eq_true, false_or]
    constructor
    · intro hstable r hr
      obtain ⟨hstop, hself⟩ := hstable _ (by rw [hr]; rfl)
      refine ⟨hstop, (normalForm_eq_self_iff ?_ ?_).mp hself⟩
      · exact isAscii_form hidna hr
      · exact toLower_form hidna hr
    · intro haccepted form hsome
      obtain ⟨r, hr, rfl⟩ := Option.map_eq_some_iff.mp hsome
      obtain ⟨hstop, hchars⟩ := haccepted r hr
      exact ⟨hstop, (normalForm_eq_self_iff (isAscii_form hidna hr) (toLower_form hidna hr)).mpr hchars⟩

/-! ### A full stop -/

/-- **Another full stop behind an ASCII domain** is mapped to a dot, which stays: the domain is not
    stable, if it has a normal form at all. -/
theorem full_stop_not_stable {ext : Externals} (hidna : Idna ext.domainToAscii) {front : List Char}
    {c : Char} (hfront : front.all isAscii = true) (hc : c ∈ fullStops) {n : String}
    (hn : normalizeDomainForMatch ext (String.ofList (front ++ [c])) = some n) :
    ¬ StableDomain ext (String.ofList (front ++ [c])) := by
  have hnot := ne_dot_of_mem_fullStops c hc
  intro hstable
  have hend : (front ++ [c]).getLast? = some c := by simp
  have htrim : trimEndMatches '.' (front ++ [c]) = front ++ [c] :=
    trimEndMatches_eq_self (by rw [hend]; exact fun h => hnot.1 (Option.some.inj h))
  have hsplit := splitWildcard_append (front ++ [c])
  -- the text behind the wildcard ends in the full stop as well
  obtain ⟨input, hinput, hascii⟩ : ∃ input, (splitWildcard (front ++ [c])).2 = input ++ [c] ∧
      input.all isAscii = true := by
    rcases splitWildcard_cases (front ++ [c]) with ⟨rest, h⟩ | h
    · rw [h] at hsplit ⊢
      rcases List.eq_nil_or_concat rest with rfl | ⟨init, d, rfl⟩
      · have hdot : ('.' : Char) = c := by simpa using (congrArg List.getLast? hsplit).trans hend
        exact absurd hdot.symm hnot.1
      · rw [List.concat_eq_append] at hsplit ⊢
        obtain ⟨rfl, hd⟩ := List.append_inj' ((List.append_assoc _ _ _).trans hsplit) rfl
        rw [hd]
        rw [List.all_append, Bool.and_eq_true] at hfront
        exact ⟨init, rfl, hfront.2⟩
    · exact ⟨front, by rw [h], hfront⟩
  have hother : ¬ (splitWildcard (front ++ [c])).2.all isAscii = true := by
    rw [hinput]
    simp [hnot.2]
  obtain ⟨form, hform, rfl⟩ := Option.map_eq_some_iff.mp ((normalizeDomainForMatch_eq hidna _).symm.trans hn)
  rw [String.toList_ofList, htrim, normalForm_of_nonAscii hother, hinput,
    hidna.fullStop input [] c hc] at hform
  obtain ⟨r, hr, rfl⟩ := Option.map_eq_some_iff.mp hform
  have hdotted : (String.ofList (input ++ ['.'])).toList.all isAscii = true := by
    rw [String.toList_ofList, List.all_append, hascii]
    rfl
  have hlast := (hstable _ hn).1
  rw [hidna.asciiText _ r hdotted hr] at hlast
  simp [toAsciiLowercase] at hlast

/-- IDNA for ASCII texts, and texts that are ASCII but for their full stops. -/
def asciiIdna (s : String) : Option String :=
  let mapped := s.toList.map fun c => if c ∈ fullStops then '.' else c
  if mapped.all isAscii then some (String.ofList (mapped.map Char.toLower)) else none

/-- Plain text with full stops. -/
def fullStopExternals : Externals := { plainExternals with domainToAscii := asciiIdna }

theorem asciiIdna_of_ascii {s : String} (hascii : s.toList.all isAscii = true) :
    asciiIdna s = some (toAsciiLowercase s) := by
  have hsame : (s.toList.map fun c => if c ∈ fullStops then '.' else c) = s.toList := by
    refine (List.map_congr_left fun c hc => if_neg fun hstop => ?_).trans (List.map_id _)
    have hother := ne_dot_of_mem_fullStops c hstop
    rw [List.all_eq_true.mp hascii c hc] at hother
    cases hother.2
  unfold asciiIdna
  rw [hsame]
  simp only
  rw [if_pos hascii, toAsciiLowercase]

theorem idna_asciiIdna : Idna asciiIdna where
  ascii s r h := by
    unfold asciiIdna at h
    simp only at h
    split at h
    · rename_i hall
      cases h
      rw [String.toList_ofList, List.all_map, List.all_eq_true]
      intro c hc
      exact isAscii_toLower (List.all_eq_true.mp hall c hc)
    · cases h
  asciiText s r hascii h := by
    rw [asciiIdna_of_ascii hascii] at h
    exact (Option.some.inj h).symm
  idempotent s r h := by
    unfold asciiIdna at h
    simp only at h
    split at h
    · rename_i hall
      have hr := (Option.some.inj h).symm
      generalize s.toList.map (fun c => if c ∈ fullStops then '.' else c) = mapped at hall hr
      subst hr
      have hascii : (mapped.map Char.toLower).all isAscii = true := by
        rw [List.all_map, List.all_eq_true]
        intro c hc
        exact isAscii_toLower (List.all_eq_true.mp hall c hc)
      rw [asciiIdna_of_ascii (by rw [String.toList_ofList]; exact hascii), toAsciiLowercase,
        String.toList_ofList, List.map_map]
      refine congrArg (some ∘ String.ofList) (List.map_congr_left fun c hc => ?_)
      exact toLower_toLower (List.all_eq_true.mp hall c hc)
    · cases h
  fullStop front behind c hc := by
    unfold asciiIdna
    simp only [String.toList_ofList, List.map_append, List.map_cons, if_pos hc]
    rfl

/-- A full stop inside a domain is a dot like any other. -/
theorem stableDomain_inner_full_stop :
    StableDomain fullStopExternals "Evil。com" ∧
      normalizeDomainForMatch fullStopExternals "Evil。com" = some "evil.com" := by
  refine ⟨(stableDomain_iff fullStopExternals idna_asciiIdna _).mpr (.inr fun r hr => ?_), by decide +kernel⟩
  have hform : fullStopExternals.domainToAscii (String.ofList "Evil。com".toList) = some "evil.com" := by
    decide +kernel
  cases hform.symm.trans hr
  exact ⟨by decide, .inl (by decide)⟩

/-- A full stop at the end takes the domain out of the pattern that blocks it. -/
theorem full_stop_leaves_blocklist :
    ¬ StableDomain fullStopExternals "evil.com。" ∧
      matchDomainPattern fullStopExternals "evil.com" "evil.com" = true ∧
      matchDomainPattern fullStopExternals "evil.com。" "evil.com" = false := by
  refine ⟨fun hstable => ?_, by decide +kernel, by decide +kernel⟩
  have hnormal : normalizeDomainForMatch fullStopExternals "evil.com。" = some "evil.com." := by
    decide +kernel
  exact (hstable _ hnormal).1 (by decide)

end Vellaveto.Domain
