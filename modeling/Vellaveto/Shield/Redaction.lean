/-
  DETECTING AND REDACTING PII (`vellaveto-audit/src/pii.rs`, `vellaveto-audit/src/logger.rs`).

  Three loops run over the same patterns: `has_pii` asks whether there is PII, `find_matches` lists it,
  `redact_string` replaces it.  A match of the card pattern only counts when it passes the Luhn check.
  The last two check EVERY match, `has_pii` only the FIRST one; a card number behind a number that fails
  the check is found and replaced, and not detected.  The audit log decides with `has_pii` whether it
  masks a target.

    1. **Program** — `hasPii`, `redactString` and `redactTarget`, on the patterns of `Shield.Pii`.
    2. **Stages** — built-in and custom patterns are one list of stages, and each loop is a loop over it
       (`hasPii_eq`, `reported_eq`, `redactString_eq`).
    3. **The crux** — `redact_eq_self`: a stage that replaces nothing leaves the text as it is, so the
       first stage that replaces something does it in the original text.
    4. **Result** — `predicates_agree_iff`: the three agree on a text exactly if it has no `HiddenCard`.

  That matches come one after the other (`Successive`) is what the `regex` crate promises of `find_iter`.
-/
import Vellaveto.Shield.Pii

namespace Vellaveto.Shield

open Vellaveto.Lib

/-! ### The program -/

/-- `REDACTED`. -/
def redacted : Text := "[REDACTED]".toList

/-- `Match::as_str`. -/
def matchedText (input : Text) (m : Nat × Nat) : Text := (slice input m.1 m.2).getD []

namespace Regex

/-- `Regex::find`. -/
def find (regex : Regex) (input : Text) : Option (Nat × Nat) := (regex.findIter input).head?

/-- `Regex::is_match`. -/
def isMatch (regex : Regex) (input : Text) : Bool := !(regex.findIter input).isEmpty

/-- The text from `last` on, with these matches replaced. -/
def replaceFrom (input : Text) (replacement : Text → Text) : Nat → List (Nat × Nat) → Text
  | last, [] => (byteSuffix input last).getD []
  | last, m :: ms =>
    (slice input last m.1).getD [] ++ replacement (matchedText input m) ++
      replaceFrom input replacement m.2 ms

/-- `Regex::replace_all`. -/
def replaceAll (regex : Regex) (replacement : Text → Text) (input : Text) : Text :=
  replaceFrom input replacement 0 (regex.findIter input)

/-- The matches come one after the other. -/
def Successive (regex : Regex) : Prop :=
  ∀ input, (regex.findIter input).Pairwise fun a b => a.2 ≤ b.1

end Regex

namespace NamedPiiRegex

/-- The test of one pattern in `has_pii`. -/
def detects (named : NamedPiiRegex) (input : Text) : Bool :=
  if named.luhnPostfilter then
    (named.regex.find input).any fun m => luhnCheck (matchedText input m)
  else named.regex.isMatch input

/-- The pass of one pattern in `redact_string`. -/
def redact (named : NamedPiiRegex) (result : Text) : Text :=
  if named.luhnPostfilter then
    named.regex.replaceAll (fun matched => if luhnCheck matched then redacted else matched) result
  else named.regex.replaceAll (fun _ => redacted) result

/-- The matches that `redact` replaces by `[REDACTED]`. -/
def replaced (named : NamedPiiRegex) (result : Text) : List (Nat × Nat) :=
  (named.regex.findIter result).filter fun m =>
    !named.luhnPostfilter || luhnCheck (matchedText result m)

end NamedPiiRegex

namespace PiiScanner

/-- `has_pii`. -/
def hasPii (scanner : PiiScanner) (input : Text) : Bool :=
  scanner.defaultPatterns.any (fun named => named.detects input) ||
    scanner.customPatterns.any fun p => p.2.isMatch input

/-- `redact_string`. -/
def redactString (scanner : PiiScanner) (input : Text) : Text :=
  let result := scanner.defaultPatterns.foldl (fun result named => named.redact result) input
  scanner.customPatterns.foldl (fun result p => p.2.replaceAll (fun _ => redacted) result) result

/-- The patterns in the order of the loops; a custom one has no Luhn filter. -/
def stages (scanner : PiiScanner) : List NamedPiiRegex :=
  scanner.defaultPatterns ++ scanner.customPatterns.map fun p => ⟨p.1, p.2, false⟩

end PiiScanner

/-- Some stage of `redact_string` replaces something, in the text that the stages before it leave. -/
def replacesSomething : List NamedPiiRegex → Text → Bool
  | [], _ => false
  | named :: rest, result =>
    !(named.replaced result).isEmpty || replacesSomething rest (named.redact result)

/-- What the audit log writes for a target path, domain or address (`redact_strings`), with the scanner
    that is configured and the patterns used without one. -/
def redactTarget (piiScanner : Option PiiScanner) (piiRegexes : List Regex) (s : Text) : Text :=
  match piiScanner with
  | some scanner => if scanner.hasPii s then redacted else s
  | none => if piiRegexes.any fun re => re.isMatch s then redacted else s

/-! ### Stages -/

section Stages

variable {scanner : PiiScanner} {named : NamedPiiRegex} {input : Text}

theorem hasPii_eq (scanner : PiiScanner) (input : Text) :
    scanner.hasPii input = scanner.stages.any fun named => named.detects input := by
  rw [PiiScanner.hasPii, PiiScanner.stages, List.any_append, List.any_map]
  rfl

theorem redactString_eq (scanner : PiiScanner) (input : Text) :
    scanner.redactString input =
      scanner.stages.foldl (fun result named => named.redact result) input := by
  rw [PiiScanner.redactString, PiiScanner.stages, List.foldl_append, List.foldl_map]
  rfl

/-- What is reported is what is replaced. -/
theorem reported_eq_map (named : NamedPiiRegex) (input : Text) :
    named.reported input = (named.replaced input).map (piiMatch input named.name) := by
  unfold NamedPiiRegex.reported NamedPiiRegex.replaced
  rw [List.filter_map]
  congr 1
  refine List.filter_congr fun m _ => ?_
  show (!(named.luhnPostfilter && !luhnCheck (matchedText input m))) = _
  rw [Bool.not_and, Bool.not_not]

theorem reported_eq (scanner : PiiScanner) (input : Text) :
    scanner.reported input = scanner.stages.flatMap fun named => named.reported input := by
  rw [PiiScanner.reported, PiiScanner.stages, List.flatMap_append, List.flatMap_map]
  congr 1
  refine List.flatMap_congr fun p _ => ?_
  rw [reported_eq_map]
  simp [NamedPiiRegex.replaced]

/-- Something is found exactly if some stage has something to replace in the text. -/
theorem findMatches_ne_nil_iff (scanner : PiiScanner) (input : Text) :
    scanner.findMatches input ≠ [] ↔ ∃ named ∈ scanner.stages, named.replaced input ≠ [] := by
  have hkept : scanner.findMatches input = [] ↔ scanner.reported input = [] := by
    rw [PiiScanner.findMatches, keepFree_zero_eq_nil_iff, ← List.length_eq_zero_iff,
      List.length_insertionSort, List.length_eq_zero_iff]
  rw [ne_eq, hkept, reported_eq, List.flatMap_eq_nil_iff]
  simp only [reported_eq_map, List.map_eq_nil_iff]
  grind

/-- Matches that are replaced by themselves leave the text as it is. -/
theorem replaceFrom_self {replacement : Text → Text} {last : Nat} {ms : List (Nat × Nat)}
    (hlast : IsBoundary input last) (horder : ∀ m ∈ ms, last ≤ m.1)
    (hms : ms.Pairwise fun a b => a.2 ≤ b.1)
    (hspan : ∀ m ∈ ms, m.1 ≤ m.2 ∧ IsBoundary input m.1 ∧ IsBoundary input m.2)
    (hself : ∀ m ∈ ms, replacement (matchedText input m) = matchedText input m) :
    Regex.replaceFrom input replacement last ms = (byteSuffix input last).getD [] := by
  induction ms generalizing last with
  | nil => rfl
  | cons m ms ih =>
    obtain ⟨hle, hstart, hstop⟩ := hspan m List.mem_cons_self
    obtain ⟨hnext, hrest⟩ := List.pairwise_cons.mp hms
    have htail := ih hstop hnext hrest (fun n hn => hspan n (List.mem_cons_of_mem m hn))
      (fun n hn => hself n (List.mem_cons_of_mem m hn))
    -- the text is `u`, up to the gap; `w`, the gap; `x`, the match; and the rest
    obtain ⟨u, hu⟩ := hlast
    obtain ⟨w, hgap, huw⟩ := exists_slice hu hstart (horder m List.mem_cons_self)
    obtain ⟨x, hmatch, huwx⟩ := exists_slice huw hstop hle
    obtain ⟨v, hv, hinput⟩ := exists_byteSuffix hu
    obtain ⟨rest, hrest', hinput'⟩ := exists_byteSuffix huwx
    have hsplit : v = w ++ x ++ rest := by
      rw [hinput', List.append_assoc, List.append_assoc] at hinput
      rw [List.append_assoc]
      exact (List.append_cancel_left hinput).symm
    rw [Regex.replaceFrom, htail, hself m List.mem_cons_self, matchedText, hgap, hmatch, hrest', hv,
      hsplit]
    rfl

/-- **A stage that replaces nothing leaves the text as it is.** -/
theorem redact_eq_self (hsucc : named.luhnPostfilter = true → named.regex.Successive)
    (h : named.replaced input = []) : named.redact input = input := by
  have hnone : ∀ m ∈ named.regex.findIter input,
      named.luhnPostfilter = true ∧ luhnCheck (matchedText input m) = false := by
    intro m hm
    have hnot := List.filter_eq_nil_iff.mp h m hm
    simpa using hnot
  have hzero : (byteSuffix input 0).getD [] = input := by
    cases input <;> rfl
  unfold NamedPiiRegex.redact
  split
  · rename_i hluhn
    refine (replaceFrom_self (isBoundary_zero input) (fun m _ => Nat.zero_le m.1)
      (hsucc hluhn input) ?_ ?_).trans hzero
    · intro m hm
      exact ⟨named.regex.start_le_end input m hm, named.regex.start_boundary input m hm,
        named.regex.end_boundary input m hm⟩
    · intro m hm
      rw [(hnone m hm).2]
      rfl
  · rename_i hplain
    have hempty : named.regex.findIter input = [] :=
      List.eq_nil_iff_forall_not_mem.mpr fun m hm => hplain (hnone m hm).1
    rw [Regex.replaceAll, hempty]
    exact hzero

/-- So the first stage that replaces something does it in the original text. -/
theorem replacesSomething_iff {stages : List NamedPiiRegex}
    (hsucc : ∀ named ∈ stages, named.luhnPostfilter = true → named.regex.Successive) :
    replacesSomething stages input = true ↔ ∃ named ∈ stages, named.replaced input ≠ [] := by
  induction stages with
  | nil => simp [replacesSomething]
  | cons named rest ih =>
    have hrest := ih fun n hn => hsucc n (List.mem_cons_of_mem named hn)
    rw [replacesSomething, Bool.or_eq_true, Bool.not_eq_true', List.isEmpty_eq_false_iff]
    by_cases hnone : named.replaced input = []
    · have hsame := redact_eq_self (hsucc named List.mem_cons_self) hnone
      rw [hsame, hrest]
      simp [hnone]
    · simp [hnone]

/-- Where nothing is replaced, `redact_string` returns the text as it is. -/
theorem redactString_eq_self
    (hsucc : ∀ named ∈ scanner.stages, named.luhnPostfilter = true → named.regex.Successive)
    (h : replacesSomething scanner.stages input = false) : scanner.redactString input = input := by
  rw [redactString_eq]
  generalize scanner.stages = stages at hsucc h ⊢
  induction stages with
  | nil => rfl
  | cons named rest ih =>
    rw [replacesSomething, Bool.or_eq_false_iff, Bool.not_eq_false', List.isEmpty_iff] at h
    obtain ⟨hnone, hrest⟩ := h
    have hsame := redact_eq_self (hsucc named List.mem_cons_self) hnone
    rw [hsame] at hrest
    rw [List.foldl_cons, hsame]
    exact ih (fun n hn => hsucc n (List.mem_cons_of_mem named hn)) hrest

end Stages

/-! ### Agreement -/

/-- The three loops agree on a text, and the audit log masks a target in which something is found. -/
structure PredicatesAgree (scanner : PiiScanner) (s : Text) : Prop where
  findMatches : scanner.hasPii s = true ↔ scanner.findMatches s ≠ []
  redactString : scanner.hasPii s = true ↔ replacesSomething scanner.stages s = true
  target : ∀ piiRegexes, scanner.findMatches s ≠ [] →
    redactTarget (some scanner) piiRegexes s = redacted

/-- A number behind one that fails the Luhn check passes it, and nothing else gives the text away: no
    pattern without the filter matches, and no pattern with it has a first match that passes. -/
structure HiddenCard (scanner : PiiScanner) (s : Text) : Prop where
  plain : ∀ named ∈ scanner.stages, named.luhnPostfilter = false → named.regex.findIter s = []
  first : ∀ named ∈ scanner.stages, named.luhnPostfilter = true →
    ∀ m ∈ (named.regex.findIter s).head?, luhnCheck (matchedText s m) = false
  later : ∃ named ∈ scanner.stages, named.luhnPostfilter = true ∧
    ∃ m ∈ (named.regex.findIter s).tail, luhnCheck (matchedText s m) = true

section Agreement

variable {scanner : PiiScanner} {named : NamedPiiRegex} {s : Text}

/-- A pattern that detects something replaces something. -/
theorem replaced_ne_nil_of_detects (h : named.detects s = true) : named.replaced s ≠ [] := by
  unfold NamedPiiRegex.detects at h
  split at h
  · obtain ⟨m, hm, hpasses⟩ := (Option.any_eq_true _ _).mp h
    have hmem : m ∈ named.regex.findIter s := List.mem_of_mem_head? hm
    exact List.ne_nil_of_mem (List.mem_filter.mpr ⟨hmem, by simp [hpasses]⟩)
  · rename_i hplain
    obtain ⟨m, hm⟩ := List.exists_mem_of_ne_nil _ (by simpa [Regex.isMatch] using h)
    exact List.ne_nil_of_mem (List.mem_filter.mpr ⟨hm, by simp [hplain]⟩)

/-- Without the Luhn filter, detecting is matching. -/
theorem detects_eq_false_iff :
    named.detects s = false ↔
      (named.luhnPostfilter = false → named.regex.findIter s = []) ∧
      (named.luhnPostfilter = true →
        ∀ m ∈ (named.regex.findIter s).head?, luhnCheck (matchedText s m) = false) := by
  unfold NamedPiiRegex.detects
  split
  · rename_i hluhn
    rw [Regex.find]
    cases (named.regex.findIter s).head? with
    | none => simp [hluhn]
    | some m => simp [hluhn]
  · rename_i hplain
    simp [hplain, Regex.isMatch]

/-- What is replaced without being detected is a later match of a pattern with the filter. -/
theorem later_of_not_detects (hnot : named.detects s = false) (h : named.replaced s ≠ []) :
    named.luhnPostfilter = true ∧
      ∃ m ∈ (named.regex.findIter s).tail, luhnCheck (matchedText s m) = true := by
  obtain ⟨hplain, hfirst⟩ := detects_eq_false_iff.mp hnot
  obtain ⟨m, hm⟩ := List.exists_mem_of_ne_nil _ h
  obtain ⟨hmem, hkept⟩ := List.mem_filter.mp hm
  have hluhn : named.luhnPostfilter = true := by
    by_contra hfalse
    rw [hplain (by simpa using hfalse)] at hmem
    cases hmem
  have hpasses : luhnCheck (matchedText s m) = true := by simpa [hluhn] using hkept
  refine ⟨hluhn, m, ?_, hpasses⟩
  cases hall : named.regex.findIter s with
  | nil =>
    rw [hall] at hmem
    cases hmem
  | cons first rest =>
    rw [hall] at hmem
    rcases List.mem_cons.mp hmem with rfl | hrest
    · have hfails := hfirst hluhn m (by simp [hall])
      rw [hfails] at hpasses
      cases hpasses
    · exact hrest

/-- A text hides a card exactly if something is found in it and nothing is detected. -/
theorem hiddenCard_iff :
    HiddenCard scanner s ↔ scanner.hasPii s = false ∧ scanner.findMatches s ≠ [] := by
  have hquiet : scanner.hasPii s = false ↔ ∀ named ∈ scanner.stages, named.detects s = false := by
    rw [hasPii_eq, List.any_eq_false]
    simp
  rw [hquiet, findMatches_ne_nil_iff]
  constructor
  · rintro ⟨hplain, hfirst, named, hmem, hluhn, m, hm, hpasses⟩
    refine ⟨fun n hn => detects_eq_false_iff.mpr ⟨hplain n hn, hfirst n hn⟩, named, hmem, ?_⟩
    refine List.ne_nil_of_mem (List.mem_filter.mpr ⟨List.mem_of_mem_tail hm, ?_⟩)
    simp [hpasses]
  · rintro ⟨hnot, named, hmem, hreplaced⟩
    refine ⟨fun n hn => (detects_eq_false_iff.mp (hnot n hn)).1,
      fun n hn => (detects_eq_false_iff.mp (hnot n hn)).2, named, hmem, ?_⟩
    exact later_of_not_detects (hnot named hmem) hreplaced

end Agreement

/-- **The three loops agree on a text exactly if it hides no card.** -/
theorem predicates_agree_iff (scanner : PiiScanner) (s : Text)
    (hsucc : ∀ named ∈ scanner.stages, named.regex.Successive) :
    PredicatesAgree scanner s ↔ ¬HiddenCard scanner s := by
  have hreplaces : replacesSomething scanner.stages s = true ↔ scanner.findMatches s ≠ [] := by
    rw [replacesSomething_iff fun named hn _ => hsucc named hn, findMatches_ne_nil_iff]
  have hsound : scanner.hasPii s = true → scanner.findMatches s ≠ [] := by
    intro h
    rw [hasPii_eq] at h
    obtain ⟨named, hmem, hdetects⟩ := List.any_eq_true.mp h
    exact (findMatches_ne_nil_iff scanner s).mpr ⟨named, hmem, replaced_ne_nil_of_detects hdetects⟩
  rw [hiddenCard_iff]
  constructor
  · rintro hagree ⟨hquiet, hfound⟩
    rw [hagree.findMatches.mpr hfound] at hquiet
    cases hquiet
  · intro hnot
    have hiff : scanner.hasPii s = true ↔ scanner.findMatches s ≠ [] := by
      refine ⟨hsound, fun hfound => ?_⟩
      by_contra hquiet
      exact hnot ⟨by simpa using hquiet, hfound⟩
    refine ⟨hiff, hiff.trans hreplaces.symm, fun piiRegexes hfound => ?_⟩
    rw [redactTarget, if_pos (hiff.mpr hfound)]

/-! ### Two numbers -/

/-- The expression that matches these spans of one text, and nothing in any other. -/
def spansOf (text : Text) (spans : List (Nat × Nat))
    (h : ∀ m ∈ spans, m.1 ≤ m.2 ∧ IsBoundary text m.1 ∧ IsBoundary text m.2) : Regex where
  findIter input := if input = text then spans else []
  start_le_end input m hm := by
    split at hm
    · exact (h m hm).1
    · cases hm
  start_boundary input m hm := by
    split at hm
    · rename_i htext
      exact htext ▸ (h m hm).2.1
    · cases hm
  end_boundary input m hm := by
    split at hm
    · rename_i htext
      exact htext ▸ (h m hm).2.2
    · cases hm

theorem spans_of_boundaries {text : Text} (h16 : IsBoundary text 16) (h17 : IsBoundary text 17)
    (h33 : IsBoundary text 33) : ∀ m ∈ [(0, 16), (17, 33)],
      m.1 ≤ m.2 ∧ IsBoundary text m.1 ∧ IsBoundary text m.2 := by
  intro m hm
  rcases List.mem_cons.mp hm with rfl | hm
  · exact ⟨by decide, isBoundary_zero text, h16⟩
  · cases List.mem_singleton.mp hm
    exact ⟨by decide, h17, h33⟩

/-- Two numbers of 16 digits, as the pattern `credit_card` matches them; no other built-in pattern
    matches there. -/
def twoNumbers (text : Text) (h16 : IsBoundary text 16) (h17 : IsBoundary text 17)
    (h33 : IsBoundary text 33) : PiiScanner where
  defaultPatterns :=
    [⟨"credit_card", spansOf text [(0, 16), (17, 33)] (spans_of_boundaries h16 h17 h33), true⟩]
  customPatterns := []

/-- A card number, and a number that is none. -/
def cardFirst : Text := "4111111111111111,1234567890123456".toList

/-- The same the other way round. -/
def cardSecond : Text := "1234567890123456,4111111111111111".toList

def cardFirstScanner : PiiScanner := twoNumbers cardFirst ⟨_, rfl⟩ ⟨_, rfl⟩ ⟨_, rfl⟩

def cardSecondScanner : PiiScanner := twoNumbers cardSecond ⟨_, rfl⟩ ⟨_, rfl⟩ ⟨_, rfl⟩

/-- With the card number first all three see it. -/
theorem predicates_agree_cardFirst : PredicatesAgree cardFirstScanner cardFirst := by
  refine (predicates_agree_iff _ _ ?_).mpr fun hhidden => ?_
  · intro named hn input
    cases List.mem_singleton.mp hn
    show (if input = cardFirst then [(0, 16), (17, 33)] else []).Pairwise _
    split
    · decide
    · exact List.Pairwise.nil
  · have hfails := hhidden.first _ List.mem_cons_self rfl (0, 16) rfl
    exact absurd hfails (by decide +kernel)

/-- With the card number second it is found, and the text counts as free of PII. -/
theorem second_card_not_detected :
    cardSecondScanner.hasPii cardSecond = false ∧
    cardSecondScanner.findMatches cardSecond ≠ [] ∧
    cardSecondScanner.redactString cardSecond =
      "1234567890123456,[REDACTED]".toList ∧
    redactTarget (some cardSecondScanner) [] cardSecond = cardSecond ∧
    ¬PredicatesAgree cardSecondScanner cardSecond := by
  have hquiet : cardSecondScanner.hasPii cardSecond = false := by
    decide +kernel
  have hfound : cardSecondScanner.findMatches cardSecond ≠ [] := by
    decide +kernel
  refine ⟨hquiet, hfound, by decide +kernel, by decide +kernel, fun hagree => ?_⟩
  rw [hagree.findMatches.mpr hfound] at hquiet
  cases hquiet

end Vellaveto.Shield
