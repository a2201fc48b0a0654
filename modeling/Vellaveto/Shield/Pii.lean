/-
  PII DETECTION (`vellaveto-audit/src/pii.rs`).

  A `PiiScanner` runs its patterns over a text and reports spans.  The regular expressions are not
  modelled: a `Regex` is ANY function from texts to lists of spans, as long as a span starts before
  it ends and lies on character boundaries, which the `regex` crate promises for `&str`.

  1. **Program** — `findMatches`: everything the patterns report, the card numbers only when they
     pass the Luhn check (`reported`); sorted by start, then longest first, then by category; and
     scanned once, keeping what does not overlap.

  2. **Bridge** — the sorted list is `LongestFirst`, so `findMatches` is the greedy selection of
     `Lib.Spans` and the facts about that one carry over: `pairwise_findMatches` (the guarantee the
     sanitizer's slices rest on) and `covers_findMatches_iff`.

  Offsets are BYTE offsets, as in the source.
-/
import Mathlib.Data.List.Sort
import Vellaveto.Lib.Slice
import Vellaveto.Lib.Spans

namespace Vellaveto.Shield

open Vellaveto.Lib

/-- A text, as its characters. -/
abbrev Text := List Char

/-! ## Patterns -/

/-- A compiled regular expression: what `find_iter` yields on each text. -/
structure Regex where
  findIter : Text → List (Nat × Nat)
  start_le_end : ∀ input, ∀ m ∈ findIter input, m.1 ≤ m.2
  start_boundary : ∀ input, ∀ m ∈ findIter input, IsBoundary input m.1
  end_boundary : ∀ input, ∀ m ∈ findIter input, IsBoundary input m.2

/-- `NamedPiiRegex`. -/
structure NamedPiiRegex where
  name : String
  regex : Regex
  luhnPostfilter : Bool

/-- The built-in patterns: name, expression, and whether a match must pass the Luhn check. -/
def patternTable : List (String × String × Bool) :=
  [("email", "[a-zA-Z0-9._%+\\-]+@[a-zA-Z0-9.\\-]+\\.[a-zA-Z]\x7b2,\x7d", false),
   ("ssn", "\\b\\d\x7b3\x7d-\\d\x7b2\x7d-\\d\x7b4\x7d\\b", false),
   ("us_phone",
    "\\b(?:\\+1[\\s.-]?)?\\(?\\d\x7b3\x7d\\)?[\\s.-]?\\d\x7b3\x7d[\\s.-]?\\d\x7b4\x7d\\b", false),
   ("credit_card", "\\b(?:\\d[ -]*?)\x7b13,19\x7d\\b", true),
   ("ipv4",
    "\\b(?:(?:25[0-5]|2[0-4][0-9]|[01]?[0-9][0-9]?)\\.)\x7b3\x7d" ++
      "(?:25[0-5]|2[0-4][0-9]|[01]?[0-9][0-9]?)\\b", false),
   ("jwt", "\\beyJ[A-Za-z0-9_-]+\\.eyJ[A-Za-z0-9_-]+\\.[A-Za-z0-9_-]+\\b", false),
   ("aws_key_id", "\\b(?:AKIA|ASIA)[A-Z0-9]\x7b16\x7d\\b", false),
   ("ipv6",
    "(?:[0-9A-Fa-f]\x7b1,4\x7d:)\x7b7\x7d[0-9A-Fa-f]\x7b1,4\x7d|" ++
      "(?:[0-9A-Fa-f]\x7b1,4\x7d:)\x7b1,6\x7d:[0-9A-Fa-f]\x7b1,4\x7d" ++
      "(?::[0-9A-Fa-f]\x7b1,4\x7d)*", false),
   ("path",
    "(?:~|/)(?:[A-Za-z0-9._\\-]+/)+[A-Za-z0-9._\\-]*|" ++
      "\\b[A-Za-z]:\\\\(?:[^\\\\/:*?<>|\\r\\n]+\\\\)+[^\\\\/:*?<>|\\r\\n]*", false)]

/-- `all_patterns`, the set of the sanitizer, with `Regex::new` as `compile`; an expression that does
    not compile is left out. -/
def allPatterns (compile : String → Option Regex) : List NamedPiiRegex :=
  patternTable.filterMap fun row =>
    (compile row.2.1).map fun regex => ⟨row.1, regex, row.2.2⟩

/-- `PiiScanner`. -/
structure PiiScanner where
  defaultPatterns : List NamedPiiRegex
  customPatterns : List (String × Regex)

/-- `char::to_digit(10)` on an ASCII digit. -/
def digitValue (c : Char) : Nat := c.toNat - '0'.toNat

/-- The loop of `luhn_check`, from the last digit on; every second digit is doubled. -/
def luhnSum : List Nat → Bool → Nat → Nat
  | [], _, sum => sum
  | d :: ds, double, sum =>
    let val := if double then (if 9 < d * 2 then d * 2 - 9 else d * 2) else d
    luhnSum ds (!double) (sum + val)

/-- `luhn_check`. -/
def luhnCheck (text : Text) : Bool :=
  let digits := (text.filter fun c => '0' ≤ c && c ≤ '9').map digitValue
  if digits.length < 13 || 19 < digits.length then false
  else luhnSum digits.reverse false 0 % 10 == 0

/-- `PiiMatch`. -/
structure PiiMatch where
  start : Nat
  stop : Nat
  text : Text
  category : String
deriving DecidableEq, Repr

/-- A match of a pattern, with the text it covers (`m.as_str()`). -/
def piiMatch (input : Text) (category : String) (m : Nat × Nat) : PiiMatch :=
  ⟨m.1, m.2, (slice input m.1 m.2).getD [], category⟩

/-- What a built-in pattern reports. -/
def NamedPiiRegex.reported (named : NamedPiiRegex) (input : Text) : List PiiMatch :=
  ((named.regex.findIter input).map (piiMatch input named.name)).filter fun m =>
    !(named.luhnPostfilter && !luhnCheck m.text)

namespace PiiScanner

/-- The spans the patterns report, after the Luhn filter, in the order of the patterns. -/
def reported (scanner : PiiScanner) (input : Text) : List PiiMatch :=
  scanner.defaultPatterns.flatMap (fun named => named.reported input) ++
    scanner.customPatterns.flatMap fun p => (p.2.findIter input).map (piiMatch input p.1)

end PiiScanner

/-- The order of `sort_by`: start, then length from the longest, then category. -/
def matchCmp (a b : PiiMatch) : Ordering :=
  (compare a.start b.start).then
    ((compare (b.stop - b.start) (a.stop - a.start)).then (compare a.category b.category))

def matchLe (a b : PiiMatch) : Prop := (matchCmp a b).isLE

instance : DecidableRel matchLe := fun a b => inferInstanceAs (Decidable ((matchCmp a b).isLE = true))

/-- `find_matches`. -/
def PiiScanner.findMatches (scanner : PiiScanner) (input : Text) : List PiiMatch :=
  keepFree PiiMatch.start PiiMatch.stop 0 ((scanner.reported input).insertionSort matchLe)

/-! ## The order -/

instance : Std.TransCmp matchCmp :=
  inferInstanceAs (Std.TransCmp (compareLex (compareOn PiiMatch.start)
    (compareLex (fun a b => compareOn (fun m : PiiMatch => m.stop - m.start) b a)
      (compareOn PiiMatch.category))))

instance : IsTrans PiiMatch matchLe := ⟨fun _ _ _ => Std.TransCmp.isLE_trans⟩

instance : Std.Total matchLe where
  total a b := by
    have hswap : matchCmp a b = (matchCmp b a).swap := Std.OrientedCmp.eq_swap
    simp only [matchLe, hswap]
    cases matchCmp b a <;> simp

/-- The sort puts the longest span first at each start. -/
theorem longestFirst_of_matchLe {a b : PiiMatch} (ha : a.start ≤ a.stop) (hb : b.start ≤ b.stop)
    (h : matchLe a b) : LongestFirst PiiMatch.start PiiMatch.stop a b := by
  rcases Nat.lt_trichotomy a.start b.start with hlt | heq | hgt
  · exact Or.inl hlt
  · refine Or.inr ⟨heq, ?_⟩
    by_contra hlong
    have hcmp : matchCmp a b = .gt := by
      have hstart : compare a.start b.start = .eq := Nat.compare_eq_eq.mpr heq
      have hlen : compare (b.stop - b.start) (a.stop - a.start) = .gt :=
        Nat.compare_eq_gt.mpr (by omega)
      rw [matchCmp, hstart, hlen]
      rfl
    rw [matchLe, hcmp] at h
    cases h
  · have hcmp : matchCmp a b = .gt := by
      simp [matchCmp, Nat.compare_eq_gt.mpr hgt]
    rw [matchLe, hcmp] at h
    cases h

/-! ## What a match is -/

/-- A match is a span of the input: its ends are boundaries in order, and its text lies between
    them. -/
structure PiiMatch.IsSpan (m : PiiMatch) (input : Text) : Prop where
  start_le_stop : m.start ≤ m.stop
  start_boundary : IsBoundary input m.start
  stop_boundary : IsBoundary input m.stop
  slice_eq : slice input m.start m.stop = some m.text

theorem isSpan_piiMatch (regex : Regex) (input : Text) (category : String) {m : Nat × Nat}
    (hm : m ∈ regex.findIter input) : (piiMatch input category m).IsSpan input := by
  have hle := regex.start_le_end input m hm
  have hstart := regex.start_boundary input m hm
  have hend := regex.end_boundary input m hm
  refine ⟨hle, hstart, hend, ?_⟩
  obtain ⟨u, hu⟩ := hstart
  obtain ⟨w, hw, _⟩ := exists_slice hu hend hle
  show slice input m.1 m.2 = some ((slice input m.1 m.2).getD [])
  rw [hw]
  rfl

namespace PiiScanner

variable {scanner : PiiScanner} {input : Text} {m : PiiMatch}

theorem isSpan_of_mem_reported (hm : m ∈ scanner.reported input) : m.IsSpan input := by
  rcases List.mem_append.mp hm with h | h
  · obtain ⟨named, _, h⟩ := List.mem_flatMap.mp h
    obtain ⟨n, hn, rfl⟩ := List.mem_map.mp (List.mem_filter.mp h).1
    exact isSpan_piiMatch named.regex input named.name hn
  · obtain ⟨p, _, h⟩ := List.mem_flatMap.mp h
    obtain ⟨n, hn, rfl⟩ := List.mem_map.mp h
    exact isSpan_piiMatch p.2 input p.1 hn

/-- The sorted reported spans. -/
theorem longestFirst_sorted (scanner : PiiScanner) (input : Text) :
    ((scanner.reported input).insertionSort matchLe).Pairwise
      (LongestFirst PiiMatch.start PiiMatch.stop) := by
  refine (List.pairwise_insertionSort matchLe _).imp_of_mem ?_
  intro a b ha hb hab
  rw [List.mem_insertionSort] at ha hb
  exact longestFirst_of_matchLe (isSpan_of_mem_reported ha).start_le_stop
    (isSpan_of_mem_reported hb).start_le_stop hab

theorem start_le_stop_sorted (scanner : PiiScanner) (input : Text) :
    ∀ m ∈ (scanner.reported input).insertionSort matchLe, m.start ≤ m.stop := by
  intro m hm
  rw [List.mem_insertionSort] at hm
  exact (isSpan_of_mem_reported hm).start_le_stop

theorem mem_reported_of_mem_findMatches (hm : m ∈ scanner.findMatches input) :
    m ∈ scanner.reported input := by
  have hsorted := mem_of_mem_keepFree hm
  rwa [List.mem_insertionSort] at hsorted

theorem isSpan_of_mem_findMatches (hm : m ∈ scanner.findMatches input) : m.IsSpan input :=
  isSpan_of_mem_reported (mem_reported_of_mem_findMatches hm)

/-- **The returned spans never overlap**, and come in the order of the text. -/
theorem pairwise_findMatches (scanner : PiiScanner) (input : Text) :
    (scanner.findMatches input).Pairwise fun a b => a.stop ≤ b.start :=
  pairwise_keepFree (start_le_stop_sorted scanner input)

/-- **What the returned spans cover**: everything reported, exactly when the reported spans are
    seamless. -/
theorem covers_findMatches_iff (scanner : PiiScanner) (input : Text) :
    Covers PiiMatch.start PiiMatch.stop (scanner.findMatches input) (scanner.reported input) ↔
      Seamless PiiMatch.start PiiMatch.stop (scanner.reported input) := by
  have hmem : ∀ m, m ∈ (scanner.reported input).insertionSort matchLe ↔ m ∈ scanner.reported input :=
    fun m => List.mem_insertionSort matchLe
  have hiff := covers_keepFree_iff (start_le_stop_sorted scanner input)
    (longestFirst_sorted scanner input)
  constructor
  · intro hcover
    exact (hiff.mp fun m hm => hcover m ((hmem m).mp hm)).of_mem_iff hmem
  · intro hseam m hm
    exact hiff.mpr (hseam.of_mem_iff fun m => (hmem m).symm) m ((hmem m).mpr hm)

end PiiScanner

end Vellaveto.Shield
