/-
  STRINGS as the standard library of the source treats them.

  A Rust `&str` is UTF-8: its length is counted in BYTES, and a slice `&s[..n]` PANICS when `n` is
  not a character boundary.  The definitions below give those operations on `String`, working on
  the list of characters, so that they reduce in the kernel.
-/
import Mathlib.Algebra.Ring.Nat
import Mathlib.Data.List.Basic

namespace Vellaveto.Lib

/-- `str::to_ascii_lowercase`: only `A`–`Z` change. -/
def toAsciiLowercase (s : String) : String := String.ofList (s.toList.map Char.toLower)

/-- The characters that make up the first `n` bytes; `none` when `n` falls inside a character or
    past the end. -/
def bytePrefix : List Char → Nat → Option (List Char)
  | _, 0 => some []
  | [], _ + 1 => none
  | c :: cs, n + 1 =>
    if c.utf8Size ≤ n + 1 then (bytePrefix cs (n + 1 - c.utf8Size)).map (c :: ·) else none

/-- `&s[..n]`; `none` is the panic of a slice that does not end on a character boundary. -/
def sliceTo (s : String) (n : Nat) : Option String := (bytePrefix s.toList n).map String.ofList

/-- What follows the first `n` bytes: `&s[n..]`, with `none` for its panic. -/
def byteSuffix : List Char → Nat → Option (List Char)
  | cs, 0 => some cs
  | [], _ + 1 => none
  | c :: cs, n + 1 => if c.utf8Size ≤ n + 1 then byteSuffix cs (n + 1 - c.utf8Size) else none

/-- `char::is_control`: general category Cc. -/
def isControl (c : Char) : Bool := c.toNat ≤ 0x1F || (0x7F ≤ c.toNat && c.toNat ≤ 0x9F)

/-- `char::is_whitespace`: the Unicode property White_Space. -/
def isWhitespace (c : Char) : Bool :=
  let n := c.toNat
  (0x9 ≤ n && n ≤ 0xD) || n = 0x20 || n = 0x85 || n = 0xA0 || n = 0x1680 ||
    (0x2000 ≤ n && n ≤ 0x200A) || n = 0x2028 || n = 0x2029 || n = 0x202F || n = 0x205F || n = 0x3000

/-- `char::is_ascii`. -/
def isAscii (c : Char) : Bool := c.toNat < 0x80

/-- `str::to_lowercase` on characters.  `nonAscii before c after` is the Unicode lower-case mapping
    of a character outside ASCII, which may depend on its context (the final sigma); ASCII letters
    are mapped as `toAsciiLowercase` does and other ASCII characters stay. -/
def lowercaseChars (nonAscii : List Char → Char → List Char → List Char) :
    List Char → List Char → List Char
  | _, [] => []
  | before, c :: after =>
    (if isAscii c then [c.toLower] else nonAscii before c after) ++
      lowercaseChars nonAscii (c :: before) after

/-- `str::strip_prefix` on characters. -/
def stripPrefix (pre cs : List Char) : Option (List Char) :=
  if pre.isPrefixOf cs then some (cs.drop pre.length) else none

/-- `str::strip_suffix` on characters. -/
def stripSuffix (suf cs : List Char) : Option (List Char) :=
  if suf.isSuffixOf cs then some (cs.take (cs.length - suf.length)) else none

theorem stripPrefix_singleton (c d : Char) (cs : List Char) :
    stripPrefix [c] (d :: cs) = if c = d then some cs else none := by
  by_cases hcd : c = d <;> simp [stripPrefix, hcd]

theorem stripSuffix_singleton (c d : Char) (cs : List Char) :
    stripSuffix [c] (cs ++ [d]) = if c = d then some cs else none := by
  by_cases hcd : c = d <;> simp [stripSuffix, List.isSuffixOf, hcd]

theorem stripPrefix_eq_some_iff {pre cs rest : List Char} :
    stripPrefix pre cs = some rest ↔ cs = pre ++ rest := by
  unfold stripPrefix
  constructor
  · intro h
    split at h
    · rename_i hstart
      obtain ⟨t, rfl⟩ := List.isPrefixOf_iff_prefix.mp hstart
      rw [List.drop_left] at h
      rw [Option.some.inj h]
    · cases h
  · rintro rfl
    rw [if_pos (List.isPrefixOf_iff_prefix.mpr (List.prefix_append pre rest)), List.drop_left]

theorem stripPrefix_eq_none_iff {pre cs : List Char} : stripPrefix pre cs = none ↔ ¬ pre <+: cs := by
  unfold stripPrefix
  rw [← List.isPrefixOf_iff_prefix]
  split <;> simp_all

/-- `str::contains` with a string pattern. -/
def containsInfix (needle : List Char) : List Char → Bool
  | [] => needle.isEmpty
  | c :: cs => needle.isPrefixOf (c :: cs) || containsInfix needle cs

theorem containsInfix_iff {needle cs : List Char} : containsInfix needle cs = true ↔ needle <:+: cs := by
  induction cs with
  | nil => simp [containsInfix]
  | cons c cs ih =>
    rw [containsInfix, Bool.or_eq_true, ih, List.isPrefixOf_iff_prefix, List.infix_cons_iff]

/-- The text before the first separator: `split(c).next()`. -/
def beforeFirst (sep : Char) (cs : List Char) : List Char := cs.takeWhile (· ≠ sep)

/-- The text after the last separator, or all of it: `rfind` and a slice. -/
def afterLast (sep : Char) (cs : List Char) : List Char :=
  (cs.reverse.takeWhile (· ≠ sep)).reverse

/-- `str::trim`. -/
def trim (cs : List Char) : List Char :=
  ((cs.dropWhile isWhitespace).reverse.dropWhile isWhitespace).reverse

/-- `str::trim_end_matches` with a character. -/
def trimEndMatches (c : Char) (cs : List Char) : List Char :=
  (cs.reverse.dropWhile (· = c)).reverse

theorem trimEndMatches_eq_self {c : Char} {cs : List Char} (h : cs.getLast? ≠ some c) :
    trimEndMatches c cs = cs := by
  unfold trimEndMatches
  rcases List.eq_nil_or_concat cs with rfl | ⟨init, last, rfl⟩
  · rfl
  · rw [List.concat_eq_append] at h ⊢
    have hlast : last ≠ c := by simpa using h
    simp [hlast]

theorem getLast?_trimEndMatches (c : Char) (cs : List Char) :
    (trimEndMatches c cs).getLast? ≠ some c := by
  unfold trimEndMatches
  rw [List.getLast?_reverse]
  intro h
  have hhead := List.head?_dropWhile_not (fun d => decide (d = c)) cs.reverse
  rw [h] at hhead
  simp at hhead

/-- Trimming goes on in the first of two texts only if nothing of the second is left. -/
theorem trimEndMatches_append (c : Char) (cs ds : List Char) :
    trimEndMatches c (cs ++ ds) =
      if trimEndMatches c ds = [] then trimEndMatches c cs else cs ++ trimEndMatches c ds := by
  unfold trimEndMatches
  rw [List.reverse_append, List.dropWhile_append]
  by_cases hempty : ds.reverse.dropWhile (· = c) = []
  · simp [hempty]
  · simp [hempty]

/-- What is trimmed away stood at the end. -/
theorem trimEndMatches_subset (c : Char) (cs : List Char) : trimEndMatches c cs ⊆ cs := by
  intro d hd
  rw [trimEndMatches, List.mem_reverse] at hd
  exact List.mem_reverse.mp ((List.dropWhile_suffix _).subset hd)

end Vellaveto.Lib
