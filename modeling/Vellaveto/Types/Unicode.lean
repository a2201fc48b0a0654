/-
  UNICODE NORMALIZATION of names (`vellaveto-types/src/unicode.rs`,
  `vellaveto-engine/src/normalize.rs`).

  `normalizeFull` is NFKC, then lower case, then a table of look-alike characters.  NFKC and the
  lower-case mapping outside ASCII are parameters.  What the engine relies on for ASCII text is
  `normalizeFull_ascii`: as long as NFKC leaves ASCII alone, an ASCII name is only put into lower
  case, because no ASCII character is in the table.
-/
import Mathlib.Data.List.Basic
import Vellaveto.Lib.AsciiCase

namespace Vellaveto

open Vellaveto.Lib

/-- The look-alikes of `normalize_homoglyphs` that are listed one by one. -/
def homoglyphTable : List (Nat × Char) :=
  [(0x0430, 'a'), (0x0432, 'b'), (0x0435, 'e'), (0x043A, 'k'), (0x043C, 'm'), (0x043D, 'h'),
   (0x043E, 'o'), (0x0440, 'p'), (0x0441, 'c'), (0x0442, 't'), (0x0443, 'y'), (0x0445, 'x'),
   (0x0456, 'i'), (0x0458, 'j'), (0x04BB, 'h'), (0x0455, 's'), (0x0454, 'e'), (0x044A, 'b'),
   (0x0410, 'a'), (0x0412, 'b'), (0x0415, 'e'), (0x041A, 'k'), (0x041C, 'm'), (0x041D, 'h'),
   (0x041E, 'o'), (0x0420, 'p'), (0x0421, 'c'), (0x0422, 't'), (0x0423, 'y'), (0x0425, 'x'),
   (0x0405, 's'), (0x0406, 'i'), (0x0408, 'j'), (0x03B1, 'a'), (0x03B2, 'b'), (0x03B5, 'e'),
   (0x03B7, 'h'), (0x03B9, 'i'), (0x03BA, 'k'), (0x03BC, 'm'), (0x03BD, 'v'), (0x03BF, 'o'),
   (0x03C1, 'p'), (0x03C4, 't'), (0x03C5, 'u'), (0x03C7, 'x'), (0x03C9, 'w'), (0x03B6, 'z'),
   (0x0391, 'a'), (0x0392, 'b'), (0x0395, 'e'), (0x0397, 'h'), (0x0399, 'i'), (0x039A, 'k'),
   (0x039C, 'm'), (0x039D, 'n'), (0x039F, 'o'), (0x03A1, 'p'), (0x03A4, 't'), (0x03A7, 'x'),
   (0x03A5, 'y'), (0x0396, 'z'), (0x0561, 'a'), (0x0570, 'h'), (0x0578, 'n'), (0x0585, 'o'),
   (0x057D, 's'), (0x0582, 'u'), (0xFF3F, '_'), (0x04C0, 'i'), (0x04CF, 'l'), (0x13AA, 'g'),
   (0x13B3, 'w'), (0x13CB, 'h'), (0x13A1, 'e'), (0x13A2, 'r'), (0x13DA, 's'), (0x13E4, 't'),
   (0x13AC, 'h'), (0x13D9, 'v'), (0x13CF, 'b'), (0x13D2, 'p'), (0x13A0, 'd'), (0x0131, 'i'),
   (0x1D00, 'a'), (0x0261, 'g'), (0x01C0, 'l'), (0x2010, '-'), (0x2011, '-'), (0x2012, '-'),
   (0x2013, '-'), (0x2014, '-'), (0x2015, '-'),
   (0x2018, Char.ofNat 0x27), (0x2019, Char.ofNat 0x27), (0x02BC, Char.ofNat 0x27)]

/-- `normalize_homoglyphs` on one character: full-width letters and digits by range, the others by
    the table. -/
def normalizeHomoglyph (c : Char) : Char :=
  let n := c.toNat
  if 0xFF21 ≤ n && n ≤ 0xFF3A then Char.ofNat (n - 0xFF21 + 'a'.toNat)
  else if 0xFF41 ≤ n && n ≤ 0xFF5A then Char.ofNat (n - 0xFF41 + 'a'.toNat)
  else if 0xFF10 ≤ n && n ≤ 0xFF19 then Char.ofNat (n - 0xFF10 + '0'.toNat)
  else (homoglyphTable.lookup n).getD c

/-- `normalize_full`. -/
def normalizeFull (nfkc : List Char → List Char)
    (lowerNonAscii : List Char → Char → List Char → List Char) (s : String) : String :=
  String.ofList ((lowercaseChars lowerNonAscii [] (nfkc s.toList)).map normalizeHomoglyph)

/-! ## ASCII names -/

/-- Every character is ASCII. -/
def IsAsciiText (cs : List Char) : Prop := ∀ c ∈ cs, isAscii c = true

/-- No ASCII character is a look-alike. -/
theorem normalizeHomoglyph_ascii {c : Char} (hc : isAscii c = true) : normalizeHomoglyph c = c := by
  have hlt : c.toNat < 0x80 := by simpa [isAscii] using hc
  have htable : homoglyphTable.lookup c.toNat = none := by
    refine List.lookup_eq_none_iff.mpr fun e he => ?_
    have hge : ∀ e ∈ homoglyphTable, 0x80 ≤ e.1 := by decide
    have hle := hge e he
    refine bne_iff_ne.mpr ?_
    omega
  simp only [normalizeHomoglyph, htable, Option.getD_none]
  rw [if_neg (by simp; omega), if_neg (by simp; omega), if_neg (by simp; omega)]

theorem isAscii_toLower {c : Char} (hc : isAscii c = true) : isAscii c.toLower = true :=
  forall_ascii (P := fun c => isAscii c.toLower = true) (by decide) hc

theorem lowercaseChars_ascii (nonAscii : List Char → Char → List Char → List Char)
    (before cs : List Char) (hcs : IsAsciiText cs) :
    lowercaseChars nonAscii before cs = cs.map Char.toLower := by
  induction cs generalizing before with
  | nil => rfl
  | cons c cs ih =>
    have hc : isAscii c = true := hcs c List.mem_cons_self
    rw [lowercaseChars, if_pos hc, ih (c :: before) fun d hd => hcs d (List.mem_cons_of_mem c hd)]
    rfl

/-- **ASCII names are only put into lower case**, provided NFKC leaves ASCII text as it is. -/
theorem normalizeFull_ascii {nfkc : List Char → List Char}
    (hnfkc : ∀ cs, IsAsciiText cs → nfkc cs = cs)
    (lowerNonAscii : List Char → Char → List Char → List Char) (s : String)
    (hs : IsAsciiText s.toList) : normalizeFull nfkc lowerNonAscii s = toAsciiLowercase s := by
  rw [normalizeFull, toAsciiLowercase, hnfkc _ hs, lowercaseChars_ascii _ _ _ hs, List.map_map]
  refine congrArg String.ofList (List.map_congr_left fun c hc => ?_)
  exact normalizeHomoglyph_ascii (isAscii_toLower (hs c hc))

end Vellaveto
