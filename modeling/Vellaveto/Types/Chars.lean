/-
  DANGEROUS CHARACTERS: the predicates every name, path and log line is filtered by
  (`vellaveto-types/src/core.rs`).
-/
import Vellaveto.Lib.Text

namespace Vellaveto

open Vellaveto.Lib

/-- The inclusive code-point ranges of `is_unicode_format_char`, as the source lists them. -/
def unicodeFormatRanges : List (Nat × Nat) :=
  [(0x00AD, 0x00AD), (0x0600, 0x0605), (0x061C, 0x061C), (0x06DD, 0x06DD), (0x070F, 0x070F),
   (0x0890, 0x0891), (0x08E2, 0x08E2), (0x200B, 0x200F), (0x202A, 0x202E), (0x2060, 0x2069),
   (0xFEFF, 0xFEFF), (0xFFF9, 0xFFFB), (0x110BD, 0x110BD), (0x110CD, 0x110CD), (0x17B4, 0x17B5),
   (0x180B, 0x180F), (0x1D173, 0x1D17A), (0xFE00, 0xFE0F), (0xE0001, 0xE007F)]

/-- `is_unicode_format_char`. -/
def isUnicodeFormatChar (c : Char) : Bool :=
  unicodeFormatRanges.any fun r => r.1 ≤ c.toNat && c.toNat ≤ r.2

/-- A character that no name or log line may hold: a control or a format character. -/
def isDangerousChar (c : Char) : Bool := isControl c || isUnicodeFormatChar c

/-- `has_dangerous_chars`. -/
def hasDangerousChars (s : String) : Bool := s.toList.any isDangerousChar

/-- `sanitize_for_log`: drop the dangerous characters, then keep `maxLen` characters. -/
def sanitizeForLog (s : String) (maxLen : Nat) : String :=
  String.ofList ((s.toList.filter fun c => !isDangerousChar c).take maxLen)

/-- What `sanitize_for_log` returns holds no dangerous character. -/
theorem hasDangerousChars_sanitizeForLog (s : String) (maxLen : Nat) :
    hasDangerousChars (sanitizeForLog s maxLen) = false := by
  simp only [hasDangerousChars, sanitizeForLog, String.toList_ofList, List.any_eq_false]
  intro c hc
  have hmem := List.mem_of_mem_take hc
  simpa using (List.mem_filter.mp hmem).2

end Vellaveto
