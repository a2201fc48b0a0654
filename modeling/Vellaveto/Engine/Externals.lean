/-
  EXTERNALS: the code the engine calls that is not part of the repository.

  Glob and regex matching, IDNA, the parsers and texts of IP addresses and the JSON texts come from
  other crates.  The engine is modelled over ARBITRARY functions in their place; what a result needs
  of them is a hypothesis of that result.  `normalizeFull` is the repository's own name
  normalization (`Types/Unicode`), which rests on NFKC; the engine treats it as one more function.
-/
import Vellaveto.Engine.Ip
import Vellaveto.Json
import Vellaveto.Lib.Text
import Vellaveto.Types.Unicode

namespace Vellaveto

open Vellaveto.Lib

/-- A compiled glob or regex: a predicate on texts. -/
abbrev TextMatcher := String → Bool

/-- The functions the engine takes from elsewhere. -/
structure Externals where
  /-- `normalize_full`. -/
  normalizeFull : String → String
  /-- Unicode lower case of a character outside ASCII, in its context. -/
  lowerNonAscii : List Char → Char → List Char → List Char
  /-- `Glob::new(p)?.compile_matcher()`, or the text of the error. -/
  globNew : String → Except String TextMatcher
  /-- `RegexBuilder::new(p)…build()`, or the text of the error. -/
  regexNew : String → Except String TextMatcher
  /-- `idna::domain_to_ascii`. -/
  domainToAscii : String → Option String
  /-- `str::parse::<IpAddr>`. -/
  parseIpAddr : String → Option Ip.IpAddr
  /-- `str::parse::<IpNet>`, or the text of the error. -/
  parseIpNet : String → Except String Ip.IpNet
  /-- The text of an IP address. -/
  displayIp : Ip.IpAddr → String
  /-- The compact JSON text of a value. -/
  jsonText : Json → String
  /-- The `Debug` text of a value. -/
  debugJson : Json → String

/-- `str::to_lowercase`. -/
def Externals.toLowercase (ext : Externals) (s : String) : String :=
  String.ofList (lowercaseChars ext.lowerNonAscii [] s.toList)

/-! ## Plain text

  On ASCII text without special characters the externals are simple: a glob or regex without
  metacharacters is a literal, NFKC and IDNA change nothing but the case.  Concrete inputs below
  are of this kind. -/

mutual

/-- The JSON text of a value whose strings need no escapes and whose numbers are natural. -/
def plainJsonText : Json → String
  | .null => "null"
  | .bool b => if b then "true" else "false"
  | .number (.posInt n) => toString n
  | .number _ => ""
  | .string s => "\"" ++ s ++ "\""
  | .array xs => "[" ++ plainItems xs ++ "]"
  | .object ms => "\x7b" ++ plainMembers ms ++ "\x7d"

def plainItems : List Json → String
  | [] => ""
  | [x] => plainJsonText x
  | x :: y :: xs => plainJsonText x ++ "," ++ plainItems (y :: xs)

def plainMembers : List (String × Json) → String
  | [] => ""
  | [(k, v)] => "\"" ++ k ++ "\":" ++ plainJsonText v
  | (k, v) :: m :: ms => "\"" ++ k ++ "\":" ++ plainJsonText v ++ "," ++ plainMembers (m :: ms)

end

/-- The externals on plain text. -/
def plainExternals : Externals where
  normalizeFull := normalizeFull id fun _ c _ => [c]
  lowerNonAscii := fun _ c _ => [c]
  globNew := fun pattern => .ok fun s => s == pattern
  regexNew := fun pattern => .ok fun s => containsInfix pattern.toList s.toList
  domainToAscii := fun domain => some (toAsciiLowercase domain)
  parseIpAddr := fun _ => none
  parseIpNet := fun _ => .error "invalid IP address syntax"
  displayIp := fun _ => ""
  jsonText := plainJsonText
  debugJson := fun v =>
    match v with
    | .string s => "String(\"" ++ s ++ "\")"
    | v => plainJsonText v

end Vellaveto
