/-
  DOMAINS: patterns, extraction from URLs, normalization and matching
  (`vellaveto-engine/src/domain.rs`).

  A domain and a pattern are compared after normalization (trailing dots, IDNA, lower case); a
  pattern `*.suffix` matches the suffix and everything below it.  A domain that cannot be normalized
  matches nothing, which is why the callers check for that case first.
-/
import Vellaveto.Engine.Externals
import Vellaveto.Lib.Percent

namespace Vellaveto.Domain

open Vellaveto.Lib

/-- `char::is_ascii_alphanumeric`. -/
def isAsciiAlphanumeric (c : Char) : Bool := c.isAlphanum

/-- The label checks of `validate_domain_pattern`. -/
def validateLabel (pattern : String) (label : List Char) : Except String Unit :=
  let text := String.ofList label
  if label.isEmpty then
    .error s!"Domain '{pattern}' contains an empty label (consecutive dots or trailing dot)"
  else if 63 < text.utf8ByteSize then
    let truncated := String.ofList (label.take 20)
    .error s!"Label '{truncated}...' in domain '{pattern}' exceeds maximum length of 63 characters"
  else if label.head? = some '-' ∨ label.getLast? = some '-' then
    .error s!"Label '{text}' in domain '{pattern}' has leading or trailing hyphen"
  else if !label.all fun c => isAsciiAlphanumeric c || c = '-' then
    .error <| s!"Label '{text}' in domain '{pattern}' contains invalid characters" ++
      " (only alphanumeric and hyphen allowed)"
  else .ok ()

/-- `validate_domain_pattern`. -/
def validateDomainPattern (pattern : String) : Except String Unit := do
  if pattern.isEmpty then throw "Domain pattern cannot be empty"
  let domain ←
    match stripPrefix ['*', '.'] pattern.toList with
    | some rest =>
      if rest.isEmpty then throw "Domain pattern '*.' has no domain after wildcard" else pure rest
    | none =>
      if pattern.toList.contains '*' then
        throw s!"Wildcard '*' is only allowed as a prefix '*.domain', found in '{pattern}'"
      else pure pattern.toList
  let len := (String.ofList domain).utf8ByteSize
  if 253 < len then
    let truncated := String.ofList (domain.take 40)
    throw s!"Domain '{truncated}' exceeds maximum length of 253 characters ({len} chars)"
  (domain.splitOn '.').forM (validateLabel pattern)

section Matching

variable (ext : Externals)

/-- The part before the first of the three authority terminators. -/
def authority (cs : List Char) : List Char := cs.takeWhile fun c => c ≠ '/' ∧ c ≠ '?' ∧ c ≠ '#'

/-- `replace('\\', "/")`. -/
def backslashesToSlashes (cs : List Char) : List Char := cs.map fun c => if c = '\\' then '/' else c

/-- The text after the first `://`. -/
def afterScheme : List Char → Option (List Char)
  | [] => none
  | c :: cs => if [':', '/', '/'].isPrefixOf (c :: cs) then some (cs.drop 2) else afterScheme cs

/-- The text after the first `://`, or all of it. -/
def withoutScheme (cs : List Char) : List Char := (afterScheme cs).getD cs

/-- The host of a `host:port` text: brackets of an IPv6 host or a numeric port are stripped. -/
def stripPort (hostPort : List Char) : List Char :=
  if hostPort.contains ']' then
    let inside := hostPort.takeWhile (· ≠ ']')
    if hostPort.head? = some '[' then inside.drop 1 else inside
  else if hostPort.contains ':' then
    let port := afterLast ':' hostPort
    if port.all Char.isDigit then hostPort.take (hostPort.length - port.length - 1) else hostPort
  else hostPort

/-- `extract_domain`. -/
def extractDomain (url : String) : String :=
  let authorityRaw := authority (backslashesToSlashes (withoutScheme url.toList))
  match percentDecodeUtf8 authorityRaw with
  | none => ext.toLowercase (String.ofList authorityRaw)
  | some decoded =>
    let host := beforeFirst '/' (backslashesToSlashes (afterLast '@' decoded))
    let hostPort := beforeFirst '#' (beforeFirst '?' host)
    let lowered := ext.toLowercase (String.ofList (stripPort hostPort))
    String.ofList (trimEndMatches '.' lowered.toList)

/-- Bytes that need no IDNA: lower-case letters, digits, dots, hyphens and stars. -/
def isAsciiLowerDomainChar (c : Char) : Bool :=
  c.isLower || c.isDigit || c = '.' || c = '-' || c = '*'

/-- Bytes an ASCII domain may have. -/
def isDomainChar (c : Char) : Bool := isAsciiAlphanumeric c || c = '-' || c = '.' || c = '_'

/-- `normalize_domain_for_match`. -/
def normalizeDomainForMatch (s : String) : Option String :=
  let stripped := trimEndMatches '.' s.toList
  if stripped.all isAsciiLowerDomainChar then some (String.ofList stripped)
  else
    let (wildcardPrefix, idnaInput) :=
      match stripPrefix ['*', '.'] stripped with
      | some rest => ("*.", rest)
      | none => ("", stripped)
    if idnaInput.all isAscii && !idnaInput.all isDomainChar then none
    else
      match ext.domainToAscii (String.ofList idnaInput) with
      | some ascii => some (wildcardPrefix ++ ascii)
      | none =>
        if idnaInput.all isAscii then
          if idnaInput.all isDomainChar then
            some (wildcardPrefix ++ toAsciiLowercase (String.ofList idnaInput))
          else none
        else none

/-- `match_domain_pattern`. -/
def matchDomainPattern (domain pattern : String) : Bool :=
  match normalizeDomainForMatch ext domain, normalizeDomainForMatch ext pattern with
  | some dom, some pat =>
    match stripPrefix ['*', '.'] pat.toList with
    | some suffix => dom.toList == suffix || (('.' :: suffix).isSuffixOf dom.toList)
    | none => dom == pat
  | _, _ => false

end Matching

end Vellaveto.Domain
