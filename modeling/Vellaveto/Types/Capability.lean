/-
  CAPABILITY TOKENS: the data and its structural checks (`vellaveto-types/src/capability.rs`).

  A token says what its holder may do (a list of grants), how often it may be handed on
  (`remainingDepth`) and until when.  `validateStructure` is the check that every token passes when
  it is issued, delegated or verified.
-/
import Mathlib.Algebra.Ring.Nat
import Vellaveto.Json
import Vellaveto.Types.Chars

namespace Vellaveto

open Vellaveto.Lib

def maxGrants : Nat := 64
def maxDelegationDepth : Nat := 16
def maxTokenSize : Nat := 65536

/-- `CapabilityError`. -/
inductive CapabilityError where
  | invalidKey (msg : String)
  | signingFailed (msg : String)
  | verificationFailed (msg : String)
  | expired
  | attenuationViolation (msg : String)
  | validationFailed (msg : String)
deriving DecidableEq, Repr

/-- The `Display` text. -/
def CapabilityError.display : CapabilityError → String
  | .invalidKey msg => s!"Invalid key: {msg}"
  | .signingFailed msg => s!"Signing failed: {msg}"
  | .verificationFailed msg => s!"Verification failed: {msg}"
  | .expired => "Token has expired"
  | .attenuationViolation msg => s!"Attenuation violation: {msg}"
  | .validationFailed msg => s!"Validation failed: {msg}"

/-- `CapabilityGrant`: empty lists of paths or domains restrict nothing. -/
structure CapabilityGrant where
  toolPattern : String
  functionPattern : String
  allowedPaths : List String
  allowedDomains : List String
  maxInvocations : Nat
deriving DecidableEq, Repr

namespace CapabilityGrant

def maxEntries : Nat := 1000
def maxEntryLen : Nat := 2048
def maxPatternLen : Nat := 1024

/-- The two checks of a pattern's length. -/
def checkPatternLen (field pattern : String) : Except CapabilityError Unit :=
  let len := pattern.utf8ByteSize
  if maxPatternLen < len then
    .error (.validationFailed s!"CapabilityGrant {field} length {len} exceeds maximum {maxPatternLen}")
  else .ok ()

/-- Refuse control and format characters. -/
def checkChars (field value : String) : Except CapabilityError Unit :=
  if hasDangerousChars value then
    .error (.validationFailed s!"{field} contains control or format characters")
  else .ok ()

/-- The two checks of a list's length. -/
def checkCount (field : String) (entries : List String) : Except CapabilityError Unit :=
  let count := entries.length
  if maxEntries < count then
    .error (.validationFailed s!"{field} count {count} exceeds max {maxEntries}")
  else .ok ()

/-- The checks of the entries of a list, in order. -/
def checkEntries (field : String) (entries : List String) : Except CapabilityError Unit :=
  entries.zipIdx.forM fun e => do
    let i := e.2
    let len := e.1.utf8ByteSize
    if maxEntryLen < len then
      .error (.validationFailed s!"{field}[{i}] length {len} exceeds max {maxEntryLen}")
    else checkChars s!"{field}[{i}]" e.1

/-- `CapabilityGrant::validate`. -/
def validate (g : CapabilityGrant) : Except CapabilityError Unit := do
  checkPatternLen "tool_pattern" g.toolPattern
  checkPatternLen "function_pattern" g.functionPattern
  checkChars "CapabilityGrant tool_pattern" g.toolPattern
  checkChars "CapabilityGrant function_pattern" g.functionPattern
  checkCount "allowed_paths" g.allowedPaths
  checkCount "allowed_domains" g.allowedDomains
  checkEntries "allowed_paths" g.allowedPaths
  checkEntries "allowed_domains" g.allowedDomains

/-- A list of texts, left out when it is empty. -/
def textsMember (key : String) (texts : List String) : List (String × Json) :=
  if texts.isEmpty then [] else [(key, .array (texts.map .string))]

/-- What `serde` makes of a grant. -/
def toJson (g : CapabilityGrant) : Json :=
  .object <|
    [("tool_pattern", .string g.toolPattern), ("function_pattern", .string g.functionPattern)] ++
    textsMember "allowed_paths" g.allowedPaths ++ textsMember "allowed_domains" g.allowedDomains ++
    [("max_invocations", .number (.posInt g.maxInvocations))]

end CapabilityGrant

/-- `CapabilityToken`. -/
structure CapabilityToken where
  tokenId : String
  parentTokenId : Option String
  issuer : String
  holder : String
  grants : List CapabilityGrant
  remainingDepth : Nat
  issuedAt : String
  expiresAt : String
  signature : String
  issuerPublicKey : String
deriving DecidableEq, Repr

namespace CapabilityToken

/-- What `serde` makes of a token. -/
def toJson (t : CapabilityToken) : Json :=
  .object <|
    [("token_id", .string t.tokenId)] ++
    (match t.parentTokenId with
     | some parentId => [("parent_token_id", .string parentId)]
     | none => []) ++
    [("issuer", .string t.issuer), ("holder", .string t.holder),
     ("grants", .array (t.grants.map CapabilityGrant.toJson)),
     ("remaining_depth", .number (.posInt t.remainingDepth)),
     ("issued_at", .string t.issuedAt), ("expires_at", .string t.expiresAt),
     ("signature", .string t.signature), ("issuer_public_key", .string t.issuerPublicKey)]

/-- Refuse an empty field. -/
def checkPresent (field value : String) : Except CapabilityError Unit :=
  if value.isEmpty then .error (.validationFailed s!"{field} must not be empty") else .ok ()

/-- The checks of `parent_token_id`, when there is one. -/
def checkParentId : Option String → Except CapabilityError Unit
  | none => .ok ()
  | some parentId =>
    if parentId.isEmpty then
      .error (.validationFailed "parent_token_id must not be empty when present")
    else CapabilityGrant.checkChars "parent_token_id" parentId

/-- The checks of the grants of a token, in order. -/
def checkGrants (grants : List CapabilityGrant) : Except CapabilityError Unit :=
  grants.zipIdx.forM fun g => do
    let i := g.2
    checkPresent s!"grant {i} tool_pattern" g.1.toolPattern
    checkPresent s!"grant {i} function_pattern" g.1.functionPattern
    g.1.validate

/-- `CapabilityToken::validate_structure`; `jsonText` is `serde_json::to_string`. -/
def validateStructure (jsonText : Json → Except String String) (t : CapabilityToken) :
    Except CapabilityError Unit := do
  checkPresent "token_id" t.tokenId
  CapabilityGrant.checkChars "token_id" t.tokenId
  checkPresent "issuer" t.issuer
  CapabilityGrant.checkChars "issuer" t.issuer
  checkPresent "holder" t.holder
  CapabilityGrant.checkChars "holder" t.holder
  checkParentId t.parentTokenId
  CapabilityGrant.checkChars "signature" t.signature
  CapabilityGrant.checkChars "issuer_public_key" t.issuerPublicKey
  if t.grants.isEmpty then throw (.validationFailed "grants must not be empty")
  let count := t.grants.length
  if maxGrants < count then
    throw (.validationFailed s!"too many grants: {count} (max {maxGrants})")
  let depth := t.remainingDepth
  if maxDelegationDepth < depth then
    throw (.validationFailed s!"remaining_depth {depth} exceeds max {maxDelegationDepth}")
  checkPresent "issued_at" t.issuedAt
  checkPresent "expires_at" t.expiresAt
  -- the timestamps are compared as texts
  if ¬ t.issuedAt < t.expiresAt then
    throw (.validationFailed "expires_at must be after issued_at")
  checkGrants t.grants
  match jsonText t.toJson with
  | .error e => throw (.validationFailed s!"serialization failed: {e}")
  | .ok serialized =>
    let size := serialized.utf8ByteSize
    if maxTokenSize < size then
      throw (.validationFailed s!"serialized token size {size} exceeds max {maxTokenSize}")

end CapabilityToken

end Vellaveto
