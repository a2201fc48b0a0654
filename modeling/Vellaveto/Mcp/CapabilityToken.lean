/-
  DELEGATION of capability tokens (`vellaveto-mcp/src/capability_token.rs` and its kernels
  `verified_capability_{attenuation,coverage,grant,identity,selection}.rs`).

  `attenuateCapabilityToken` makes a child token from a parent token, and `checkGrantCoverage` finds
  the first grant of a token that covers an action.  The time of the call and the id that is drawn
  for the new token are part of the call (`Delegation`); what comes from the clock, the hex, hash and
  signature libraries is a parameter (`TokenEnv`).
-/
import Vellaveto.Mcp.CapabilityPattern
import Vellaveto.Mcp.CapabilityTarget
import Vellaveto.Types.Capability
import Vellaveto.Types.Core
import Vellaveto.Types.Unicode

namespace Vellaveto.Capability

open Vellaveto.Lib

def maxCapabilityTtlSecs : Nat := 365 * 24 * 3600
def maxIdentityLen : Nat := 256
def u64Max : Nat := 2 ^ 64 - 1

/-! ## Time -/

/-- `DateTime<Utc>`: seconds since the epoch and nanoseconds, compared in this order. -/
structure Instant where
  timestamp : Int
  nanos : Nat
deriving DecidableEq, Repr

instance : LE Instant where
  le s t := s.timestamp < t.timestamp ∨ (s.timestamp = t.timestamp ∧ s.nanos ≤ t.nanos)

instance (s t : Instant) : Decidable (s ≤ t) :=
  inferInstanceAs (Decidable (s.timestamp < t.timestamp ∨ (s.timestamp = t.timestamp ∧ _)))

theorem Instant.le_def {s t : Instant} :
    s ≤ t ↔ s.timestamp < t.timestamp ∨ (s.timestamp = t.timestamp ∧ s.nanos ≤ t.nanos) := Iff.rfl

theorem Instant.le_refl (t : Instant) : t ≤ t := Or.inr ⟨rfl, Nat.le_refl _⟩

theorem Instant.le_trans {s t u : Instant} (hst : s ≤ t) (htu : t ≤ u) : s ≤ u := by
  rw [Instant.le_def] at *
  omega

/-- What delegation takes from the clock library, the hex, hash and signature libraries, `idna` and
    `serde_json`. -/
structure TokenEnv where
  /-- `idna::domain_to_ascii`. -/
  domainToAscii : String → Option String
  /-- `DateTime::parse_from_rfc3339`, taken to UTC, or the text of the error. -/
  parseRfc3339 : String → Except String Instant
  /-- `to_rfc3339`. -/
  toRfc3339 : Instant → String
  /-- Does `DateTime::from_timestamp` accept these seconds? -/
  timestampInRange : Int → Bool
  /-- `hex::decode`, or the text of the error. -/
  hexDecode : String → Except String (List UInt8)
  /-- `hex::encode`. -/
  hexEncode : List UInt8 → String
  /-- The bytes of `SigningKey::verifying_key`. -/
  verifyingKey : List UInt8 → List UInt8
  /-- The bytes of `SigningKey::sign`. -/
  sign : List UInt8 → List UInt8 → List UInt8
  /-- `content_digest` with domain separation. -/
  contentDigest : String → List UInt8
  /-- `serde_json::to_string`, or the text of the error. -/
  jsonText : Json → Except String String

/-- A timestamp that was printed and is read back is the same instant. -/
def TokenEnv.ClockRoundTrips (env : TokenEnv) : Prop :=
  ∀ t r, env.parseRfc3339 (env.toRfc3339 t) = .ok r → r = t

/-! ## Coverage -/

section Coverage

variable (domainToAscii : String → Option String)

/-- `grant_restrictions_cover_action`. -/
def grantRestrictionsCoverAction (grantHasAllowedPaths actionHasTargetPaths allTargetPathsCovered
    grantHasAllowedDomains actionHasTargetDomains allTargetDomainsCovered : Bool) : Bool :=
  (!grantHasAllowedPaths || (actionHasTargetPaths && allTargetPathsCovered)) &&
    (!grantHasAllowedDomains || (actionHasTargetDomains && allTargetDomainsCovered))

/-- Is one target path covered?  A path that cannot be normalized is not. -/
def targetPathCovered (allowedPaths : List String) (path : String) : Bool :=
  match normalizePathForGrant path with
  | some normalized => allowedPaths.any fun pattern => patternMatches pattern normalized
  | none => false

/-- Is one target domain covered? -/
def targetDomainCovered (allowedDomains : List String) (domain : String) : Bool :=
  allowedDomains.any fun pattern => domainMatchesPattern domainToAscii pattern domain

/-- `grant_covers_action`. -/
def grantCoversAction (grant : CapabilityGrant) (action : Action) : Bool :=
  if !patternMatches grant.toolPattern action.tool then false
  else if !patternMatches grant.functionPattern action.function then false
  else
    let grantHasAllowedPaths := !grant.allowedPaths.isEmpty
    let actionHasTargetPaths := !action.targetPaths.isEmpty
    let allTargetPathsCovered :=
      if grantHasAllowedPaths && actionHasTargetPaths then
        action.targetPaths.all (targetPathCovered grant.allowedPaths)
      else false
    let grantHasAllowedDomains := !grant.allowedDomains.isEmpty
    let actionHasTargetDomains := !action.targetDomains.isEmpty
    let allTargetDomainsCovered :=
      if grantHasAllowedDomains && actionHasTargetDomains then
        action.targetDomains.all (targetDomainCovered domainToAscii grant.allowedDomains)
      else false
    if !grantRestrictionsCoverAction grantHasAllowedPaths actionHasTargetPaths allTargetPathsCovered
        grantHasAllowedDomains actionHasTargetDomains allTargetDomainsCovered then false
    else true

/-- `next_covering_grant_index`. -/
def nextCoveringGrantIndex (selectedIndex : Option Nat) (currentIndex : Nat)
    (currentGrantCovers : Bool) : Option Nat :=
  match selectedIndex with
  | some existingIndex => some existingIndex
  | none => if currentGrantCovers then some currentIndex else none

/-- `check_grant_coverage`. -/
def checkGrantCoverage (token : CapabilityToken) (action : Action) : Option Nat :=
  token.grants.zipIdx.foldl (fun selected g =>
    nextCoveringGrantIndex selected g.2 (grantCoversAction domainToAscii g.1 action)) none

/-! ## One grant inside another -/

/-- `grant_restrictions_attenuated`. -/
def grantRestrictionsAttenuated (parentHasAllowedPaths childHasAllowedPaths
    parentHasAllowedDomains childHasAllowedDomains : Bool)
    (parentMaxInvocations childMaxInvocations : Nat) : Bool :=
  (!parentHasAllowedPaths || childHasAllowedPaths) &&
    (!parentHasAllowedDomains || childHasAllowedDomains) &&
    (parentMaxInvocations == 0 ||
      (decide (0 < childMaxInvocations) && decide (childMaxInvocations ≤ parentMaxInvocations)))

/-- Is one child path covered by the parent's?  Both are normalized first. -/
def childPathCovered (parentPaths : List String) (path : String) : Bool :=
  match normalizePathForGrant path with
  | none => false
  | some normalized => parentPaths.any fun parentPath =>
    let parentNormalized := (normalizePathForGrant parentPath).getD ""
    if parentNormalized.isEmpty then false
    else patternMatches parentNormalized normalized

/-- `grant_is_subset`. -/
def grantIsSubset (newGrant parentGrant : CapabilityGrant) : Bool :=
  if !patternIsSubset parentGrant.toolPattern newGrant.toolPattern then false
  else if !patternIsSubset parentGrant.functionPattern newGrant.functionPattern then false
  else if !grantRestrictionsAttenuated (!parentGrant.allowedPaths.isEmpty)
      (!newGrant.allowedPaths.isEmpty) (!parentGrant.allowedDomains.isEmpty)
      (!newGrant.allowedDomains.isEmpty) parentGrant.maxInvocations newGrant.maxInvocations then false
  else if !parentGrant.allowedPaths.isEmpty &&
      !newGrant.allowedPaths.all (childPathCovered parentGrant.allowedPaths) then false
  else if !parentGrant.allowedDomains.isEmpty && !newGrant.allowedDomains.all fun domain =>
      parentGrant.allowedDomains.any fun pd => domainPatternIsSubset domainToAscii pd domain then false
  else true

end Coverage

/-! ## Delegation -/

/-- `attenuated_remaining_depth`. -/
def attenuatedRemainingDepth (parentRemainingDepth : Nat) : Option Nat :=
  if parentRemainingDepth = 0 then none else some (parentRemainingDepth - 1)

/-- `attenuated_expiry_epoch`. -/
def attenuatedExpiryEpoch (parentExpiresAtEpoch nowEpoch ttlSecs maxTtlSecs : Nat) : Option Nat :=
  if maxTtlSecs < ttlSecs ∨ parentExpiresAtEpoch ≤ nowEpoch then none
  else (checkedAdd u64Max nowEpoch ttlSecs).map fun requested => min requested parentExpiresAtEpoch

/-- `delegation_holder_distinct`. -/
def delegationHolderDistinct (normalizedNewEqualsParentHolder : Bool) : Bool :=
  !normalizedNewEqualsParentHolder

/-- `delegated_child_issuer_valid`. -/
def delegatedChildIssuerValid (childHasParent childIssuerEqualsParentHolder : Bool) : Bool :=
  !childHasParent || childIssuerEqualsParentHolder

/-- `normalize_homoglyphs`. -/
def normalizeHomoglyphs (s : String) : String := String.ofList (s.toList.map normalizeHomoglyph)

/-- `validate_no_dangerous_chars`. -/
def validateNoDangerousChars (value fieldName : String) : Except CapabilityError Unit :=
  let len := value.utf8ByteSize
  if maxIdentityLen < len then
    .error (.signingFailed s!"{fieldName} length {len} exceeds maximum {maxIdentityLen}")
  else if hasDangerousChars value then
    .error (.signingFailed s!"{fieldName} contains control or Unicode format characters")
  else .ok ()

/-- The arguments of one delegation, with the time at which it is made and the token id drawn. -/
structure Delegation where
  newHolder : String
  newGrants : List CapabilityGrant
  signingKeyHex : String
  ttlSecs : Nat
  now : Instant
  tokenId : String
deriving DecidableEq, Repr

/-- The depth of the child. -/
def newRemainingDepth (parent : CapabilityToken) : Except CapabilityError Nat :=
  match attenuatedRemainingDepth parent.remainingDepth with
  | some depth => .ok depth
  | none => .error (.attenuationViolation
      "parent token has remaining_depth 0 — cannot delegate further")

/-- The checks of the new holder: not empty, plain text, and not the parent's holder again. -/
def checkNewHolder (parent : CapabilityToken) (newHolder : String) : Except CapabilityError Unit := do
  if newHolder.isEmpty then throw (.signingFailed "new_holder must not be empty")
  validateNoDangerousChars newHolder "new_holder"
  let normalizedNew := normalizeHomoglyphs newHolder
  let normalizedParent := normalizeHomoglyphs parent.holder
  if !delegationHolderDistinct (eqIgnoreAsciiCase normalizedNew normalizedParent) then
    throw (.attenuationViolation "self-delegation is not permitted")

/-- The checks of the rest of the request. -/
def checkRequest (newGrants : List CapabilityGrant) (ttlSecs : Nat) : Except CapabilityError Unit := do
  if newGrants.isEmpty then throw (.signingFailed "new_grants must not be empty")
  if maxCapabilityTtlSecs < ttlSecs then
    throw (.signingFailed s!"ttl_secs {ttlSecs} exceeds maximum {maxCapabilityTtlSecs} (1 year)")

/-- The parent's expiry, which must lie ahead. -/
def parentExpiry (env : TokenEnv) (parent : CapabilityToken) (now : Instant) :
    Except CapabilityError Instant :=
  match env.parseRfc3339 parent.expiresAt with
  | .error e => .error (.signingFailed s!"invalid parent expires_at: {e}")
  | .ok expires =>
    if expires ≤ now then .error (.attenuationViolation "parent token has expired") else .ok expires

/-- Every new grant must lie inside a grant of the parent. -/
def checkNewGrants (env : TokenEnv) (parent : CapabilityToken) (newGrants : List CapabilityGrant) :
    Except CapabilityError Unit :=
  newGrants.forM fun g =>
    if parent.grants.any (grantIsSubset env.domainToAscii g) then .ok ()
    else
      let tool := g.toolPattern
      let function := g.functionPattern
      .error (.attenuationViolation
        s!"grant for tool '{tool}' function '{function}' is not covered by parent token")

/-- `parse_signing_key`. -/
def parseSigningKey (env : TokenEnv) (hexKey : String) : Except CapabilityError (List UInt8) :=
  match env.hexDecode hexKey with
  | .error e => .error (.invalidKey s!"hex decode failed: {e}")
  | .ok keyBytes =>
    let len := keyBytes.length
    if len ≠ 32 then .error (.invalidKey s!"expected 32 bytes, got {len}") else .ok keyBytes

/-- `u64::try_from` of a timestamp. -/
def epochSeconds (timestamp : Int) (msg : String) : Except CapabilityError Nat :=
  if timestamp < 0 then .error (.signingFailed msg) else .ok timestamp.toNat

/-- `as i64` of a `u64`. -/
def asI64 (n : Nat) : Int := if n < 2 ^ 63 then n else (n : Int) - 2 ^ 64

/-- `DateTime::from_timestamp` at a full second. -/
def fromTimestamp (env : TokenEnv) (seconds : Int) : Option Instant :=
  if env.timestampInRange seconds then some ⟨seconds, 0⟩ else none

/-- The child's expiry: the requested one, or the parent's when that is earlier. -/
def clampedExpiry (env : TokenEnv) (parentExpires now : Instant) (ttlSecs : Nat) :
    Except CapabilityError Instant := do
  let nowEpoch ← epochSeconds now.timestamp "system time before Unix epoch"
  let parentEpoch ← epochSeconds parentExpires.timestamp "parent expires_at before Unix epoch"
  match attenuatedExpiryEpoch parentEpoch nowEpoch ttlSecs maxCapabilityTtlSecs with
  | none => throw (.signingFailed "attenuation expiry computation failed")
  | some clamped =>
    match fromTimestamp env (asI64 clamped) with
    | none => throw (.signingFailed "attenuation expiry out of range")
    | some expires => pure expires

/-- `<len>:<field>`. -/
def lengthPrefixed (field : String) : String := toString field.utf8ByteSize ++ ":" ++ field

/-- `build_canonical_content`. -/
def buildCanonicalContent (env : TokenEnv) (tokenId : String) (parentTokenId : Option String)
    (issuer holder : String) (grants : List CapabilityGrant) (remainingDepth : Nat)
    (issuedAt expiresAt : String) : Except CapabilityError String :=
  match env.jsonText (.array (grants.map CapabilityGrant.toJson)) with
  | .error e => .error (.signingFailed s!"grants serialization failed: {e}")
  | .ok grantsJson =>
    .ok (String.join <|
      [tokenId, parentTokenId.getD "", issuer, holder, grantsJson, toString remainingDepth, issuedAt,
        expiresAt].map lengthPrefixed)

/-- `sign_content`. -/
def signContent (env : TokenEnv) (signingKey : List UInt8) (canonical : String) : String :=
  env.hexEncode (env.sign signingKey (env.contentDigest canonical))

/-- The issuer of a child is the holder of its parent. -/
def checkChildIssuer (parent token : CapabilityToken) : Except CapabilityError Unit :=
  if !delegatedChildIssuerValid token.parentTokenId.isSome (token.issuer == parent.holder) then
    .error (.attenuationViolation "delegated child issuer must equal parent holder")
  else .ok ()

/-- The structural check of a new token. -/
def checkStructure (env : TokenEnv) (token : CapabilityToken) : Except CapabilityError Unit :=
  match token.validateStructure env.jsonText with
  | .error e =>
    let msg := e.display
    .error (.signingFailed s!"token validation failed: {msg}")
  | .ok () => .ok ()

/-- `attenuate_capability_token`. -/
def attenuateCapabilityToken (env : TokenEnv) (parent : CapabilityToken) (d : Delegation) :
    Except CapabilityError CapabilityToken := do
  let newDepth ← newRemainingDepth parent
  checkNewHolder parent d.newHolder
  checkRequest d.newGrants d.ttlSecs
  let parentExpires ← parentExpiry env parent d.now
  checkNewGrants env parent d.newGrants
  let signingKey ← parseSigningKey env d.signingKeyHex
  let clampedExpires ← clampedExpiry env parentExpires d.now d.ttlSecs
  let issuedAt := env.toRfc3339 d.now
  let expiresAt := env.toRfc3339 clampedExpires
  let canonical ← buildCanonicalContent env d.tokenId (some parent.tokenId) parent.holder d.newHolder
    d.newGrants newDepth issuedAt expiresAt
  let token : CapabilityToken :=
    { tokenId := d.tokenId
      parentTokenId := some parent.tokenId
      issuer := parent.holder
      holder := d.newHolder
      grants := d.newGrants
      remainingDepth := newDepth
      issuedAt := issuedAt
      expiresAt := expiresAt
      signature := signContent env signingKey canonical
      issuerPublicKey := env.hexEncode (env.verifyingKey signingKey) }
  checkChildIssuer parent token
  checkStructure env token
  pure token

/-- One delegation as a step from token to token. -/
def delegate (env : TokenEnv) (parent : CapabilityToken) (d : Delegation) : Option CapabilityToken :=
  (attenuateCapabilityToken env parent d).toOption

end Vellaveto.Capability
