/-
  NON-HUMAN IDENTITIES (`vellaveto-types/src/nhi.rs`, `vellaveto-types/src/time_util.rs`).

  Agent identities and delegation links, with the checks that both must pass before they are stored.
  A check is a length bound, a scan for dangerous characters, or both (`checkText`); its message names
  the field.
-/
import Vellaveto.Engine.Params
import Vellaveto.Lib.Encoding
import Vellaveto.Audit.Chain
import Vellaveto.Mcp.CapabilityToken
import Vellaveto.Types.Chars

namespace Vellaveto.Nhi

open Vellaveto.Lib
open Vellaveto.Capability (Instant normalizeHomoglyphs)

inductive NhiAttestationType where
  | jwt
  | mtls
  | spiffe
  | dpop
  | apiKey
deriving DecidableEq, Repr

/-- `NhiAttestationType::to_string`. -/
def NhiAttestationType.display : NhiAttestationType → String
  | .jwt => "jwt"
  | .mtls => "mtls"
  | .spiffe => "spiffe"
  | .dpop => "dpop"
  | .apiKey => "api_key"

inductive NhiIdentityStatus where
  | active
  | suspended
  | revoked
  | expired
  | probationary
deriving DecidableEq, Repr

/-- A registered agent.  Of the attestations only their number is ever looked at. -/
structure NhiAgentIdentity where
  id : String
  name : String
  attestationType : NhiAttestationType
  status : NhiIdentityStatus
  spiffeId : Option String
  publicKey : Option String
  keyAlgorithm : Option String
  issuedAt : String
  expiresAt : String
  lastRotation : Option String
  authCount : Nat
  lastAuth : Option String
  tags : List String
  /-- the entries, in the order in which the map lists them -/
  metadata : List (String × String)
  attestationCount : Nat
deriving DecidableEq, Repr

/-- A link in a delegation chain. -/
structure NhiDelegationLink where
  fromAgent : String
  toAgent : String
  permissions : List String
  scopeConstraints : List String
  createdAt : String
  expiresAt : String
  active : Bool
  reason : Option String
deriving DecidableEq, Repr

/-- What the manager takes from the clock library and from `str::to_lowercase`. -/
structure Env where
  /-- `DateTime::parse_from_rfc3339`, taken to UTC. -/
  parseRfc3339 : String → Option Instant
  /-- `to_rfc3339`. -/
  toRfc3339 : Instant → String
  /-- `now + Duration::seconds(n)`; `none` where it panics, outside the range of the clock. -/
  addSeconds : Instant → Int → Option Instant
  toLowercase : String → String

/-! ## Timestamps -/

/-- `month_offsets`. -/
def monthOffsets : List Nat := [0, 31, 59, 90, 120, 151, 181, 212, 243, 273, 304, 334]

def isLeapYear (year : Nat) : Bool :=
  (year % 4 == 0 && year % 100 != 0) || year % 400 == 0

/-- The days of a month between 1 and 12. -/
def maxDay (year month : Nat) : Nat :=
  if month = 2 then (if isLeapYear year then 29 else 28)
  else if month = 4 ∨ month = 6 ∨ month = 9 ∨ month = 11 then 30
  else 31

/-- Leap days from 1970 up to the end of the year before. -/
def leapYearsSinceEpoch (year : Nat) : Nat :=
  if 1970 < year then
    let y := year - 1
    (y / 4 - 1969 / 4) - (y / 100 - 1969 / 100) + (y / 400 - 1969 / 400)
  else 0

/-- `parse_iso8601_secs`.  A separator is one byte, so the slices between them end where characters
    end, and a slice that is a number is ASCII. -/
def parseIso8601Secs (ts : String) : Except String Nat := do
  let bytes := (strBytes ts).map fun b => Char.ofNat b.toNat
  let len := bytes.length
  if len < 19 then throw s!"Timestamp too short ({len} chars, need at least 19)"
  if bytes[4]? ≠ some '-' || bytes[7]? ≠ some '-' || bytes[13]? ≠ some ':' || bytes[16]? ≠ some ':' then
    throw "Invalid ISO 8601 separator characters"
  if bytes[10]? ≠ some 'T' && bytes[10]? ≠ some 't' then
    throw "Invalid ISO 8601 separator at position 10 (expected 'T')"
  let field := fun (start stop : Nat) (error : String) =>
    match Params.parseUsize ((bytes.take stop).drop start) with
    | some n => Except.ok n
    | none => Except.error error
  let year ← field 0 4 "Invalid year"
  let month ← field 5 7 "Invalid month"
  let day ← field 8 10 "Invalid day"
  let hour ← field 11 13 "Invalid hour"
  let min ← field 14 16 "Invalid minute"
  let sec ← field 17 19 "Invalid second"
  if year < 1970 then throw s!"Year {year} is before Unix epoch (1970)"
  if 9999 < year then throw s!"Year {year} exceeds maximum (9999)"
  if month = 0 || 12 < month then throw s!"Month {month} out of range 1..=12"
  let lastDay := maxDay year month
  if day = 0 || lastDay < day then throw s!"Day {day} out of range for month {month} (max {lastDay})"
  if 23 < hour then throw s!"Hour {hour} out of range 0..=23"
  if 59 < min then throw s!"Minute {min} out of range 0..=59"
  if 60 < sec then throw s!"Second {sec} out of range 0..=60"
  let dayOfYear := monthOffsets.getD (month - 1) 0 + (day - 1)
  let leapAdjustment := if isLeapYear year && 2 < month then 1 else 0
  let days := (year - 1970) * 365 + leapYearsSinceEpoch year + dayOfYear + leapAdjustment
  pure (days * 86400 + hour * 3600 + min * 60 + sec)

/-! ## Checks -/

/-- A length bound and then a scan of the characters. -/
def checkText (value : String) (maxLen : Nat) (tooLong : Nat → String) (dangerous : String) :
    Except String Unit :=
  let len := value.utf8ByteSize
  if maxLen < len then .error (tooLong len)
  else if hasDangerousChars value then .error dangerous
  else .ok ()

/-- A timestamp of an identity. -/
def NhiAgentIdentity.checkTimestamp (id field ts : String) : Except String Nat :=
  match parseIso8601Secs ts with
  | .error e => .error s!"NhiAgentIdentity '{id}' {field} is not valid ISO 8601: {e}"
  | .ok secs => .ok secs

/-- `NhiAgentIdentity::validate`. -/
def NhiAgentIdentity.validate (identity : NhiAgentIdentity) : Except String Unit := do
  let id := identity.id
  if id.isEmpty then throw "NhiAgentIdentity id must not be empty"
  checkText id 256 (fun len => s!"NhiAgentIdentity id length {len} exceeds max 256")
    "NhiAgentIdentity id contains control or format characters"
  checkText identity.name 256
    (fun len => s!"NhiAgentIdentity '{id}' name length {len} exceeds max 256")
    s!"NhiAgentIdentity '{id}' name contains control or format characters"
  let tags := identity.tags.length
  if 100 < tags then throw s!"NhiAgentIdentity '{id}' has {tags} tags (max 100)"
  identity.tags.zipIdx.forM fun (tag, i) =>
    checkText tag 256 (fun len => s!"NhiAgentIdentity '{id}' tag[{i}] length {len} exceeds max 256")
      s!"NhiAgentIdentity '{id}' tag[{i}] contains control or format characters"
  let entries := identity.metadata.length
  if 100 < entries then throw s!"NhiAgentIdentity '{id}' has {entries} metadata entries (max 100)"
  identity.metadata.forM fun (key, value) => do
    checkText key 256
      (fun len => s!"NhiAgentIdentity '{id}' metadata key length {len} exceeds max 256")
      s!"NhiAgentIdentity '{id}' metadata key contains control or format characters"
    checkText value 4096
      (fun len => s!"NhiAgentIdentity '{id}' metadata value length {len} exceeds max 4096")
      s!"NhiAgentIdentity '{id}' metadata value contains control or format characters"
  let attestations := identity.attestationCount
  if 100 < attestations then
    throw s!"NhiAgentIdentity '{id}' has {attestations} attestations (max 100)"
  let issuedAt := identity.issuedAt
  let expiresAt := identity.expiresAt
  let issuedTs ← NhiAgentIdentity.checkTimestamp id "issued_at" issuedAt
  let expiresTs ← NhiAgentIdentity.checkTimestamp id "expires_at" expiresAt
  if expiresTs ≤ issuedTs then
    throw s!"NhiAgentIdentity '{id}' expires_at ({expiresAt}) must be after issued_at ({issuedAt})"
  identity.lastRotation.forM fun ts =>
    (NhiAgentIdentity.checkTimestamp id "last_rotation" ts).map fun _ => ()
  identity.lastAuth.forM fun ts =>
    (NhiAgentIdentity.checkTimestamp id "last_auth" ts).map fun _ => ()

/-- `normalize_identity`. -/
def normalizeIdentity (env : Env) (s : String) : String := normalizeHomoglyphs (env.toLowercase s)

/-- A list of texts of a link: a bound on their number, and `checkText` for each. -/
def NhiDelegationLink.checkTexts (field : String) (texts : List String) : Except String Unit := do
  let count := texts.length
  if 256 < count then throw s!"NhiDelegationLink has {count} {field} (max 256)"
  texts.zipIdx.forM fun (text, i) =>
    checkText text 1024 (fun len => s!"NhiDelegationLink {field}[{i}] length {len} exceeds max 1024")
      s!"NhiDelegationLink {field}[{i}] contains control or format characters"

/-- `NhiDelegationLink::validate`. -/
def NhiDelegationLink.validate (env : Env) (link : NhiDelegationLink) : Except String Unit := do
  if hasDangerousChars link.fromAgent then
    throw "NhiDelegationLink from_agent contains control or Unicode format characters"
  if hasDangerousChars link.toAgent then
    throw "NhiDelegationLink to_agent contains control or Unicode format characters"
  if normalizeIdentity env link.fromAgent = normalizeIdentity env link.toAgent then
    throw "self-delegation is not allowed"
  let createdAt := link.createdAt
  let expiresAt := link.expiresAt
  if !createdAt.isEmpty && !expiresAt.isEmpty &&
      Audit.strLe expiresAt.toList createdAt.toList then
    throw s!"NhiDelegationLink expires_at '{expiresAt}' must be after created_at '{createdAt}'"
  NhiDelegationLink.checkTexts "permissions" link.permissions
  NhiDelegationLink.checkTexts "scope_constraints" link.scopeConstraints
  link.reason.forM fun reason =>
    checkText reason 512 (fun len => s!"NhiDelegationLink reason length {len} exceeds max 512")
      "NhiDelegationLink reason contains control or format characters"

/-! ## Life of a link and of an identity -/

/-- The two statuses that nothing leaves. -/
def NhiIdentityStatus.isTerminal (status : NhiIdentityStatus) : Bool :=
  status = .revoked || status = .expired

/-- An identity whose credential ran out by `now` and that cleanup will mark as expired. -/
def NhiAgentIdentity.expiresBy (env : Env) (now : Instant) (identity : NhiAgentIdentity) : Bool :=
  match env.parseRfc3339 identity.expiresAt with
  | some expires => expires ≤ now && (identity.status = .active || identity.status = .probationary)
  | none => false

/-- A link is live while it is active and its expiry can be read and lies ahead. -/
def NhiDelegationLink.liveAt (env : Env) (now : Instant) (link : NhiDelegationLink) : Bool :=
  match env.parseRfc3339 link.expiresAt with
  | some expires => link.active && !decide (expires ≤ now)
  | none => false

/-- `(expiry_parsed, now_before_expiry)`. -/
def NhiDelegationLink.expiryFlags (env : Env) (now : Instant) (link : NhiDelegationLink) : Bool × Bool :=
  match env.parseRfc3339 link.expiresAt with
  | some expires => (true, !decide (expires ≤ now))
  | none => (false, false)

/-- A link that cleanup will deactivate at `now`. -/
def NhiDelegationLink.expiredBy (env : Env) (now : Instant) (link : NhiDelegationLink) : Bool :=
  match env.parseRfc3339 link.expiresAt with
  | some expires => expires ≤ now
  | none => false

def NhiDelegationLink.deactivate (link : NhiDelegationLink) : NhiDelegationLink :=
  { link with active := false }

end Vellaveto.Nhi
