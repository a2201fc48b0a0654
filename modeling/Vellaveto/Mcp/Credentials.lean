/-
  CREDENTIALS OF AN IDENTITY (`rotate_credentials`, `issue_ephemeral_credential` and
  `create_delegation` in `vellaveto-mcp/src/nhi.rs`; `NhiCredentialRotation` in
  `vellaveto-types/src/nhi.rs`).

  PROGRAM.      Three calls that give an identity, or somebody in its name, more time or more authority.
                The time is the reading of the clock that the call makes.

  SPEC.         `RespectsExpiry`: a call that names an identity whose `expires_at` is not after the time
                of the call returns an error, and an ephemeral credential ends no later than the
                identity that it is issued for.

  CORRECTNESS.  The calls look at the STATUS of an identity, which says nothing of an expiry until a
                cleanup has written it there.
    1. `rotateCredentials_errs`, `issueEphemeralCredential_errs`, `createDelegation_errs`   when a call
                                returns an error;
    2. `respectsExpiry_iff`     so expiry is respected exactly if the status of an expired identity
                                already tells, or the request is refused anyway, and if the lifetime
                                that is asked for fits.
-/
import Vellaveto.Mcp.NhiSystem

namespace Vellaveto.Nhi

open Vellaveto.Lib
open Vellaveto.Capability (Instant normalizeHomoglyphs asI64 eqIgnoreAsciiCase)

/-- `NhiIdentityStatus::to_string`. -/
def NhiIdentityStatus.display : NhiIdentityStatus → String
  | .active => "active"
  | .suspended => "suspended"
  | .revoked => "revoked"
  | .expired => "expired"
  | .probationary => "probationary"

/-! ## Rotation -/

structure NhiCredentialRotation where
  agentId : String
  previousThumbprint : Option String
  newThumbprint : String
  rotatedAt : String
  trigger : String
  newExpiresAt : String
deriving DecidableEq, Repr

/-- `checkText` for a field of a rotation. -/
def NhiCredentialRotation.checkField (field : String) (maxLen : Nat) (value : String) :
    Except String Unit :=
  checkText value maxLen (fun len => s!"NhiCredentialRotation {field} length {len} exceeds max {maxLen}")
    s!"NhiCredentialRotation {field} contains control or format characters"

/-- `NhiCredentialRotation::validate`. -/
def NhiCredentialRotation.validate (rotation : NhiCredentialRotation) : Except String Unit := do
  checkField "agent_id" 256 rotation.agentId
  rotation.previousThumbprint.forM (checkField "previous_thumbprint" 512)
  checkField "new_thumbprint" 512 rotation.newThumbprint
  checkField "rotated_at" 64 rotation.rotatedAt
  checkField "trigger" 128 rotation.trigger
  checkField "new_expires_at" 64 rotation.newExpiresAt

/-- The arguments of `rotate_credentials`. -/
structure RotationRequest where
  agentId : String
  newPublicKey : String
  newKeyAlgorithm : Option String
  trigger : String
  newTtlSecs : Option Nat
deriving DecidableEq, Repr

/-- The checks of the arguments of `rotate_credentials`. -/
def validateRotationInputs (req : RotationRequest) : Except String Unit := do
  checkField "new_public_key" 8192 req.newPublicKey
  req.newKeyAlgorithm.forM (checkField "new_key_algorithm" 64)
  checkField "trigger" 256 req.trigger

section Rotate

/- `compute_thumbprint`: SHA-256 in URL-safe base64. -/
variable (env : Env) (computeThumbprint : String → String) (cfg : NhiConfig)

/-- The record of a rotation. -/
def rotationRecord (identity : NhiAgentIdentity) (req : RotationRequest) (now expires : Instant) :
    NhiCredentialRotation where
  agentId := req.agentId
  previousThumbprint := identity.publicKey.map computeThumbprint
  newThumbprint := computeThumbprint req.newPublicKey
  rotatedAt := env.toRfc3339 now
  trigger := req.trigger
  newExpiresAt := env.toRfc3339 expires

/-- The identity with its new key. -/
def NhiAgentIdentity.rotated (identity : NhiAgentIdentity) (req : RotationRequest)
    (now expires : Instant) : NhiAgentIdentity :=
  { identity with
    publicKey := some req.newPublicKey
    keyAlgorithm := req.newKeyAlgorithm.or identity.keyAlgorithm
    lastRotation := some (env.toRfc3339 now)
    expiresAt := env.toRfc3339 expires }

/-- The last 1000 rotations are kept. -/
def recordRotation (rotations : List NhiCredentialRotation) (rotation : NhiCredentialRotation) :
    List NhiCredentialRotation :=
  let rotations := rotations ++ [rotation]
  if 1000 < rotations.length then rotations.tail else rotations

/-- `rotate_credentials`, with the list of the rotations so far. -/
def rotateCredentials (m : NhiManager) (rotations : List NhiCredentialRotation) (req : RotationRequest)
    (now : Instant) :
    Option (Except NhiError (NhiCredentialRotation × NhiManager × List NhiCredentialRotation)) :=
  match m.identities.lookup req.agentId with
  | none => some (.error (.identityNotFound req.agentId))
  | some identity =>
    if identity.status = .revoked || identity.status = .expired then
      let status := identity.status.display
      let agentId := req.agentId
      some (.error (.inputValidation
        s!"cannot rotate credentials for {status} identity '{agentId}'"))
    else
      let ttl := req.newTtlSecs.getD cfg.credentialTtlSecs
      if cfg.maxCredentialTtlSecs < ttl then
        some (.error (.ttlExceedsMax ttl cfg.maxCredentialTtlSecs))
      else
        match env.addSeconds now (asI64 ttl) with
        | none => none
        | some expires =>
          let rotation := rotationRecord env computeThumbprint identity req now expires
          match validateRotationInputs req, rotation.validate with
          | .error msg, _ => some (.error (.inputValidation msg))
          | .ok (), .error msg => some (.error (.inputValidation msg))
          | .ok (), .ok () =>
            some (.ok (rotation,
              { m with
                identities := modifyValue req.agentId (fun i => i.rotated env req now expires) m.identities },
              recordRotation rotations rotation))

end Rotate

/-! ## Ephemeral credentials -/

def maxEphemeralScopeLen : Nat := 256
def maxEphemeralScopes : Nat := 32
def maxEphemeralTtlSecs : Nat := 3600
def defaultEphemeralTtlSecs : Nat := 300
def maxJitReasonLen : Nat := 1024

structure EphemeralCredential where
  id : String
  principalId : String
  identityId : String
  scopes : List String
  reason : String
  issuedAt : String
  expiresAt : String
  revoked : Bool
  useCount : Nat
  maxUses : Option Nat
deriving DecidableEq, Repr

/-- The arguments of `issue_ephemeral_credential`. -/
structure EphemeralRequest where
  identityId : String
  principalId : String
  scopes : List String
  reason : String
  ttlSecs : Option Nat
  maxUses : Option Nat
deriving DecidableEq, Repr

/-- A size that must be between one and a maximum. -/
def checkRange (what : String) (max size : Nat) : Except String Unit :=
  if size = 0 || max < size then .error s!"{what} {size} out of range [1, {max}]" else .ok ()

/-- A text that must not be empty, too long or dangerous. -/
def checkName (field : String) (maxLen : Nat) (value : String) : Except String Unit := do
  checkRange s!"{field} length" maxLen value.utf8ByteSize
  if hasDangerousChars value then
    throw s!"{field} contains control or Unicode format characters"

/-- The checks of the texts of an ephemeral request. -/
def validateEphemeralInputs (req : EphemeralRequest) : Except String Unit := do
  checkName "principal_id" 512 req.principalId
  checkName "reason" maxJitReasonLen req.reason
  checkRange "scopes count" maxEphemeralScopes req.scopes.length
  req.scopes.forM (checkName "scope" maxEphemeralScopeLen)

/-- The checks of `issue_ephemeral_credential` before it looks for the identity; they yield the lifetime
    in seconds. -/
def checkEphemeral (cfg : NhiConfig) (req : EphemeralRequest) : Except NhiError Nat := do
  if !cfg.enabled then throw .disabled
  (validateEphemeralInputs req).mapError .inputValidation
  let ttl := req.ttlSecs.getD defaultEphemeralTtlSecs
  if ttl = 0 || maxEphemeralTtlSecs < ttl then throw (.ttlExceedsMax ttl maxEphemeralTtlSecs)
  pure ttl

/-- The credential that is issued. -/
def newCredential (env : Env) (req : EphemeralRequest) (id : String) (now expires : Instant) :
    EphemeralCredential where
  id := id
  principalId := req.principalId
  identityId := req.identityId
  scopes := req.scopes
  reason := req.reason
  issuedAt := env.toRfc3339 now
  expiresAt := env.toRfc3339 expires
  revoked := false
  useCount := 0
  maxUses := req.maxUses

/-- `issue_ephemeral_credential`; the credential is handed out and not stored. -/
def issueEphemeralCredential (env : Env) (cfg : NhiConfig) (m : NhiManager) (req : EphemeralRequest)
    (id : String) (now : Instant) : Option (Except NhiError EphemeralCredential) :=
  match checkEphemeral cfg req with
  | .error e => some (.error e)
  | .ok ttl =>
    match m.identities.lookup req.identityId with
    | none => some (.error (.identityNotFound req.identityId))
    | some identity =>
      if !(identity.status = .active || identity.status = .probationary) then
        some (.error (.terminalStateAgent req.identityId identity.status))
      else if m.revocationList.contains req.identityId then
        some (.error (.terminalStateAgent req.identityId .revoked))
      else
        match env.addSeconds now (asI64 ttl) with
        | none => none
        | some expires => some (.ok (newCredential env req id now expires))

/-! ## Delegation -/

/-- `create_delegation`, undisturbed between its two halves. -/
def createDelegation (env : Env) (cfg : NhiConfig) (m : NhiManager) (req : DelegationRequest)
    (now : Instant) : Option (Except NhiError (NhiDelegationLink × NhiManager)) :=
  match checkDelegation cfg m req with
  | .error e => some (.error e)
  | .ok () => insertDelegation env cfg m req now

/-- The link that a request asks for. -/
def delegationLink (env : Env) (req : DelegationRequest) (now expires : Instant) : NhiDelegationLink where
  fromAgent := req.fromAgent
  toAgent := req.toAgent
  permissions := req.permissions
  scopeConstraints := req.scopeConstraints
  createdAt := env.toRfc3339 now
  expiresAt := env.toRfc3339 expires
  active := true
  reason := req.reason

/-! ## When a call returns an error -/

section Errors

variable {env : Env} {computeThumbprint : String → String} {cfg : NhiConfig} {m : NhiManager}
  {now : Instant}

/-- The call returns an error: it does not panic, and nothing is handed out. -/
def Errs {α : Type} (outcome : Option (Except NhiError α)) : Prop := ∃ e, outcome = some (.error e)

instance {α : Type} : (outcome : Option (Except NhiError α)) → Decidable (Errs outcome)
  | some (.error e) => isTrue ⟨e, rfl⟩
  | some (.ok _) => isFalse fun ⟨_, he⟩ => nomatch he
  | none => isFalse fun ⟨_, he⟩ => nomatch he

@[simp] theorem errs_none {α : Type} : ¬Errs (none : Option (Except NhiError α)) := by
  rintro ⟨e, he⟩
  cases he

@[simp] theorem errs_error {α : Type} (e : NhiError) :
    Errs (some (.error e) : Option (Except NhiError α)) := ⟨e, rfl⟩

@[simp] theorem errs_ok {α : Type} (a : α) : ¬Errs (some (.ok a)) := by
  rintro ⟨e, he⟩
  cases he

/-- A rotation that is refused for what is asked, whoever asks. -/
def RotationRefused (env : Env) (computeThumbprint : String → String) (cfg : NhiConfig)
    (identity : NhiAgentIdentity) (req : RotationRequest) (now : Instant) : Prop :=
  cfg.maxCredentialTtlSecs < req.newTtlSecs.getD cfg.credentialTtlSecs ∨
    ∃ expires, env.addSeconds now (asI64 (req.newTtlSecs.getD cfg.credentialTtlSecs)) = some expires ∧
      (validateRotationInputs req ≠ .ok () ∨
        (rotationRecord env computeThumbprint identity req now expires).validate ≠ .ok ())

theorem rotateCredentials_errs {rotations : List NhiCredentialRotation} {req : RotationRequest}
    {identity : NhiAgentIdentity} (hidentity : m.identities.lookup req.agentId = some identity) :
    Errs (rotateCredentials env computeThumbprint cfg m rotations req now) ↔
      identity.status.isTerminal = true ∨
        RotationRefused env computeThumbprint cfg identity req now := by
  rw [rotateCredentials, hidentity, RotationRefused]
  dsimp only
  change _ ↔ (identity.status = .revoked || identity.status = .expired) = true ∨ _
  split
  · rename_i hterminal
    exact iff_of_true (errs_error _) (Or.inl hterminal)
  · rename_i hterminal
    rw [or_iff_right hterminal]
    split
    · rename_i httl
      exact iff_of_true (errs_error _) (Or.inl httl)
    · rename_i httl
      rw [or_iff_right httl]
      split
      · rename_i hpanic
        simp [hpanic]
      · rename_i expires hexpires
        rw [hexpires]
        simp only [Option.some.injEq, exists_eq_left']
        split
        · rename_i msg hinputs
          simp [hinputs]
        · rename_i msg hinputs hrecord
          simp [hrecord]
        · rename_i hinputs hrecord
          simp [hinputs, hrecord]

/-- The identity may be issued credentials, as far as the manager's tables tell. -/
def NhiManager.issuable (m : NhiManager) (agent : String) (identity : NhiAgentIdentity) : Prop :=
  (identity.status = .active ∨ identity.status = .probationary) ∧ agent ∉ m.revocationList

theorem issueEphemeralCredential_of_issuable {req : EphemeralRequest} {identity : NhiAgentIdentity}
    {ttl : Nat} (hidentity : m.identities.lookup req.identityId = some identity)
    (hissuable : m.issuable req.identityId identity) (hcheck : checkEphemeral cfg req = .ok ttl)
    (id : String) :
    issueEphemeralCredential env cfg m req id now =
      (env.addSeconds now (asI64 ttl)).map fun expires => .ok (newCredential env req id now expires) := by
  have hstatus : (!(identity.status = .active || identity.status = .probationary)) = false := by
    simpa [or_iff_not_imp_left] using hissuable.1
  have hlist : m.revocationList.contains req.identityId = false := by
    simpa using hissuable.2
  rw [issueEphemeralCredential, hcheck, hidentity]
  simp only [hstatus, hlist]
  cases env.addSeconds now (asI64 ttl) with
  | none => rfl
  | some expires => rfl

theorem issueEphemeralCredential_errs {req : EphemeralRequest} {identity : NhiAgentIdentity}
    (hidentity : m.identities.lookup req.identityId = some identity)
    (h : m.issuable req.identityId identity → ∀ ttl, checkEphemeral cfg req ≠ .ok ttl) (id : String) :
    Errs (issueEphemeralCredential env cfg m req id now) := by
  rw [issueEphemeralCredential]
  cases hcheck : checkEphemeral cfg req with
  | error e => exact errs_error e
  | ok ttl =>
    rw [hidentity]
    dsimp only
    split
    · exact errs_error _
    · rename_i hstatus
      split
      · exact errs_error _
      · rename_i hlist
        have hissuable : m.issuable req.identityId identity :=
          ⟨by simpa [or_iff_not_imp_left] using hstatus, by simpa using hlist⟩
        exact absurd hcheck (h hissuable ttl)

theorem issueEphemeralCredential_ok {req : EphemeralRequest} {id : String}
    {credential : EphemeralCredential}
    (h : issueEphemeralCredential env cfg m req id now = some (.ok credential)) :
    ∃ identity ttl limit, m.identities.lookup req.identityId = some identity ∧
      m.issuable req.identityId identity ∧ checkEphemeral cfg req = .ok ttl ∧
      env.addSeconds now (asI64 ttl) = some limit ∧ credential = newCredential env req id now limit := by
  cases hidentity : m.identities.lookup req.identityId with
  | none =>
    rw [issueEphemeralCredential, hidentity] at h
    cases hcheck : checkEphemeral cfg req with
    | error e =>
      rw [hcheck] at h
      cases h
    | ok ttl =>
      rw [hcheck] at h
      cases h
  | some identity =>
    by_cases hgranted : m.issuable req.identityId identity ∧ ∃ ttl, checkEphemeral cfg req = .ok ttl
    · obtain ⟨hissuable, ttl, hcheck⟩ := hgranted
      rw [issueEphemeralCredential_of_issuable hidentity hissuable hcheck id,
        Option.map_eq_some_iff] at h
      obtain ⟨limit, hlimit, heq⟩ := h
      cases heq
      exact ⟨identity, ttl, limit, rfl, hissuable, hcheck, hlimit, rfl⟩
    · -- a request that is not granted is refused
      refine absurd (issueEphemeralCredential_errs hidentity ?_ id) (h ▸ errs_ok credential)
      intro hissuable ttl hcheck
      exact hgranted ⟨hissuable, ttl, hcheck⟩

/-- A request that the first half of a delegation refuses, however the agents stand. -/
def DelegationMalformed (cfg : NhiConfig) (m : NhiManager) (req : DelegationRequest) : Prop :=
  cfg.enabled = false ∨
    eqIgnoreAsciiCase (normalizeHomoglyphs req.fromAgent) (normalizeHomoglyphs req.toAgent) = true ∨
    m.identities.lookup req.fromAgent = none ∨ m.identities.lookup req.toAgent = none ∨
    maxDelegationTtlSecs < req.ttlSecs

/-- A request that the second half refuses. -/
def DelegationUnfit (env : Env) (cfg : NhiConfig) (m : NhiManager) (req : DelegationRequest)
    (now : Instant) : Prop :=
  cfg.maxDelegations ≤ m.delegations.entries.length ∨
    liveDelegationPathExists env m.delegations req.toAgent req.fromAgent now = true ∨
    ∃ expires, env.addSeconds now (asI64 req.ttlSecs) = some expires ∧
      (delegationLink env req now expires).validate env ≠ .ok ()

variable {req : DelegationRequest}

theorem checkParticipant_eq (agent : String) (identity : NhiAgentIdentity) :
    checkParticipant agent identity =
      if identity.status.isTerminal then .error (.terminalStateAgent agent identity.status) else .ok () := by
  rw [checkParticipant, delegationParticipantAllowed, Bool.not_not]
  rfl

theorem checkDelegation_error :
    (∃ e, checkDelegation cfg m req = .error e) ↔
      m.isTerminal req.fromAgent = true ∨ m.isTerminal req.toAgent = true ∨
        DelegationMalformed cfg m req := by
  rw [DelegationMalformed, checkDelegation]
  cases cfg.enabled with
  | false => exact iff_of_true ⟨.disabled, rfl⟩ (by simp)
  | true =>
    cases eqIgnoreAsciiCase (normalizeHomoglyphs req.fromAgent) (normalizeHomoglyphs req.toAgent) with
    | true => exact iff_of_true ⟨.selfDelegation, rfl⟩ (by simp)
    | false =>
      cases hfrom : m.identities.lookup req.fromAgent with
      | none => exact iff_of_true ⟨.identityNotFound req.fromAgent, rfl⟩ (by simp)
      | some source =>
        cases hto : m.identities.lookup req.toAgent with
        | none => exact iff_of_true ⟨.identityNotFound req.toAgent, rfl⟩ (by simp)
        | some target =>
          simp only [NhiManager.isTerminal, hfrom, hto, checkParticipant_eq]
          cases source.status.isTerminal with
          | true => exact iff_of_true ⟨_, rfl⟩ (by simp)
          | false =>
            cases target.status.isTerminal with
            | true => exact iff_of_true ⟨_, rfl⟩ (by simp)
            | false =>
              by_cases httl : maxDelegationTtlSecs < req.ttlSecs
              · rw [if_pos httl]
                exact iff_of_true ⟨.ttlExceedsMax req.ttlSecs maxDelegationTtlSecs, rfl⟩ (by simp [httl])
              · rw [if_neg httl]
                refine iff_of_false ?_ (by simp [httl])
                rintro ⟨e, he⟩
                cases he

theorem insertDelegation_errs :
    Errs (insertDelegation env cfg m req now) ↔ DelegationUnfit env cfg m req now := by
  rw [insertDelegation, DelegationUnfit]
  split
  · rename_i hfull
    exact iff_of_true (errs_error _) (Or.inl hfull)
  · rename_i hfull
    rw [or_iff_right hfull]
    split
    · rename_i hcycle
      exact iff_of_true (errs_error _) (Or.inl (by simpa [delegationEdgePreservesAcyclicity] using hcycle))
    · rename_i hcycle
      rw [or_iff_right (by simpa [delegationEdgePreservesAcyclicity] using hcycle)]
      split
      · rename_i hpanic
        simp [hpanic]
      · rename_i expires hexpires
        rw [hexpires]
        simp only [Option.some.injEq, exists_eq_left']
        rw [← delegationLink]
        cases hvalid : (delegationLink env req now expires).validate env with
        | error msg => simp
        | ok u => simp

theorem createDelegation_errs :
    Errs (createDelegation env cfg m req now) ↔
      m.isTerminal req.fromAgent = true ∨ m.isTerminal req.toAgent = true ∨
        DelegationMalformed cfg m req ∨ DelegationUnfit env cfg m req now := by
  have hcheck : (∃ e, checkDelegation cfg m req = .error e) ↔ _ := checkDelegation_error
  rw [createDelegation]
  cases h : checkDelegation cfg m req with
  | error e =>
    refine iff_of_true (errs_error e) ?_
    rcases hcheck.mp ⟨e, h⟩ with hfrom | hto | hmalformed
    · exact Or.inl hfrom
    · exact Or.inr (Or.inl hto)
    · exact Or.inr (Or.inr (Or.inl hmalformed))
  | ok u =>
    have hnone : ¬∃ e, checkDelegation cfg m req = .error e := by
      rintro ⟨e, he⟩
      rw [h] at he
      cases he
    rw [hcheck, not_or, not_or] at hnone
    obtain ⟨hfrom, hto, hmalformed⟩ := hnone
    rw [or_iff_right hfrom, or_iff_right hto, or_iff_right hmalformed]
    exact insertDelegation_errs

end Errors

/-! ## Expiry -/

/-- There is an identity of this name, and its `expires_at` is not after `now`. -/
def NhiManager.ExpiredAt (env : Env) (m : NhiManager) (now : Instant) (agent : String) : Prop :=
  ∃ identity expires, m.identities.lookup agent = some identity ∧
    env.parseRfc3339 identity.expiresAt = some expires ∧ expires ≤ now

inductive CredentialCall where
  | rotateCredentials (rotations : List NhiCredentialRotation) (req : RotationRequest)
  | issueEphemeralCredential (req : EphemeralRequest) (id : String)
  | createDelegation (req : DelegationRequest)
deriving DecidableEq, Repr

/-- The identities that a call names. -/
def CredentialCall.agents : CredentialCall → List String
  | .rotateCredentials _ req => [req.agentId]
  | .issueEphemeralCredential req _ => [req.identityId]
  | .createDelegation req => [req.fromAgent, req.toAgent]

section Expiry

variable (env : Env) (computeThumbprint : String → String) (cfg : NhiConfig) (m : NhiManager)
  (now : Instant)

/-- The call returns an error. -/
def CredentialCall.IsRefused : CredentialCall → Prop
  | .rotateCredentials rotations req =>
    Errs (Nhi.rotateCredentials env computeThumbprint cfg m rotations req now)
  | .issueEphemeralCredential req id => Errs (Nhi.issueEphemeralCredential env cfg m req id now)
  | .createDelegation req => Errs (Nhi.createDelegation env cfg m req now)

/-- A credential that is handed out ends no later than the identity that it is issued for. -/
def CredentialCall.EndsInTime : CredentialCall → Prop
  | .rotateCredentials _ _ => True
  | .issueEphemeralCredential req id =>
    ∀ credential, Nhi.issueEphemeralCredential env cfg m req id now = some (.ok credential) →
      ∀ identity, m.identities.lookup credential.identityId = some identity →
        ∀ ends expires, env.parseRfc3339 credential.expiresAt = some ends →
          env.parseRfc3339 identity.expiresAt = some expires → ends ≤ expires
  | .createDelegation _ => True

/-- **The specification.** -/
def RespectsExpiry (call : CredentialCall) : Prop :=
  (∀ agent ∈ call.agents, m.ExpiredAt env now agent →
    call.IsRefused env computeThumbprint cfg m now) ∧ call.EndsInTime env cfg m now

/-- The manager can tell from what the calls look at.  A rotation or a delegation that names an expired
    identity names one whose status is terminal, or it is refused for what is asked.  An identity to
    which a proper request could be granted has not expired, and its expiry is not before the end of the
    lifetime that is asked for. -/
def ExpiryShows : CredentialCall → Prop
  | .rotateCredentials _ req =>
    ∀ identity, m.identities.lookup req.agentId = some identity → m.ExpiredAt env now req.agentId →
      identity.status.isTerminal = true ∨ RotationRefused env computeThumbprint cfg identity req now
  | .issueEphemeralCredential req _ =>
    ∀ identity ttl, m.identities.lookup req.identityId = some identity →
      m.issuable req.identityId identity → checkEphemeral cfg req = .ok ttl →
        ¬m.ExpiredAt env now req.identityId ∧
        ∀ limit ends expires, env.addSeconds now (asI64 ttl) = some limit →
          env.parseRfc3339 (env.toRfc3339 limit) = some ends →
          env.parseRfc3339 identity.expiresAt = some expires → ends ≤ expires
  | .createDelegation req =>
    m.ExpiredAt env now req.fromAgent ∨ m.ExpiredAt env now req.toAgent →
      m.isTerminal req.fromAgent = true ∨ m.isTerminal req.toAgent = true ∨
        DelegationMalformed cfg m req ∨ DelegationUnfit env cfg m req now

theorem respectsExpiry_issue {req : EphemeralRequest} {id : String} :
    RespectsExpiry env computeThumbprint cfg m now (.issueEphemeralCredential req id) ↔
      ExpiryShows env computeThumbprint cfg m now (.issueEphemeralCredential req id) := by
  simp only [RespectsExpiry, ExpiryShows, CredentialCall.agents, CredentialCall.IsRefused,
    CredentialCall.EndsInTime, List.mem_singleton, forall_eq]
  constructor
  · rintro ⟨hrefused, hends⟩ identity ttl hidentity hissuable hcheck
    have hissue : issueEphemeralCredential env cfg m req id now = _ :=
      issueEphemeralCredential_of_issuable hidentity hissuable hcheck id
    constructor
    · intro hexpired
      have herrs := hrefused hexpired
      rw [hissue] at herrs
      cases hadd : env.addSeconds now (asI64 ttl) with
      | none => simp [hadd] at herrs
      | some expires => simp [hadd] at herrs
    · intro limit ends expires hadd hread hexpires
      rw [hadd] at hissue
      exact hends _ hissue identity hidentity ends expires hread hexpires
  · intro h
    constructor
    · rintro ⟨identity, expires, hidentity, hexpires, hle⟩
      refine issueEphemeralCredential_errs hidentity ?_ id
      intro hissuable ttl hcheck
      exact (h identity ttl hidentity hissuable hcheck).1 ⟨identity, expires, hidentity, hexpires, hle⟩
    · intro credential hcredential identity hidentity ends expires hread hexpires
      obtain ⟨holder, ttl, limit, hholder, hissuable, hcheck, hlimit, rfl⟩ :=
        issueEphemeralCredential_ok hcredential
      cases hholder.symm.trans hidentity
      exact (h identity ttl hholder hissuable hcheck).2 limit ends expires hlimit hread hexpires

/-- **Expiry is respected exactly if it shows.** -/
theorem respectsExpiry_iff (call : CredentialCall) :
    RespectsExpiry env computeThumbprint cfg m now call ↔
      ExpiryShows env computeThumbprint cfg m now call := by
  cases call with
  | rotateCredentials rotations req =>
    simp only [RespectsExpiry, ExpiryShows, CredentialCall.agents, CredentialCall.IsRefused,
      CredentialCall.EndsInTime, List.mem_singleton, forall_eq, and_true]
    constructor
    · intro h identity hidentity hexpired
      exact (rotateCredentials_errs hidentity).mp (h hexpired)
    · intro h hexpired
      obtain ⟨identity, expires, hidentity, hread, hle⟩ := hexpired
      have hshows := h identity hidentity ⟨identity, expires, hidentity, hread, hle⟩
      exact (rotateCredentials_errs hidentity).mpr hshows
  | issueEphemeralCredential req id => exact respectsExpiry_issue env computeThumbprint cfg m now
  | createDelegation req =>
    simp only [RespectsExpiry, ExpiryShows, CredentialCall.agents, CredentialCall.IsRefused,
      CredentialCall.EndsInTime, createDelegation_errs, List.mem_cons, List.not_mem_nil, or_false,
      forall_eq_or_imp, forall_eq, and_true]
    exact or_imp.symm

end Expiry

/-- Right after a cleanup the status tells, except of suspended identities, which a cleanup passes
    over. -/
theorem status_of_expired_after_cleanup {env : Env} {m : NhiManager} {now : Instant} {agent : String}
    {identity : NhiAgentIdentity}
    (hidentity : (expireIdentities env m now).identities.lookup agent = some identity)
    (hexpired : (expireIdentities env m now).ExpiredAt env now agent) :
    identity.status.isTerminal = true ∨ identity.status = .suspended := by
  obtain ⟨other, expires, hother, hread, hle⟩ := hexpired
  cases hidentity.symm.trans hother
  rw [expireIdentities, lookup_mapValues, Option.map_eq_some_iff] at hidentity
  obtain ⟨before, -, heq⟩ := hidentity
  split at heq
  · subst heq
    exact Or.inl rfl
  · rename_i hnot
    subst heq
    rw [NhiAgentIdentity.expiresBy, hread] at hnot
    cases hstatus : before.status with
    | active => simp [hle, hstatus] at hnot
    | probationary => simp [hle, hstatus] at hnot
    | suspended => exact Or.inr rfl
    | revoked => exact Or.inl rfl
    | expired => exact Or.inl rfl

/-- Two agents, registered at the same time for ten and for fifty seconds. -/
def lapsedManager : NhiManager where
  identities := insertAll ∅
    [(plannerId, newIdentity minuteClock (plainRegistration "planner" 10) plannerId (atSecond 0)
        (atSecond 10)),
      (workerId, newIdentity minuteClock (plainRegistration "worker" 50) workerId (atSecond 0)
        (atSecond 50))]
  delegations := ∅
  revocationList := []

/-- The thumbprint of the key `new-key`. -/
def newKeyThumbprint : String → String := fun _ => "R5ph1TcKA1GtSYqPMk4PmtUL-vvkwETqScvjmB6MtXM"

def newKeyRequest : RotationRequest := ⟨plannerId, "new-key", none, "scheduled", some 30⟩

def readRequest (identityId : String) (ttlSecs : Nat) : EphemeralRequest :=
  ⟨identityId, "operator", ["read"], "incident", some ttlSecs, none⟩

/-- Twenty seconds after the registration, and before any cleanup, the first agent gets a new key, a
    credential and a delegation; and a credential for the second one outlives it. -/
theorem expired_identity_is_served :
    lapsedManager.ExpiredAt minuteClock (atSecond 20) plannerId ∧
      ¬RespectsExpiry minuteClock newKeyThumbprint plainConfig lapsedManager (atSecond 20)
        (.rotateCredentials [] newKeyRequest) ∧
      ¬RespectsExpiry minuteClock newKeyThumbprint plainConfig lapsedManager (atSecond 20)
        (.issueEphemeralCredential (readRequest plannerId 30) "credential") ∧
      ¬RespectsExpiry minuteClock newKeyThumbprint plainConfig lapsedManager (atSecond 20)
        (.createDelegation (plainRequest plannerId workerId 30)) ∧
      ¬RespectsExpiry minuteClock newKeyThumbprint plainConfig lapsedManager (atSecond 20)
        (.issueEphemeralCredential (readRequest workerId 35) "credential") := by
  have hexpired : lapsedManager.ExpiredAt minuteClock (atSecond 20) plannerId := by
    have hidentity : ∃ identity ∈ lapsedManager.identities.lookup plannerId,
        ∃ expires ∈ minuteClock.parseRfc3339 identity.expiresAt, expires ≤ atSecond 20 := by
      decide +kernel
    obtain ⟨identity, hidentity, expires, hread, hle⟩ := hidentity
    exact ⟨identity, expires, hidentity, hread, hle⟩
  refine ⟨hexpired, ?_, ?_, ?_, ?_⟩
  · intro h
    have hok : ¬Errs (rotateCredentials minuteClock newKeyThumbprint plainConfig lapsedManager []
        newKeyRequest (atSecond 20)) := by
      decide +kernel
    exact hok (h.1 plannerId List.mem_cons_self hexpired)
  · intro h
    have hok : ¬Errs (issueEphemeralCredential minuteClock plainConfig lapsedManager
        (readRequest plannerId 30) "credential" (atSecond 20)) := by
      decide +kernel
    exact hok (h.1 plannerId List.mem_cons_self hexpired)
  · intro h
    have hok : ¬Errs (createDelegation minuteClock plainConfig lapsedManager
        (plainRequest plannerId workerId 30) (atSecond 20)) := by
      decide +kernel
    exact hok (h.1 plannerId List.mem_cons_self hexpired)
  · rintro ⟨-, hends⟩
    have hlate : ∃ identity ∈ lapsedManager.identities.lookup workerId,
        ∃ expires ∈ minuteClock.parseRfc3339 identity.expiresAt,
        ∃ ends ∈ minuteClock.parseRfc3339 (minuteClock.toRfc3339 (atSecond 55)), ¬ends ≤ expires := by
      decide +kernel
    have hissue : issueEphemeralCredential minuteClock plainConfig lapsedManager
        (readRequest workerId 35) "credential" (atSecond 20) =
        some (.ok (newCredential minuteClock (readRequest workerId 35) "credential" (atSecond 20)
          (atSecond 55))) := by
      decide +kernel
    obtain ⟨identity, hidentity, expires, hexpires, ends, hread, hlater⟩ := hlate
    exact hlater (hends _ hissue identity hidentity ends expires hread hexpires)

end Vellaveto.Nhi
