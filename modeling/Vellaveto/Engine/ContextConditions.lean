/-
  ALL CONTEXT CONDITIONS of a policy (`check_context_conditions` of `vellaveto-engine/src/context_check.rs`).

  The conditions are checked one by one, and the first that fails gives the verdict.  One pair is special:
  if a policy has exactly one `deputy_validation` and exactly one `require_capability_token`, both are
  decided together before all others, by one formula (`verified_capability_delegation_context.rs`), and are
  skipped in the loop.

    1. **Conditions** — `CompiledContextCondition`, `ConditionContext`.
    2. **One condition** — `checkCondition`, an arm for each.
    3. **The combined path** — `combinedDelegatedCapabilityConditions` picks the pair, `checkCombined`
       decides it.
    4. **Exactness** — `check_context_conditions_exact`: nothing is lost; the conditions pass together
       exactly if each passes alone.
-/
import Vellaveto.Engine.Params
import Vellaveto.Engine.Workflow
import Vellaveto.Types.Capability

namespace Vellaveto

open Vellaveto.Lib

/-! ### Conditions -/

/-- What is read of a `DateTime<Utc>`. -/
structure DateTime where
  hour : Nat
  numDaysFromMonday : Nat
deriving DecidableEq, Repr

/-- `AgentIdentity`. -/
structure AgentIdentity where
  issuer : Option String
  subject : Option String
  audience : List String
  claims : AList fun _ : String => Json

/-- `AgentIdentity::claim_str`. -/
def AgentIdentity.claimStr (identity : AgentIdentity) (key : String) : Option String :=
  (identity.claims.lookup key).bind Json.asStr

/-- `AgentIdentity::claim_str_array`. -/
def AgentIdentity.claimStrArray (identity : AgentIdentity) (key : String) : Option (List String) :=
  (identity.claims.lookup key).bind fun v => v.asArray.map (List.filterMap Json.asStr)

/-- `VerificationTier`. -/
inductive VerificationTier where
  | unverified
  | emailVerified
  | phoneVerified
  | didVerified
  | fullyVerified
deriving DecidableEq, Repr

/-- `VerificationTier::level`. -/
def VerificationTier.level : VerificationTier → Nat
  | .unverified => 0
  | .emailVerified => 1
  | .phoneVerified => 2
  | .didVerified => 3
  | .fullyVerified => 4

/-- The text of a tier. -/
def VerificationTier.display : VerificationTier → String
  | .unverified => "unverified"
  | .emailVerified => "email_verified"
  | .phoneVerified => "phone_verified"
  | .didVerified => "did_verified"
  | .fullyVerified => "fully_verified"

/-- `EvaluationContext` with all fields that a condition reads; of the call chain only the length is
    asked. -/
structure ConditionContext extends EvaluationContext where
  timestamp : Option String
  agentId : Option String
  agentIdentity : Option AgentIdentity
  callChainDepth : Nat
  verificationTier : Option VerificationTier
  capabilityToken : Option CapabilityToken
  sessionState : Option String

/-- `CompiledContextCondition::AgentIdentityMatch`; the claims stand in the order of the iteration. -/
structure AgentIdentityMatch where
  requiredIssuer : Option String
  requiredSubject : Option String
  requiredAudience : Option String
  requiredClaims : List (String × String)
  blockedIssuers : List String
  blockedSubjects : List String
  requireAttestation : Bool
  denyReason : String

/-- `CompiledContextCondition::DeputyValidation`. -/
structure DeputyValidation where
  requirePrincipal : Bool
  maxDelegationDepth : Nat
  denyReason : String
deriving DecidableEq, Repr

/-- `CompiledContextCondition::RequireCapabilityToken`. -/
structure RequireCapabilityToken where
  requiredIssuers : List String
  minRemainingDepth : Nat
  denyReason : String
deriving DecidableEq, Repr

/-- `CompiledContextCondition`.  Four of them are enforced elsewhere, and their fields are only logged
    here. -/
inductive CompiledContextCondition where
  | timeWindow (startHour endHour : Nat) (days : List Nat) (denyReason : String)
  | history (condition : HistoryCondition)
  | agentId (allowed blocked : List String) (denyReason : String)
  | maxChainDepth (maxDepth : Nat) (denyReason : String)
  | agentIdentityMatch (required : AgentIdentityMatch)
  | asyncTaskPolicy
  | resourceIndicator (allowedResources : List PatternMatcher) (requireResource : Bool)
      (denyReason : String)
  | capabilityRequired (requiredCapabilities blockedCapabilities : List String) (denyReason : String)
  | stepUpAuth (requiredLevel : Nat) (denyReason : String)
  | circuitBreaker
  | deputyValidation (required : DeputyValidation)
  | shadowAgentCheck
  | schemaPoisoningCheck
  | minVerificationTier (requiredTier : Nat) (denyReason : String)
  | requireCapabilityToken (required : RequireCapabilityToken)
  | sessionStateRequired (allowedStates : List String) (denyReason : String)
  | requiredActionSequence (required : ActionSequence)
  | forbiddenActionSequence (forbidden : ActionSequence)
  | workflowTemplate (template : WorkflowTemplate)

/-- What the conditions use besides the externals: the engine's flag, the clock (`clock i` is read by the
    condition at position `i`), and the functions of `chrono` and of the standard library. -/
structure ContextExternals extends Externals where
  trustContextTimestamps : Bool
  clock : Nat → DateTime
  parseFromRfc3339 : String → Option DateTime
  /-- The `Debug` text of a string. -/
  debugString : String → String

/-! ### Kernels -/

/-- `identified_principal_present`. -/
def identifiedPrincipalPresent (agentIdentityPresent agentIdPresent : Bool) : Bool :=
  agentIdentityPresent || agentIdPresent

/-- `principal_requirement_satisfied`. -/
def principalRequirementSatisfied (requirePrincipal principalPresent : Bool) : Bool :=
  !requirePrincipal || principalPresent

/-- `chain_depth_within_limit`. -/
def chainDepthWithinLimit (chainDepth maxDepth : Nat) : Bool := chainDepth ≤ maxDepth

/-- `delegation_depth_within_limit`. -/
def delegationDepthWithinLimit (delegationDepth maxDelegationDepth : Nat) : Bool :=
  delegationDepth ≤ maxDelegationDepth

/-- `capability_holder_binding_valid`. -/
def capabilityHolderBindingValid (agentPresent normalizedHolderEqualsAgent : Bool) : Bool :=
  agentPresent && normalizedHolderEqualsAgent

/-- `capability_issuer_allowed`. -/
def capabilityIssuerAllowed (requiredIssuersEmpty issuerAllowed : Bool) : Bool :=
  requiredIssuersEmpty || issuerAllowed

/-- `capability_remaining_depth_sufficient`. -/
def capabilityRemainingDepthSufficient (remainingDepth minRemainingDepth : Nat) : Bool :=
  minRemainingDepth ≤ remainingDepth

/-- `delegated_capability_principal_and_holder_valid`. -/
def delegatedCapabilityPrincipalAndHolderValid (requirePrincipal agentIdentityPresent agentIdPresent
    capabilityTokenPresent normalizedHolderEqualsAgent : Bool) : Bool :=
  let principalPresent := identifiedPrincipalPresent agentIdentityPresent agentIdPresent
  principalRequirementSatisfied requirePrincipal principalPresent && capabilityTokenPresent &&
    capabilityHolderBindingValid agentIdPresent normalizedHolderEqualsAgent

/-- `delegated_capability_depths_valid`. -/
def delegatedCapabilityDepthsValid (delegationDepth maxDelegationDepth : Nat)
    (capabilityTokenPresent : Bool) (remainingDepth minRemainingDepth : Nat) : Bool :=
  delegationDepthWithinLimit delegationDepth maxDelegationDepth && capabilityTokenPresent &&
    capabilityRemainingDepthSufficient remainingDepth minRemainingDepth

/-- `delegated_capability_issuer_valid`. -/
def delegatedCapabilityIssuerValid (requiredIssuersEmpty issuerAllowed : Bool) : Bool :=
  capabilityIssuerAllowed requiredIssuersEmpty issuerAllowed

/-- `delegated_capability_context_valid`. -/
def delegatedCapabilityContextValid (requirePrincipal agentIdentityPresent agentIdPresent
    capabilityTokenPresent normalizedHolderEqualsAgent requiredIssuersEmpty issuerAllowed : Bool)
    (delegationDepth maxDelegationDepth remainingDepth minRemainingDepth : Nat) : Bool :=
  delegatedCapabilityPrincipalAndHolderValid requirePrincipal agentIdentityPresent agentIdPresent
      capabilityTokenPresent normalizedHolderEqualsAgent &&
    delegatedCapabilityIssuerValid requiredIssuersEmpty issuerAllowed &&
    delegatedCapabilityDepthsValid delegationDepth maxDelegationDepth capabilityTokenPresent
      remainingDepth minRemainingDepth

/-! ### One condition -/

/-- `MAX_CLAIM_DISPLAY_LEN`. -/
def maxClaimDisplayLen : Nat := 128

/-- `MAX_DECLARED_CAPABILITIES`. -/
def maxDeclaredCapabilities : Nat := 256

/-- `str::parse::<u8>`. -/
def parseU8 (s : String) : Option Nat := (Params.parseUsize s.toList).filter (· ≤ 255)

/-- A claim as a reason shows it. -/
def shownClaim (value : String) : String := sanitizeForLog value maxClaimDisplayLen

/-- A claim that may be missing. -/
def shownClaim? (value : Option String) : String := (value.map shownClaim).getD "<none>"

section Arms

variable (ext : ContextExternals) (context : ConditionContext)

/-- The `Debug` text of a list of strings. -/
def debugStrings (values : List String) : String :=
  "[" ++ ", ".intercalate (values.map ext.debugString) ++ "]"

/-- The arm for a time window; `i` is the position of the condition. -/
def checkTimeWindow (i startHour endHour : Nat) (days : List Nat) (denyReason : String) :
    Option Verdict :=
  let now :=
    if ext.trustContextTimestamps then
      (context.timestamp.bind ext.parseFromRfc3339).getD (ext.clock i)
    else ext.clock i
  if !days.isEmpty && !days.contains (now.numDaysFromMonday + 1) then some (.deny denyReason)
  else
    let inWindow :=
      if startHour ≤ endHour then startHour ≤ now.hour ∧ now.hour < endHour
      else startHour ≤ now.hour ∨ now.hour < endHour
    if ¬ inWindow then some (.deny denyReason) else none

/-- The arm for agent ids. -/
def checkAgentId (allowed blocked : List String) (denyReason : String) : Option Verdict :=
  match context.agentId with
  | some id =>
    let idLower := ext.normalizeFull id
    if blocked.contains idLower then some (.deny denyReason)
    else if !allowed.isEmpty && !allowed.contains idLower then some (.deny denyReason)
    else none
  | none => if !allowed.isEmpty || !blocked.isEmpty then some (.deny denyReason) else none

section Identity

variable (required : AgentIdentityMatch) (identity : AgentIdentity)

/-- A blocklist of issuers or subjects. -/
def checkBlocked (field : String) (blocked : List String) (value : Option String) : Option Verdict :=
  match value with
  | some v =>
    if blocked.contains (ext.normalizeFull v) then
      let reason := required.denyReason
      let safe := shownClaim v
      some (.deny s!"{reason} (blocked {field}: {safe})")
    else none
  | none => none

/-- A required issuer or subject. -/
def checkRequired (field : String) (expected value : Option String) : Option Verdict :=
  match expected with
  | some e =>
    if value.map ext.normalizeFull = some e then none
    else
      let reason := required.denyReason
      let safeGot := shownClaim? value
      let safeExpected := shownClaim e
      some (.deny s!"{reason} ({field} mismatch: expected '{safeExpected}', got '{safeGot}')")
  | none => none

/-- The required audience; a reason shows ten at most. -/
def checkAudience : Option Verdict :=
  match required.requiredAudience with
  | some e =>
    if identity.audience.any fun a => ext.normalizeFull a == e then none
    else
      let reason := required.denyReason
      let safeAudiences := debugStrings ext ((identity.audience.take 10).map shownClaim)
      let safeExpected := shownClaim e
      some (.deny s!"{reason} (audience mismatch: '{safeExpected}' not in {safeAudiences})")
  | none => none

/-- A required claim. -/
def checkClaim (claim : String × String) : Option Verdict :=
  let actual := identity.claimStr claim.1
  if actual.map ext.normalizeFull = some claim.2 then none
  else
    let reason := required.denyReason
    let (claimKey, expectedValue) := claim
    let safeActual := shownClaim? actual
    some (.deny <| s!"{reason} (claim '{claimKey}' mismatch: expected '{expectedValue}', " ++
      s!"got '{safeActual}')")

end Identity

/-- The arm for the agent identity: the first check that fails. -/
def checkAgentIdentityMatch (required : AgentIdentityMatch) : Option Verdict :=
  let reason := required.denyReason
  match context.agentIdentity with
  | some identity =>
    (checkBlocked ext required "issuer" required.blockedIssuers identity.issuer).or <|
    (checkBlocked ext required "subject" required.blockedSubjects identity.subject).or <|
    (checkRequired ext required "issuer" required.requiredIssuer identity.issuer).or <|
    (checkRequired ext required "subject" required.requiredSubject identity.subject).or <|
    (checkAudience ext required identity).or <|
    required.requiredClaims.findSome? (checkClaim ext required identity)
  | none =>
    if required.requireAttestation then
      some (.deny s!"{reason} (X-Agent-Identity header required but not provided)")
    else if required.requiredIssuer.isSome || required.requiredSubject.isSome ||
        required.requiredAudience.isSome || !required.requiredClaims.isEmpty ||
        !required.blockedIssuers.isEmpty || !required.blockedSubjects.isEmpty then
      some (.deny <| s!"{reason} (identity restrictions configured but no agent identity header " ++
        "provided)")
    else none

/-- The arm for resource indicators. -/
def checkResourceIndicator (allowedResources : List PatternMatcher) (requireResource : Bool)
    (denyReason : String) : Option Verdict :=
  match context.agentIdentity.bind fun id => id.claimStr "resource" with
  | some res =>
    if !allowedResources.isEmpty &&
        !allowedResources.any fun p => p.matchesValue (ext.normalizeFull res) then
      let safeRes := shownClaim res
      some (.deny s!"{denyReason} (resource '{safeRes}' not in allowed list)")
    else none
  | none =>
    if requireResource || !allowedResources.isEmpty then
      some (.deny s!"{denyReason} (resource indicator required but not present)")
    else none

/-- The capabilities that an identity declares: an array, or a text with commas. -/
def declaredCapabilities (identity : AgentIdentity) : Option (List String) :=
  ((identity.claimStrArray "capabilities").map fun arr =>
      (arr.take maxDeclaredCapabilities).map ext.normalizeFull).or <|
    (identity.claimStr "capabilities").map fun s =>
      ((s.toList.splitOn ',').take maxDeclaredCapabilities).map fun p =>
        ext.normalizeFull (String.ofList (trim p))

/-- The arm for capabilities. -/
def checkCapabilityRequired (requiredCapabilities blockedCapabilities : List String)
    (denyReason : String) : Option Verdict :=
  if context.agentIdentity.isNone &&
      (!requiredCapabilities.isEmpty || !blockedCapabilities.isEmpty) then
    some (.deny s!"{denyReason} (no agent identity for capability check)")
  else
    let declared := (context.agentIdentity.bind (declaredCapabilities ext)).getD []
    match blockedCapabilities.find? fun b => declared.any fun c => c == b with
    | some blocked => some (.deny s!"{denyReason} (blocked capability '{blocked}' is declared)")
    | none =>
      match requiredCapabilities.find? fun r => !declared.any fun c => c == r with
      | some required =>
        some (.deny s!"{denyReason} (required capability '{required}' not declared)")
      | none => none

/-- The arm for step-up authentication: a level that is no number counts as 0. -/
def checkStepUpAuth (requiredLevel : Nat) (denyReason : String) : Option Verdict :=
  let currentLevel :=
    ((context.agentIdentity.bind fun id => id.claimStr "auth_level").bind parseU8).getD 0
  if currentLevel < requiredLevel then
    some (.requireApproval s!"{denyReason} (current level {currentLevel}, required {requiredLevel})")
  else none

/-- The arm for the verification tier. -/
def checkMinVerificationTier (requiredTier : Nat) (denyReason : String) : Option Verdict :=
  match context.verificationTier with
  | some tier =>
    let text := tier.display
    let level := tier.level
    if level < requiredTier then
      some (.deny <| s!"{denyReason} (current tier '{text}' level {level}, " ++
        s!"required level {requiredTier})")
    else none
  | none => some (.deny s!"{denyReason} (no verification tier in context — fail-closed)")

/-- The arm for the session state. -/
def checkSessionStateRequired (allowedStates : List String) (denyReason : String) : Option Verdict :=
  match context.sessionState with
  | some state =>
    if allowedStates.contains (ext.normalizeFull state) then none
    else
      let states := debugStrings ext allowedStates
      some (.deny s!"{denyReason} (session state '{state}' not in allowed states: {states})")
  | none => some (.deny s!"{denyReason} (no session state in context — fail-closed)")

/-- The arm for deputy validation, without the combined path. -/
def checkDeputyValidation (required : DeputyValidation) : Option Verdict :=
  let reason := required.denyReason
  let depth := context.callChainDepth
  let maxDepth := required.maxDelegationDepth
  let hasPrincipal :=
    identifiedPrincipalPresent context.agentIdentity.isSome context.agentId.isSome
  if !principalRequirementSatisfied required.requirePrincipal hasPrincipal then
    some (.deny s!"{reason} (principal required but not identified)")
  else if !delegationDepthWithinLimit depth maxDepth then
    some (.deny s!"{reason} (delegation depth {depth} exceeds max {maxDepth})")
  else none

/-- The denial of a token whose holder is not the agent. -/
def denyHolder (reason : String) (holder : Option String) : Verdict :=
  match context.agentId with
  | some agentId =>
    let safeHolder := shownClaim? holder
    let safeAgent := shownClaim agentId
    .deny s!"{reason} (token holder '{safeHolder}' does not match agent_id '{safeAgent}')"
  | none => .deny s!"{reason} (no agent_id in context — cannot verify token holder binding)"

/-- The arm for capability tokens, without the combined path. -/
def checkRequireCapabilityToken (required : RequireCapabilityToken) : Option Verdict :=
  let reason := required.denyReason
  let minDepth := required.minRemainingDepth
  match context.capabilityToken with
  | some token =>
    let holderMatchesAgent :=
      context.agentId.any fun agentId => ext.normalizeFull token.holder == ext.normalizeFull agentId
    let issuerAllowed := required.requiredIssuers.contains (ext.normalizeFull token.issuer)
    let remaining := token.remainingDepth
    if !capabilityHolderBindingValid context.agentId.isSome holderMatchesAgent then
      some (denyHolder context reason (some token.holder))
    else if !capabilityIssuerAllowed required.requiredIssuers.isEmpty issuerAllowed then
      let safeIssuer := shownClaim token.issuer
      some (.deny s!"{reason} (issuer '{safeIssuer}' not in allowed list)")
    else if !capabilityRemainingDepthSufficient remaining minDepth then
      some (.deny s!"{reason} (remaining depth {remaining} below required {minDepth})")
    else none
  | none => some (.deny s!"{reason} (no capability token in context — fail-closed)")

/-- **One condition on its own**, at position `i`. -/
def checkCondition (currentTool : String) (i : Nat) : CompiledContextCondition → Option Verdict
  | .timeWindow startHour endHour days denyReason =>
    checkTimeWindow ext context i startHour endHour days denyReason
  | .history condition => checkHistoryCondition ext.toExternals context.toEvaluationContext condition
  | .agentId allowed blocked denyReason => checkAgentId ext context allowed blocked denyReason
  | .maxChainDepth maxDepth denyReason =>
    if !chainDepthWithinLimit context.callChainDepth maxDepth then some (.deny denyReason) else none
  | .agentIdentityMatch required => checkAgentIdentityMatch ext context required
  | .resourceIndicator allowedResources requireResource denyReason =>
    checkResourceIndicator ext context allowedResources requireResource denyReason
  | .capabilityRequired requiredCapabilities blockedCapabilities denyReason =>
    checkCapabilityRequired ext context requiredCapabilities blockedCapabilities denyReason
  | .stepUpAuth requiredLevel denyReason => checkStepUpAuth context requiredLevel denyReason
  | .deputyValidation required => checkDeputyValidation context required
  | .minVerificationTier requiredTier denyReason =>
    checkMinVerificationTier context requiredTier denyReason
  | .requireCapabilityToken required => checkRequireCapabilityToken ext context required
  | .sessionStateRequired allowedStates denyReason =>
    checkSessionStateRequired ext context allowedStates denyReason
  | .requiredActionSequence required =>
    checkRequiredActionSequence ext.toExternals required context.previousActions
  | .forbiddenActionSequence forbidden =>
    checkForbiddenActionSequence ext.toExternals forbidden context.previousActions currentTool
  | .workflowTemplate template =>
    checkWorkflowTemplate ext.toExternals template context.previousActions currentTool
  -- enforced by other components
  | .asyncTaskPolicy | .circuitBreaker | .shadowAgentCheck | .schemaPoisoningCheck => none

end Arms

/-! ### The combined path -/

/-- The loop of `combined_delegated_capability_conditions`: a second condition of either kind ends it. -/
def combineDelegated : Option DeputyValidation → Option RequireCapabilityToken →
    List CompiledContextCondition → Option (DeputyValidation × RequireCapabilityToken)
  | deputy, capability, .deputyValidation d :: rest =>
    if deputy.isSome then none else combineDelegated (some d) capability rest
  | deputy, capability, .requireCapabilityToken t :: rest =>
    if capability.isSome then none else combineDelegated deputy (some t) rest
  | deputy, capability, _ :: rest => combineDelegated deputy capability rest
  | some d, some t, [] => some (d, t)
  | _, _, [] => none

/-- `combined_delegated_capability_conditions`. -/
def combinedDelegatedCapabilityConditions (conditions : List CompiledContextCondition) :
    Option (DeputyValidation × RequireCapabilityToken) :=
  combineDelegated none none conditions

/-- Is the condition decided by the combined path, if there is one? -/
def CompiledContextCondition.isDelegated : CompiledContextCondition → Bool
  | .deputyValidation _ | .requireCapabilityToken _ => true
  | _ => false

section Combined

variable (ext : ContextExternals) (context : ConditionContext)

/-- Is there a token, held by the agent? -/
def holderMatchesAgent : Bool :=
  match context.capabilityToken, context.agentId with
  | some token, some agentId => ext.normalizeFull token.holder == ext.normalizeFull agentId
  | _, _ => false

/-- The depth that the token leaves. -/
def remainingDepth : Nat := (context.capabilityToken.map (·.remainingDepth)).getD 0

variable (deputy : DeputyValidation) (capability : RequireCapabilityToken)

/-- Is the issuer of the token among those required? -/
def issuerAllowed : Bool :=
  context.capabilityToken.any fun token =>
    capability.requiredIssuers.contains (ext.normalizeFull token.issuer)

/-- Both conditions by one formula. -/
def combinedValid : Bool :=
  delegatedCapabilityContextValid deputy.requirePrincipal context.agentIdentity.isSome
    context.agentId.isSome context.capabilityToken.isSome (holderMatchesAgent ext context)
    capability.requiredIssuers.isEmpty (issuerAllowed ext context capability) context.callChainDepth
    deputy.maxDelegationDepth (remainingDepth context) capability.minRemainingDepth

/-- The reason if it fails. -/
def combinedDenial : Verdict :=
  let deputyReason := deputy.denyReason
  let capabilityReason := capability.denyReason
  let principalPresent :=
    identifiedPrincipalPresent context.agentIdentity.isSome context.agentId.isSome
  let depth := context.callChainDepth
  let maxDepth := deputy.maxDelegationDepth
  let remaining := remainingDepth context
  let minDepth := capability.minRemainingDepth
  if !delegatedCapabilityPrincipalAndHolderValid deputy.requirePrincipal context.agentIdentity.isSome
      context.agentId.isSome context.capabilityToken.isSome (holderMatchesAgent ext context) then
    if !principalRequirementSatisfied deputy.requirePrincipal principalPresent then
      .deny s!"{deputyReason} (principal required but not identified)"
    else if !context.capabilityToken.isSome then
      .deny s!"{capabilityReason} (no capability token in context — fail-closed)"
    else denyHolder context capabilityReason (context.capabilityToken.map (·.holder))
  else if !delegatedCapabilityIssuerValid capability.requiredIssuers.isEmpty
      (issuerAllowed ext context capability) then
    let safeIssuer := shownClaim? (context.capabilityToken.map (·.issuer))
    .deny s!"{capabilityReason} (issuer '{safeIssuer}' not in allowed list)"
  else if !delegationDepthWithinLimit depth maxDepth then
    .deny s!"{deputyReason} (delegation depth {depth} exceeds max {maxDepth})"
  else .deny s!"{capabilityReason} (remaining depth {remaining} below required {minDepth})"

/-- The pair of conditions, decided together. -/
def checkCombined : Option Verdict :=
  if !combinedValid ext context deputy capability then
    some (combinedDenial ext context deputy capability)
  else none

/-- `check_context_conditions`. -/
def checkContextConditions (conditions : List CompiledContextCondition) (currentTool : String) :
    Option Verdict :=
  let combined := combinedDelegatedCapabilityConditions conditions
  (combined.bind fun pair => checkCombined ext context pair.1 pair.2).or <|
    conditions.zipIdx.findSome? fun e =>
      if combined.isSome && e.1.isDelegated then none
      else checkCondition ext context currentTool e.2 e.1

end Combined

/-! ### Exactness -/

section Exact

variable {ext : ContextExternals} {context : ConditionContext}

/-- The parameters of a deputy validation. -/
def CompiledContextCondition.deputy? : CompiledContextCondition → Option DeputyValidation
  | .deputyValidation d => some d
  | _ => none

/-- The parameters of a required token. -/
def CompiledContextCondition.capability? : CompiledContextCondition → Option RequireCapabilityToken
  | .requireCapabilityToken t => some t
  | _ => none

theorem deputy?_eq_some_iff {c : CompiledContextCondition} {d : DeputyValidation} :
    c.deputy? = some d ↔ c = .deputyValidation d := by
  cases c <;> simp [CompiledContextCondition.deputy?]

theorem capability?_eq_some_iff {c : CompiledContextCondition} {t : RequireCapabilityToken} :
    c.capability? = some t ↔ c = .requireCapabilityToken t := by
  cases c <;> simp [CompiledContextCondition.capability?]

/-- A pair is picked only if its conditions are the only ones of their kinds. -/
theorem combineDelegated_eq_some {deputy : Option DeputyValidation}
    {capability : Option RequireCapabilityToken} {conditions : List CompiledContextCondition}
    {d : DeputyValidation} {t : RequireCapabilityToken}
    (h : combineDelegated deputy capability conditions = some (d, t)) :
    deputy.toList ++ conditions.filterMap (·.deputy?) = [d] ∧
      capability.toList ++ conditions.filterMap (·.capability?) = [t] := by
  fun_induction combineDelegated deputy capability conditions with
  | case1 => cases h
  | case2 deputy capability d' rest hnone ih =>
    rw [Option.not_isSome_iff_eq_none] at hnone
    subst hnone
    exact ih h
  | case3 => cases h
  | case4 deputy capability t' rest hnone ih =>
    rw [Option.not_isSome_iff_eq_none] at hnone
    subst hnone
    exact ih h
  | case5 deputy capability c rest hd ht ih =>
    have hc : c.deputy? = none := by
      rw [Option.eq_none_iff_forall_ne_some]
      intro d' hd'
      exact hd d' (deputy?_eq_some_iff.mp hd')
    have hc' : c.capability? = none := by
      rw [Option.eq_none_iff_forall_ne_some]
      intro t' ht'
      exact ht t' (capability?_eq_some_iff.mp ht')
    rw [List.filterMap_cons_none hc, List.filterMap_cons_none hc']
    exact ih h
  | case6 d' t' =>
    cases h
    exact ⟨rfl, rfl⟩
  | case7 => cases h

theorem checkDeputyValidation_eq_none_iff (d : DeputyValidation) :
    checkDeputyValidation context d = none ↔
      principalRequirementSatisfied d.requirePrincipal
          (identifiedPrincipalPresent context.agentIdentity.isSome context.agentId.isSome) = true ∧
        delegationDepthWithinLimit context.callChainDepth d.maxDelegationDepth = true := by
  rw [checkDeputyValidation, ite_some_eq_none_iff, ite_some_eq_none_iff]
  simp

/-- What a required token asks of the context. -/
def TokenAccepted (ext : ContextExternals) (context : ConditionContext) (t : RequireCapabilityToken) :
    Prop :=
  ∃ token agentId, context.capabilityToken = some token ∧ context.agentId = some agentId ∧
    ext.normalizeFull token.holder = ext.normalizeFull agentId ∧
    (t.requiredIssuers ≠ [] → ext.normalizeFull token.issuer ∈ t.requiredIssuers) ∧
    t.minRemainingDepth ≤ token.remainingDepth

theorem checkRequireCapabilityToken_eq_none_iff (t : RequireCapabilityToken) :
    checkRequireCapabilityToken ext context t = none ↔ TokenAccepted ext context t := by
  rw [checkRequireCapabilityToken, TokenAccepted]
  cases htoken : context.capabilityToken with
  | none => simp
  | some token =>
    dsimp only
    rw [ite_some_eq_none_iff, ite_some_eq_none_iff, ite_some_eq_none_iff]
    cases hagent : context.agentId with
    | none => simp [capabilityHolderBindingValid]
    | some agentId =>
      simp [capabilityHolderBindingValid, capabilityIssuerAllowed, capabilityRemainingDepthSufficient]

theorem combinedValid_iff (d : DeputyValidation) (t : RequireCapabilityToken) :
    combinedValid ext context d t = true ↔
      (principalRequirementSatisfied d.requirePrincipal
          (identifiedPrincipalPresent context.agentIdentity.isSome context.agentId.isSome) = true ∧
        delegationDepthWithinLimit context.callChainDepth d.maxDelegationDepth = true) ∧
      TokenAccepted ext context t := by
  simp only [combinedValid, delegatedCapabilityContextValid,
    delegatedCapabilityPrincipalAndHolderValid, delegatedCapabilityIssuerValid,
    delegatedCapabilityDepthsValid, capabilityHolderBindingValid, capabilityIssuerAllowed,
    capabilityRemainingDepthSufficient, Bool.and_eq_true, Bool.or_eq_true, decide_eq_true_eq]
  rw [TokenAccepted, holderMatchesAgent, issuerAllowed, remainingDepth]
  cases context.capabilityToken with
  | none => simp
  | some token =>
    cases context.agentId with
    | none => simp
    | some agentId => grind

/-- **The combined formula** holds exactly if both conditions pass. -/
theorem checkCombined_eq_none_iff (d : DeputyValidation) (t : RequireCapabilityToken) :
    checkCombined ext context d t = none ↔
      checkDeputyValidation context d = none ∧ checkRequireCapabilityToken ext context t = none := by
  rw [checkDeputyValidation_eq_none_iff, checkRequireCapabilityToken_eq_none_iff, ← combinedValid_iff,
    checkCombined, ite_some_eq_none_iff]
  simp

/-- The conditions of the pair stand in the list, and no other of their kinds. -/
theorem mem_of_combined {conditions : List CompiledContextCondition} {d : DeputyValidation}
    {t : RequireCapabilityToken}
    (h : combinedDelegatedCapabilityConditions conditions = some (d, t)) :
    (∀ d', .deputyValidation d' ∈ conditions ↔ d' = d) ∧
      ∀ t', .requireCapabilityToken t' ∈ conditions ↔ t' = t := by
  obtain ⟨hdeputy, hcapability⟩ := combineDelegated_eq_some h
  rw [Option.toList_none, List.nil_append] at hdeputy hcapability
  constructor
  · intro d'
    rw [← List.mem_singleton, ← hdeputy, List.mem_filterMap]
    simp [deputy?_eq_some_iff]
  · intro t'
    rw [← List.mem_singleton, ← hcapability, List.mem_filterMap]
    simp [capability?_eq_some_iff]

theorem isDelegated_iff (c : CompiledContextCondition) :
    c.isDelegated = true ↔ (∃ d, c = .deputyValidation d) ∨ ∃ t, c = .requireCapabilityToken t := by
  cases c <;> simp [CompiledContextCondition.isDelegated]

end Exact

/-- **The combined path loses nothing.**  Whatever the conditions, the context and the call: all
    conditions of a policy pass exactly if each of them passes on its own, without the combined path. -/
theorem check_context_conditions_exact (ext : ContextExternals) (context : ConditionContext)
    (conditions : List CompiledContextCondition) (currentTool : String) :
    checkContextConditions ext context conditions currentTool = none ↔
      ∀ i c, conditions[i]? = some c → checkCondition ext context currentTool i c = none := by
  rw [checkContextConditions, Option.or_eq_none_iff, List.findSome?_eq_none_iff]
  simp only [Prod.forall, List.mk_mem_zipIdx_iff_getElem?]
  cases hcombined : combinedDelegatedCapabilityConditions conditions with
  | none =>
    simp only [Option.bind_none, Option.isSome_none, Bool.false_and, Bool.false_eq_true, if_false,
      true_and]
    exact forall_comm
  | some pair =>
    obtain ⟨d, t⟩ := pair
    obtain ⟨hdeputy, hcapability⟩ := mem_of_combined hcombined
    simp only [Option.bind_some, Option.isSome_some, Bool.true_and, checkCombined_eq_none_iff]
    constructor
    · rintro ⟨⟨hd, ht⟩, hloop⟩ i c hc
      have hmem : c ∈ conditions := List.mem_of_getElem? hc
      by_cases hskipped : c.isDelegated = true
      · -- skipped in the loop, so it is one of the pair
        rcases (isDelegated_iff c).mp hskipped with ⟨d', rfl⟩ | ⟨t', rfl⟩
        · rw [(hdeputy d').mp hmem]
          exact hd
        · rw [(hcapability t').mp hmem]
          exact ht
      · have hpass := hloop c i hc
        rwa [if_neg hskipped] at hpass
    · intro hall
      have hone : ∀ c ∈ conditions, ∃ i, checkCondition ext context currentTool i c = none := by
        intro c hc
        obtain ⟨i, hi⟩ := List.mem_iff_getElem?.mp hc
        exact ⟨i, hall i c hi⟩
      refine ⟨⟨?_, ?_⟩, fun c i hc => ?_⟩
      · obtain ⟨i, hi⟩ := hone _ ((hdeputy d).mpr rfl)
        exact hi
      · obtain ⟨i, hi⟩ := hone _ ((hcapability t).mpr rfl)
        exact hi
      · split
        · rfl
        · exact hall i c hc

end Vellaveto
