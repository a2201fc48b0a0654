/-
  THE IDENTITY MANAGER (`vellaveto-mcp/src/nhi.rs` and its kernels `verified_nhi_delegation.rs`,
  `verified_nhi_graph.rs`, `verified_transitive_revoke.rs`).

  Agents are registered, change their status and delegate to each other.  The identities, the
  delegation links and the revocation list are three tables behind three locks; each operation below
  is what happens while its locks are held.  The time of a call and the id that is drawn are part of
  the call.  An operation that panics has the outcome `none` and changes nothing.
-/
import Mathlib.Data.Finset.Card
import Vellaveto.Lib.Explore
import Vellaveto.Lib.Table
import Vellaveto.Types.Nhi

namespace Vellaveto.Nhi

open Vellaveto.Lib
open Vellaveto.Capability (Instant normalizeHomoglyphs asI64 eqIgnoreAsciiCase)

/-- What the operations read of `NhiConfig`. -/
structure NhiConfig where
  enabled : Bool
  attestationTypes : List String
  credentialTtlSecs : Nat
  maxCredentialTtlSecs : Nat
  maxIdentities : Nat
  maxDelegations : Nat
  maxDelegationChainDepth : Nat
deriving DecidableEq, Repr

inductive NhiError where
  | disabled
  | identityNotFound (id : String)
  | attestationTypeNotAllowed (type : String)
  | ttlExceedsMax (requested max : Nat)
  | capacityExceeded (what : String)
  | invalidStatusTransition (source target : NhiIdentityStatus)
  | delegationNotFound (fromAgent toAgent : String)
  | selfDelegation
  | terminalStateAgent (agentId : String) (status : NhiIdentityStatus)
  | delegationCycleDetected (fromAgent toAgent : String)
  | inputValidation (msg : String)
deriving DecidableEq, Repr

abbrev Delegations := AList fun _ : String × String => NhiDelegationLink

/-- The tables of `NhiManager` that the operations below use. -/
structure NhiManager where
  identities : AList fun _ : String => NhiAgentIdentity
  /-- by source and target -/
  delegations : Delegations
  /-- a set: no agent is listed twice -/
  revocationList : List String
deriving DecidableEq

/-- `NhiManager::new`. -/
def NhiManager.new : NhiManager := ⟨∅, ∅, []⟩

def maxRevocationList : Nat := 200000
def maxDelegationTtlSecs : Nat := 365 * 24 * 3600
def maxTransitiveRevokeDepth : Nat := 50

/-- The status of an agent says that it is revoked or expired. -/
def NhiManager.isTerminal (m : NhiManager) (agent : String) : Bool :=
  match m.identities.lookup agent with
  | some identity => identity.status.isTerminal
  | none => false

/-! ## Registration -/

/-- The arguments of `register_identity`. -/
structure Registration where
  name : String
  attestationType : NhiAttestationType
  spiffeId : Option String
  publicKey : Option String
  keyAlgorithm : Option String
  ttlSecs : Option Nat
  tags : List String
  metadata : List (String × String)
deriving DecidableEq, Repr

/-- `checkText` for a field of a request. -/
def checkField (field : String) (maxLen : Nat) (value : String) : Except String Unit :=
  checkText value maxLen (fun len => s!"{field} length {len} exceeds maximum {maxLen}")
    s!"{field} contains control or Unicode format characters"

/-- A bound on the number of entries of a field. -/
def checkCount (field : String) (maxCount count : Nat) : Except String Unit :=
  if maxCount < count then .error s!"{field} count {count} exceeds maximum {maxCount}" else .ok ()

/-- `validate_register_identity_inputs`. -/
def validateRegisterIdentityInputs (req : Registration) : Except String Unit := do
  if req.name.isEmpty then throw "name must not be empty"
  checkField "name" 256 req.name
  req.spiffeId.forM (checkField "spiffe_id" 512)
  checkCount "tags" 50 req.tags.length
  req.tags.forM (checkField "tag" 128)
  checkCount "metadata" 50 req.metadata.length
  req.metadata.forM fun (key, value) => do
    checkField "metadata key" 128 key
    checkField "metadata value" 1024 value

/-- The checks of the key and its algorithm. -/
def validateKey (req : Registration) : Except String Unit := do
  req.publicKey.forM (checkField "public_key" 8192)
  req.keyAlgorithm.forM (checkField "key_algorithm" 64)

/-- The checks of a registration before it takes the time; they yield the lifetime in seconds. -/
def checkRegistration (cfg : NhiConfig) (req : Registration) : Except NhiError Nat := do
  if !cfg.enabled then throw .disabled
  (validateRegisterIdentityInputs req).mapError .inputValidation
  (validateKey req).mapError .inputValidation
  let atype := req.attestationType.display
  if !cfg.attestationTypes.any fun t => eqIgnoreAsciiCase t atype then
    throw (.attestationTypeNotAllowed atype)
  let ttl := req.ttlSecs.getD cfg.credentialTtlSecs
  if cfg.maxCredentialTtlSecs < ttl then throw (.ttlExceedsMax ttl cfg.maxCredentialTtlSecs)
  pure ttl

/-- The identity that is registered, on probation. -/
def newIdentity (env : Env) (req : Registration) (id : String) (now expires : Instant) :
    NhiAgentIdentity where
  id := id
  name := req.name
  attestationType := req.attestationType
  status := .probationary
  spiffeId := req.spiffeId
  publicKey := req.publicKey
  keyAlgorithm := req.keyAlgorithm
  issuedAt := env.toRfc3339 now
  expiresAt := env.toRfc3339 expires
  lastRotation := none
  authCount := 0
  lastAuth := none
  tags := req.tags
  metadata := req.metadata
  attestationCount := 0

/-- `register_identity`. -/
def registerIdentity (env : Env) (cfg : NhiConfig) (m : NhiManager) (req : Registration) (id : String)
    (now : Instant) : Option (Except NhiError (String × NhiManager)) :=
  match checkRegistration cfg req with
  | .error e => some (.error e)
  | .ok ttl =>
    match env.addSeconds now (asI64 ttl) with
    | none => none
    | some expires =>
      let identity := newIdentity env req id now expires
      match identity.validate with
      | .error msg => some (.error (.inputValidation msg))
      | .ok () =>
        if cfg.maxIdentities ≤ m.identities.entries.length then
          some (.error (.capacityExceeded "identities"))
        else some (.ok (id, { m with identities := m.identities.insert id identity }))

/-! ## Revocation -/

/-- `no_collateral`. -/
def noCollateral (linkFromIsCurrent linkToIsCurrent : Bool) : Bool :=
  !linkFromIsCurrent && !linkToIsCurrent

/-- `link_should_deactivate`. -/
def linkShouldDeactivate (linkFromIsCurrent linkToIsCurrent linkActive : Bool) : Bool :=
  (linkFromIsCurrent || linkToIsCurrent) && linkActive

/-- Is a link cut when `current` is visited? -/
def cutBy (current : String) (link : NhiDelegationLink) : Bool :=
  let fromIsCurrent := link.fromAgent == current
  let toIsCurrent := link.toAgent == current
  !noCollateral fromIsCurrent toIsCurrent && linkShouldDeactivate fromIsCurrent toIsCurrent link.active

/-- `next_hops`: whom `current` delegates to. -/
def nextHops (delegations : Delegations) (current : String) : List String :=
  (delegations.entries.filter fun e => e.1.1 == current && e.2.active).map fun e => e.1.2

/-- The loop of `transitive_revoke`.  The number counts the visits that are left: each takes one agent
    from the frontier, and the visit after the last one stops the loop. -/
def revokeLoop : Nat → List String → List String → Delegations → List (String × String) →
    Delegations × List (String × String)
  | 0, _, _, delegations, deactivated => (delegations, deactivated)
  | _ + 1, [], _, delegations, deactivated => (delegations, deactivated)
  | visits + 1, current :: frontier, visited, delegations, deactivated =>
    let cut := delegations.entries.filter fun e => cutBy current e.2
    let queued := enqueueNew (nextHops delegations current) frontier visited
    revokeLoop visits queued.1 queued.2
      (mapValues (fun _ link => if cutBy current link then link.deactivate else link) delegations)
      (deactivated ++ cut.map fun e => (e.2.fromAgent, e.2.toAgent))

/-- `transitive_revoke`. -/
def transitiveRevoke (delegations : Delegations) (revokedAgent : String) :
    Delegations × List (String × String) :=
  revokeLoop maxTransitiveRevokeDepth [revokedAgent] [revokedAgent] delegations []

/-- `update_status`.  The lock of the identities is held to the end. -/
def updateStatus (m : NhiManager) (id : String) (newStatus : NhiIdentityStatus) :
    Except NhiError NhiManager :=
  match m.identities.lookup id with
  | none => .error (.identityNotFound id)
  | some identity =>
    if identity.status.isTerminal && newStatus != identity.status then
      .error (.invalidStatusTransition identity.status newStatus)
    else if newStatus = .revoked && maxRevocationList ≤ m.revocationList.length then
      .error (.capacityExceeded "revocation_list")
    else
      .ok { identities := modifyValue id (fun identity => { identity with status := newStatus }) m.identities
            delegations :=
              if newStatus.isTerminal then (transitiveRevoke m.delegations id).1 else m.delegations
            revocationList :=
              if newStatus = .revoked then m.revocationList.insert id else m.revocationList }

/-! ## Delegation -/

/-- `identity_is_terminal`. -/
def identityIsTerminal (statusIsRevoked statusIsExpired : Bool) : Bool :=
  statusIsRevoked || statusIsExpired

/-- `delegation_participant_allowed`. -/
def delegationParticipantAllowed (statusIsRevoked statusIsExpired : Bool) : Bool :=
  !identityIsTerminal statusIsRevoked statusIsExpired

/-- The arguments of `create_delegation`. -/
structure DelegationRequest where
  fromAgent : String
  toAgent : String
  permissions : List String
  scopeConstraints : List String
  ttlSecs : Nat
  reason : Option String
deriving DecidableEq, Repr

/-- An agent that takes part in a delegation must not be in a terminal state. -/
def checkParticipant (agent : String) (identity : NhiAgentIdentity) : Except NhiError Unit :=
  if !delegationParticipantAllowed (identity.status = .revoked) (identity.status = .expired) then
    .error (.terminalStateAgent agent identity.status)
  else .ok ()

/-- The first half of `create_delegation`: what it checks under the lock of the identities, and before
    it. -/
def checkDelegation (cfg : NhiConfig) (m : NhiManager) (req : DelegationRequest) :
    Except NhiError Unit := do
  if !cfg.enabled then throw .disabled
  if eqIgnoreAsciiCase (normalizeHomoglyphs req.fromAgent) (normalizeHomoglyphs req.toAgent) then
    throw .selfDelegation
  match m.identities.lookup req.fromAgent, m.identities.lookup req.toAgent with
  | none, _ => throw (.identityNotFound req.fromAgent)
  | _, none => throw (.identityNotFound req.toAgent)
  | some source, some target =>
    checkParticipant req.fromAgent source
    checkParticipant req.toAgent target
  if maxDelegationTtlSecs < req.ttlSecs then
    throw (.ttlExceedsMax req.ttlSecs maxDelegationTtlSecs)

/-- `delegation_link_effective_for_successor`. -/
def delegationLinkEffectiveForSuccessor (fromAgentMatchesCurrent linkActive expiryParsed
    nowBeforeExpiry : Bool) : Bool :=
  fromAgentMatchesCurrent && linkActive && expiryParsed && nowBeforeExpiry

/-- `delegation_edge_preserves_acyclicity`. -/
def delegationEdgePreservesAcyclicity (pathFromDelegateeToDelegatorExists : Bool) : Bool :=
  !pathFromDelegateeToDelegatorExists

/-- Whom `current` delegates to at `now`. -/
def liveSuccessors (env : Env) (delegations : Delegations) (now : Instant) (current : String) :
    List String :=
  (delegations.entries.filter fun e =>
    let flags := e.2.expiryFlags env now
    delegationLinkEffectiveForSuccessor (e.2.fromAgent == current) e.2.active flags.1 flags.2).map
    fun e => e.2.toAgent

/-- `live_delegation_path_exists`: explore from the start, and stop at an agent that delegates to the
    target.  Every agent but the first enters the frontier as the target of a link. -/
def liveDelegationPathExists (env : Env) (delegations : Delegations) (startAgent targetAgent : String)
    (now : Instant) : Bool :=
  explore (fun current => (liveSuccessors env delegations now current).contains targetAgent)
    (liveSuccessors env delegations now) (delegations.entries.length + 2) [startAgent] [startAgent] =
    some false

/-- The exploration ends within its fuel: an agent enters the frontier once, and all but the first are
    targets of links. -/
theorem exploration_ends (env : Env) (delegations : Delegations) (startAgent targetAgent : String)
    (now : Instant) :
    (explore (fun current => (liveSuccessors env delegations now current).contains targetAgent)
      (liveSuccessors env delegations now) (delegations.entries.length + 2) [startAgent]
      [startAgent]).isSome = true := by
  let targets := delegations.entries.map fun e => e.2.toAgent
  have hnext : ∀ s ∈ (startAgent :: targets).toFinset,
      ∀ t ∈ liveSuccessors env delegations now s, t ∈ (startAgent :: targets).toFinset := by
    intro s _ t ht
    obtain ⟨e, he, rfl⟩ := List.mem_map.mp ht
    have hmem : e.2.toAgent ∈ targets := List.mem_map.mpr ⟨e, (List.mem_filter.mp he).1, rfl⟩
    exact List.mem_toFinset.mpr (List.mem_cons_of_mem startAgent hmem)
  have hstart : ∀ s ∈ [startAgent], s ∈ (startAgent :: targets).toFinset := by
    intro s hs
    rw [List.mem_singleton.mp hs]
    exact List.mem_toFinset.mpr List.mem_cons_self
  have hcard : (startAgent :: targets).toFinset.card ≤ delegations.entries.length + 1 := by
    refine (List.toFinset_card_le _).trans ?_
    rw [List.length_cons, List.length_map]
  refine explore_isSome _ hnext hstart hstart (List.nodup_singleton _) ?_
  rw [List.length_singleton]
  omega

/-- The second half of `create_delegation`, under the lock of the delegations. -/
def insertDelegation (env : Env) (cfg : NhiConfig) (m : NhiManager) (req : DelegationRequest)
    (now : Instant) : Option (Except NhiError (NhiDelegationLink × NhiManager)) :=
  if cfg.maxDelegations ≤ m.delegations.entries.length then
    some (.error (.capacityExceeded "delegations"))
  else if !delegationEdgePreservesAcyclicity
      (liveDelegationPathExists env m.delegations req.toAgent req.fromAgent now) then
    some (.error (.delegationCycleDetected req.fromAgent req.toAgent))
  else
    match env.addSeconds now (asI64 req.ttlSecs) with
    | none => none
    | some expires =>
      let link : NhiDelegationLink :=
        { fromAgent := req.fromAgent
          toAgent := req.toAgent
          permissions := req.permissions
          scopeConstraints := req.scopeConstraints
          createdAt := env.toRfc3339 now
          expiresAt := env.toRfc3339 expires
          active := true
          reason := req.reason }
      match link.validate env with
      | .error msg => some (.error (.inputValidation msg))
      | .ok () =>
        some (.ok (link,
          { m with delegations := m.delegations.insert (req.fromAgent, req.toAgent) link }))

/-- `revoke_delegation`. -/
def revokeDelegation (m : NhiManager) (fromAgent toAgent : String) : Except NhiError NhiManager :=
  if (m.delegations.lookup (fromAgent, toAgent)).isSome then
    .ok { m with
      delegations := modifyValue (fromAgent, toAgent) NhiDelegationLink.deactivate m.delegations }
  else .error (.delegationNotFound fromAgent toAgent)

/-! ## Resolution -/

/-- `delegation_link_effective_for_chain`. -/
def delegationLinkEffectiveForChain (toAgentMatchesCurrent linkActive expiryParsed
    nowBeforeExpiry : Bool) : Bool :=
  toAgentMatchesCurrent && linkActive && expiryParsed && nowBeforeExpiry

/-- The first live link to `current`, in the order in which the table lists them. -/
def incomingLink (env : Env) (delegations : Delegations) (now : Instant) (current : String) :
    Option NhiDelegationLink :=
  (delegations.entries.map fun e => e.2).find? fun link =>
    let flags := link.expiryFlags env now
    delegationLinkEffectiveForChain (link.toAgent == current) link.active flags.1 flags.2

/-- The walk back from an agent, with the links so far in origin-to-terminus order.  It ends when the
    chain is longer than the maximal depth; the number counts the links until then. -/
def walkBack (env : Env) (delegations : Delegations) (now : Instant) :
    Nat → String → List String → List NhiDelegationLink → List NhiDelegationLink
  | 0, _, _, chain => chain
  | links + 1, current, visited, chain =>
    match incomingLink env delegations now current with
    | none => chain
    | some link =>
      if visited.contains link.fromAgent then chain
      else walkBack env delegations now links link.fromAgent (current :: visited) (link :: chain)

structure NhiDelegationChain where
  chain : List NhiDelegationLink
  maxDepth : Nat
  resolvedAt : String
deriving DecidableEq, Repr

/-- Is the agent at the origin of the chain revoked or expired? -/
def originIsTerminal (m : NhiManager) : List NhiDelegationLink → Bool
  | [] => false
  | first :: _ =>
    let originRevoked := m.revocationList.contains first.fromAgent
    let originExpired :=
      match m.identities.lookup first.fromAgent with
      | some identity => decide (identity.status = .expired)
      | none => false
    identityIsTerminal originRevoked originExpired

/-- `resolve_delegation_chain`.  The clock is read once for the links and once for the answer. -/
def resolveDelegationChain (env : Env) (cfg : NhiConfig) (m : NhiManager) (agentId : String)
    (now resolvedAt : Instant) : NhiDelegationChain :=
  let maxDepth := cfg.maxDelegationChainDepth
  let chain := walkBack env m.delegations now (maxDepth + 1) agentId [] []
  { chain := if originIsTerminal m chain then [] else chain
    maxDepth := maxDepth
    resolvedAt := env.toRfc3339 resolvedAt }

/-! ## Cleanup -/

/-- The first half of `cleanup_expired`, under the lock of the identities. -/
def expireIdentities (env : Env) (m : NhiManager) (now : Instant) : NhiManager :=
  let expire := fun identity : NhiAgentIdentity =>
    if identity.expiresBy env now then { identity with status := .expired } else identity
  { m with identities := mapValues (fun _ => expire) m.identities }

/-- The second half of `cleanup_expired`, under the lock of the delegations. -/
def deactivateExpired (env : Env) (m : NhiManager) (now : Instant) : NhiManager :=
  let deactivate := fun link : NhiDelegationLink =>
    if link.expiredBy env now then link.deactivate else link
  { m with delegations := mapValues (fun _ => deactivate) m.delegations }

end Vellaveto.Nhi
