/-
  EVALUATION WITH A SESSION CONTEXT (`evaluate_action_with_context`, `evaluate_with_compiled_ctx` and
  `apply_compiled_policy_ctx` of `vellaveto-engine/src/lib.rs`; `EvaluationContext::validate` of
  `vellaveto-types/src/identity.rs`).

    1. **The context** — all of `EvaluationContext`, with the checks that it passes before anything else is
       evaluated.  A map is read in the order of its iteration.
    2. **The program** — as `evaluate_action`, but the context conditions of a policy are checked between its
       rules and its type.  Policies that are passed ad hoc know no context: a context with anything in it is
       then denied.
    3. **Without a context** — `evaluateWithCompiledCtx_none`: the same as `evaluate_with_compiled`.
-/
import Vellaveto.Engine.DecisionCache
import Vellaveto.Engine.Evaluate

namespace Vellaveto

open Vellaveto.Lib

/-! ### The context -/

/-- `CallChainEntry`, without the outcome of the HMAC check. -/
structure CallChainEntry where
  agentId : String
  tool : String
  function : String
  timestamp : String
  hmac : Option String
deriving DecidableEq, Repr

/-- The whole `EvaluationContext`: the call chain with its entries. -/
structure SessionContext extends Cache.CacheContext where
  callChain : List CallChainEntry
  callChainDepth_eq : callChainDepth = callChain.length

/-- A bound on the length of a text. -/
def checkTextLen (what : String) (max : Nat) (value : String) : Except String Unit :=
  let len := value.utf8ByteSize
  if max < len then .error s!"{what} length {len} exceeds max {max}" else .ok ()

/-- No control and no format characters. -/
def checkTextChars (what value : String) : Except String Unit :=
  if hasDangerousChars value then .error s!"{what} contains control or format characters"
  else .ok ()

/-- Both checks of a text. -/
def checkText (what : String) (max : Nat) (value : String) : Except String Unit := do
  checkTextLen what max value
  checkTextChars what value

/-- Both checks of a text that may be missing. -/
def checkOptionalText (what : String) (max : Nat) : Option String → Except String Unit
  | none => .ok ()
  | some value => checkText what max value

/-- A bound on the number of entries. -/
def checkEntryCount (what : String) (max count : Nat) : Except String Unit :=
  if max < count then .error s!"{what} has {count} entries, max {max}" else .ok ()

namespace AgentIdentity

def maxClaims : Nat := 64
def maxAudience : Nat := 64
def maxClaimKeyLen : Nat := 256
def maxClaimValueLen : Nat := 4096
def maxAudienceEntryLen : Nat := 1024
def maxIssuerLen : Nat := 1024
def maxSubjectLen : Nat := 1024

variable (identity : AgentIdentity)

/-- `AgentIdentity::is_populated`. -/
def isPopulated : Bool :=
  identity.issuer.isSome || identity.subject.isSome || !identity.audience.isEmpty ||
    !identity.claims.keys.isEmpty

/-- The start of a claim key, as an error shows it. -/
def shownKey (key : String) : String := String.ofList (key.toList.take 32)

/-- The checks of one claim; the text of a JSON value is always written. -/
def validateClaim (ext : Externals) (key : String) (value : Json) : Except String Unit :=
  let keyLen := key.utf8ByteSize
  let valueLen := (ext.jsonText value).utf8ByteSize
  let shown := shownKey key
  if maxClaimKeyLen < keyLen then
    .error <| s!"AgentIdentity claim key length {keyLen} exceeds max {maxClaimKeyLen} " ++
      s!"(key starts with: '{shown}')"
  else if hasDangerousChars key then
    .error s!"AgentIdentity claim key contains control or Unicode format character: '{shown}'"
  else if maxClaimValueLen < valueLen then
    .error <| s!"AgentIdentity claim value for key '{key}' length {valueLen} exceeds max " ++
      s!"{maxClaimValueLen}"
  else .ok ()

/-- `AgentIdentity::validate`. -/
def validate (ext : Externals) : Except String Unit := do
  let claimCount := identity.claims.keys.length
  if maxClaims < claimCount then
    throw s!"AgentIdentity claims count {claimCount} exceeds max {maxClaims}"
  let audienceCount := identity.audience.length
  if maxAudience < audienceCount then
    throw s!"AgentIdentity audience count {audienceCount} exceeds max {maxAudience}"
  identity.audience.zipIdx.forM fun e =>
    let i := e.2
    checkText s!"AgentIdentity audience[{i}]" maxAudienceEntryLen e.1
  checkOptionalText "AgentIdentity issuer" maxIssuerLen identity.issuer
  checkOptionalText "AgentIdentity subject" maxSubjectLen identity.subject
  identity.claims.entries.forM fun claim => validateClaim ext claim.1 claim.2

end AgentIdentity

namespace SessionContext

def maxCallCounts : Nat := 10000
def maxPreviousActions : Nat := 10000
def maxCallChain : Nat := 100
def maxActionNameLen : Nat := 256
def maxTimestampLen : Nat := 64
def maxCallChainFieldLen : Nat := 512
def maxHmacLen : Nat := 128
def maxOptionalIdFieldLen : Nat := 256

/-- `validate_optional_id_field`. -/
def validateOptionalIdField (field : Option String) (name : String) : Except String Unit :=
  match field with
  | none => .ok ()
  | some value =>
    if value.isEmpty then .error s!"EvaluationContext {name} is present but empty"
    else checkText s!"EvaluationContext {name}" maxOptionalIdFieldLen value

/-- `validate_call_chain_field`. -/
def validateCallChainField (value fieldName : String) (index : Nat) : Except String Unit :=
  checkText s!"EvaluationContext call_chain[{index}].{fieldName}" maxCallChainFieldLen value

/-- The checks of one entry of the call chain. -/
def validateCallChainEntry (entry : CallChainEntry) (i : Nat) : Except String Unit := do
  validateCallChainField entry.agentId "agent_id" i
  validateCallChainField entry.tool "tool" i
  validateCallChainField entry.function "function" i
  checkText s!"EvaluationContext call_chain[{i}].timestamp" maxTimestampLen entry.timestamp
  match entry.hmac with
  | some hmac => checkTextLen s!"EvaluationContext call_chain[{i}].hmac" maxHmacLen hmac
  | none => pure ()

/-- The check of the identity, if there is one. -/
def validateIdentity (ext : Externals) : Option AgentIdentity → Except String Unit
  | none => .ok ()
  | some identity =>
    (identity.validate ext).mapError fun e => s!"EvaluationContext agent_identity: {e}"

/-- The check of the token, if there is one. -/
def validateToken (ext : Externals) : Option CapabilityToken → Except String Unit
  | none => .ok ()
  | some token =>
    (token.validateStructure fun v => .ok (ext.jsonText v)).mapError fun e =>
      s!"EvaluationContext capability_token: {e.display}"

variable (ctx : SessionContext)

/-- `EvaluationContext::validate`. -/
def validate (ext : Externals) : Except String Unit := do
  validateOptionalIdField ctx.agentId "agent_id"
  validateOptionalIdField ctx.tenantId "tenant_id"
  validateOptionalIdField ctx.sessionState "session_state"
  checkOptionalText "EvaluationContext timestamp" maxTimestampLen ctx.timestamp
  checkEntryCount "EvaluationContext call_counts" maxCallCounts ctx.callCounts.keys.length
  checkEntryCount "EvaluationContext previous_actions" maxPreviousActions ctx.previousActions.length
  ctx.previousActions.zipIdx.forM fun e =>
    let i := e.2
    checkText s!"EvaluationContext previous_actions[{i}]" maxActionNameLen e.1
  ctx.callCounts.keys.forM (checkText "EvaluationContext call_counts key" maxActionNameLen)
  checkEntryCount "EvaluationContext call_chain" maxCallChain ctx.callChain.length
  ctx.callChain.zipIdx.forM fun e => validateCallChainEntry e.1 e.2
  validateIdentity ext ctx.agentIdentity
  validateToken ext ctx.capabilityToken

/-- `EvaluationContext::has_any_meaningful_fields`. -/
def hasAnyMeaningfulFields : Bool :=
  ctx.timestamp.isSome || ctx.agentId.isSome || ctx.agentIdentity.any AgentIdentity.isPopulated ||
    !ctx.callCounts.keys.isEmpty || !ctx.previousActions.isEmpty || !ctx.callChain.isEmpty ||
    ctx.tenantId.isSome || ctx.verificationTier.isSome || ctx.capabilityToken.isSome ||
    ctx.sessionState.isSome

end SessionContext

/-! ### The program -/

/-- A compiled policy with its context conditions. -/
abbrev ContextPolicy := CompiledPolicy CompiledContextCondition

section Apply

variable (ext : ContextExternals) (settings : Settings) (action : Action)
  (context : Option SessionContext)

/-- The context conditions of a policy; a policy that has any denies a call without a context. -/
def checkContextOf (cp : ContextPolicy) : Option Verdict :=
  if cp.conditions.contextConditions.isEmpty then none
  else
    match context with
    | some ctx =>
      checkContextConditions ext ctx.toConditionContext cp.conditions.contextConditions
        (ext.normalizeFull action.tool)
    | none => checkContext cp

/-- `apply_compiled_policy_ctx`. -/
def applyCompiledPolicyCtx (cp : ContextPolicy) : Except EngineError (Option Verdict) :=
  orAsk (.ok ((checkRules ext.toExternals settings action cp).or
      (checkContextOf ext action context cp))) <|
    match cp.policy.policyType with
    | .allow => .ok (some .allow)
    | .deny => .ok (some (.deny cp.policy.denyReason))
    | .conditional _ => evaluateCompiledConditions ext.toExternals settings action cp

/-- One policy of the loop: it passes when it does not match. -/
def askCompiledPolicyCtx (cp : ContextPolicy) : Except EngineError (Option Verdict) :=
  if cp.matchesAction ext.toExternals action then applyCompiledPolicyCtx ext settings action context cp
  else .ok none

namespace PolicyEngine

variable (engine : PolicyEngine CompiledContextCondition)

/-- `evaluate_with_compiled_ctx`. -/
def evaluateWithCompiledCtx : Except EngineError Verdict :=
  let ask := askCompiledPolicyCtx ext engine.toSettings action context
  if !engine.toolIndex.isEmpty then
    let normTool := ext.normalizeFull action.tool
    orNoMatch (scanMerged (fun i => ask (engine.policyAt i)) (engine.toolIndex.slice normTool)
      engine.toolIndex.alwaysCheck)
  else orNoMatch (firstDecision ask engine.compiledPolicies)

/-- `evaluate_action_with_context`. -/
def evaluateActionWithContext (policies : List Policy) : Except EngineError Verdict :=
  match context with
  | none => engine.evaluateAction ext.toExternals action policies
  | some ctx =>
    match ctx.validate ext.toExternals with
    | .error reason => .ok (.deny reason)
    | .ok _ =>
      if !engine.compiledPolicies.isEmpty then
        engine.evaluateWithCompiledCtx ext action context
      else if ctx.hasAnyMeaningfulFields then
        .ok (.deny <| "Policy engine has no compiled policies; context conditions cannot be " ++
          "evaluated (fail-closed)")
      else engine.evaluateAction ext.toExternals action policies

end PolicyEngine

/-! ### Without a context -/

theorem checkContextOf_none (cp : ContextPolicy) : checkContextOf ext action none cp = checkContext cp := by
  rw [checkContextOf, checkContext]
  cases hconditions : cp.conditions.contextConditions with
  | nil => rfl
  | cons c cs => rfl

theorem askCompiledPolicyCtx_none (cp : ContextPolicy) :
    askCompiledPolicyCtx ext settings action none cp =
      askCompiledPolicy ext.toExternals settings action cp := by
  have happly : applyCompiledPolicyCtx ext settings action none cp =
      applyCompiledPolicy ext.toExternals settings action cp := by
    unfold applyCompiledPolicyCtx applyCompiledPolicy
    exact congrArg (fun r => orAsk (.ok ((checkRules ext.toExternals settings action cp).or r)) _)
      (checkContextOf_none ext action cp)
  rw [askCompiledPolicyCtx, askCompiledPolicy, happly]

/-- What `evaluate_with_compiled_ctx` does, in terms of the positions it visits. -/
theorem evaluateWithCompiledCtx_eq (engine : PolicyEngine CompiledContextCondition) :
    engine.evaluateWithCompiledCtx ext action context =
      orNoMatch (firstDecision
        (fun i => askCompiledPolicyCtx ext engine.toSettings action context (engine.policyAt i))
        (engine.collectCandidateIndices (ext.normalizeFull action.tool))) := by
  rw [PolicyEngine.evaluateWithCompiledCtx, PolicyEngine.collectCandidateIndices]
  by_cases hempty : engine.toolIndex.isEmpty = true
  · rw [if_neg (by simp [hempty]), if_pos hempty, ← firstDecision_map engine.policyAt]
    exact congrArg (fun l => orNoMatch (firstDecision _ l))
      (List.map_get_finRange engine.compiledPolicies).symm
  · rw [if_pos (by simp [hempty]), if_neg hempty]
    exact congrArg orNoMatch (scanMerged_eq _ _ _)

/-- A call without a context is one with the context left out. -/
theorem evaluateWithCompiledCtx_none (engine : PolicyEngine CompiledContextCondition) :
    engine.evaluateWithCompiledCtx ext action none =
      engine.evaluateWithCompiled ext.toExternals action := by
  rw [evaluateWithCompiledCtx_eq, evaluateWithCompiled_eq]
  simp only [askCompiledPolicyCtx_none]

end Apply

end Vellaveto
