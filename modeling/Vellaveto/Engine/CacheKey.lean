/-
  WHAT A CACHE KEY SAYS OF A REQUEST (`build_key` of `vellaveto-engine/src/cache.rs`).

    1. **Requests at a time** — a request with the readings of the clock during its evaluation.
    2. **Equal keys** — `action_of_key`, `sameContext_of_key`: the same tool, function and parameters, and
       contexts that differ in nothing but the order of the claims.
    3. **Context conditions** — `checkContextConditions_same`: only a time window can tell two such contexts
       apart, by the clock.
-/
import Mathlib.Data.Option.Basic
import Vellaveto.Engine.SessionContext

namespace Vellaveto.Cache

open Vellaveto.Lib

/-! ### Requests at a time -/

/-- The externals at another time. -/
def withClock (ext : ContextExternals) (clock : Nat → DateTime) : ContextExternals :=
  { ext with clock := clock }

/-- A request, and what the clock shows while it is evaluated. -/
structure Occasion where
  action : Action
  context : Option SessionContext
  hasRiskScore : Bool
  clock : Nat → DateTime

namespace Occasion

variable (o : Occasion)

/-- May the verdict be cached? -/
def isCacheable : Bool := isCacheableContext (o.context.map (·.toCacheContext)) o.hasRiskScore

/-- The key of the request. -/
def key {H : Type} (ext : ContextExternals) (hash : List HashPart → H) : CacheKey H :=
  buildKey ext.toExternals hash o.action (o.context.map (·.toCacheContext))

/-- The externals, with the clock of the occasion. -/
def externals (ext : ContextExternals) : ContextExternals := withClock ext o.clock

/-- The verdict that evaluation gives. -/
def evaluate (ext : ContextExternals) (engine : PolicyEngine CompiledContextCondition)
    (policies : List Policy) : Except EngineError Verdict :=
  engine.evaluateActionWithContext (o.externals ext) o.action o.context policies

/-- What `EvaluationContext::validate` says of the context. -/
def validation (ext : ContextExternals) : Except String Unit :=
  match o.context with
  | none => .ok ()
  | some ctx => ctx.validate ext.toExternals

/-- Does the context say anything that ad hoc policies cannot read? -/
def isMeaningful : Bool := o.context.any SessionContext.hasAnyMeaningfulFields

end Occasion

/-! ### What equal keys say -/

section Key

variable {ext : ContextExternals}

/-- Two identities with the same fields; the claims may stand in another order. -/
structure SameIdentity (a b : AgentIdentity) : Prop where
  issuer : a.issuer = b.issuer
  subject : a.subject = b.subject
  audience : a.audience = b.audience
  claims : ∀ k, a.claims.lookup k = b.claims.lookup k

theorem SameIdentity.claimStr {a b : AgentIdentity} (h : SameIdentity a b) : b.claimStr = a.claimStr := by
  funext key
  rw [AgentIdentity.claimStr, AgentIdentity.claimStr, h.claims key]

/-- What is hashed of one claim. -/
def claimParts (jsonText : Json → String) (claims : AList fun _ : String => Json) (key : String) :
    List HashPart :=
  .text key :: (claims.lookup key).toList.map fun v => .text (jsonText v)

/-- The claims can be read back from what is hashed. -/
theorem claimParts_inj {jsonText : Json → String} (hjson : Function.Injective jsonText)
    {claims claims' : AList fun _ : String => Json} {ks ks' : List String}
    (hks : ∀ k ∈ ks, k ∈ claims) (hks' : ∀ k ∈ ks', k ∈ claims')
    (h : ks.flatMap (claimParts jsonText claims) = ks'.flatMap (claimParts jsonText claims')) :
    ks = ks' ∧ ∀ k ∈ ks, claims.lookup k = claims'.lookup k := by
  induction ks generalizing ks' with
  | nil =>
    cases ks' with
    | nil => exact ⟨rfl, by simp⟩
    | cons k' ks' => cases h
  | cons k ks ih =>
    cases ks' with
    | nil => cases h
    | cons k' ks' =>
      obtain ⟨v, hv⟩ := Option.isSome_iff_exists.mp (AList.lookup_isSome.mpr (hks k List.mem_cons_self))
      obtain ⟨v', hv'⟩ :=
        Option.isSome_iff_exists.mp (AList.lookup_isSome.mpr (hks' k' List.mem_cons_self))
      rw [List.flatMap_cons, List.flatMap_cons, claimParts, claimParts, hv, hv'] at h
      simp only [Option.toList_some, List.map_cons, List.map_nil, List.cons_append, List.nil_append,
        List.cons.injEq, HashPart.text.injEq] at h
      obtain ⟨hkey, hvalue, hrest⟩ := h
      subst hkey
      obtain ⟨heq, hlookup⟩ := ih (fun j hj => hks j (List.mem_cons_of_mem k hj))
        (fun j hj => hks' j (List.mem_cons_of_mem k hj)) hrest
      refine ⟨by rw [heq], ?_⟩
      intro j hj
      rcases List.mem_cons.mp hj with rfl | hj
      · rw [hv, hv', hjson hvalue]
      · exact hlookup j hj

theorem identityParts_inj (hjson : Function.Injective ext.jsonText) {a b : AgentIdentity}
    (h : identityParts ext.toExternals a = identityParts ext.toExternals b) : SameIdentity a b := by
  obtain ⟨issuer, subject, audience, claims⟩ := a
  obtain ⟨issuer', subject', audience', claims'⟩ := b
  simp only [identityParts, List.cons_append, List.nil_append, List.cons.injEq,
    HashPart.optionalText.injEq, HashPart.length.injEq] at h
  obtain ⟨hissuer, hsubject, hlen, hrest⟩ := h
  obtain ⟨haudience, htail⟩ := List.append_inj hrest (by rw [List.length_map, List.length_map, hlen])
  have hclaims := (List.cons.inj htail).2
  have hmem : ∀ (c : AList fun _ : String => Json), ∀ k ∈ c.keys.insertionSort (· ≤ ·), k ∈ c := by
    intro c k hk
    exact AList.mem_keys.mpr ((List.mem_insertionSort (· ≤ ·)).mp hk)
  obtain ⟨hkeys, hlookup⟩ := claimParts_inj hjson (hmem claims) (hmem claims') hclaims
  refine ⟨hissuer, hsubject, ?_, fun k => ?_⟩
  · exact List.map_injective_iff.mpr (fun s t hst => HashPart.text.inj hst) haudience
  · by_cases hk : k ∈ claims
    · exact hlookup k ((List.mem_insertionSort (· ≤ ·)).mpr (AList.mem_keys.mp hk))
    · have hk' : k ∉ claims' := by
        intro hk'
        have hsorted := (List.mem_insertionSort (· ≤ ·)).mpr (AList.mem_keys.mp hk')
        rw [← hkeys] at hsorted
        exact hk (hmem claims k hsorted)
      rw [AList.lookup_eq_none.mpr hk, AList.lookup_eq_none.mpr hk']

/-- Two contexts without session data: they differ at most in the order of the claims. -/
structure SameSession (ctx ctx' : ConditionContext) : Prop where
  others : ctx' = { ctx with agentIdentity := ctx'.agentIdentity }
  identity : Option.Rel SameIdentity ctx.agentIdentity ctx'.agentIdentity
  noToken : ctx.capabilityToken = none

/-- The contexts of two occasions. -/
def SameContext (c c' : Option SessionContext) : Prop :=
  Option.Rel (fun ctx ctx' => SameSession ctx.toConditionContext ctx'.toConditionContext ∧
    ctx.hasAnyMeaningfulFields = ctx'.hasAnyMeaningfulFields) c c'

theorem eq_empty_of_keys {β : Type} {t : AList fun _ : String => β} (h : t.keys.isEmpty = true) :
    t = ∅ := by
  apply AList.ext
  exact List.map_eq_nil_iff.mp (List.isEmpty_iff.mp h)

theorem isPopulated_of_sameIdentity {a b : AgentIdentity} (h : SameIdentity a b) :
    a.isPopulated = b.isPopulated := by
  have hempty : a.claims.keys.isEmpty = b.claims.keys.isEmpty := by
    rw [Bool.eq_iff_iff, List.isEmpty_iff, List.isEmpty_iff, List.eq_nil_iff_forall_not_mem,
      List.eq_nil_iff_forall_not_mem]
    refine forall_congr' fun k => ?_
    rw [← AList.mem_keys, ← AList.mem_keys, ← AList.lookup_eq_none, ← AList.lookup_eq_none, h.claims k]
  rw [AgentIdentity.isPopulated, AgentIdentity.isPopulated, h.issuer, h.subject, h.audience, hempty]

theorem any_isPopulated_of_rel {a b : Option AgentIdentity} (h : Option.Rel SameIdentity a b) :
    a.any AgentIdentity.isPopulated = b.any AgentIdentity.isPopulated := by
  cases h with
  | none => rfl
  | some hab => exact isPopulated_of_sameIdentity hab

/-- A context that may be cached holds no session data. -/
structure Sessionless (ctx : CacheContext) : Prop where
  timestamp : ctx.timestamp = none
  callCounts : ctx.callCounts = ∅
  previousActions : ctx.previousActions = []
  callChainDepth : ctx.callChainDepth = 0
  capabilityToken : ctx.capabilityToken = none
  sessionState : ctx.sessionState = none
  verificationTier : ctx.verificationTier = none

theorem sessionless_of_cacheable {ctx : CacheContext} {hasRiskScore : Bool}
    (h : isCacheableContext (some ctx) hasRiskScore = true) : Sessionless ctx := by
  cases hasRiskScore with
  | true => cases h
  | false =>
    simp only [isCacheableContext, Bool.false_eq_true, if_false, Bool.and_eq_true,
      Option.isNone_iff_eq_none, List.isEmpty_iff, beq_iff_eq] at h
    obtain ⟨⟨⟨⟨⟨⟨htime, hcounts⟩, hprevious⟩, hdepth⟩, htoken⟩, hstate⟩, htier⟩ := h
    exact ⟨htime, eq_empty_of_keys (List.isEmpty_iff.mpr hcounts), hprevious, hdepth, htoken, hstate,
      htier⟩

/-- Of a context without session data only the agent, the tenant and the identity are left. -/
theorem sameSession_of_sessionless {ctx ctx' : CacheContext} (h : Sessionless ctx)
    (h' : Sessionless ctx') (hagent : ctx.agentId = ctx'.agentId)
    (hidentity : Option.Rel SameIdentity ctx.agentIdentity ctx'.agentIdentity) :
    SameSession ctx.toConditionContext ctx'.toConditionContext := by
  refine ⟨?_, hidentity, h.capabilityToken⟩
  obtain ⟨⟨⟨counts, previous⟩, ts, agentId, identity, depth, tier, token, state⟩, tenant⟩ := ctx
  obtain ⟨⟨⟨counts', previous'⟩, ts', agentId', identity', depth', tier', token', state'⟩, tenant'⟩ := ctx'
  obtain ⟨htime, hcounts, hprevious, hdepth, htoken, hstate, htier⟩ := h
  obtain ⟨htime', hcounts', hprevious', hdepth', htoken', hstate', htier'⟩ := h'
  dsimp only at *
  subst htime hcounts hprevious hdepth htoken hstate htier
  subst htime' hcounts' hprevious' hdepth' htoken' hstate' htier' hagent
  rfl

/-- Is there anything in such a context? -/
theorem meaningful_of_sessionless {ctx : SessionContext} (h : Sessionless ctx.toCacheContext) :
    ctx.hasAnyMeaningfulFields =
      (ctx.agentId.isSome || ctx.agentIdentity.any AgentIdentity.isPopulated || ctx.tenantId.isSome) := by
  have hchain : ctx.callChain = [] := by
    rw [← List.length_eq_zero_iff, ← ctx.callChainDepth_eq]
    exact h.callChainDepth
  rw [SessionContext.hasAnyMeaningfulFields, h.timestamp, h.callCounts, h.previousActions, hchain,
    h.capabilityToken, h.sessionState, h.verificationTier]
  simp

variable {H : Type} {hash : List HashPart → H} (hhash : Function.Injective hash)
  (hjson : Function.Injective ext.jsonText) {o o' : Occasion}

include hhash

/-- Equal keys: the same tool and function to the engine, and the same parameters. -/
theorem action_of_key (hkey : o.key ext hash = o'.key ext hash) :
    ext.normalizeFull o.action.tool = ext.normalizeFull o'.action.tool ∧
      ext.normalizeFull o.action.function = ext.normalizeFull o'.action.function ∧
      ext.jsonText o.action.parameters = ext.jsonText o'.action.parameters := by
  have htool := hhash (congrArg CacheKey.toolHash hkey)
  have hfunction := hhash (congrArg CacheKey.functionHash hkey)
  have hparameters := hhash (congrArg CacheKey.parametersHash hkey)
  simp only [List.cons.injEq, HashPart.text.injEq, and_true] at htool hfunction hparameters
  exact ⟨htool, hfunction, hparameters⟩

include hjson

/-- What is hashed of two contexts. -/
theorem hashIdentity_inj {c c' : Option CacheContext}
    (h : hashIdentity ext.toExternals hash c = hashIdentity ext.toExternals hash c') :
    Option.Rel (fun ctx ctx' => ctx.agentId = ctx'.agentId ∧ ctx.tenantId = ctx'.tenantId ∧
      Option.Rel SameIdentity ctx.agentIdentity ctx'.agentIdentity) c c' := by
  have hparts := hhash h
  cases c with
  | none =>
    cases c' with
    | none => exact .none
    | some ctx' => cases hparts
  | some ctx =>
    cases c' with
    | none => cases hparts
    | some ctx' =>
      simp only [List.cons.injEq, HashPart.optionalText.injEq, true_and] at hparts
      obtain ⟨hagent, htenant, hrest⟩ := hparts
      refine .some ⟨hagent, htenant, ?_⟩
      cases hidentity : ctx.agentIdentity with
      | none =>
        rw [hidentity] at hrest
        cases hidentity' : ctx'.agentIdentity with
        | none => exact .none
        | some identity' => rw [hidentity'] at hrest; cases hrest
      | some identity =>
        rw [hidentity] at hrest
        cases hidentity' : ctx'.agentIdentity with
        | none => rw [hidentity'] at hrest; cases hrest
        | some identity' =>
          rw [hidentity'] at hrest
          exact .some (identityParts_inj hjson (List.cons.inj hrest).2)

/-- **Equal keys: the same context**, up to the order of the claims, if both may be cached. -/
theorem sameContext_of_key (hcacheable : o.isCacheable = true) (hcacheable' : o'.isCacheable = true)
    (hkey : o.key ext hash = o'.key ext hash) : SameContext o.context o'.context := by
  have hidentity := hashIdentity_inj hhash hjson (congrArg CacheKey.identityHash hkey)
  rw [Occasion.isCacheable] at hcacheable hcacheable'
  cases hcontext : o.context with
  | none =>
    cases hcontext' : o'.context with
    | none => exact .none
    | some ctx' => rw [hcontext, hcontext'] at hidentity; cases hidentity
  | some ctx =>
    cases hcontext' : o'.context with
    | none => rw [hcontext, hcontext'] at hidentity; cases hidentity
    | some ctx' =>
      rw [hcontext, hcontext'] at hidentity
      rw [hcontext] at hcacheable
      rw [hcontext'] at hcacheable'
      have h := sessionless_of_cacheable hcacheable
      have h' := sessionless_of_cacheable hcacheable'
      cases hidentity with
      | some hsame =>
        obtain ⟨hagent, htenant, hid⟩ := hsame
        refine .some ⟨sameSession_of_sessionless h h' hagent hid, ?_⟩
        rw [meaningful_of_sessionless h, meaningful_of_sessionless h', hagent, htenant]
        rw [show ctx.agentIdentity.any AgentIdentity.isPopulated =
          ctx'.agentIdentity.any AgentIdentity.isPopulated from any_isPopulated_of_rel hid]

end Key

/-! ### Context conditions -/

section Conditions

variable {ext : ContextExternals} {clock : Nat → DateTime}

theorem checkAgentIdentityMatch_same {ctx ctx' : ConditionContext} (h : SameSession ctx ctx')
    (required : AgentIdentityMatch) :
    checkAgentIdentityMatch (withClock ext clock) ctx' required =
      checkAgentIdentityMatch ext ctx required := by
  have hidentity := h.identity
  rw [checkAgentIdentityMatch, checkAgentIdentityMatch]
  generalize ctx.agentIdentity = a at hidentity
  generalize ctx'.agentIdentity = b at hidentity
  cases hidentity with
  | none => rfl
  | @some a b hab =>
    have hclaim : checkClaim (withClock ext clock) required b = checkClaim ext required a := by
      funext claim
      rw [checkClaim, checkClaim, hab.claimStr]
      rfl
    dsimp only
    rw [hclaim, checkAudience, checkAudience, hab.issuer, hab.subject, hab.audience]
    rfl

theorem checkResourceIndicator_same {ctx ctx' : ConditionContext} (h : SameSession ctx ctx')
    (allowed : List PatternMatcher) (requireResource : Bool) (denyReason : String) :
    checkResourceIndicator (withClock ext clock) ctx' allowed requireResource denyReason =
      checkResourceIndicator ext ctx allowed requireResource denyReason := by
  have hidentity := h.identity
  rw [checkResourceIndicator, checkResourceIndicator]
  generalize ctx.agentIdentity = a at hidentity
  generalize ctx'.agentIdentity = b at hidentity
  cases hidentity with
  | none => rfl
  | @some a b hab =>
    rw [Option.bind_some, Option.bind_some, hab.claimStr]
    rfl

theorem checkCapabilityRequired_same {ctx ctx' : ConditionContext} (h : SameSession ctx ctx')
    (required blocked : List String) (denyReason : String) :
    checkCapabilityRequired (withClock ext clock) ctx' required blocked denyReason =
      checkCapabilityRequired ext ctx required blocked denyReason := by
  have hidentity := h.identity
  rw [checkCapabilityRequired, checkCapabilityRequired]
  generalize ctx.agentIdentity = a at hidentity
  generalize ctx'.agentIdentity = b at hidentity
  cases hidentity with
  | none => rfl
  | @some a b hab =>
    have hdeclared : declaredCapabilities (withClock ext clock) b = declaredCapabilities ext a := by
      rw [declaredCapabilities, declaredCapabilities, AgentIdentity.claimStrArray,
        AgentIdentity.claimStrArray, hab.claims, hab.claimStr]
      rfl
    rw [Option.bind_some, Option.bind_some, hdeclared]
    rfl

theorem checkStepUpAuth_same {ctx ctx' : ConditionContext} (h : SameSession ctx ctx')
    (requiredLevel : Nat) (denyReason : String) :
    checkStepUpAuth ctx' requiredLevel denyReason = checkStepUpAuth ctx requiredLevel denyReason := by
  have hidentity := h.identity
  rw [checkStepUpAuth, checkStepUpAuth]
  generalize ctx.agentIdentity = a at hidentity
  generalize ctx'.agentIdentity = b at hidentity
  cases hidentity with
  | none => rfl
  | @some a b hab =>
    rw [Option.bind_some, Option.bind_some, hab.claimStr]

theorem isSome_of_sameSession {ctx ctx' : ConditionContext} (h : SameSession ctx ctx') :
    ctx'.agentIdentity.isSome = ctx.agentIdentity.isSome := by
  have hidentity := h.identity
  generalize ctx.agentIdentity = a at hidentity
  generalize ctx'.agentIdentity = b at hidentity
  cases hidentity with
  | none => rfl
  | some _ => rfl

/-- Is the condition a time window? -/
def isTimeWindow : CompiledContextCondition → Bool
  | .timeWindow _ _ _ _ => true
  | _ => false

/-- **Only a time window** can tell two such contexts apart, by the clock. -/
theorem checkCondition_same {ctx ctx' : ConditionContext} (h : SameSession ctx ctx') (tool : String)
    (i : Nat) {c : CompiledContextCondition} (hc : isTimeWindow c = false) :
    checkCondition (withClock ext clock) ctx' tool i c = checkCondition ext ctx tool i c := by
  cases c with
  | timeWindow startHour endHour days denyReason => cases hc
  | agentIdentityMatch required => exact checkAgentIdentityMatch_same h required
  | resourceIndicator allowed requireResource denyReason =>
    exact checkResourceIndicator_same h allowed requireResource denyReason
  | capabilityRequired required blocked denyReason =>
    exact checkCapabilityRequired_same h required blocked denyReason
  | stepUpAuth requiredLevel denyReason => exact checkStepUpAuth_same h requiredLevel denyReason
  | deputyValidation required =>
    rw [checkCondition, checkCondition, checkDeputyValidation, checkDeputyValidation,
      isSome_of_sameSession h, h.others]
  | history condition => rw [h.others]; rfl
  | agentId allowed blocked denyReason => rw [h.others]; rfl
  | maxChainDepth maxDepth denyReason => rw [h.others]; rfl
  | minVerificationTier requiredTier denyReason => rw [h.others]; rfl
  | requireCapabilityToken required => rw [h.others]; rfl
  | sessionStateRequired allowedStates denyReason => rw [h.others]; rfl
  | requiredActionSequence required => rw [h.others]; rfl
  | forbiddenActionSequence forbidden => rw [h.others]; rfl
  | workflowTemplate template => rw [h.others]; rfl
  | asyncTaskPolicy => rfl
  | circuitBreaker => rfl
  | shadowAgentCheck => rfl
  | schemaPoisoningCheck => rfl

theorem checkTimeWindow_same {ctx ctx' : ConditionContext} (h : SameSession ctx ctx') (tool : String)
    (i : Nat) {c : CompiledContextCondition} (hc : isTimeWindow c = true) :
    checkCondition (withClock ext clock) ctx' tool i c =
      checkCondition (withClock ext clock) ctx tool i c := by
  cases c with
  | timeWindow startHour endHour days denyReason => rw [h.others]; rfl
  | _ => cases hc

/-- The combined path never passes without a token. -/
theorem checkCombined_noToken {ctx : ConditionContext} (htoken : ctx.capabilityToken = none)
    (d : DeputyValidation) (t : RequireCapabilityToken) :
    checkCombined ext ctx d t = some (combinedDenial ext ctx d t) := by
  rw [checkCombined, if_pos]
  rw [Bool.not_eq_true', Bool.eq_false_iff, ne_eq, combinedValid_iff]
  rintro ⟨-, token, agentId, hsome, -⟩
  rw [htoken] at hsome
  cases hsome

theorem combinedDenial_same {ctx ctx' : ConditionContext} (h : SameSession ctx ctx')
    (d : DeputyValidation) (t : RequireCapabilityToken) :
    combinedDenial (withClock ext clock) ctx' d t = combinedDenial ext ctx d t := by
  rw [combinedDenial, combinedDenial, isSome_of_sameSession h, h.others]
  rfl

/-- The windows of a policy that are reached are open at both times, or closed at both. -/
def WindowsAlike (ext : ContextExternals) (clock : Nat → DateTime) (ctx : ConditionContext)
    (tool : String) (conditions : List CompiledContextCondition) : Prop :=
  ∀ (i : Nat) c, conditions[i]? = some c → isTimeWindow c = true →
    (∀ j < i, ∀ d, conditions[j]? = some d → checkCondition ext ctx tool j d = none) →
    checkCondition ext ctx tool i c = checkCondition (withClock ext clock) ctx tool i c

theorem checkContextConditions_same {ctx ctx' : ConditionContext} (h : SameSession ctx ctx')
    {tool : String} {conditions : List CompiledContextCondition}
    (hwindows : WindowsAlike ext clock ctx tool conditions) :
    checkContextConditions ext ctx conditions tool =
      checkContextConditions (withClock ext clock) ctx' conditions tool := by
  have htoken' : ctx'.capabilityToken = none := by
    rw [h.others]
    exact h.noToken
  rw [checkContextConditions, checkContextConditions]
  cases hcombined : combinedDelegatedCapabilityConditions conditions with
  | some pair =>
    simp only [Option.bind_some]
    rw [checkCombined_noToken h.noToken, checkCombined_noToken htoken', combinedDenial_same h]
    rfl
  | none =>
    simp only [Option.bind_none, Option.isSome_none, Bool.false_and, Bool.false_eq_true, if_false,
      Option.none_or]
    apply findSome?_eq_of_reached
    rintro i ⟨c, k⟩ hc hbefore
    rw [List.getElem?_zipIdx, Option.map_eq_some_iff] at hc
    obtain ⟨d, hd, hpair⟩ := hc
    obtain ⟨rfl, rfl⟩ := Prod.mk.inj hpair
    rw [Nat.zero_add] at *
    by_cases hwindow : isTimeWindow d = true
    · rw [checkTimeWindow_same h tool _ hwindow]
      apply hwindows i d hd hwindow
      intro j hj e he
      have hpass := hbefore j hj (e, j) (by rw [List.getElem?_zipIdx, he]; simp)
      exact hpass
    · exact (checkCondition_same h tool _ (by simpa using hwindow)).symm

end Conditions

end Vellaveto.Cache
