/-
  THE VERDICT CORE (`vellaveto-engine/src/verified_core.rs`: `compute_single_verdict`, `compute_verdict`;
  `lib.rs`: `apply_compiled_policy_ctx`, `debug_assert_verified_*`).

  PROGRAM.  The core decides from RESOLVED matches: for each policy a few flags (does it match, do its rules
  deny, does its context deny, has a condition fired) and no text at all.  The engine that is shipped decides
  from the action itself, with patterns, rules, context conditions and an index; its debug assertions compare
  a few of its branches with the core.

  SPEC.  `resolve` is what a wrapper has to hand to the core for one policy.  The engine REFINES the core: on
  every action its verdict is the one the core computes from the resolved policies, an error counted as a
  denial.

  CORRECTNESS.  One policy at a time (`computeSingleVerdict_resolve`), then along the list.  There is one
  exception, and it is exact: a step-up condition of a context asks for approval, which the core knows as
  a denial.  So the core is never the more permissive of the two, and both allow the same actions.
-/
import Vellaveto.Engine.CacheTransparency
import Vellaveto.Engine.OrderIndependence

namespace Vellaveto

open Vellaveto.Lib

/-! ## The core -/

namespace VerifiedCore

/-- `ResolvedMatch`. -/
structure ResolvedMatch where
  matched : Bool
  isDeny : Bool
  isConditional : Bool
  priority : Nat
  ruleOverrideDeny : Bool
  contextDeny : Bool
  requireApproval : Bool
  conditionFired : Bool
  conditionVerdict : VerdictKind
  onNoMatchContinue : Bool
  allConstraintsSkipped : Bool
deriving DecidableEq, Repr

/-- `VerdictOutcome`. -/
inductive VerdictOutcome where
  | decided (kind : VerdictKind)
  | proceed
deriving DecidableEq, Repr

/-- `compute_single_verdict`. -/
def computeSingleVerdict (rm : ResolvedMatch) : VerdictOutcome :=
  if !rm.matched then .proceed
  else if rm.ruleOverrideDeny then .decided .deny
  else if rm.contextDeny then .decided .deny
  else if rm.isDeny then .decided .deny
  else if rm.isConditional then
    if rm.requireApproval then .decided .requireApproval
    else if rm.allConstraintsSkipped then
      if rm.onNoMatchContinue then .proceed else .decided .deny
    else if rm.conditionFired then .decided rm.conditionVerdict
    else if rm.onNoMatchContinue then .proceed
    else .decided .allow
  else .decided .allow

/-- `compute_verdict`. -/
def computeVerdict : List ResolvedMatch → VerdictKind
  | [] => .deny
  | rm :: resolved =>
    match computeSingleVerdict rm with
    | .decided kind => kind
    | .proceed => computeVerdict resolved

end VerifiedCore

open VerifiedCore
open Cache (agentContext plainContextEnv plainContextExternals)

/-! ## Resolving a policy -/

section Resolve

variable (ext : ContextExternals) (settings : Settings) (action : Action) (context : Option SessionContext)

/-- What the parameters and the constraints of a policy say, before the rule for "none of them". -/
def firedVerdict (cp : ContextPolicy) : Except EngineError (Option Verdict) :=
  orAsk (.ok (parametersDecision action cp)) <|
    firstDecision (evaluateCompiledConstraint ext.toExternals settings cp.policy action) cp.conditions.constraints

/-- The outcome of one policy; an error is a denial. -/
def outcomeOf : Except EngineError (Option Verdict) → VerdictOutcome
  | .ok none => .proceed
  | .ok (some v) => .decided v.kind
  | .error _ => .decided .deny

/-- The kind of a result; an error is a denial. -/
def kindOf : Except EngineError Verdict → VerdictKind
  | .ok v => v.kind
  | .error _ => .deny

/-- **The flags of a policy.**  Constraints count as skipped only where nothing fired: a forbidden parameter
denies even when all constraints are skipped. -/
def resolve (cp : ContextPolicy) : ResolvedMatch where
  matched := cp.matchesAction ext.toExternals action
  isDeny := cp.policy.isDeny
  isConditional := match cp.policy.policyType with
    | .conditional _ => true
    | .allow => false
    | .deny => false
  priority := (max cp.policy.priority 0).toNat
  ruleOverrideDeny := (checkRules ext.toExternals settings action cp).isSome
  contextDeny := (checkContextOf ext action context cp).isSome
  requireApproval := cp.conditions.requireApproval
  conditionFired := decide (outcomeOf (firedVerdict ext settings action cp) ≠ .proceed)
  conditionVerdict := match outcomeOf (firedVerdict ext settings action cp) with
    | .decided kind => kind
    | .proceed => .deny
  onNoMatchContinue := cp.conditions.onNoMatchContinue
  allConstraintsSkipped := decide (outcomeOf (firedVerdict ext settings action cp) = .proceed) &&
    allConstraintsSkipped cp.conditions.constraints.length (cp.conditions.constraints.any (wasEvaluated action))

end Resolve

/-! ## What context conditions can say -/

section Context

variable {ext : ContextExternals} {ctx : ConditionContext}

/-- A condition that asks for a stronger login. -/
def CompiledContextCondition.isStepUp : CompiledContextCondition → Bool
  | .stepUpAuth _ _ => true
  | _ => false

theorem denies_ite {p : Prop} [Decidable p] {r s : Option Verdict} (hr : Denies r) (hs : Denies s) :
    Denies (if p then r else s) := by
  split
  · exact hr
  · exact hs

theorem denies_if {p : Prop} [Decidable p] (reason : String) :
    Denies (if p then some (.deny reason) else none) :=
  denies_ite (denies_deny reason) denies_none

theorem denies_checkHistoryCondition (context : EvaluationContext) (c : HistoryCondition) :
    Denies (checkHistoryCondition ext.toExternals context c) := by
  cases c with
  | maxCalls p max reason => exact denies_ite (denies_deny _) (denies_if _)
  | requirePreviousAction tool reason => exact denies_if _
  | forbiddenPreviousAction tool reason => exact denies_if _
  | maxCallsInWindow p max window reason => exact denies_if _

theorem denies_checkAgentIdentityMatch (required : AgentIdentityMatch) :
    Denies (checkAgentIdentityMatch ext ctx required) := by
  rw [checkAgentIdentityMatch]
  have hblocked : ∀ field blocked value, Denies (checkBlocked ext required field blocked value) := by
    intro field blocked value
    cases value with
    | none => exact denies_none
    | some v => exact denies_if _
  have hrequired : ∀ field expected value, Denies (checkRequired ext required field expected value) := by
    intro field expected value
    cases expected with
    | none => exact denies_none
    | some e => exact denies_ite denies_none (denies_deny _)
  cases ctx.agentIdentity with
  | none => exact denies_ite (denies_deny _) (denies_if _)
  | some identity =>
    have haudience : Denies (checkAudience ext required identity) := by
      rw [checkAudience]
      cases required.requiredAudience with
      | none => exact denies_none
      | some e => exact denies_ite denies_none (denies_deny _)
    have hclaims : Denies (required.requiredClaims.findSome? (checkClaim ext required identity)) :=
      denies_findSome (fun claim => denies_ite denies_none (denies_deny _)) _
    exact denies_or (hblocked _ _ _) <| denies_or (hblocked _ _ _) <| denies_or (hrequired _ _ _) <|
      denies_or (hrequired _ _ _) <| denies_or haudience hclaims

/-- The denial of a holder, as a verdict of an option. -/
theorem denies_denyHolder (reason : String) (holder : Option String) :
    Denies (some (denyHolder ctx reason holder)) := by
  rw [denyHolder]
  cases ctx.agentId with
  | none => exact denies_deny _
  | some agentId => exact denies_deny _

theorem denies_checkRequireCapabilityToken (required : RequireCapabilityToken) :
    Denies (checkRequireCapabilityToken ext ctx required) := by
  rw [checkRequireCapabilityToken]
  cases ctx.capabilityToken with
  | none => exact denies_deny _
  | some token =>
    exact denies_ite (denies_denyHolder _ _) (denies_ite (denies_deny _) (denies_if _))

theorem denies_checkCapabilityRequired (required blocked : List String) (reason : String) :
    Denies (checkCapabilityRequired ext ctx required blocked reason) := by
  rw [checkCapabilityRequired]
  refine denies_ite (denies_deny _) ?_
  dsimp only
  split
  · exact denies_deny _
  · split
    · exact denies_deny _
    · exact denies_none

/-- Every condition denies or passes, but for the step-up condition. -/
theorem denies_checkCondition {currentTool : String} {i : Nat} {c : CompiledContextCondition}
    (hstep : c.isStepUp = false) : Denies (checkCondition ext ctx currentTool i c) := by
  cases c with
  | timeWindow startHour endHour days reason =>
    exact denies_ite (denies_deny _) (denies_if _)
  | history condition => exact denies_checkHistoryCondition _ condition
  | agentId allowed blocked reason =>
    show Denies (checkAgentId ext ctx allowed blocked reason)
    rw [checkAgentId]
    cases ctx.agentId with
    | none => exact denies_if _
    | some id => exact denies_ite (denies_deny _) (denies_if _)
  | maxChainDepth maxDepth reason => exact denies_if _
  | agentIdentityMatch required => exact denies_checkAgentIdentityMatch required
  | resourceIndicator allowed requireResource reason =>
    show Denies (checkResourceIndicator ext ctx allowed requireResource reason)
    rw [checkResourceIndicator]
    split
    · exact denies_if _
    · exact denies_if _
  | capabilityRequired required blocked reason => exact denies_checkCapabilityRequired required blocked reason
  | stepUpAuth level reason => cases hstep
  | deputyValidation required => exact denies_ite (denies_deny _) (denies_if _)
  | minVerificationTier tier reason =>
    show Denies (checkMinVerificationTier ctx tier reason)
    rw [checkMinVerificationTier]
    split
    · exact denies_if _
    · exact denies_deny _
  | requireCapabilityToken required => exact denies_checkRequireCapabilityToken required
  | sessionStateRequired allowed reason =>
    show Denies (checkSessionStateRequired ext ctx allowed reason)
    rw [checkSessionStateRequired]
    split
    · exact denies_ite denies_none (denies_deny _)
    · exact denies_deny _
  | requiredActionSequence required =>
    exact denies_ite (denies_deny _) (denies_ite denies_none (denies_deny _))
  | forbiddenActionSequence forbidden => exact denies_if _
  | workflowTemplate template => exact denies_ite denies_none (denies_if _)
  | asyncTaskPolicy => exact denies_none
  | circuitBreaker => exact denies_none
  | shadowAgentCheck => exact denies_none
  | schemaPoisoningCheck => exact denies_none

theorem denies_checkCombined (deputy : DeputyValidation) (capability : RequireCapabilityToken) :
    Denies (checkCombined ext ctx deputy capability) := by
  refine denies_ite ?_ denies_none
  rw [combinedDenial]
  dsimp only
  split
  · split
    · exact denies_deny _
    · split
      · exact denies_deny _
      · exact denies_denyHolder _ _
  · split
    · exact denies_deny _
    · split
      · exact denies_deny _
      · exact denies_deny _

/-- What a set of conditions says: a denial, or the approval that a step-up condition asks for. -/
theorem kind_checkContextConditions {conditions : List CompiledContextCondition} {tool : String} {v : Verdict}
    (h : checkContextConditions ext ctx conditions tool = some v) :
    v.kind = .deny ∨ v.kind = .requireApproval ∧ conditions.any CompiledContextCondition.isStepUp = true := by
  rw [checkContextConditions] at h
  rcases Option.or_eq_some_iff.mp h with hcombined | ⟨-, hfind⟩
  · obtain ⟨pair, -, hpair⟩ := Option.bind_eq_some_iff.mp hcombined
    exact .inl (denies_checkCombined pair.1 pair.2 v hpair)
  · obtain ⟨e, he, hcheck⟩ := List.exists_of_findSome?_eq_some hfind
    split at hcheck
    · cases hcheck
    · by_cases hstep : e.1.isStepUp = true
      · refine .inr ⟨?_, List.any_eq_true.mpr ⟨e.1, List.fst_mem_of_mem_zipIdx he, hstep⟩⟩
        obtain ⟨c, i⟩ := e
        cases c with
        | stepUpAuth level reason =>
          change checkStepUpAuth ctx level reason = some v at hcheck
          rw [checkStepUpAuth] at hcheck
          split at hcheck
          · cases hcheck
            rfl
          · cases hcheck
        | _ => cases hstep
      · exact .inl (denies_checkCondition (by simpa using hstep) v hcheck)

end Context

/-! ## One policy -/

section Single

variable (ext : ContextExternals) (settings : Settings) (action : Action) (context : Option SessionContext)

/-- Can the context conditions of a policy ask for a stronger login? -/
def asksStepUp (cp : ContextPolicy) : Bool :=
  context.isSome && cp.conditions.contextConditions.any CompiledContextCondition.isStepUp

theorem kind_checkContextOf {cp : ContextPolicy} {v : Verdict} (h : checkContextOf ext action context cp = some v) :
    v.kind = .deny ∨ v.kind = .requireApproval ∧ asksStepUp context cp = true := by
  unfold checkContextOf at h
  split at h
  · cases h
  · cases context with
    | none =>
      refine .inl ?_
      change checkContext cp = some v at h
      rw [checkContext] at h
      split at h
      · cases h
      · cases h
        rfl
    | some ctx =>
      rcases kind_checkContextConditions h with hdeny | ⟨happroval, hstep⟩
      · exact .inl hdeny
      · exact .inr ⟨happroval, by rw [asksStepUp, hstep]; rfl⟩

/-- The conditions of a policy, by its flags. -/
theorem evaluateCompiledConditions_eq (cp : ContextPolicy) :
    evaluateCompiledConditions ext.toExternals settings action cp =
      orAsk (firedVerdict ext settings action cp) (.ok (closingDecision action cp)) := by
  have hcore := verdict_core ext.toExternals settings action cp none
  rw [evaluateCompiledConditions, hcore, conditionsDecision, firedVerdict]
  have hask : askConstraint ext.toExternals settings (Option.isSome (none : Trace)) cp.policy action =
      evaluateCompiledConstraint ext.toExternals settings cp.policy action := by
    funext c
    rfl
  rw [hask]
  cases parametersDecision action cp with
  | none => rfl
  | some v => rfl

/-- The first of two outcomes that decides. -/
def orOutcome (o next : VerdictOutcome) : VerdictOutcome :=
  match o with
  | .decided kind => .decided kind
  | .proceed => next

theorem outcomeOf_orAsk (d next : Except EngineError (Option Verdict)) :
    outcomeOf (orAsk d next) = orOutcome (outcomeOf d) (outcomeOf next) := by
  cases d with
  | error e => rfl
  | ok r =>
    cases r with
    | none => rfl
    | some v => rfl

/-- An approval that is required fires. -/
theorem outcomeOf_firedVerdict_of_approval {cp : ContextPolicy} (happroval : cp.conditions.requireApproval = true) :
    outcomeOf (firedVerdict ext settings action cp) = .decided .requireApproval := by
  rw [firedVerdict, parametersDecision, if_pos happroval]
  rfl

/-- A conditional policy that matches and whose rules and context pass. -/
theorem computeSingleVerdict_conditional {cp : ContextPolicy} {conditions : Json}
    (hpolicy : cp.policy.policyType = .conditional conditions)
    (hmatched : cp.matchesAction ext.toExternals action = true)
    (hrules : checkRules ext.toExternals settings action cp = none)
    (hcontext : checkContextOf ext action context cp = none) :
    computeSingleVerdict (resolve ext settings action context cp) =
      outcomeOf (evaluateCompiledConditions ext.toExternals settings action cp) := by
  have hdeny : cp.policy.isDeny = false := by rw [Policy.isDeny, hpolicy]
  rw [evaluateCompiledConditions_eq, outcomeOf_orAsk]
  cases hfired : outcomeOf (firedVerdict ext settings action cp) with
  | decided kind =>
    cases happroval : cp.conditions.requireApproval with
    | true =>
      rw [outcomeOf_firedVerdict_of_approval ext settings action happroval] at hfired
      cases hfired
      simp [computeSingleVerdict, resolve, orOutcome, hmatched, hrules, hcontext, hdeny, hpolicy, happroval]
    | false =>
      simp [computeSingleVerdict, resolve, orOutcome, hmatched, hrules, hcontext, hdeny, hpolicy, happroval, hfired]
  | proceed =>
    have happroval : cp.conditions.requireApproval = false := by
      by_contra hne
      rw [outcomeOf_firedVerdict_of_approval ext settings action (by simpa using hne)] at hfired
      cases hfired
    simp only [computeSingleVerdict, resolve, orOutcome, hmatched, hrules, hcontext, hdeny, hpolicy, happroval, hfired,
      closingDecision, noMatchVerdict]
    cases allConstraintsSkipped cp.conditions.constraints.length
      (cp.conditions.constraints.any (wasEvaluated action)) <;>
    cases cp.conditions.onNoMatchContinue <;> rfl

/-- **One policy**: the engine does what the core says, or asks for the approval of a step-up condition where the
core denies. -/
theorem computeSingleVerdict_resolve (cp : ContextPolicy) :
    computeSingleVerdict (resolve ext settings action context cp) =
        outcomeOf (askCompiledPolicyCtx ext settings action context cp) ∨
      asksStepUp context cp = true ∧
        computeSingleVerdict (resolve ext settings action context cp) = .decided .deny ∧
        outcomeOf (askCompiledPolicyCtx ext settings action context cp) = .decided .requireApproval := by
  rw [askCompiledPolicyCtx]
  cases hmatched : cp.matchesAction ext.toExternals action with
  | false =>
    refine .inl ?_
    simp [computeSingleVerdict, resolve, hmatched, outcomeOf]
  | true =>
    rw [if_pos rfl, applyCompiledPolicyCtx]
    cases hrules : checkRules ext.toExternals settings action cp with
    | some v =>
      refine .inl ?_
      have hkind := denies_checkRules ext.toExternals settings action cp v hrules
      simp [computeSingleVerdict, resolve, hmatched, hrules, outcomeOf, orAsk, hkind]
    | none =>
      have hcore : ∀ v, checkContextOf ext action context cp = some v →
          computeSingleVerdict (resolve ext settings action context cp) = .decided .deny := by
        intro v hv
        simp [computeSingleVerdict, resolve, hmatched, hrules, hv]
      cases hcontext : checkContextOf ext action context cp with
      | some v =>
        rcases kind_checkContextOf ext action context hcontext with hkind | ⟨hkind, hstep⟩
        · exact .inl ((hcore v hcontext).trans (congrArg VerdictOutcome.decided hkind).symm)
        · exact .inr ⟨hstep, hcore v hcontext, congrArg VerdictOutcome.decided hkind⟩
      | none =>
        refine .inl ?_
        cases hpolicy : cp.policy.policyType with
        | allow => simp [computeSingleVerdict, resolve, hmatched, hrules, hcontext, hpolicy, Policy.isDeny, outcomeOf,
            orAsk, Verdict.kind]
        | deny => simp [computeSingleVerdict, resolve, hmatched, hrules, hcontext, hpolicy, Policy.isDeny, outcomeOf,
            orAsk, Verdict.kind]
        | conditional conditions =>
          exact computeSingleVerdict_conditional ext settings action context hpolicy hmatched hrules hcontext

/-! ## The engine -/

/-- **The list**: the verdicts agree, or the engine asks for a step-up approval where the core denies. -/
theorem computeVerdict_resolve (cps : List ContextPolicy) :
    computeVerdict (cps.map (resolve ext settings action context)) =
        kindOf (orNoMatch (firstDecision (askCompiledPolicyCtx ext settings action context) cps)) ∨
      (∃ cp ∈ cps, asksStepUp context cp = true) ∧
        computeVerdict (cps.map (resolve ext settings action context)) = .deny ∧
        kindOf (orNoMatch (firstDecision (askCompiledPolicyCtx ext settings action context) cps)) =
          .requireApproval := by
  induction cps with
  | nil => exact .inl rfl
  | cons cp cps ih =>
    rw [List.map_cons, computeVerdict, firstDecision]
    rcases computeSingleVerdict_resolve ext settings action context cp with hsame | ⟨hstep, hcore, hask⟩
    · rw [hsame]
      cases askCompiledPolicyCtx ext settings action context cp with
      | error e => exact .inl rfl
      | ok result =>
        cases result with
        | some v => exact .inl rfl
        | none =>
          rcases ih with hrest | ⟨⟨other, hother, hstep⟩, hcore, hask⟩
          · exact .inl hrest
          · exact .inr ⟨⟨other, List.mem_cons_of_mem cp hother, hstep⟩, hcore, hask⟩
    · rw [hcore]
      refine .inr ⟨⟨cp, List.mem_cons_self, hstep⟩, rfl, ?_⟩
      cases hresult : askCompiledPolicyCtx ext settings action context cp with
      | error e => rw [hresult] at hask; cases hask
      | ok result =>
        cases result with
        | none => rw [hresult] at hask; cases hask
        | some v =>
          rw [hresult] at hask
          exact VerdictOutcome.decided.inj hask

theorem askCompiledPolicyCtx_pass {cp : ContextPolicy}
    (hcp : mayMatch (ext.normalizeFull action.tool) cp = false) :
    askCompiledPolicyCtx ext settings action context cp = .ok none := by
  rw [askCompiledPolicyCtx, if_neg]
  intro hm
  rw [mayMatch_of_matches ext.toExternals action hm] at hcp
  cases hcp

/-- With a context too, going through the index is asking every policy in order. -/
theorem evaluateWithCompiledCtx_scan {engine : PolicyEngine CompiledContextCondition} (hindexed : engine.Indexed) :
    engine.evaluateWithCompiledCtx ext action context =
      orNoMatch (firstDecision (askCompiledPolicyCtx ext engine.toSettings action context) engine.compiledPolicies) := by
  rw [evaluateWithCompiledCtx_eq, firstDecision_candidates hindexed]
  exact fun cp hcp => askCompiledPolicyCtx_pass ext engine.toSettings action context hcp

end Single

/-- **The engine refines the core.**  On every action, in every context, the engine's verdict has the kind the core
computes from the resolved policies, an error counting as a denial; but where a step-up condition of some policy
asks for approval, the core denies.  The two allow the same actions. -/
theorem evaluate_refines_core (env : CompileEnv CompiledContextCondition) (strictMode : Bool) (policies : List Policy)
    (engine : PolicyEngine CompiledContextCondition)
    (hengine : PolicyEngine.withPolicies env strictMode policies = .ok engine) (ext : ContextExternals)
    (action : Action) (context : Option SessionContext) :
    (kindOf (engine.evaluateWithCompiledCtx ext action context) = .allow ↔
        computeVerdict (engine.compiledPolicies.map (resolve ext engine.toSettings action context)) = .allow) ∧
      (computeVerdict (engine.compiledPolicies.map (resolve ext engine.toSettings action context)) =
          kindOf (engine.evaluateWithCompiledCtx ext action context) ∨
        (∃ cp ∈ engine.compiledPolicies, asksStepUp context cp = true) ∧
          computeVerdict (engine.compiledPolicies.map (resolve ext engine.toSettings action context)) = .deny ∧
          kindOf (engine.evaluateWithCompiledCtx ext action context) = .requireApproval) := by
  obtain ⟨-, hindexed, -⟩ := withPolicies_eq_ok hengine
  rw [evaluateWithCompiledCtx_scan ext action context hindexed]
  have hlist := computeVerdict_resolve ext engine.toSettings action context engine.compiledPolicies
  refine ⟨?_, hlist⟩
  rcases hlist with hsame | ⟨-, hcore, hask⟩
  · rw [hsame]
  · rw [hcore, hask]
    decide

/-- The compilation of step-up conditions. -/
def compileStepUp (policy : Policy) (condition : Json) : Except PolicyValidationError CompiledContextCondition :=
  match (condition.get "required_level").bind Json.asU64 with
  | none => invalid policy "step_up_auth missing 'required_level' integer"
  | some level =>
    let level := level.toNat
    if 4 < level then invalid policy s!"step_up_auth required_level must be 0-4, got {level}"
    else .ok (.stepUpAuth level s!"Step-up authentication required (level {level}) for policy '{policy.name}'")

/-- An engine whose context conditions are step-up conditions. -/
def stepUpEnv : CompileEnv CompiledContextCondition := { plainContextEnv with compileContextCondition := compileStepUp }

/-- Writing needs a login of level 2, and everything else is denied. -/
def stepUpPolicies : List Policy :=
  [⟨"write:*", "writes", .conditional <| .object [("context_conditions", .array [.object
      [("type", .string "step_up_auth"), ("required_level", .number (.posInt 2))]])], 10, none, none⟩,
    ⟨"*", "rest", .deny, 0, none, none⟩]

def writing : Action := ⟨"write", "file", .null, [], [], []⟩

theorem eq_ok_of_toOption {ε α : Type} {r : Except ε α} {a : α} (h : r.toOption = some a) : r = .ok a := by
  cases r with
  | error e => cases h
  | ok b => rw [Option.some.inj h]

/-- The exception is real: the engine asks for approval, the core denies. -/
theorem evaluate_refines_core_stepUp : ∃ engine,
    PolicyEngine.withPolicies stepUpEnv false stepUpPolicies = .ok engine ∧
      kindOf (engine.evaluateWithCompiledCtx plainContextExternals writing (some agentContext)) = .requireApproval ∧
      computeVerdict (engine.compiledPolicies.map
        (resolve plainContextExternals engine.toSettings writing (some agentContext))) = .deny ∧
      (kindOf (engine.evaluateWithCompiledCtx plainContextExternals writing (some agentContext)) = .allow ↔
        computeVerdict (engine.compiledPolicies.map
          (resolve plainContextExternals engine.toSettings writing (some agentContext))) = .allow) := by
  have hkinds : (PolicyEngine.withPolicies stepUpEnv false stepUpPolicies).toOption.map (fun engine =>
      (kindOf (engine.evaluateWithCompiledCtx plainContextExternals writing (some agentContext)),
        computeVerdict (engine.compiledPolicies.map
          (resolve plainContextExternals engine.toSettings writing (some agentContext))))) =
      some (.requireApproval, .deny) := by decide +kernel
  obtain ⟨engine, hengine, hkind⟩ := Option.map_eq_some_iff.mp hkinds
  have hok := eq_ok_of_toOption hengine
  obtain ⟨hkind, hcore⟩ := Prod.mk.inj hkind
  exact ⟨engine, hok, hkind, hcore, (evaluate_refines_core stepUpEnv false stepUpPolicies engine hok
    plainContextExternals writing (some agentContext)).1⟩

/-! ## Denials outrank -/

end Vellaveto
