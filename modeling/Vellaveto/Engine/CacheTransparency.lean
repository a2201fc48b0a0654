/-
  IS A CACHED VERDICT THE ONE THAT EVALUATION GIVES?  (`build_key`, `is_cacheable_context` of
  `vellaveto-engine/src/cache.rs`, against all that `evaluate_action_with_context` reads.)

  PROGRAM.      A verdict is cached under a key of hashes, and served to every request with that key.

  SPEC.         Two requests that may be cached and have one key get one verdict, whatever the time.

  CORRECTNESS.  What the key says of a request is enough for the tool index, the tool patterns, the
                parameters and all context conditions but time windows.  It is NOT enough for the target
                rules, which read paths, domains and addresses more finely than the key and in their order,
                and for time windows, which read the clock.
    1. `Alike`                          the policies that are reached see no difference in the rest;
    2. `Indistinct`                     no policy can see a difference in the rest;
    3. `cached_decisions_transparent`   requests with one key get one verdict from every set of policies
                                        exactly if they are indistinct; from a given one if they are alike, and
                                        then so does everybody that a cache serves;
    4. `case_and_clock_differ`          `/tmp/FOO` and `/tmp/foo` have one key and two verdicts, and so has one
                                        call at noon and in the evening.
-/
import Vellaveto.Engine.CacheKey
import Vellaveto.JsonText
import Vellaveto.Lib.Run

namespace Vellaveto.Cache

open Vellaveto.Lib

/-! ### Policies -/

section Policies

variable {ext : ContextExternals} {settings : Settings}

/-- The conditions of a compiled policy read nothing of an action but its parameters. -/
theorem evaluateCompiledConditions_same {a b : Action} (h : a.parameters = b.parameters)
    (cp : ContextPolicy) :
    evaluateCompiledConditions ext.toExternals settings a cp =
      evaluateCompiledConditions ext.toExternals settings b cp := by
  have hask : askConstraint ext.toExternals settings false cp.policy a =
      askConstraint ext.toExternals settings false cp.policy b := by
    funext c
    show evaluateCompiledConstraint _ _ _ a c = evaluateCompiledConstraint _ _ _ b c
    rw [evaluateCompiledConstraint, evaluateCompiledConstraint, h]
  have hevaluated : wasEvaluated a = wasEvaluated b := by
    funext c
    rw [wasEvaluated, wasEvaluated, h]
  rw [evaluateCompiledConditions, evaluateCompiledConditions, verdict_core, verdict_core,
    conditionsDecision, conditionsDecision, parametersDecision, parametersDecision, closingDecision,
    closingDecision, h, hevaluated]
  show orAsk _ (orAsk (firstDecision (askConstraint _ _ false _ a) _) _) = _
  rw [hask]
  rfl

/-- So do those of a policy that is passed ad hoc. -/
theorem parameterConstraintLoop_same {a b : Action} (h : a.parameters = b.parameters) (policy : Policy)
    (constraints : List Json) (anyEvaluated : Bool) :
    Legacy.parameterConstraintLoop ext.toExternals settings policy a constraints anyEvaluated =
      Legacy.parameterConstraintLoop ext.toExternals settings policy b constraints anyEvaluated := by
  induction constraints generalizing anyEvaluated with
  | nil => rfl
  | cons c cs ih =>
    have hone : Legacy.evaluateParameterConstraint ext.toExternals settings policy c a =
        Legacy.evaluateParameterConstraint ext.toExternals settings policy c b := by
      rw [Legacy.evaluateParameterConstraint, Legacy.evaluateParameterConstraint, h]
    rw [Legacy.parameterConstraintLoop, Legacy.parameterConstraintLoop, hone]
    simp only [ih]

theorem evaluateConditions_same {a b : Action} (h : a.parameters = b.parameters) (policy : Policy)
    (conditions : Json) :
    Legacy.evaluateConditions ext.toExternals settings policy a conditions =
      Legacy.evaluateConditions ext.toExternals settings policy b conditions := by
  have hconstraints : Legacy.evaluateParameterConstraints ext.toExternals settings policy a =
      Legacy.evaluateParameterConstraints ext.toExternals settings policy b := by
    funext arr continues
    rw [Legacy.evaluateParameterConstraints, Legacy.evaluateParameterConstraints,
      parameterConstraintLoop_same h]
  have hnames : Legacy.checkParameterNames policy a = Legacy.checkParameterNames policy b := by
    funext key wantPresent reason conditions
    rw [Legacy.checkParameterNames, Legacy.checkParameterNames, h]
  rw [Legacy.evaluateConditions, Legacy.evaluateConditions, Legacy.evaluateConditionFields,
    Legacy.evaluateConditionFields, hconstraints, hnames]

end Policies

/-! ### Alike -/

section Alike

variable (ext : ContextExternals) (engine : PolicyEngine CompiledContextCondition)
  (policies : List Policy) (o o' : Occasion)

/-- One compiled policy sees no difference: its path, network and IP rules give the same answer, and if
    they pass, the time windows it gets to are open at both times or closed at both. -/
structure PolicyAlike (cp : ContextPolicy) : Prop where
  rules : checkRules ext.toExternals engine.toSettings o.action cp =
    checkRules ext.toExternals engine.toSettings o'.action cp
  windows : checkRules ext.toExternals engine.toSettings o.action cp = none →
    ∀ ctx ∈ o.context, WindowsAlike (o.externals ext) o'.clock ctx.toConditionContext
      (ext.normalizeFull o.action.tool) cp.conditions.contextConditions

/-- The compiled policies that may match, in the order of the evaluation. -/
def candidates : List ContextPolicy :=
  (engine.collectCandidateIndices (ext.normalizeFull o.action.tool)).map engine.policyAt

/-- The ad hoc policies in the order of the evaluation. -/
def ordered : List Policy := if isSorted policies then policies else sortPolicies policies

/-- **The condition.**  The context checks say the same; and no policy that the first request gets to, and
    that matches it, tells the two apart by its rules or its time windows. -/
structure Alike : Prop where
  validation : o.validation ext = o'.validation ext
  compiled : o.validation ext = .ok () → engine.compiledPolicies ≠ [] →
    Asked (askCompiledPolicyCtx (o.externals ext) engine.toSettings o.action o.context)
      (fun cp => cp.matchesAction ext.toExternals o.action = true → PolicyAlike ext engine o o' cp)
      (candidates ext engine o)
  adHoc : o.validation ext = .ok () → engine.compiledPolicies = [] → o.isMeaningful = false →
    Asked (Legacy.askPolicy ext.toExternals engine.toSettings o.action)
      (fun p => Legacy.matchesAction ext.toExternals o.action p = true →
        Legacy.checkRulesLegacy ext.toExternals engine.toSettings o.action p =
          Legacy.checkRulesLegacy ext.toExternals engine.toSettings o'.action p)
      (ordered policies)

end Alike

section Transparent

variable {ext : ContextExternals} {engine : PolicyEngine CompiledContextCondition} {o o' : Occasion}
  (htool : ext.normalizeFull o.action.tool = ext.normalizeFull o'.action.tool)
  (hfunction : ext.normalizeFull o.action.function = ext.normalizeFull o'.action.function)
  (hparameters : o.action.parameters = o'.action.parameters)

include htool in
theorem checkContextOf_alike (hcontext : SameContext o.context o'.context) {cp : ContextPolicy}
    (hwindows : ∀ ctx ∈ o.context, WindowsAlike (o.externals ext) o'.clock ctx.toConditionContext
      (ext.normalizeFull o.action.tool) cp.conditions.contextConditions) :
    checkContextOf (o.externals ext) o.action o.context cp =
      checkContextOf (o'.externals ext) o'.action o'.context cp := by
  have htools : (o.externals ext).normalizeFull o.action.tool =
      (o'.externals ext).normalizeFull o'.action.tool := htool
  rw [checkContextOf.eq_def, checkContextOf.eq_def, ← htools]
  split
  · rfl
  · generalize o.context = c at hcontext hwindows
    generalize o'.context = c' at hcontext
    cases hcontext with
    | none => rfl
    | @some ctx ctx' hsame => exact checkContextConditions_same hsame.1 (hwindows ctx rfl)

include htool hfunction hparameters in
/-- One compiled policy answers alike. -/
theorem askCompiledPolicyCtx_alike (hcontext : SameContext o.context o'.context) {cp : ContextPolicy}
    (halike : cp.matchesAction ext.toExternals o.action = true → PolicyAlike ext engine o o' cp) :
    askCompiledPolicyCtx (o.externals ext) engine.toSettings o.action o.context cp =
      askCompiledPolicyCtx (o'.externals ext) engine.toSettings o'.action o'.context cp := by
  have hmatch : cp.matchesAction ext.toExternals o.action =
      cp.matchesAction ext.toExternals o'.action := by
    rw [CompiledPolicy.matchesAction, CompiledPolicy.matchesAction, htool, hfunction]
  rw [askCompiledPolicyCtx, askCompiledPolicyCtx]
  show (if cp.matchesAction ext.toExternals o.action = true then _ else _) =
    (if cp.matchesAction ext.toExternals o'.action = true then _ else _)
  rw [← hmatch]
  split
  · rename_i hmatches
    obtain ⟨hrules, hwindows⟩ := halike hmatches
    rw [applyCompiledPolicyCtx, applyCompiledPolicyCtx]
    show orAsk (.ok ((checkRules ext.toExternals engine.toSettings o.action cp).or _)) _ =
      orAsk (.ok ((checkRules ext.toExternals engine.toSettings o'.action cp).or _)) _
    have hchecks : (checkRules ext.toExternals engine.toSettings o.action cp).or
          (checkContextOf (o.externals ext) o.action o.context cp) =
        (checkRules ext.toExternals engine.toSettings o'.action cp).or
          (checkContextOf (o'.externals ext) o'.action o'.context cp) := by
      rw [← hrules]
      cases hresult : checkRules ext.toExternals engine.toSettings o.action cp with
      | some v => rfl
      | none =>
        rw [Option.none_or, Option.none_or]
        exact checkContextOf_alike htool hcontext (hwindows hresult)
    rw [hchecks]
    congr 1
    cases cp.policy.policyType with
    | allow => rfl
    | deny => rfl
    | conditional conditions => exact evaluateCompiledConditions_same hparameters cp
  · rfl

include htool hfunction in
theorem matchesAction_same (p : Policy) :
    Legacy.matchesAction ext.toExternals o.action p = Legacy.matchesAction ext.toExternals o'.action p := by
  have htools : ∀ pattern, Legacy.matchPattern ext.toExternals pattern o.action.tool =
      Legacy.matchPattern ext.toExternals pattern o'.action.tool := by
    intro pattern
    rw [Legacy.matchPattern, Legacy.matchPattern, htool]
  have hfunctions : ∀ pattern, Legacy.matchPattern ext.toExternals pattern o.action.function =
      Legacy.matchPattern ext.toExternals pattern o'.action.function := by
    intro pattern
    rw [Legacy.matchPattern, Legacy.matchPattern, hfunction]
  rw [Legacy.matchesAction, Legacy.matchesAction]
  simp only [htools, hfunctions]

include htool hfunction hparameters in
/-- One ad hoc policy answers alike. -/
theorem askPolicy_alike {p : Policy}
    (halike : Legacy.matchesAction ext.toExternals o.action p = true →
      Legacy.checkRulesLegacy ext.toExternals engine.toSettings o.action p =
        Legacy.checkRulesLegacy ext.toExternals engine.toSettings o'.action p) :
    Legacy.askPolicy ext.toExternals engine.toSettings o.action p =
      Legacy.askPolicy ext.toExternals engine.toSettings o'.action p := by
  have hmatch := matchesAction_same htool hfunction p
  rw [Legacy.askPolicy, Legacy.askPolicy, ← hmatch]
  split
  · rename_i hmatches
    rw [Legacy.applyPolicy, Legacy.applyPolicy, halike hmatches]
    congr 1
    cases p.policyType with
    | allow => rfl
    | deny => rfl
    | conditional conditions => exact evaluateConditions_same hparameters p conditions
  · rfl

/-- An evaluation in one piece: the check of the context, then the policies in order. -/
theorem evaluate_eq (policies : List Policy) :
    o.evaluate ext engine policies =
      match o.validation ext with
      | .error reason => .ok (.deny reason)
      | .ok _ =>
        if engine.compiledPolicies ≠ [] then
          orNoMatch (firstDecision
            (askCompiledPolicyCtx (o.externals ext) engine.toSettings o.action o.context)
            (candidates ext engine o))
        else if o.isMeaningful then
          .ok (.deny <| "Policy engine has no compiled policies; context conditions cannot be " ++
            "evaluated (fail-closed)")
        else if policies.isEmpty then .ok (.deny "No policies defined")
        else orNoMatch (firstDecision (Legacy.askPolicy ext.toExternals engine.toSettings o.action)
          (ordered policies)) := by
  have hcompiled : orNoMatch (firstDecision
        (askCompiledPolicyCtx (o.externals ext) engine.toSettings o.action o.context)
        (candidates ext engine o)) =
      engine.evaluateWithCompiledCtx (o.externals ext) o.action o.context := by
    rw [evaluateWithCompiledCtx_eq, candidates, firstDecision_map]
    rfl
  have hadHoc : engine.compiledPolicies = [] →
      engine.evaluateAction ext.toExternals o.action policies =
        if policies.isEmpty then .ok (.deny "No policies defined")
        else orNoMatch (firstDecision (Legacy.askPolicy ext.toExternals engine.toSettings o.action)
          (ordered policies)) := by
    intro hempty
    rw [PolicyEngine.evaluateAction, hempty, if_neg (by simp), ordered]
    split
    · rfl
    · split
      · rfl
      · rfl
  rw [Occasion.evaluate, PolicyEngine.evaluateActionWithContext.eq_def, Occasion.validation.eq_def,
    Occasion.isMeaningful, hcompiled]
  cases hcontext : o.context with
  | none =>
    dsimp only
    by_cases hempty : engine.compiledPolicies = []
    · rw [if_neg (by simpa using hempty), if_neg (by simp)]
      exact hadHoc hempty
    · rw [if_pos hempty, evaluateWithCompiledCtx_none, PolicyEngine.evaluateAction,
        if_pos (by simpa using hempty)]
  | some ctx =>
    dsimp only
    show (match ctx.validate ext.toExternals with
      | .error reason => _
      | .ok _ => _) = _
    cases ctx.validate ext.toExternals with
    | error reason => rfl
    | ok u =>
      dsimp only
      by_cases hempty : engine.compiledPolicies = []
      · have hnone : ¬ engine.compiledPolicies ≠ [] := fun hne => hne hempty
        have hnone' : ¬ (!engine.compiledPolicies.isEmpty) = true := by simpa using hempty
        rw [if_neg hnone', if_neg hnone, Option.any_some]
        split
        · rfl
        · exact hadHoc hempty
      · rw [if_pos (by simpa using hempty), if_pos hempty]

theorem isMeaningful_of_sameContext (hcontext : SameContext o.context o'.context) :
    o.isMeaningful = o'.isMeaningful := by
  rw [Occasion.isMeaningful, Occasion.isMeaningful]
  generalize o.context = c at hcontext
  generalize o'.context = c' at hcontext
  cases hcontext with
  | none => rfl
  | some hsame => exact hsame.2

include htool hfunction hparameters in
/-- **Alike requests get one verdict.** -/
theorem evaluate_alike (hcontext : SameContext o.context o'.context) {policies : List Policy}
    (halike : Alike ext engine policies o o') :
    o.evaluate ext engine policies = o'.evaluate ext engine policies := by
  rw [evaluate_eq, evaluate_eq, ← halike.validation, ← isMeaningful_of_sameContext hcontext]
  cases hvalid : o.validation ext with
  | error reason => rfl
  | ok u =>
    dsimp only
    split
    · rename_i hcompiled
      have hsame : candidates ext engine o = candidates ext engine o' := by
        rw [candidates, candidates, htool]
      rw [← hsame, firstDecision_eq_of_asked ((halike.compiled hvalid hcompiled).mono ?_)]
      intro cp _ hcp
      exact askCompiledPolicyCtx_alike htool hfunction hparameters hcontext hcp
    · rename_i hempty
      split
      · rfl
      · rename_i hmeaningful
        have hasked := halike.adHoc hvalid (by simpa using hempty) (by simpa using hmeaningful)
        rw [firstDecision_eq_of_asked (hasked.mono ?_)]
        intro p _ hp
        exact askPolicy_alike htool hfunction hparameters hp

end Transparent

/-! ### Every set of policies -/

section Indistinct

variable (ext : ContextExternals) (o o' : Occasion)

/-- **Nothing that a policy can read differs**: the context checks say the same, and if they pass, no rules
    tell the targets apart, and the clock shows the same unless there is no context. -/
structure Indistinct : Prop where
  validation : o.validation ext = o'.validation ext
  rules : o.validation ext = .ok () → ∀ settings (cp : ContextPolicy),
    checkRules ext.toExternals settings o.action cp = checkRules ext.toExternals settings o'.action cp
  adHoc : o.validation ext = .ok () → o.isMeaningful = false → ∀ settings p,
    Legacy.matchesAction ext.toExternals o.action p = true →
    Legacy.checkRulesLegacy ext.toExternals settings o.action p =
      Legacy.checkRulesLegacy ext.toExternals settings o'.action p
  clock : o.validation ext = .ok () → o.context.isSome = true → o.clock = o'.clock

variable {ext o o'}

theorem Indistinct.alike (h : Indistinct ext o o') (engine : PolicyEngine CompiledContextCondition)
    (policies : List Policy) : Alike ext engine policies o o' := by
  refine ⟨h.validation, fun hvalid _ => ?_, fun hvalid _ hmeaningful => ?_⟩
  · apply asked_of_forall
    intro cp _ _
    refine ⟨h.rules hvalid _ cp, ?_⟩
    intro _ ctx hctx i c _ _ _
    have hclock := h.clock hvalid (Option.isSome_iff_exists.mpr ⟨ctx, hctx⟩)
    rw [← hclock]
    rfl
  · apply asked_of_forall
    intro p _ hmatches
    exact h.adHoc hvalid hmeaningful _ p hmatches

/-- An engine for some compiled policies. -/
def engineOf (settings : Settings) (compiled : List ContextPolicy) :
    PolicyEngine CompiledContextCondition :=
  { settings with compiledPolicies := compiled, toolIndex := buildToolIndex compiled }

/-- An engine with one policy, for every tool. -/
theorem evaluate_engineOf {settings : Settings} {cp : ContextPolicy} (hvalid : o.validation ext = .ok ())
    (huniversal : cp.toolMatcher = .universal) (policies : List Policy) :
    o.evaluate ext (engineOf settings [cp]) policies =
      orNoMatch (applyCompiledPolicyCtx (o.externals ext) settings o.action o.context cp) := by
  have hmatches : cp.matchesAction ext.toExternals o.action = true := by
    rw [CompiledPolicy.matchesAction, huniversal]
    rfl
  have hindexed : (engineOf settings [cp]).Indexed := rfl
  have hscan : firstDecision (askCompiledPolicyCtx (o.externals ext) settings o.action o.context)
      (candidates ext (engineOf settings [cp]) o) =
      firstDecision (askCompiledPolicyCtx (o.externals ext) settings o.action o.context) [cp] := by
    rw [candidates, firstDecision_map]
    apply firstDecision_candidates hindexed
    intro cp' hcp'
    rw [askCompiledPolicyCtx, if_neg]
    intro hm
    rw [mayMatch_of_matches ext.toExternals o.action hm] at hcp'
    cases hcp'
  have hnonempty : (engineOf settings [cp]).compiledPolicies ≠ [] := List.cons_ne_nil cp []
  rw [evaluate_eq, hvalid]
  dsimp only
  rw [if_pos hnonempty]
  show orNoMatch (firstDecision (askCompiledPolicyCtx (o.externals ext) settings o.action o.context) _) = _
  rw [hscan, firstDecision_singleton, askCompiledPolicyCtx]
  exact congrArg orNoMatch (if_pos hmatches)

theorem orNoMatch_orAsk (r : Option Verdict) (v : Verdict) :
    orNoMatch (orAsk (.ok r) (.ok (some v))) = .ok (r.getD v) := by
  cases r with
  | none => rfl
  | some w => rfl

/-- The rules of a policy, with a verdict for what they let through. -/
def rulesOnly (cp : ContextPolicy) (policyType : PolicyType) : ContextPolicy :=
  { cp with
    policy := { cp.policy with policyType := policyType }
    toolMatcher := .universal
    conditions := noConditions }

theorem evaluate_rulesOnly (hvalid : o.validation ext = .ok ()) (settings : Settings) (cp : ContextPolicy) :
    o.evaluate ext (engineOf settings [rulesOnly cp .allow]) [] =
        .ok ((checkRules ext.toExternals settings o.action cp).getD .allow) ∧
      o.evaluate ext (engineOf settings [rulesOnly cp .deny]) [] =
        .ok ((checkRules ext.toExternals settings o.action cp).getD (.deny cp.policy.denyReason)) := by
  rw [evaluate_engineOf hvalid rfl, evaluate_engineOf hvalid rfl, ← orNoMatch_orAsk, ← orNoMatch_orAsk]
  have hrules : ∀ policyType, (checkRules ext.toExternals settings o.action (rulesOnly cp policyType)).or
      (checkContextOf (o.externals ext) o.action o.context (rulesOnly cp policyType)) =
        checkRules ext.toExternals settings o.action cp := by
    intro policyType
    exact Option.or_none
  constructor
  · rw [applyCompiledPolicyCtx]
    exact congrArg (fun r => orNoMatch (orAsk (.ok r) _)) (hrules .allow)
  · rw [applyCompiledPolicyCtx]
    exact congrArg (fun r => orNoMatch (orAsk (.ok r) _)) (hrules .deny)

/-- A policy that is open in one hour of one day, by the clock that its condition at position `i` reads. -/
def windowPolicy (i : Nat) (t : DateTime) : ContextPolicy where
  policy := ⟨"*", "window", .conditional (.object []), 0, none, none⟩
  toolMatcher := .universal
  conditions :=
    { (noConditions : CompiledConditions CompiledContextCondition) with
      contextConditions := List.replicate i .asyncTaskPolicy ++
        [.timeWindow t.hour (t.hour + 1) [t.numDaysFromMonday + 1] "closed"] }
  compiledPathRules := none
  compiledNetworkRules := none
  compiledIpRules := none

/-- Conditions that are enforced elsewhere only move the last one to its position. -/
theorem checkContextConditions_replicate (ext : ContextExternals) (ctx : ConditionContext) (tool : String)
    (i : Nat) {c : CompiledContextCondition} (hc : isTimeWindow c = true) :
    checkContextConditions ext ctx (List.replicate i .asyncTaskPolicy ++ [c]) tool =
      checkCondition ext ctx tool i c := by
  have hcombined : combinedDelegatedCapabilityConditions
      (List.replicate i .asyncTaskPolicy ++ [c]) = none := by
    rw [combinedDelegatedCapabilityConditions]
    induction i with
    | zero =>
      cases c with
      | timeWindow startHour endHour days denyReason => rfl
      | _ => cases hc
    | succ i ih =>
      rw [List.replicate_succ, List.cons_append]
      exact ih
  rw [checkContextConditions, hcombined]
  simp only [Option.bind_none, Option.none_or, Option.isSome_none, Bool.false_and, Bool.false_eq_true,
    if_false]
  rw [List.zipIdx_append, List.findSome?_append, List.findSome?_eq_none_iff.mpr, Option.none_or]
  · simp
  · rintro ⟨d, j⟩ hd
    have hasync := List.eq_of_mem_replicate (List.fst_mem_of_mem_zipIdx hd)
    dsimp only at hasync
    rw [hasync]
    rfl

theorem checkWindow_eq_none_iff {ctx : ConditionContext} (htime : ctx.timestamp = none) (tool : String)
    (i : Nat) (t : DateTime) :
    checkCondition ext ctx tool i
        (.timeWindow t.hour (t.hour + 1) [t.numDaysFromMonday + 1] "closed") = none ↔
      ext.clock i = t := by
  have hnow : (if ext.trustContextTimestamps = true then
      (ctx.timestamp.bind ext.parseFromRfc3339).getD (ext.clock i) else ext.clock i) = ext.clock i := by
    rw [htime]
    split
    · rfl
    · rfl
  rw [checkCondition, checkTimeWindow, hnow]
  obtain ⟨hour, day⟩ := t
  obtain ⟨hour', day'⟩ := ext.clock i
  rw [DateTime.mk.injEq]
  by_cases hday : day' = day
  · simp [hday]
    omega
  · simp [hday]

/-- A window that is closed denies. -/
theorem checkTimeWindow_eq_some {ctx : ConditionContext} {i startHour endHour : Nat} {days : List Nat}
    {denyReason : String} {v : Verdict}
    (h : checkTimeWindow ext ctx i startHour endHour days denyReason = some v) : v = .deny denyReason := by
  rw [checkTimeWindow] at h
  generalize (if ext.trustContextTimestamps = true then _ else _) = now at h
  dsimp only at h
  split at h
  · exact (Option.some.inj h).symm
  · by_cases hopen : (if startHour ≤ endHour then startHour ≤ now.hour ∧ now.hour < endHour
        else startHour ≤ now.hour ∨ now.hour < endHour)
    · rw [if_neg (not_not.mpr hopen)] at h
      cases h
    · rw [if_pos hopen] at h
      exact (Option.some.inj h).symm

/-- The verdict of the window policy. -/
theorem evaluate_windowPolicy {ctx : SessionContext} (hcontext : o.context = some ctx)
    (hvalid : o.validation ext = .ok ()) (settings : Settings) (i : Nat) (t : DateTime) :
    o.evaluate ext (engineOf settings [windowPolicy i t]) [] =
      .ok ((checkCondition (o.externals ext) ctx.toConditionContext (ext.normalizeFull o.action.tool) i
        (.timeWindow t.hour (t.hour + 1) [t.numDaysFromMonday + 1] "closed")).getD .allow) := by
  have hcheck : checkContextOf (o.externals ext) o.action o.context (windowPolicy i t) =
      checkCondition (o.externals ext) ctx.toConditionContext (ext.normalizeFull o.action.tool) i
        (.timeWindow t.hour (t.hour + 1) [t.numDaysFromMonday + 1] "closed") := by
    rw [checkContextOf.eq_def, hcontext, if_neg (by simp [windowPolicy]),
      ← checkContextConditions_replicate (o.externals ext) ctx.toConditionContext _ i rfl]
    rfl
  rw [evaluate_engineOf hvalid rfl, applyCompiledPolicyCtx, hcheck, ← orNoMatch_orAsk]
  rfl

theorem evaluate_invalid {reason : String} (hinvalid : o.validation ext = .error reason)
    (engine : PolicyEngine CompiledContextCondition) (policies : List Policy) :
    o.evaluate ext engine policies = .ok (.deny reason) := by
  rw [evaluate_eq, hinvalid]

/-- A policy that is passed ad hoc. -/
theorem evaluate_adHoc (hvalid : o.validation ext = .ok ()) (hmeaningful : o.isMeaningful = false)
    {p : Policy} (hmatches : Legacy.matchesAction ext.toExternals o.action p = true) (settings : Settings) :
    o.evaluate ext (engineOf settings []) [{ p with policyType := .allow }] =
        .ok ((Legacy.checkRulesLegacy ext.toExternals settings o.action p).getD .allow) ∧
      o.evaluate ext (engineOf settings []) [{ p with policyType := .deny }] =
        .ok ((Legacy.checkRulesLegacy ext.toExternals settings o.action p).getD
          (.deny "Request denied by policy")) := by
  have hone : ∀ q : Policy, Legacy.matchesAction ext.toExternals o.action q = true →
      o.evaluate ext (engineOf settings []) [q] =
        orNoMatch (Legacy.applyPolicy ext.toExternals settings q o.action) := by
    intro q hq
    have hempty : ¬ (engineOf settings []).compiledPolicies ≠ [] := fun hne => hne rfl
    rw [evaluate_eq, hvalid]
    dsimp only
    rw [if_neg hempty, hmeaningful, if_neg Bool.false_ne_true, if_neg (by simp)]
    show orNoMatch (firstDecision (Legacy.askPolicy ext.toExternals settings o.action) [q]) = _
    rw [firstDecision_singleton, Legacy.askPolicy, if_pos hq]
  rw [hone { p with policyType := .allow } hmatches, hone { p with policyType := .deny } hmatches,
    ← orNoMatch_orAsk, ← orNoMatch_orAsk]
  exact ⟨rfl, rfl⟩

section EverySet

variable (hall : ∀ engine : PolicyEngine CompiledContextCondition, engine.Indexed → ∀ policies,
  o.evaluate ext engine policies = o'.evaluate ext engine policies)

include hall

theorem validation_of_evaluate : o.validation ext = o'.validation ext := by
  -- a policy that allows everything
  have hallow := hall (engineOf ⟨false, 0⟩ [rulesOnly (windowPolicy 0 ⟨0, 0⟩) .allow]) rfl []
  cases hvalid : o.validation ext with
  | error reason =>
    rw [evaluate_invalid hvalid] at hallow
    cases hvalid' : o'.validation ext with
    | error reason' =>
      rw [evaluate_invalid hvalid'] at hallow
      cases hallow
      rfl
    | ok u =>
      rw [(evaluate_rulesOnly hvalid' _ _).1] at hallow
      cases hallow
  | ok u =>
    rw [(evaluate_rulesOnly hvalid _ _).1] at hallow
    cases hvalid' : o'.validation ext with
    | error reason' =>
      rw [evaluate_invalid hvalid'] at hallow
      cases hallow
    | ok u' => rfl

theorem rules_of_evaluate (hvalid : o.validation ext = .ok ()) (settings : Settings) (cp : ContextPolicy) :
    checkRules ext.toExternals settings o.action cp = checkRules ext.toExternals settings o'.action cp := by
  have hvalid' : o'.validation ext = .ok () := (validation_of_evaluate hall).symm.trans hvalid
  have hallow := hall (engineOf settings [rulesOnly cp .allow]) rfl []
  have hdeny := hall (engineOf settings [rulesOnly cp .deny]) rfl []
  rw [(evaluate_rulesOnly hvalid settings cp).1, (evaluate_rulesOnly hvalid' settings cp).1] at hallow
  rw [(evaluate_rulesOnly hvalid settings cp).2, (evaluate_rulesOnly hvalid' settings cp).2] at hdeny
  exact eq_of_getD_eq (Except.ok.inj hallow) (Except.ok.inj hdeny) (by simp)

theorem rulesLegacy_of_evaluate (hvalid : o.validation ext = .ok ())
    (hmeaningful : o.isMeaningful = false) (hmeaningful' : o'.isMeaningful = false) (settings : Settings)
    {p : Policy} (hmatches : Legacy.matchesAction ext.toExternals o.action p = true)
    (hmatches' : Legacy.matchesAction ext.toExternals o'.action p = true) :
    Legacy.checkRulesLegacy ext.toExternals settings o.action p =
      Legacy.checkRulesLegacy ext.toExternals settings o'.action p := by
  have hvalid' : o'.validation ext = .ok () := (validation_of_evaluate hall).symm.trans hvalid
  have hallow := hall (engineOf settings []) rfl [{ p with policyType := .allow }]
  have hdeny := hall (engineOf settings []) rfl [{ p with policyType := .deny }]
  have heval := evaluate_adHoc hvalid hmeaningful hmatches settings
  have heval' := evaluate_adHoc hvalid' hmeaningful' hmatches' settings
  rw [heval.1, heval'.1] at hallow
  rw [heval.2, heval'.2] at hdeny
  exact eq_of_getD_eq (Except.ok.inj hallow) (Except.ok.inj hdeny) (by simp)

theorem clock_of_evaluate (hvalid : o.validation ext = .ok ()) {ctx ctx' : SessionContext}
    (hctx : o.context = some ctx) (hctx' : o'.context = some ctx') (htime : ctx.timestamp = none)
    (htime' : ctx'.timestamp = none) : o.clock = o'.clock := by
  have hvalid' : o'.validation ext = .ok () := (validation_of_evaluate hall).symm.trans hvalid
  funext i
  -- the window of the hour that the first clock shows
  have hwindow := hall (engineOf ⟨false, 0⟩ [windowPolicy i (o.clock i)]) rfl []
  rw [evaluate_windowPolicy hctx hvalid, evaluate_windowPolicy hctx' hvalid',
    (checkWindow_eq_none_iff htime _ i (o.clock i)).mpr rfl] at hwindow
  have hopen : checkCondition (o'.externals ext) ctx'.toConditionContext
      (ext.normalizeFull o'.action.tool) i
      (.timeWindow (o.clock i).hour ((o.clock i).hour + 1) [(o.clock i).numDaysFromMonday + 1] "closed") =
        none := by
    rw [Option.eq_none_iff_forall_ne_some]
    intro v hv
    rw [hv, checkTimeWindow_eq_some hv] at hwindow
    cases hwindow
  exact ((checkWindow_eq_none_iff htime' _ i (o.clock i)).mp hopen).symm

end EverySet

end Indistinct

/-! ### Runs of a cache -/

/-- What happens to a cache.  Generations, access numbers and instants are whatever a thread has read. -/
inductive CacheEvent where
  | get (o : Occasion) (gen : UInt64) (now : Nat)
  | insert (o : Occasion) (gen : UInt64) (accessOrder now : Nat)
  | takeAccess
  | invalidate
  | poison

section Runs

variable {H : Type} [DecidableEq H] (ext : ContextExternals) (hash : List HashPart → H)
  (engine : PolicyEngine CompiledContextCondition) (policies : List Policy)

/-- The verdict that a cache serves. -/
def served (cache : DecisionCache (CacheKey H) Verdict) (o : Occasion) (gen : UInt64) (now : Nat) :
    Option Verdict :=
  if o.isCacheable then (cache.lookup (o.key ext hash) gen now).1 else none

/-- One event.  Only a verdict can be inserted, so an evaluation that fails has no insert. -/
def serve (cache : DecisionCache (CacheKey H) Verdict) :
    CacheEvent → Option (DecisionCache (CacheKey H) Verdict)
  | .get o gen now =>
    some (if o.isCacheable then (cache.lookup (o.key ext hash) gen now).2 else cache.miss)
  | .insert o gen accessOrder now =>
    match o.evaluate ext engine policies with
    | .ok v =>
      some (if o.isCacheable then cache.store (o.key ext hash) v gen accessOrder now else cache)
    | .error _ => none
  | .takeAccess => some cache.bumpAccess
  | .invalidate => some cache.invalidate
  | .poison => some cache.poison

/-- **The invariant**: an entry is the verdict of a request of the run that was inserted under its key. -/
def Filled (events : List CacheEvent) (cache : DecisionCache (CacheKey H) Verdict) : Prop :=
  ∀ key entry, cache.entries.lookup key = some entry →
    ∃ o gen accessOrder now, .insert o gen accessOrder now ∈ events ∧ o.isCacheable = true ∧
      o.key ext hash = key ∧ o.evaluate ext engine policies = .ok entry.verdict

variable {ext hash engine policies}

theorem filled_serve {events : List CacheEvent} {cache cache' : DecisionCache (CacheKey H) Verdict}
    {event : CacheEvent} (hmem : event ∈ events) (h : Filled ext hash engine policies events cache)
    (hstep : serve ext hash engine policies cache event = some cache') :
    Filled ext hash engine policies events cache' := by
  cases event with
  | get o gen now =>
    rw [serve, Option.some.injEq] at hstep
    subst hstep
    intro key entry hentry
    apply h key entry
    split at hentry
    · rwa [(entries_lookup _ gen now).1] at hentry
    · exact hentry
  | insert o gen accessOrder now =>
    rw [serve.eq_def] at hstep
    dsimp only at hstep
    split at hstep
    · rename_i v hv
      rw [Option.some.injEq] at hstep
      subst hstep
      intro key entry hentry
      split at hentry
      · rename_i hcacheable
        rcases lookup_store hentry with ⟨hkey, rfl⟩ | hold
        · exact ⟨o, gen, accessOrder, now, hmem, hcacheable, hkey.symm, hv⟩
        · exact h key entry hold
      · exact h key entry hentry
    · cases hstep
  | takeAccess =>
    cases hstep
    exact h
  | invalidate =>
    cases hstep
    exact h
  | poison =>
    cases hstep
    exact h

end Runs

section Main

variable {H : Type} {ext : ContextExternals} {hash : List HashPart → H} (hhash : Function.Injective hash)
  (hjson : Function.Injective ext.jsonText) {o o' : Occasion}

include hhash hjson

/-- Alike requests with one key get one verdict. -/
theorem evaluate_of_key (hcacheable : o.isCacheable = true) (hcacheable' : o'.isCacheable = true)
    (hkey : o.key ext hash = o'.key ext hash) {engine : PolicyEngine CompiledContextCondition}
    {policies : List Policy} (halike : Alike ext engine policies o o') :
    o.evaluate ext engine policies = o'.evaluate ext engine policies := by
  obtain ⟨htool, hfunction, hparameters⟩ := action_of_key hhash hkey
  exact evaluate_alike htool hfunction (hjson hparameters)
    (sameContext_of_key hhash hjson hcacheable hcacheable' hkey) halike

/-- Requests with one key that get one verdict from every set of policies. -/
theorem indistinct_of_evaluate (hcacheable : o.isCacheable = true) (hcacheable' : o'.isCacheable = true)
    (hkey : o.key ext hash = o'.key ext hash)
    (hall : ∀ engine : PolicyEngine CompiledContextCondition, engine.Indexed → ∀ policies,
      o.evaluate ext engine policies = o'.evaluate ext engine policies) : Indistinct ext o o' := by
  obtain ⟨htool, hfunction, -⟩ := action_of_key hhash hkey
  have hcontext := sameContext_of_key hhash hjson hcacheable hcacheable' hkey
  refine ⟨validation_of_evaluate hall, rules_of_evaluate hall, ?_, ?_⟩
  · intro hvalid hmeaningful settings p hmatches
    have hmeaningful' := (isMeaningful_of_sameContext hcontext).symm.trans hmeaningful
    have hmatches' := (matchesAction_same htool hfunction p).symm.trans hmatches
    exact rulesLegacy_of_evaluate hall hvalid hmeaningful hmeaningful' settings hmatches hmatches'
  · intro hvalid hsome
    obtain ⟨ctx, hctx⟩ := Option.isSome_iff_exists.mp hsome
    rw [hctx] at hcontext
    cases hctx' : o'.context with
    | none =>
      rw [hctx'] at hcontext
      cases hcontext
    | some ctx' =>
      rw [Occasion.isCacheable, hctx] at hcacheable
      rw [Occasion.isCacheable, hctx'] at hcacheable'
      exact clock_of_evaluate hall hvalid hctx hctx' (sessionless_of_cacheable hcacheable).timestamp
        (sessionless_of_cacheable hcacheable').timestamp

end Main

/-- **When cached verdicts are transparent.**  The hash and the JSON text being injective, let two requests
    that may be cached have one key, each evaluated at its time.  (1) They get one verdict from every set of
    policies exactly if they are indistinct.  (2) They get one verdict from a given set of policies if they are
    alike to the policies that are reached.  (3) So whatever happened to a cache, a verdict that it serves is
    the one that evaluation gives, if the request is alike to those that were inserted under its key. -/
theorem cached_decisions_transparent {H : Type} [DecidableEq H] (ext : ContextExternals)
    (hash : List HashPart → H) (hhash : Function.Injective hash)
    (hjson : Function.Injective ext.jsonText) :
    (∀ o o' : Occasion, o.isCacheable = true → o'.isCacheable = true →
      o.key ext hash = o'.key ext hash →
      ((∀ engine : PolicyEngine CompiledContextCondition, engine.Indexed → ∀ policies,
          o.evaluate ext engine policies = o'.evaluate ext engine policies) ↔ Indistinct ext o o') ∧
      ∀ engine policies, Alike ext engine policies o o' →
        o.evaluate ext engine policies = o'.evaluate ext engine policies) ∧
    ∀ (engine : PolicyEngine CompiledContextCondition) (policies : List Policy) (maxEntries ttl : Nat)
      (events : List CacheEvent) (cache : DecisionCache (CacheKey H) Verdict),
      run (serve ext hash engine policies) (.new _ _ maxEntries ttl) events = some cache →
      ∀ (o : Occasion) (gen : UInt64) (now : Nat),
        (∀ o₀ gen₀ access₀ now₀, .insert o₀ gen₀ access₀ now₀ ∈ events →
          o₀.key ext hash = o.key ext hash → Alike ext engine policies o₀ o) →
        ∀ v ∈ served ext hash cache o gen now, o.evaluate ext engine policies = .ok v := by
  constructor
  · intro o o' hcacheable hcacheable' hkey
    refine ⟨⟨?_, ?_⟩, ?_⟩
    · exact indistinct_of_evaluate hhash hjson hcacheable hcacheable' hkey
    · intro hindistinct engine _ policies
      exact evaluate_of_key hhash hjson hcacheable hcacheable' hkey (hindistinct.alike engine policies)
    · intro engine policies halike
      exact evaluate_of_key hhash hjson hcacheable hcacheable' hkey halike
  · intro engine policies maxEntries ttl events cache hrun o gen now halike v hserved
    have hfilled : Filled ext hash engine policies events cache := by
      refine run_invariant_mem (fun _ _ _ hmem h hstep => filled_serve hmem h hstep) ?_ hrun
      intro key entry hentry
      cases hentry
    rw [served] at hserved
    split at hserved
    · rename_i hcacheable
      obtain ⟨entry, hentry, -, -, hverdict⟩ := lookup_eq_some hserved
      obtain ⟨o₀, gen₀, access₀, now₀, hmem, hcacheable₀, hkey, hv⟩ := hfilled _ _ hentry
      have halike₀ := halike o₀ gen₀ access₀ now₀ hmem hkey
      rw [← evaluate_of_key hhash hjson hcacheable₀ hcacheable hkey halike₀, hv, hverdict]
    · cases hserved

/-! ### One key and two verdicts -/

/-- The externals on plain text, with the JSON text of `serde`. -/
def plainContextExternals : ContextExternals where
  toExternals := { plainExternals with
    jsonText := fun v => String.ofList (Json.jsonText Json.plainNumber v) }
  trustContextTimestamps := false
  clock := fun _ => ⟨0, 0⟩
  parseFromRfc3339 := fun _ => none
  debugString := fun s => "\"" ++ s ++ "\""

/-- Compilation for an engine without context conditions. -/
def plainContextEnv : CompileEnv CompiledContextCondition where
  toExternals := plainContextExternals.toExternals
  compileContextCondition := fun policy _ => invalid policy "Unknown context condition type"

/-- A policy that allows everything but one path. -/
def blockPath (path : String) : Policy := ⟨"*", "files", .allow, 1, some ⟨[], [path]⟩, none⟩

/-- The same, compiled. -/
def blockPathCompiled (path : String) : ContextPolicy where
  policy := blockPath path
  toolMatcher := .universal
  conditions := noConditions
  compiledPathRules := some ⟨[], [(path, fun s => s == path)]⟩
  compiledNetworkRules := none
  compiledIpRules := none

/-- A read of a path, without a context. -/
def reading (path : String) : Occasion :=
  ⟨⟨"read_file", "read", .null, [path], [], []⟩, none, false, fun _ => ⟨12, 0⟩⟩

/-- Paths with one normal form have one key. -/
theorem key_reading {path path' : String}
    (h : plainExternals.normalizeFull path = plainExternals.normalizeFull path') :
    (reading path).key plainContextExternals id = (reading path').key plainContextExternals id := by
  have hpaths : hashSortedNormalizedStrs plainContextExternals.toExternals (id : List HashPart → _) [path] =
      hashSortedNormalizedStrs plainContextExternals.toExternals id [path'] := by
    rw [hashSortedNormalizedStrs, hashSortedNormalizedStrs]
    exact congrArg (fun p => sortedParts [p]) h
  show buildKey _ _ _ _ = buildKey _ _ _ _
  rw [buildKey, buildKey]
  exact congrArg (fun p => (⟨_, _, p, _, _, _, _⟩ : CacheKey (List HashPart))) hpaths

theorem normalizeFull_foo :
    plainExternals.normalizeFull "/tmp/FOO" = plainExternals.normalizeFull "/tmp/foo" := by decide +kernel

/-- Two paths that another policy blocks neither of. -/
theorem transparent_other_path :
    (reading "/tmp/FOO").evaluate plainContextExternals
        (engineOf ⟨false, 20⟩ [blockPathCompiled "/etc/passwd"]) [] =
      (reading "/tmp/foo").evaluate plainContextExternals
        (engineOf ⟨false, 20⟩ [blockPathCompiled "/etc/passwd"]) [] ∧
    ∀ cache, run (serve plainContextExternals id
        (engineOf ⟨false, 20⟩ [blockPathCompiled "/etc/passwd"]) []) (.new _ _ 10 60)
          [.insert (reading "/tmp/FOO") 0 0 0] = some cache →
      ∀ v ∈ served plainContextExternals id cache (reading "/tmp/foo") 0 1,
        (reading "/tmp/foo").evaluate plainContextExternals
          (engineOf ⟨false, 20⟩ [blockPathCompiled "/etc/passwd"]) [] = .ok v := by
  have hjson : Function.Injective plainContextExternals.jsonText := by
    intro v w hvw
    exact Json.jsonText_injective Json.plainNumber_laws (String.ofList_injective hvw)
  have hrules : checkRules plainContextExternals.toExternals ⟨false, 20⟩ (reading "/tmp/FOO").action
        (blockPathCompiled "/etc/passwd") =
      checkRules plainContextExternals.toExternals ⟨false, 20⟩ (reading "/tmp/foo").action
        (blockPathCompiled "/etc/passwd") := by decide +kernel
  have halike : Alike plainContextExternals (engineOf ⟨false, 20⟩ [blockPathCompiled "/etc/passwd"]) []
      (reading "/tmp/FOO") (reading "/tmp/foo") := by
    refine ⟨rfl, fun _ _ => asked_of_forall ?_, fun _ hempty => ?_⟩
    · intro cp hcp _
      obtain ⟨i, -, rfl⟩ := List.mem_map.mp hcp
      obtain rfl := Fin.eq_zero i
      exact ⟨hrules, fun _ ctx hctx => by cases hctx⟩
    · cases hempty
  obtain ⟨hpair, hrun⟩ := cached_decisions_transparent plainContextExternals id Function.injective_id hjson
  refine ⟨(hpair _ _ rfl rfl (key_reading normalizeFull_foo)).2 _ _ halike, ?_⟩
  intro cache hcache
  apply hrun _ _ _ _ _ _ hcache
  intro o₀ gen₀ access₀ now₀ hmem _
  cases List.mem_singleton.mp hmem
  exact halike

/-- An agent, and nothing else of the session. -/
def agentContext : SessionContext where
  callCounts := ∅
  previousActions := []
  timestamp := none
  agentId := some "agent-1"
  agentIdentity := none
  callChainDepth := 0
  verificationTier := none
  capabilityToken := none
  sessionState := none
  tenantId := none
  callChain := []
  callChainDepth_eq := rfl

/-- A call by the agent, at some hour of a Monday. -/
def calling (hour : Nat) : Occasion :=
  ⟨⟨"read_file", "read", .null, [], [], []⟩, some agentContext, false, fun _ => ⟨hour, 0⟩⟩

/-- Office hours. -/
def officeHours : ContextPolicy where
  policy := ⟨"*", "hours", .conditional <| .object [("context_conditions", .array [.object
    [("type", .string "time_window"), ("start_hour", .number (.posInt 9)),
      ("end_hour", .number (.posInt 17))]])], 1, none, none⟩
  toolMatcher := .universal
  conditions :=
    { (noConditions : CompiledConditions CompiledContextCondition) with
      contextConditions :=
        [.timeWindow 9 17 [] "Outside allowed time window (09:00-17:00) for policy 'hours'"] }
  compiledPathRules := none
  compiledNetworkRules := none
  compiledIpRules := none

/-- **The key is too coarse.**  Two spellings of a path, of which a policy blocks one, have one key; and a call
    at noon has the key of the same call at eight in the evening. -/
theorem case_and_clock_differ :
    ((reading "/tmp/FOO").isCacheable = true ∧ (reading "/tmp/foo").isCacheable = true ∧
      (reading "/tmp/FOO").key plainContextExternals id = (reading "/tmp/foo").key plainContextExternals id ∧
      (PolicyEngine.withPolicies plainContextEnv false [blockPath "/tmp/foo"]).toOption.map
          (fun engine => (reading "/tmp/FOO").evaluate plainContextExternals engine []) =
        some (.ok .allow) ∧
      (PolicyEngine.withPolicies plainContextEnv false [blockPath "/tmp/foo"]).toOption.map
          (fun engine => (reading "/tmp/foo").evaluate plainContextExternals engine []) =
        some (.ok (.deny "Path blocked by policy 'files'"))) ∧
    ((calling 12).isCacheable = true ∧ (calling 20).isCacheable = true ∧
      (calling 12).key plainContextExternals id = (calling 20).key plainContextExternals id ∧
      (calling 12).evaluate plainContextExternals (engineOf ⟨false, 20⟩ [officeHours]) [] = .ok .allow ∧
      (calling 20).evaluate plainContextExternals (engineOf ⟨false, 20⟩ [officeHours]) [] =
        .ok (.deny "Outside allowed time window (09:00-17:00) for policy 'hours'")) := by
  refine ⟨⟨rfl, rfl, key_reading normalizeFull_foo, ?_, ?_⟩, rfl, rfl, rfl, ?_, ?_⟩
  · decide +kernel
  · decide +kernel
  · decide +kernel
  · decide +kernel

end Vellaveto.Cache
