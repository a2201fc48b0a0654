/-
  LEGACY AND COMPILED EVALUATION: constraints, conditions and whole evaluations.

  SPEC.  A list of policies passed ad hoc must be decided as the engine compiled from the same list:
  both fail, or both give a verdict of the same kind.

  CORRECTNESS.  They do NOT always agree, since only the compiled constraints normalize what they
  compare.  `divergentLegacy` lists the tests on which they differ:
    1. strings that `eq`, `ne`, `one_of` and `none_of` take for equal only after normalization;
    2. a `regex` that does not match the raw string, on a string that is no path or whose normalized
       path it matches.
  With the divergent ids and network rules of `Engine/LegacyRules` this is all: `legacy_agrees` says
  that an evaluation that gets to none of them has the same kind of result, and that the lists are
  exact test by test.
-/
import Vellaveto.Engine.LegacyRules

namespace Vellaveto.Legacy

open Vellaveto.Lib

/-! ## What a compiled operator comes from -/

/-- The operands of a compiled operator, in terms of the constraint object. -/
inductive OpCompiled (ext : Externals) (obj : Json) : String → ConstraintOp → Prop
  | glob {pattern : String} {m : TextMatcher}
      (hfield : (obj.get "pattern").bind Json.asStr = some pattern)
      (hm : ext.globNew pattern = .ok m) : OpCompiled ext obj "glob" (.glob m pattern)
  | notGlob {entries : List Json} {matchers : List (String × TextMatcher)}
      (hfield : (obj.get "patterns").bind Json.asArray = some entries)
      (hentries : List.Forall₂ (fun v p => v.asStr = some p.1 ∧ ext.globNew p.1 = .ok p.2) entries
        matchers) : OpCompiled ext obj "not_glob" (.notGlob matchers)
  | regex {pattern : String} {m : TextMatcher}
      (hfield : (obj.get "pattern").bind Json.asStr = some pattern)
      (hsafe : validateRegexSafety pattern = .ok ()) (hm : ext.regexNew pattern = .ok m) :
      OpCompiled ext obj "regex" (.regex m pattern)
  | domainMatch {pattern : String}
      (hfield : (obj.get "pattern").bind Json.asStr = some pattern) :
      OpCompiled ext obj "domain_match" (.domainMatch pattern)
  | domainNotIn {entries : List Json} {patterns : List String}
      (hfield : (obj.get "patterns").bind Json.asArray = some entries)
      (hentries : List.Forall₂ (fun v p => v.asStr = some p) entries patterns) :
      OpCompiled ext obj "domain_not_in" (.domainNotIn patterns)
  | eq {value : Json} (hfield : obj.get "value" = some value) : OpCompiled ext obj "eq" (.eq value)
  | ne {value : Json} (hfield : obj.get "value" = some value) : OpCompiled ext obj "ne" (.ne value)
  | oneOf {values : List Json} (hfield : (obj.get "values").bind Json.asArray = some values) :
      OpCompiled ext obj "one_of" (.oneOf values)
  | noneOf {values : List Json} (hfield : (obj.get "values").bind Json.asArray = some values) :
      OpCompiled ext obj "none_of" (.noneOf values)

section Fields

variable {ext : Externals} {policy : Policy} {obj : Json}

theorem stringField_eq_ok {key reason s : String} (h : stringField policy obj key reason = .ok s) :
    (obj.get key).bind Json.asStr = some s := by
  rw [stringField] at h
  split at h
  · rename_i t ht
    cases h
    exact ht
  · cases h

theorem arrayField_eq_ok {op key : String} {values : List Json}
    (h : arrayField policy obj op key = .ok values) :
    (obj.get key).bind Json.asArray = some values := by
  rw [arrayField] at h
  split at h
  · cases h
  · rename_i vs hvs
    dsimp only at h
    split at h
    · cases h
    · cases h
      exact hvs

theorem valueField_eq_ok {op : String} {value : Json} (h : valueField policy obj op = .ok value) :
    obj.get "value" = some value := by
  rw [valueField] at h
  split at h
  · rename_i v hv
    cases h
    exact hv
  · cases h

theorem compileGlob_eq_ok {pattern : String} {m : TextMatcher}
    (h : compileGlob ext policy pattern = .ok m) : ext.globNew pattern = .ok m := by
  rw [compileGlob] at h
  split at h
  · rename_i m' hm
    cases h
    exact hm
  · cases h

theorem compileNotGlobEntry_eq_ok {v : Json} {p : String × TextMatcher}
    (h : compileNotGlobEntry ext policy v = .ok p) :
    v.asStr = some p.1 ∧ ext.globNew p.1 = .ok p.2 := by
  rw [compileNotGlobEntry] at h
  split at h
  · cases h
  · rename_i pat hpat
    obtain ⟨m, hm, h⟩ := bind_eq_ok_iff.mp h
    cases h
    exact ⟨hpat, compileGlob_eq_ok hm⟩

theorem compileDomainEntry_eq_ok {v : Json} {p : String}
    (h : compileDomainEntry policy v = .ok p) : v.asStr = some p := by
  rw [compileDomainEntry] at h
  split at h
  · cases h
  · rename_i pat hpat
    split at h
    · cases h
      exact hpat
    · cases h

/-- **Inversion.**  Everything a successful compilation of an operator says. -/
theorem opCompiled_of_compileOp {op : String} {cop : ConstraintOp}
    (h : compileOp ext policy obj op = .ok cop) : OpCompiled ext obj op cop := by
  unfold compileOp at h
  split at h
  · obtain ⟨pattern, hpattern, h⟩ := bind_eq_ok_iff.mp h
    obtain ⟨m, hm, h⟩ := bind_eq_ok_iff.mp h
    cases h
    exact .glob (stringField_eq_ok hpattern) (compileGlob_eq_ok hm)
  · obtain ⟨entries, hfield, h⟩ := bind_eq_ok_iff.mp h
    obtain ⟨matchers, hentries, h⟩ := bind_eq_ok_iff.mp h
    cases h
    exact .notGlob (arrayField_eq_ok hfield)
      ((forall₂_of_mapM_eq_ok hentries).imp fun _ _ => compileNotGlobEntry_eq_ok)
  · obtain ⟨pattern, hpattern, h⟩ := bind_eq_ok_iff.mp h
    split at h
    · cases h
    · rename_i hsafe
      split at h
      · rename_i m hm
        cases h
        exact .regex (stringField_eq_ok hpattern) hsafe hm
      · cases h
  · obtain ⟨pattern, hpattern, h⟩ := bind_eq_ok_iff.mp h
    split at h
    · cases h
      exact .domainMatch (stringField_eq_ok hpattern)
    · cases h
  · obtain ⟨entries, hfield, h⟩ := bind_eq_ok_iff.mp h
    obtain ⟨patterns, hentries, h⟩ := bind_eq_ok_iff.mp h
    cases h
    exact .domainNotIn (arrayField_eq_ok hfield)
      ((forall₂_of_mapM_eq_ok hentries).imp fun _ _ => compileDomainEntry_eq_ok)
  · obtain ⟨value, hvalue, h⟩ := bind_eq_ok_iff.mp h
    cases h
    exact .eq (valueField_eq_ok hvalue)
  · obtain ⟨value, hvalue, h⟩ := bind_eq_ok_iff.mp h
    cases h
    exact .ne (valueField_eq_ok hvalue)
  · obtain ⟨values, hvalues, h⟩ := bind_eq_ok_iff.mp h
    cases h
    exact .oneOf (arrayField_eq_ok hvalues)
  · obtain ⟨values, hvalues, h⟩ := bind_eq_ok_iff.mp h
    cases h
    exact .noneOf (arrayField_eq_ok hvalues)
  · cases h

end Fields

/-! ## Test by test -/

section Tests

variable (ext : Externals) (settings : Settings)

/-- The tests on which the legacy check of a value and the compiled one differ. -/
def divergentLegacy (constraint : CompiledConstraint) (value : Json) : Bool :=
  match value with
  | .string s =>
    match constraint.op with
    | .eq expected => onlyNormalizedEq ext s expected
    | .ne expected => onlyNormalizedEq ext s expected
    | .oneOf values => onlyNormalizedMem ext s values
    | .noneOf values => onlyNormalizedMem ext s values
    | .regex matcher _ =>
      !matcher s &&
        match Path.normalizePathBounded s settings.maxPathDecodeIterations with
        | .ok normalized => decide (normalized ≠ s) && matcher normalized
        | .error _ => true
    | _ => false
  | _ => false

/-- The legacy check of a value agrees with the compiled one. -/
def LegacyTestAgrees (policy : Policy) (path : String) (constraint : CompiledConstraint)
    (obj : Json) (op : String) (value : Json) : Prop :=
  decided Verdict.kind (compiledTest ext settings policy constraint path value) =
    decided Verdict.kind (evaluateSingleConstraint ext settings policy path constraint.onMatch value
      obj op)

/-- Two tests that fire with the same action agree exactly when they fire on the same values. -/
theorem decided_firing_iff (b b' : Bool) (onMatch reason reason' : String) :
    decided Verdict.kind (if b = true then fire onMatch reason else .ok none) =
        decided Verdict.kind (if b' = true then fire onMatch reason' else .ok none) ↔ b = b' := by
  have hne := decided_fire_ne_pass onMatch reason
  have hne' := decided_fire_ne_pass onMatch reason'
  have heq := decided_fire onMatch reason reason'
  cases b <;> cases b'
  · simp
  · simpa using fun h => hne' h.symm
  · simpa using hne
  · simpa using heq

/-- An allowlist that lets a value pass does so whatever the reason would have been. -/
theorem decided_allowlist (b : Bool) (onMatch reason reason' : String) :
    decided Verdict.kind (if b = true then .ok none else fire onMatch reason) =
      decided Verdict.kind (if b = true then .ok none else fire onMatch reason') := by
  cases b with
  | true => rfl
  | false => exact decided_fire onMatch reason reason'

theorem decided_withString {policy : Policy} {paramName op : String} {value : Json}
    {k k' : String → Except EngineError (Option Verdict)}
    (h : ∀ s, value = .string s → decided Verdict.kind (k s) = decided Verdict.kind (k' s)) :
    decided Verdict.kind (withString settings policy paramName op value k) =
      decided Verdict.kind (withString settings policy paramName op value k') := by
  rw [withString, withString]
  cases hs : value.asStr with
  | none => rfl
  | some s => exact h s (Json.asStr_eq_some.mp hs)

theorem decided_withPath {raw : String} {k k' : String → Except EngineError (Option Verdict)}
    (h : ∀ normalized, decided Verdict.kind (k normalized) = decided Verdict.kind (k' normalized)) :
    decided Verdict.kind (withPath settings raw k) =
      decided Verdict.kind (withPath settings raw k') := by
  rw [withPath, withPath]
  cases Path.normalizePathBounded raw settings.maxPathDecodeIterations with
  | ok normalized => exact h normalized
  | error e => rfl

theorem withField_eq {policy : Policy} {obj : Json} {key reason s : String}
    {k : String → Except EngineError (Option Verdict)}
    (h : (obj.get key).bind Json.asStr = some s) : withField policy obj key reason k = k s := by
  rw [withField, h]

theorem withArray_eq {policy : Policy} {obj : Json} {key reason : String} {xs : List Json}
    {k : List Json → Except EngineError (Option Verdict)}
    (h : (obj.get key).bind Json.asArray = some xs) : withArray policy obj key reason k = k xs := by
  rw [withArray, h]

theorem withValue_eq {policy : Policy} {obj : Json} {reason : String} {v : Json}
    {k : Json → Except EngineError (Option Verdict)} (h : obj.get "value" = some v) :
    withValue policy obj reason k = k v := by
  rw [withValue, h]

/-- Patterns that are strings and all parse are read to the end. -/
theorem anyPattern_eq {α : Type} {policy : Policy} {notString : String}
    {test : String → Except EngineError Bool} {entries : List Json} {items : List α}
    {result : α → Bool}
    (h : List.Forall₂ (fun v a => ∃ p, v.asStr = some p ∧ test p = .ok (result a)) entries items) :
    anyPattern policy notString test entries = .ok (items.any result) := by
  induction h with
  | nil => rfl
  | @cons v a entries items hv _ ih =>
    obtain ⟨p, hp, htest⟩ := hv
    rw [anyPattern, hp, List.any_cons]
    dsimp only
    rw [htest]
    cases result a with
    | true => rfl
    | false => exact ih

/-- The path and domain operators agree on every value. -/
theorem pattern_test_agrees (policy : Policy) (path : String) {constraint : CompiledConstraint}
    {obj : Json} {op : String} (hop : OpCompiled ext obj op constraint.op)
    (hpattern : op = "glob" ∨ op = "not_glob" ∨ op = "domain_match" ∨ op = "domain_not_in")
    (value : Json) : LegacyTestAgrees ext settings policy path constraint obj op value := by
  obtain ⟨param, onMatch, onMissing, cop⟩ := constraint
  rw [LegacyTestAgrees, compiledTest, evaluateCompiledConstraintValue]
  cases hop with
  | glob hfield hm =>
    refine decided_withString settings fun s _ => ?_
    rw [withField_eq hfield]
    refine decided_withPath settings fun normalized => ?_
    rw [globIsMatch_eq hm]
    exact (decided_firing_iff _ _ _ _ _).mpr rfl
  | @notGlob entries matchers hfield hentries =>
    refine decided_withString settings fun s _ => ?_
    rw [withArray_eq hfield]
    refine decided_withPath settings fun normalized => ?_
    have hany : anyPattern policy "not_glob patterns must be strings"
        (fun pattern => globIsMatch ext pattern normalized policy.id) entries =
        .ok (matchers.any fun m => m.2 normalized) :=
      anyPattern_eq (hentries.imp fun v p hp => ⟨p.1, hp.1, globIsMatch_eq hp.2⟩)
    rw [hany]
    exact decided_allowlist _ _ _ _
  | domainMatch hfield =>
    refine decided_withString settings fun s _ => ?_
    rw [withField_eq hfield, withDomain]
    dsimp only
    split
    · exact decided_fire _ _ _
    · exact (decided_firing_iff _ _ _ _ _).mpr rfl
  | @domainNotIn entries patterns hfield hentries =>
    refine decided_withString settings fun s _ => ?_
    have hany : anyPattern policy "domain_not_in patterns must be strings"
        (fun pattern => .ok (Domain.matchDomainPattern ext (Domain.extractDomain ext s) pattern))
        entries =
        .ok (patterns.any fun p => Domain.matchDomainPattern ext (Domain.extractDomain ext s) p) :=
      anyPattern_eq (hentries.imp fun v p hp => ⟨p, hp, rfl⟩)
    rw [withArray_eq hfield, withDomain]
    dsimp only
    rw [hany]
    split
    · exact decided_fire _ _ _
    · exact decided_allowlist _ _ _ _
  | regex hfield hsafe hm => simp at hpattern
  | eq hfield => simp at hpattern
  | ne hfield => simp at hpattern
  | oneOf hfield => simp at hpattern
  | noneOf hfield => simp at hpattern

/-- Comparing raw and comparing normalized values agree, unless the value is a string that only
    normalization makes equal. -/
theorem normalizedEq_agrees_iff (value expected : Json) :
    normalizedEq ext value expected = decide (value = expected) ↔
      (value.asStr.any fun s => onlyNormalizedEq ext s expected) = false := by
  cases hs : value.asStr with
  | none =>
    rw [normalizedEq, hs]
    simp
  | some s =>
    rw [Json.asStr_eq_some] at hs
    subst hs
    rw [normalizedEq_string, Option.any_some, onlyNormalizedEq_eq]
    cases decide (Json.string s = expected) <;> cases onlyNormalizedEq ext s expected <;> simp

theorem normalizedMem_agrees_iff (values : List Json) (value : Json) :
    normalizedMem ext values value = values.contains value ↔
      (value.asStr.any fun s => onlyNormalizedMem ext s values) = false := by
  cases hs : value.asStr with
  | none =>
    rw [normalizedMem, hs]
    simp
  | some s =>
    rw [Json.asStr_eq_some] at hs
    subst hs
    rw [normalizedMem_eq, Option.any_some, onlyNormalizedMem]
    cases values.contains (Json.string s) <;> cases values.any (onlyNormalizedEq ext s) <;> simp

/-- A test that fires when `b` holds, where the legacy one fires when `b'` holds. -/
theorem firing_agrees_iff {policy : Policy} {path : String} {constraint : CompiledConstraint}
    {obj : Json} {op : String} {value : Json} (b b' : Bool) {reason : String}
    (hu : compiledTest ext settings policy constraint path value =
      if b = true then fire constraint.onMatch reason else .ok none)
    (hl : ∃ reason', evaluateSingleConstraint ext settings policy path constraint.onMatch value obj
      op = if b' = true then fire constraint.onMatch reason' else .ok none) :
    LegacyTestAgrees ext settings policy path constraint obj op value ↔ b = b' := by
  obtain ⟨reason', hl⟩ := hl
  rw [LegacyTestAgrees, hu, hl, decided_firing_iff]

/-- The compiled regex also looks at the normalized path. -/
theorem regex_test_agrees_iff {policy : Policy} {path param onMatch onMissing pattern : String}
    {obj : Json} {m : TextMatcher} (hfield : (obj.get "pattern").bind Json.asStr = some pattern)
    (hsafe : validateRegexSafety pattern = .ok ()) (hm : ext.regexNew pattern = .ok m)
    (value : Json) :
    LegacyTestAgrees ext settings policy path ⟨param, onMatch, onMissing, .regex m pattern⟩ obj
        "regex" value ↔
      divergentLegacy ext settings ⟨param, onMatch, onMissing, .regex m pattern⟩ value = false := by
  have hmatch : ∀ input, regexIsMatch ext pattern input policy.id = .ok (m input) := by
    intro input
    rw [regexIsMatch, hsafe, hm]
  cases hs : value.asStr with
  | none =>
    refine iff_of_true ?_ (by cases value with | string s => cases hs | _ => rfl)
    refine decided_withString settings fun s hs' => ?_
    rw [hs'] at hs
    cases hs
  | some s =>
    rw [Json.asStr_eq_some] at hs
    subst hs
    rw [LegacyTestAgrees, compiledTest, evaluateCompiledConstraintValue, evaluateSingleConstraint,
      evalRegexConstraint, divergentLegacy]
    dsimp only
    rw [withString, withString, Json.asStr_string]
    dsimp only
    rw [withField_eq hfield, hmatch]
    cases hms : m s with
    | true =>
      refine iff_of_true ?_ rfl
      exact decided_fire _ _ _
    | false =>
      rw [withPath]
      cases hpath : Path.normalizePathBounded s settings.maxPathDecodeIterations with
      | error e =>
        -- compiled: denied
        refine iff_of_false ?_ (by simp)
        intro h
        cases h
      | ok normalized =>
        have hiff := decided_firing_iff (decide (normalized ≠ s) && m normalized) false onMatch
          s!"Parameter '{path}' matches constraint (policy '{policy.name}')" ""
        rw [if_neg Bool.false_ne_true] at hiff
        simp only [Bool.and_eq_true, decide_eq_true_eq] at hiff
        exact hiff

/-- **Test by test**, the legacy check agrees with the compiled one exactly when the test is not
    divergent. -/
theorem legacyTest_agrees_iff {policy : Policy} {path : String} {constraint : CompiledConstraint}
    {obj : Json} {op : String} (hop : OpCompiled ext obj op constraint.op) (value : Json) :
    LegacyTestAgrees ext settings policy path constraint obj op value ↔
      divergentLegacy ext settings constraint value = false := by
  have hpattern := pattern_test_agrees ext settings policy path hop
  obtain ⟨param, onMatch, onMissing, cop⟩ := constraint
  cases hop with
  | glob hfield hm => exact iff_of_true (hpattern (by simp) value) (by cases value <;> rfl)
  | notGlob hfield hentries =>
    exact iff_of_true (hpattern (by simp) value) (by cases value <;> rfl)
  | domainMatch hfield => exact iff_of_true (hpattern (by simp) value) (by cases value <;> rfl)
  | domainNotIn hfield hentries =>
    exact iff_of_true (hpattern (by simp) value) (by cases value <;> rfl)
  | regex hfield hsafe hm => exact regex_test_agrees_iff ext settings hfield hsafe hm value
  | @eq expected hfield =>
    refine (firing_agrees_iff ext settings _ (decide (value = expected)) rfl ?_).trans ?_
    · simp only [decide_eq_true_eq]
      exact ⟨_, withValue_eq hfield⟩
    · rw [normalizedEq_agrees_iff]
      cases value <;> rfl
  | @ne expected hfield =>
    refine (firing_agrees_iff ext settings _ (!decide (value = expected)) rfl ?_).trans ?_
    · simp only [Bool.not_eq_true', decide_eq_false_iff_not]
      exact ⟨_, withValue_eq hfield⟩
    · rw [Bool.not_inj_iff, normalizedEq_agrees_iff]
      cases value <;> rfl
  | @oneOf values hfield =>
    refine (firing_agrees_iff ext settings _ (values.contains value) rfl ?_).trans ?_
    · exact ⟨_, withArray_eq hfield⟩
    · rw [normalizedMem_agrees_iff]
      cases value <;> rfl
  | @noneOf values hfield =>
    refine (firing_agrees_iff ext settings _ (!values.contains value) rfl ?_).trans ?_
    · exact ⟨_, withArray_eq hfield⟩
    · rw [Bool.not_inj_iff, normalizedMem_agrees_iff]
      cases value <;> rfl

end Tests

/-! ## Constraint by constraint -/

/-- What a compiled constraint says about the object it comes from. -/
structure ConstraintCompiled (ext : Externals) (obj : Json) (op : String)
    (constraint : CompiledConstraint) : Prop where
  isObject : obj.asObject.isNone = false
  param : (obj.get "param").bind Json.asStr = some constraint.param
  opName : (obj.get "op").bind Json.asStr = some op
  onMatch : ((obj.get "on_match").bind Json.asStr).getD "deny" = constraint.onMatch
  onMissing : ((obj.get "on_missing").bind Json.asStr).getD "deny" = constraint.onMissing
  operands : OpCompiled ext obj op constraint.op

theorem choiceField_eq_ok {policy : Policy} {obj : Json} {key expected value : String}
    {choices : List String} (h : choiceField policy obj key choices expected = .ok value) :
    ((obj.get key).bind Json.asStr).getD "deny" = value := by
  rw [choiceField] at h
  split at h
  · cases h
    rfl
  · cases h

theorem constraintCompiled_of_compileConstraint {ext : Externals} {policy : Policy} {obj : Json}
    {constraint : CompiledConstraint} (h : compileConstraint ext policy obj = .ok constraint) :
    ∃ op, ConstraintCompiled ext obj op constraint := by
  rw [compileConstraint] at h
  split at h
  · cases h
  · rename_i hobject
    obtain ⟨param, hparam, h⟩ := bind_eq_ok_iff.mp h
    obtain ⟨op, hop, h⟩ := bind_eq_ok_iff.mp h
    obtain ⟨onMatch, honMatch, h⟩ := bind_eq_ok_iff.mp h
    obtain ⟨onMissing, honMissing, h⟩ := bind_eq_ok_iff.mp h
    obtain ⟨cop, hcop, h⟩ := bind_eq_ok_iff.mp h
    cases h
    exact ⟨op, Bool.eq_false_iff.mpr hobject, stringField_eq_ok hparam, stringField_eq_ok hop,
      choiceField_eq_ok honMatch, choiceField_eq_ok honMissing, opCompiled_of_compileOp hcop⟩

section Constraints

variable {ext : Externals} {settings : Settings} {policy : Policy} {action : Action}

/-- Is there a value to test? -/
def hasValue (action : Action) (param : String) : Bool :=
  if param = "*" then !(Params.collectAllStringValues action.parameters).1.isEmpty
  else (Params.getParamByPath action.parameters param).isSome

/-- One iteration of the legacy loop is the list of its tests. -/
theorem evaluateParameterConstraint_eq {obj : Json} {op : String} {c : CompiledConstraint}
    (hc : ConstraintCompiled ext obj op c) :
    evaluateParameterConstraint ext settings policy obj action =
      (constraintDecision (fun path value => evaluateSingleConstraint ext settings policy path
        c.onMatch value obj op) policy action c.param c.onMissing).map
          fun v => (v, hasValue action c.param) := by
  have hmissing : ∀ reason : String,
      (if c.onMissing = "skip" then .ok (none, false)
        else (fire "deny" reason).map fun verdict => (verdict, false)) =
      (if c.onMissing = "skip" then .ok none else fire "deny" reason :
        Except EngineError (Option Verdict)).map fun v => (v, false) := by
    intro reason
    split <;> rfl
  rw [evaluateParameterConstraint, constraintDecision, hasValue, hc.isObject,
    if_neg Bool.false_ne_true, hc.param, hc.opName]
  dsimp only
  rw [hc.onMatch, hc.onMissing]
  by_cases hwild : c.param = "*"
  · rw [if_pos hwild, if_pos hwild, if_pos hwild]
    by_cases hempty : (Params.collectAllStringValues action.parameters).1.isEmpty = true
    · rw [if_pos hempty, if_pos hempty, hempty]
      exact hmissing _
    · rw [if_neg hempty, if_neg hempty, Bool.eq_false_iff.mpr hempty]
      rfl
  · rw [if_neg hwild, if_neg hwild, if_neg hwild]
    cases Params.getParamByPath action.parameters c.param with
    | none => exact hmissing _
    | some value => rfl

/-- A constraint that passes was evaluated exactly when it had a value to test. -/
theorem wasEvaluated_of_pass {test : String → Json → Except EngineError (Option Verdict)}
    {c : CompiledConstraint}
    (h : constraintDecision test policy action c.param c.onMissing = .ok none) :
    wasEvaluated action c = hasValue action c.param := by
  rw [wasEvaluated, hasValue]
  rw [constraintDecision] at h
  by_cases hskip : c.onMissing = "skip"
  · rw [hskip]
    simp
  · -- a constraint without a value denies
    by_cases hwild : c.param = "*"
    · rw [if_pos hwild] at h ⊢
      rw [if_pos hwild]
      cases hempty : (Params.collectAllStringValues action.parameters).1.isEmpty with
      | false => simp
      | true =>
        dsimp only at h
        rw [if_pos hempty, if_neg hskip] at h
        cases h
    · rw [if_neg hwild] at h ⊢
      rw [if_neg hwild]
      cases hvalue : Params.getParamByPath action.parameters c.param with
      | some value => simp
      | none =>
        rw [hvalue] at h
        dsimp only at h
        rw [if_neg hskip] at h
        cases h

/-- How the legacy loop asks a constraint object. -/
def askObject (ext : Externals) (settings : Settings) (policy : Policy) (action : Action)
    (obj : Json) : Except EngineError (Option Verdict) :=
  (evaluateParameterConstraint ext settings policy obj action).map Prod.fst

theorem askObject_eq {obj : Json} {op : String} {c : CompiledConstraint}
    (hc : ConstraintCompiled ext obj op c) :
    askObject ext settings policy action obj =
      constraintDecision (fun path value => evaluateSingleConstraint ext settings policy path
        c.onMatch value obj op) policy action c.param c.onMissing := by
  rw [askObject, evaluateParameterConstraint_eq hc]
  cases constraintDecision (fun path value => evaluateSingleConstraint ext settings policy path
    c.onMatch value obj op) policy action c.param c.onMissing <;> rfl

variable (settings policy action) in
/-- The legacy loop decides as the list of objects does, and when nobody decides it knows whether
    any constraint was evaluated. -/
theorem parameterConstraintLoop_spec {cs : List CompiledConstraint} {objs : List Json}
    (h : List.Forall₂ (fun c obj => ∃ op, ConstraintCompiled ext obj op c) cs objs)
    (anyEvaluated : Bool) :
    (∃ e, parameterConstraintLoop ext settings policy action objs anyEvaluated = .error e ∧
      firstDecision (askObject ext settings policy action) objs = .error e) ∨
    (∃ v any, parameterConstraintLoop ext settings policy action objs anyEvaluated =
        .ok (some v, any) ∧
      firstDecision (askObject ext settings policy action) objs = .ok (some v)) ∨
    (parameterConstraintLoop ext settings policy action objs anyEvaluated =
        .ok (none, anyEvaluated || cs.any (wasEvaluated action)) ∧
      firstDecision (askObject ext settings policy action) objs = .ok none) := by
  induction h generalizing anyEvaluated with
  | nil => exact Or.inr (Or.inr ⟨by simp [parameterConstraintLoop], rfl⟩)
  | @cons c obj cs objs hc _ ih =>
    obtain ⟨op, hc⟩ := hc
    rw [parameterConstraintLoop, firstDecision, askObject_eq hc, evaluateParameterConstraint_eq hc]
    rcases hres : constraintDecision (fun path value => evaluateSingleConstraint ext settings policy
      path c.onMatch value obj op) policy action c.param c.onMissing with e | (_ | v)
    · exact Or.inl ⟨e, rfl, rfl⟩
    · rw [List.any_cons, ← Bool.or_assoc, wasEvaluated_of_pass hres]
      exact ih (anyEvaluated || hasValue action c.param)
    · exact Or.inr (Or.inl ⟨v, _, rfl, rfl⟩)

/-- The legacy constraints as a decision list. -/
theorem evaluateParameterConstraints_eq {cs : List CompiledConstraint} {objs : List Json}
    (h : List.Forall₂ (fun c obj => ∃ op, ConstraintCompiled ext obj op c) cs objs)
    (continues : Bool) :
    orAsk (evaluateParameterConstraints ext settings policy action objs continues)
        (.ok (if continues then none else some .allow)) =
      orAsk (firstDecision (askObject ext settings policy action) objs)
        (.ok (noMatchVerdict policy cs.length (cs.any (wasEvaluated action)) continues)) := by
  rw [evaluateParameterConstraints]
  rcases parameterConstraintLoop_spec settings policy action h false
    with ⟨e, hloop, hlist⟩ | ⟨v, any, hloop, hlist⟩ | ⟨hloop, hlist⟩
  · rw [hloop, hlist]
    rfl
  · rw [hloop, hlist]
    rfl
  · rw [hloop, hlist, Bool.false_or, h.length_eq, noMatchVerdict, allConstraintsSkipped]
    cases continues with
    | true => simp
    | false =>
      dsimp only
      rw [Bool.not_false, Bool.and_true]
      cases decide (0 < objs.length) && !cs.any (wasEvaluated action) <;> rfl

/-- Asking the constraint gets to no divergent test. -/
def CleanConstraint (ext : Externals) (settings : Settings) (action : Action) (policy : Policy)
    (constraint : CompiledConstraint) : Prop :=
  Tested (compiledTest ext settings policy constraint)
    (fun _ value => divergentLegacy ext settings constraint value = false) action constraint.param

instance decidableCleanConstraint (ext : Externals) (settings : Settings) (action : Action)
    (policy : Policy) : DecidablePred (CleanConstraint ext settings action policy) := by
  intro constraint
  unfold CleanConstraint
  infer_instance

theorem agrees_of_cleanConstraint {obj : Json} {c : CompiledConstraint}
    (hc : ∃ op, ConstraintCompiled ext obj op c)
    (hclean : CleanConstraint ext settings action policy c) :
    decided Verdict.kind (evaluateCompiledConstraint ext settings policy action c) =
      decided Verdict.kind (askObject ext settings policy action obj) := by
  obtain ⟨op, hc⟩ := hc
  rw [askObject_eq hc, evaluateCompiledConstraint_eq]
  refine constraintDecision_congr _ (Tested.mono hclean ?_ ?_)
  · intro _ path s hs
    exact (legacyTest_agrees_iff ext settings hc.operands (.string s)).mpr hs
  · intro _ path value hvalue
    exact (legacyTest_agrees_iff ext settings hc.operands value).mpr hvalue

end Constraints

/-! ## Conditions -/

/-- An optional array field that compiles: the array, or nothing. -/
theorem optionalArray_eq_ok {policy : Policy} {conditions : Json} {key : String} {arr : List Json}
    (h : optionalArray policy conditions key = .ok arr) :
    (conditions.get key = none ∧ arr = []) ∨
      ∃ v, conditions.get key = some v ∧ v.asArray = some arr := by
  rw [optionalArray] at h
  split at h
  · rename_i hnone
    exact Or.inl ⟨hnone, (Except.ok.inj h).symm⟩
  · rename_i v hv
    split at h
    · rename_i xs hxs
      cases h
      exact Or.inr ⟨v, hv, hxs⟩
    · cases h

theorem boundedArray_eq_ok {policy : Policy} {conditions : Json} {key : String} {max : Nat}
    {arr : List Json} (h : boundedArray policy conditions key max = .ok arr) :
    optionalArray policy conditions key = .ok arr := by
  obtain ⟨xs, hxs, h⟩ := bind_eq_ok_iff.mp h
  dsimp only at h
  split at h
  · cases h
  · cases h
    exact hxs

/-- The legacy check of parameter names reads the same names. -/
theorem checkParameterNames_eq {policy : Policy} {conditions : Json} {key : String}
    {arr : List Json} (h : optionalArray policy conditions key = .ok arr) (action : Action)
    (wantPresent : Bool) (reason : String → String) :
    checkParameterNames policy action key wantPresent reason conditions =
      ((arr.filterMap Json.asStr).find?
        fun p => (action.parameters.get p).isSome != wantPresent).map fun p => .deny (reason p) := by
  rw [checkParameterNames]
  obtain ⟨hnone, rfl⟩ | ⟨v, hv, harr⟩ := optionalArray_eq_ok h
  · rw [hnone]
    rfl
  · rw [hv]
    dsimp only
    rw [harr]

theorem continues_eq (conditions : Json) :
    ((conditions.get "on_no_match").bind Json.asStr == some "continue") =
      onNoMatchContinueOf conditions := by
  rw [onNoMatchContinueOf]
  cases (conditions.get "on_no_match").bind Json.asStr <;> simp

/-- What the legacy conditions decide before any constraint is asked. -/
def namesDecision (policy : Policy) (action : Action) (conditions : Json) : Option Verdict :=
  if requireApprovalOf conditions then some (.requireApproval "Approval required by policy")
  else
    (checkParameterNames policy action "forbidden_parameters" false policy.forbiddenReason
      conditions).or
    (checkParameterNames policy action "required_parameters" true policy.requiredReason conditions)

section Conditions

variable {κ : Type} {env : CompileEnv κ} {settings : Settings} {policy : Policy}
  {conditions : Json}

/-- What compiled conditions say about the JSON they come from. -/
theorem compileConditionFields_eq_ok {cc : CompiledConditions κ}
    (h : compileConditionFields env policy conditions = .ok cc) :
    cc.requireApproval = requireApprovalOf conditions ∧
      cc.onNoMatchContinue = onNoMatchContinueOf conditions ∧
      (∃ arr, optionalArray policy conditions "forbidden_parameters" = .ok arr ∧
        cc.forbiddenParameters = arr.filterMap Json.asStr) ∧
      (∃ arr, optionalArray policy conditions "required_parameters" = .ok arr ∧
        cc.requiredParameters = arr.filterMap Json.asStr) ∧
      (∃ arr, optionalArray policy conditions "parameter_constraints" = .ok arr ∧
        List.Forall₂ (fun c obj => ∃ op, ConstraintCompiled env.toExternals obj op c)
          cc.constraints arr) ∧
      ∃ arr, optionalArray policy conditions "context_conditions" = .ok arr ∧
        cc.contextConditions.length = arr.length := by
  obtain ⟨forbidden, hforbidden, h⟩ := bind_eq_ok_iff.mp h
  obtain ⟨required, hrequired, h⟩ := bind_eq_ok_iff.mp h
  obtain ⟨arr, harr, h⟩ := bind_eq_ok_iff.mp h
  obtain ⟨constraints, hconstraints, h⟩ := bind_eq_ok_iff.mp h
  obtain ⟨ctxArr, hctxArr, h⟩ := bind_eq_ok_iff.mp h
  obtain ⟨ctx, hctx, h⟩ := bind_eq_ok_iff.mp h
  cases h
  have hrel := (forall₂_of_mapM_eq_ok hconstraints).imp fun obj c hc =>
    constraintCompiled_of_compileConstraint hc
  exact ⟨rfl, rfl, ⟨forbidden, hforbidden, rfl⟩, ⟨required, hrequired, rfl⟩,
    ⟨arr, boundedArray_eq_ok harr, List.Forall₂.flip hrel⟩,
    ⟨ctxArr, boundedArray_eq_ok hctxArr, (forall₂_of_mapM_eq_ok hctx).length_eq.symm⟩⟩

/-- Compiled conditions passed the checks of the payload as a whole. -/
theorem compileConditions_eq_ok {strictMode : Bool} {cc : CompiledConditions κ}
    (h : compileConditions env policy conditions strictMode = .ok cc) :
    ¬10 < jsonDepth conditions ∧ ¬maxConditionsSize < (env.jsonText conditions).utf8ByteSize ∧
      (if strictMode then unknownKey conditions else none) = none ∧
      unrecognizedConditionPayload (conditionPayloadIsNonEmpty conditions)
        (conditionHasKnownKey conditions) = false ∧
      compileConditionFields env policy conditions = .ok cc := by
  rw [compileConditions] at h
  split at h
  · cases h
  · rename_i hdepth
    split at h
    · cases h
    · rename_i hsize
      split at h
      · cases h
      · rename_i hkey
        split at h
        · cases h
        · rename_i hpayload
          exact ⟨hdepth, hsize, hkey, Bool.eq_false_iff.mpr hpayload, h⟩

/-- The parameter names decide alike. -/
theorem parametersDecision_agrees {cp : CompiledPolicy κ} (hpolicy : cp.policy = policy)
    (h : compileConditionFields env policy conditions = .ok cp.conditions) (action : Action) :
    kindOf (parametersDecision action cp) = kindOf (namesDecision policy action conditions) := by
  obtain ⟨happroval, -, ⟨forbidden, hforbidden, hfnames⟩, ⟨required, hrequired, hrnames⟩, -⟩ :=
    compileConditionFields_eq_ok h
  rw [parametersDecision, namesDecision, happroval, hfnames, hrnames,
    checkParameterNames_eq hforbidden, checkParameterNames_eq hrequired, hpolicy]
  split
  · rfl
  · simp only [Bool.bne_false, Bool.bne_true, Option.not_isSome]

/-- The legacy conditions as a decision list. -/
theorem evaluateConditionFields_eq {ext : Externals} {action : Action} {arr : List Json}
    {cs : List CompiledConstraint}
    (harr : optionalArray policy conditions "parameter_constraints" = .ok arr)
    (hrel : List.Forall₂ (fun c obj => ∃ op, ConstraintCompiled ext obj op c) cs arr) :
    evaluateConditionFields ext settings policy action conditions =
      orAsk (.ok (namesDecision policy action conditions))
        (orAsk (firstDecision (askObject ext settings policy action) arr)
          (.ok (noMatchVerdict policy cs.length (cs.any (wasEvaluated action))
            (onNoMatchContinueOf conditions)))) := by
  rw [evaluateConditionFields, namesDecision, continues_eq, ← evaluateParameterConstraints_eq hrel]
  split
  · rfl
  · cases checkParameterNames policy action "forbidden_parameters" false policy.forbiddenReason
      conditions with
    | some v => rfl
    | none =>
      rw [orAsk_pass, Option.none_or]
      refine congrArg (orAsk _) ?_
      obtain ⟨hnone, rfl⟩ | ⟨v, hv, hvarr⟩ := optionalArray_eq_ok harr
      · rw [hnone]
        rfl
      · rw [hv]
        dsimp only
        rw [hvarr]

/-- The conditions decide alike when the constraints that are asked do. -/
theorem conditions_agree {strictMode : Bool} {cp : CompiledPolicy κ} (hpolicy : cp.policy = policy)
    (h : compileConditions env policy conditions strictMode = .ok cp.conditions)
    (hstrict : settings.strictMode = strictMode) {action : Action}
    (hclean : parametersDecision action cp = none →
      Asked (evaluateCompiledConstraint env.toExternals settings policy action)
        (CleanConstraint env.toExternals settings action policy) cp.conditions.constraints) :
    decided Verdict.kind (conditionsDecision
        (evaluateCompiledConstraint env.toExternals settings policy action) action cp) =
      decided Verdict.kind (evaluateConditions env.toExternals settings policy action
        conditions) := by
  obtain ⟨hdepth, hsize, hkey, hpayload, hfields⟩ := compileConditions_eq_ok h
  obtain ⟨-, hcontinue, -, -, ⟨arr, harr, hrel⟩, -⟩ := compileConditionFields_eq_ok hfields
  have hparams := parametersDecision_agrees hpolicy hfields action
  rw [evaluateConditions, if_neg hdepth, if_neg hsize, hstrict, hkey]
  dsimp only
  rw [hpayload, if_neg Bool.false_ne_true, evaluateConditionFields_eq harr hrel, conditionsDecision,
    closingDecision, hcontinue, hpolicy]
  refine decided_orAsk (congrArg some hparams) fun hpass => ?_
  refine decided_orAsk (firstDecision_congr₂ hrel ?_) fun _ => rfl
  refine (hclean (Except.ok.inj hpass)).mono fun c _ hc obj hobj => ?_
  exact agrees_of_cleanConstraint hobj hc

end Conditions

/-! ## Policy by policy -/

section Policies

variable {κ : Type} (ext : Externals) (settings : Settings) (action : Action)

/-- Asking the policy gets to no divergent id, network rule or test. -/
def CleanPolicy (cp : CompiledPolicy κ) : Prop :=
  cp.matchesAction ext action = true →
    divergentId ext action cp.policy.id = false ∧
      (checkPathRules settings action cp = none →
        divergentNetwork ext action cp.policy = false) ∧
      (checkRules ext settings action cp = none →
        AskedConstraints ext settings (CleanConstraint ext settings action cp.policy) action cp)

/-- The evaluation gets to nothing on which the two ways of evaluating differ. -/
def CleanRun (engine : PolicyEngine κ) : Prop :=
  Asked (askCompiledPolicy ext engine.toSettings action) (CleanPolicy ext engine.toSettings action)
    engine.compiledPolicies

instance decidableCleanPolicy :
    DecidablePred (CleanPolicy ext settings action : CompiledPolicy κ → Prop) := by
  intro cp
  unfold CleanPolicy
  infer_instance

instance decidableCleanRun (engine : PolicyEngine κ) : Decidable (CleanRun ext action engine) := by
  unfold CleanRun
  infer_instance

/-- The policy has no context conditions. -/
def NoContext (policy : Policy) : Prop :=
  ∀ conditions, policy.policyType = .conditional conditions →
    ∀ v ∈ conditions.get "context_conditions", v = .array []

variable {env : CompileEnv κ} {strictMode : Bool} {policy : Policy} {cp : CompiledPolicy κ}
  {settings action}

theorem rules_agree (h : compileSinglePolicy env strictMode policy = .ok cp)
    (hnetwork : checkPathRules settings action cp = none →
      divergentNetwork env.toExternals action policy = false) :
    kindOf (checkRules env.toExternals settings action cp) =
      kindOf (checkRulesLegacy env.toExternals settings action policy) := by
  obtain ⟨hpolicy, -, -, hpath, hnet, hip⟩ := compileSinglePolicy_eq_ok h
  have hpath := pathRules_agree env settings hpolicy hpath action
  rw [checkRules, checkRulesLegacy, kindOf_or, kindOf_or, kindOf_or, kindOf_or, hpath,
    ipRules_agree env hpolicy hip action]
  cases hp : checkPathRules settings action cp with
  | some v => rfl
  | none =>
    rw [(networkRules_agree_iff hpolicy hnet env.toExternals action).mpr (hnetwork hp)]

/-- Without context conditions, no context is asked for. -/
theorem checkContext_of_noContext (h : compileSinglePolicy env strictMode policy = .ok cp)
    (hctx : NoContext policy) : checkContext cp = none := by
  obtain ⟨-, -, hconditions, -⟩ := compileSinglePolicy_eq_ok h
  rw [compilePolicyConditions] at hconditions
  have hlength : cp.conditions.contextConditions.length = 0 := by
    cases htype : policy.policyType with
    | allow =>
      rw [htype] at hconditions
      rw [← Except.ok.inj hconditions]
      rfl
    | deny =>
      rw [htype] at hconditions
      rw [← Except.ok.inj hconditions]
      rfl
    | conditional conditions =>
      rw [htype] at hconditions
      obtain ⟨-, -, -, -, hfields⟩ := compileConditions_eq_ok hconditions
      obtain ⟨-, -, -, -, -, arr, harr, hlen⟩ := compileConditionFields_eq_ok hfields
      obtain ⟨-, rfl⟩ | ⟨v, hv, hvarr⟩ := optionalArray_eq_ok harr
      · exact hlen
      · rw [hctx conditions htype v hv] at hvarr
        rw [hlen, ← Option.some.inj hvarr]
        rfl
  rw [checkContext, hlength]
  rfl

/-- A clean policy decides alike, compiled or not. -/
theorem agrees_of_cleanPolicy
    (hnorm : ∀ s : String, IsAsciiText s.toList → env.normalizeFull s = toAsciiLowercase s)
    (h : compileSinglePolicy env strictMode policy = .ok cp)
    (hstrict : settings.strictMode = strictMode) (hid : PlainId policy.id) (hctx : NoContext policy)
    (hclean : CleanPolicy env.toExternals settings action cp) :
    decided Verdict.kind (askCompiledPolicy env.toExternals settings action cp) =
      decided Verdict.kind (askPolicy env.toExternals settings action policy) := by
  obtain ⟨hpolicy, htool, hconditions, -⟩ := compileSinglePolicy_eq_ok h
  subst hpolicy
  have hmatch : matchesAction env.toExternals action cp.policy =
      cp.matchesAction env.toExternals action :=
    (matchesAction_agrees_iff hnorm action hid htool).mpr fun hm => (hclean hm).1
  rw [askCompiledPolicy, askPolicy, hmatch]
  by_cases hm : cp.matchesAction env.toExternals action = true
  · obtain ⟨-, hnetwork, hconstraints⟩ := hclean hm
    rw [if_pos hm, if_pos hm, applyCompiledPolicy_eq, applyPolicy, checkContext_of_noContext h hctx,
      Option.or_none]
    refine decided_orAsk (congrArg some (rules_agree h hnetwork)) fun hrules => ?_
    rw [compilePolicyConditions] at hconditions
    cases htype : cp.policy.policyType with
    | allow => rfl
    | deny => rfl
    | conditional conditions =>
      rw [htype] at hconditions
      refine conditions_agree rfl hconditions hstrict fun hparams => ?_
      exact hconstraints (Except.ok.inj hrules) ⟨conditions, htype⟩ hparams
  · rw [if_neg hm, if_neg hm]

end Policies

/-! ## Whole evaluations -/

/-- **Where legacy evaluation is compiled evaluation.**  For every list of policies that compiles,
    with ASCII ids that have `*` only at the ends of a segment and without context conditions, and
    for every action whose evaluation gets to no divergent id, network rule or test: passing the
    list ad hoc fails exactly when the compiled engine does, and gives a verdict of the same kind.
    The three lists of divergences are exact, one by one. -/
theorem legacy_agrees {κ : Type} (env : CompileEnv κ) (nfkc : List Char → List Char)
    (hnfkc : ∀ cs, IsAsciiText cs → nfkc cs = cs)
    (hnormalize : env.normalizeFull = normalizeFull nfkc env.lowerNonAscii)
    (strictMode : Bool) (policies : List Policy) (engine : PolicyEngine κ)
    (hengine : PolicyEngine.withPolicies env strictMode policies = .ok engine)
    (hids : ∀ p ∈ policies, PlainId p.id) (hctx : ∀ p ∈ policies, NoContext p) (action : Action) :
    (CleanRun env.toExternals action engine →
      outcome Verdict.kind (engine.evaluateAction env.toExternals action []) =
        outcome Verdict.kind ((PolicyEngine.new κ strictMode).evaluateAction env.toExternals action
          policies)) ∧
    (∀ cp ∈ engine.compiledPolicies,
      (matchesAction env.toExternals action cp.policy = cp.matchesAction env.toExternals action ↔
        (cp.matchesAction env.toExternals action = true →
          divergentId env.toExternals action cp.policy.id = false)) ∧
      (kindOf (checkNetworkRulesLegacy env.toExternals action cp.policy) =
          kindOf (checkNetworkRules env.toExternals action cp) ↔
        divergentNetwork env.toExternals action cp.policy = false)) ∧
    ∀ policy path constraint obj op value, OpCompiled env.toExternals obj op constraint.op →
      (LegacyTestAgrees env.toExternals engine.toSettings policy path constraint obj op value ↔
        divergentLegacy env.toExternals engine.toSettings constraint value = false) := by
  have hnorm : ∀ s : String, IsAsciiText s.toList → env.normalizeFull s = toAsciiLowercase s := by
    intro s hs
    rw [hnormalize]
    exact normalizeFull_ascii hnfkc env.lowerNonAscii s hs
  obtain ⟨hcompile, -, hsettings⟩ := withPolicies_eq_ok hengine
  obtain ⟨hsorted, hof⟩ := compilePolicies_eq_ok hcompile
  have hmem : ∀ cp ∈ engine.compiledPolicies, cp.policy ∈ policies := by
    intro cp hcp
    rw [← (sortPolicies_perm policies).mem_iff, ← hsorted]
    exact List.mem_map_of_mem hcp
  refine ⟨fun hclean => ?_, fun cp hcp => ?_, ?_⟩
  · have hempty : engine.compiledPolicies.isEmpty = policies.isEmpty := by
      rw [← (sortPolicies_perm policies).isEmpty_eq, ← hsorted, List.isEmpty_map]
    have hnew : (PolicyEngine.new κ strictMode).toSettings = engine.toSettings := hsettings.symm
    rw [evaluateAction_compiled hengine, evaluateAction_adHoc _ _ rfl, hempty, hnew, ← hsorted,
      firstDecision_map]
    split
    · rfl
    · refine outcome_orNoMatch (firstDecision_congr (hclean.mono fun cp hcp hcp' => ?_))
      exact agrees_of_cleanPolicy hnorm (hof cp hcp) (by rw [hsettings]) (hids _ (hmem cp hcp))
        (hctx _ (hmem cp hcp)) hcp'
  · obtain ⟨hpolicy, htool, -, -, hnet, -⟩ := compileSinglePolicy_eq_ok (hof cp hcp)
    exact ⟨matchesAction_agrees_iff hnorm action (hids _ (hmem cp hcp)) htool,
      networkRules_agree_iff rfl hnet env.toExternals action⟩
  · intro policy path constraint obj op value hop
    exact legacyTest_agrees_iff env.toExternals engine.toSettings hop value

/-- The plain spelling of a role is denied by both. -/
theorem legacy_agrees_admin :
    ∃ engine, PolicyEngine.withPolicies plainEnv false [noAdminPolicy] = .ok engine ∧
      outcome Verdict.kind (engine.evaluateAction plainExternals (loginAs "admin") []) =
        outcome Verdict.kind ((PolicyEngine.new Json false).evaluateAction plainExternals
          (loginAs "admin") [noAdminPolicy]) := by
  have hclean : (PolicyEngine.withPolicies plainEnv false [noAdminPolicy]).toOption.any
      (fun engine => decide (CleanRun plainExternals (loginAs "admin") engine)) = true := by
    decide +kernel
  have hid : PlainId noAdminPolicy.id := by
    have hascii : noAdminPolicy.id.toList.all isAscii = true := by decide
    refine ⟨List.all_eq_true.mp hascii, ?_⟩
    unfold StarsOutside
    decide
  have hctx : NoContext noAdminPolicy := by
    intro conditions htype v hv
    rw [← PolicyType.conditional.inj htype] at hv
    cases hv
  rcases hengine : PolicyEngine.withPolicies plainEnv false [noAdminPolicy] with e | engine
  · rw [hengine] at hclean
    cases hclean
  · rw [hengine] at hclean
    have hrun : CleanRun plainExternals (loginAs "admin") engine := of_decide_eq_true hclean
    exact ⟨engine, rfl, (legacy_agrees plainEnv id (fun _ _ => rfl) rfl false _ engine hengine
      (by simpa using hid) (by simpa using hctx) (loginAs "admin")).1 hrun⟩

/-- Another spelling of the role: the compiled engine denies it, ad hoc evaluation allows it. -/
theorem legacy_allows_other_spelling :
    (PolicyEngine.withPolicies plainEnv false [noAdminPolicy]).toOption.map (fun engine =>
      (outcome Verdict.kind (engine.evaluateAction plainExternals (loginAs "ADMIN") []),
        outcome Verdict.kind ((PolicyEngine.new Json false).evaluateAction plainExternals
          (loginAs "ADMIN") [noAdminPolicy]))) =
    some (some .deny, some .allow) := by
  decide +kernel

end Vellaveto.Legacy
