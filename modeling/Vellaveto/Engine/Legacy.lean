/-
  LEGACY EVALUATION of policies passed ad hoc (`vellaveto-engine/src/legacy.rs`, and `glob_is_match`,
  `regex_is_match` of `lib.rs`).

  PROGRAM.  The same decisions as for compiled policies, but every pattern is parsed when it is
  needed and the condition JSON is read anew for every action.  A pattern that does not parse is
  denied or an error here, where compilation would have rejected the policy.

  The cache of compiled globs is left out: it returns what compiling the pattern again returns.
-/
import Vellaveto.Engine.Constraint

namespace Vellaveto.Legacy

open Vellaveto.Lib

variable (ext : Externals) (settings : Settings)

/-! ## Matching an action -/

/-- `match_pattern`. -/
def matchPattern (pattern value : String) : Bool :=
  let normPattern := (ext.normalizeFull pattern).toList
  let normValue := (ext.normalizeFull value).toList
  if normPattern = ['*'] then true
  else
    match stripPrefix ['*'] normPattern with
    | some suffix => suffix.isSuffixOf normValue
    | none =>
      match stripSuffix ['*'] normPattern with
      | some start => if start.contains '*' then true else start.isPrefixOf normValue
      | none => normPattern == normValue

/-- `matches_action`. -/
def matchesAction (action : Action) (policy : Policy) : Bool :=
  if policy.id = "*" then true
  else if policy.id.toList.contains ':' then
    let toolPat := beforeFirst ':' policy.id.toList
    let funcRemainder := policy.id.toList.drop (toolPat.length + 1)
    matchPattern ext (String.ofList toolPat) action.tool &&
      matchPattern ext (String.ofList (beforeFirst ':' funcRemainder)) action.function
  else matchPattern ext policy.id action.tool

/-! ## Patterns -/

/-- `glob_is_match`. -/
def globIsMatch (pattern input policyId : String) : Except EngineError Bool :=
  match ext.globNew pattern with
  | .ok matcher => .ok (matcher input)
  | .error e => .error (.invalidCondition policyId s!"Invalid glob pattern '{pattern}': {e}")

/-- `regex_is_match`. -/
def regexIsMatch (pattern input policyId : String) : Except EngineError Bool :=
  match validateRegexSafety pattern with
  | .error reason => .error (.invalidCondition policyId reason)
  | .ok _ =>
    match ext.regexNew pattern with
    | .ok matcher => .ok (matcher input)
    | .error e => .error (.invalidCondition policyId s!"Invalid regex pattern '{pattern}': {e}")

/-! ## Rules -/

/-- A blocked glob: a match denies, and so does a pattern that does not parse. -/
def checkBlockedGlob (policy : Policy) (normalized pattern : String) : Option Verdict :=
  match globIsMatch ext pattern normalized policy.id with
  | .ok true => some (.deny s!"Path '{normalized}' blocked by policy '{policy.name}'")
  | .ok false => none
  | .error _ => some (.deny s!"Path rule error in policy '{policy.name}' (fail-closed)")

/-- An allowed glob: `some none` lets the path through, `some (some v)` denies it. -/
def checkAllowedGlob (policy : Policy) (normalized pattern : String) : Option (Option Verdict) :=
  match globIsMatch ext pattern normalized policy.id with
  | .ok true => some none
  | .ok false => none
  | .error e => some (some (.deny <| s!"Invalid glob pattern '{pattern}' in policy " ++
      s!"'{policy.name}': {e.display} (fail-closed)"))

/-- The check of one path. -/
def checkPathLegacy (policy : Policy) (rules : PathRules) (rawPath : String) : Option Verdict :=
  match Path.normalizePathBounded rawPath settings.maxPathDecodeIterations with
  | .error e => some (.deny s!"Path normalization failed: {e.display}")
  | .ok normalized =>
    (rules.blocked.findSome? (checkBlockedGlob ext policy normalized)).or <|
      if rules.allowed.isEmpty then none
      else
        (rules.allowed.findSome? (checkAllowedGlob ext policy normalized)).getD
          (some (.deny s!"Path '{normalized}' not in allowed paths for policy '{policy.name}'"))

/-- `check_path_rules_legacy`. -/
def checkPathRulesLegacy (action : Action) (policy : Policy) : Option Verdict :=
  match policy.pathRules with
  | none => none
  | some rules =>
    if rules.allowed.isEmpty && rules.blocked.isEmpty then none
    else if action.targetPaths.isEmpty then
      if !rules.allowed.isEmpty then
        some (.deny <| "No target paths provided but path allowlist is configured for policy " ++
          s!"'{policy.name}'")
      else none
    else action.targetPaths.findSome? (checkPathLegacy ext settings policy rules)

/-- The check of one domain. -/
def checkDomainLegacy (rules : NetworkRules) (rawDomain : String) : Option Verdict :=
  let domain := ext.toLowercase rawDomain
  if (Domain.normalizeDomainForMatch ext domain).isNone then some (.deny "Domain blocked by policy")
  else if rules.blockedDomains.any fun p => Domain.matchDomainPattern ext domain p then
    some (.deny "Domain blocked by policy")
  else if !rules.allowedDomains.isEmpty &&
      !rules.allowedDomains.any fun p => Domain.matchDomainPattern ext domain p then
    some (.deny "Domain blocked by policy")
  else none

/-- `check_network_rules_legacy`. -/
def checkNetworkRulesLegacy (action : Action) (policy : Policy) : Option Verdict :=
  match policy.networkRules with
  | none => none
  | some rules =>
    if rules.allowedDomains.isEmpty && rules.blockedDomains.isEmpty then none
    else if action.targetDomains.isEmpty then
      if !rules.allowedDomains.isEmpty then
        some (.deny <| "No target domains provided but domain allowlist is configured for policy " ++
          s!"'{policy.name}'")
      else none
    else action.targetDomains.findSome? (checkDomainLegacy ext rules)

/-- A blocked network: an address in it is denied, and so is a network that does not parse. -/
def checkBlockedCidr (policy : Policy) (ip : Ip.IpAddr) (cidrStr : String) : Option Verdict :=
  match ext.parseIpNet cidrStr with
  | .ok cidr =>
    let text := ext.displayIp ip
    if cidr.contains ip then
      some (.deny s!"Resolved IP '{text}' in blocked CIDR '{cidrStr}' in policy '{policy.name}'")
    else none
  | .error _ =>
    some (.deny s!"Invalid blocked CIDR '{cidrStr}' in policy '{policy.name}' (fail-closed)")

/-- Does the network parse and contain the address? -/
def cidrContains (ip : Ip.IpAddr) (cidrStr : String) : Bool :=
  match ext.parseIpNet cidrStr with
  | .ok cidr => cidr.contains ip
  | .error _ => false

/-- The check of one resolved address. -/
def checkIpLegacy (policy : Policy) (rules : IpRules) (ipStr : String) : Option Verdict :=
  match ext.parseIpAddr ipStr with
  | none => some (.deny s!"Invalid resolved IP '{ipStr}' in policy '{policy.name}'")
  | some rawIp =>
    let ip := canonicalIp rawIp
    let text := ext.displayIp ip
    if rules.blockPrivate && Ip.isPrivateIp ip then
      some (.deny <| s!"Resolved IP '{text}' is a private/reserved address " ++
        s!"(DNS rebinding protection) in policy '{policy.name}'")
    else
      (rules.blockedCidrs.findSome? (checkBlockedCidr ext policy ip)).or <|
        if rules.allowedCidrs.isEmpty || rules.allowedCidrs.any (cidrContains ext ip) then none
        else if rules.allowedCidrs.any fun cidrStr => !(ext.parseIpNet cidrStr).isOk then
          some (.deny s!"Invalid allowed CIDR in policy '{policy.name}' (fail-closed)")
        else
          some (.deny s!"Resolved IP '{text}' not in allowed CIDRs for policy '{policy.name}'")

/-- `check_ip_rules_legacy`. -/
def checkIpRulesLegacy (action : Action) (policy : Policy) : Option Verdict :=
  match policy.networkRules.bind NetworkRules.ipRules with
  | none => none
  | some rules =>
    if action.resolvedIps.isEmpty && !action.targetDomains.isEmpty then
      some (.deny s!"IP rules configured but no resolved IPs provided for policy '{policy.name}'")
    else action.resolvedIps.findSome? (checkIpLegacy ext policy rules)

/-- The three checks in the order in which a policy is applied. -/
def checkRulesLegacy (action : Action) (policy : Policy) : Option Verdict :=
  (checkPathRulesLegacy ext settings action policy).or <|
    (checkNetworkRulesLegacy ext action policy).or (checkIpRulesLegacy ext action policy)

/-! ## Constraints -/

variable (policy : Policy) (paramName onMatch : String) (value constraint : Json)

/-- A required string field of the constraint. -/
def withField (key reason : String) (k : String → Except EngineError (Option Verdict)) :
    Except EngineError (Option Verdict) :=
  match (constraint.get key).bind Json.asStr with
  | some s => k s
  | none => .error (.invalidCondition policy.id reason)

/-- A required array field of the constraint. -/
def withArray (key reason : String) (k : List Json → Except EngineError (Option Verdict)) :
    Except EngineError (Option Verdict) :=
  match (constraint.get key).bind Json.asArray with
  | some xs => k xs
  | none => .error (.invalidCondition policy.id reason)

/-- A required field of any type. -/
def withValue (reason : String) (k : Json → Except EngineError (Option Verdict)) :
    Except EngineError (Option Verdict) :=
  match constraint.get "value" with
  | some v => k v
  | none => .error (.invalidCondition policy.id reason)

/-- Does one of the patterns match?  The patterns are read up to the first match. -/
def anyPattern (notString : String) (test : String → Except EngineError Bool) :
    List Json → Except EngineError Bool
  | [] => .ok false
  | v :: vs =>
    match v.asStr with
    | none => .error (.invalidCondition policy.id notString)
    | some pattern =>
      match test pattern with
      | .error e => .error e
      | .ok true => .ok true
      | .ok false => anyPattern notString test vs

/-- `eval_glob_constraint`. -/
def evalGlobConstraint : Except EngineError (Option Verdict) :=
  withString settings policy paramName "glob" value fun raw =>
    withField policy constraint "pattern" "glob constraint missing 'pattern' string" fun pattern =>
      withPath settings raw fun normalized => do
        if ← globIsMatch ext pattern normalized policy.id then
          fire onMatch <| s!"Parameter '{paramName}' path '{normalized}' matches glob " ++
            s!"'{pattern}' (policy '{policy.name}')"
        else .ok none

/-- `eval_not_glob_constraint`. -/
def evalNotGlobConstraint : Except EngineError (Option Verdict) :=
  withString settings policy paramName "not_glob" value fun raw =>
    withArray policy constraint "patterns" "not_glob constraint missing 'patterns' array" fun pats =>
      withPath settings raw fun normalized => do
        if ← anyPattern policy "not_glob patterns must be strings"
            (fun pattern => globIsMatch ext pattern normalized policy.id) pats then .ok none
        else
          fire onMatch <| s!"Parameter '{paramName}' path '{normalized}' not in allowlist " ++
            s!"(policy '{policy.name}')"

/-- The guard of the domain operators against domains that IDNA rejects. -/
def withDomain (raw : String) (k : String → Except EngineError (Option Verdict)) :
    Except EngineError (Option Verdict) :=
  let domain := Domain.extractDomain ext raw
  if isUnnormalizable ext domain then
    fire "deny" <| s!"Parameter '{paramName}' domain '{domain}' cannot be normalized " ++
      s!"(IDNA failure) (policy '{policy.name}')"
  else k domain

/-- `eval_domain_match_constraint`. -/
def evalDomainMatchConstraint : Except EngineError (Option Verdict) :=
  withString settings policy paramName "domain_match" value fun raw =>
    withField policy constraint "pattern" "domain_match constraint missing 'pattern' string"
      fun pattern =>
        withDomain ext policy paramName raw fun domain =>
          if Domain.matchDomainPattern ext domain pattern then
            fire onMatch <| s!"Parameter '{paramName}' domain '{domain}' matches '{pattern}' " ++
              s!"(policy '{policy.name}')"
          else .ok none

/-- `eval_domain_not_in_constraint`. -/
def evalDomainNotInConstraint : Except EngineError (Option Verdict) :=
  withString settings policy paramName "domain_not_in" value fun raw =>
    withArray policy constraint "patterns" "domain_not_in constraint missing 'patterns' array"
      fun pats =>
        withDomain ext policy paramName raw fun domain => do
          if ← anyPattern policy "domain_not_in patterns must be strings"
              (fun pattern => .ok (Domain.matchDomainPattern ext domain pattern)) pats then .ok none
          else
            fire onMatch <| s!"Parameter '{paramName}' domain '{domain}' not in allowlist " ++
              s!"(policy '{policy.name}')"

/-- `eval_regex_constraint`: the value is matched as it is, without path normalization. -/
def evalRegexConstraint : Except EngineError (Option Verdict) :=
  withString settings policy paramName "regex" value fun raw =>
    withField policy constraint "pattern" "regex constraint missing 'pattern' string"
      fun pattern => do
        if ← regexIsMatch ext pattern raw policy.id then
          fire onMatch <| s!"Parameter '{paramName}' matches regex '{pattern}' " ++
            s!"(policy '{policy.name}')"
        else .ok none

/-- `eval_eq_constraint`: values are compared as they are. -/
def evalEqConstraint : Except EngineError (Option Verdict) :=
  withValue policy constraint "eq constraint missing 'value' field" fun expected =>
    if value = expected then
      let text := ext.debugJson expected
      fire onMatch s!"Parameter '{paramName}' equals {text} (policy '{policy.name}')"
    else .ok none

/-- `eval_ne_constraint`. -/
def evalNeConstraint : Except EngineError (Option Verdict) :=
  withValue policy constraint "ne constraint missing 'value' field" fun expected =>
    if value ≠ expected then
      let text := ext.debugJson expected
      fire onMatch s!"Parameter '{paramName}' != {text} (policy '{policy.name}')"
    else .ok none

/-- `eval_one_of_constraint`. -/
def evalOneOfConstraint : Except EngineError (Option Verdict) :=
  withArray policy constraint "values" "one_of constraint missing 'values' array" fun values =>
    if values.contains value then
      fire onMatch s!"Parameter '{paramName}' is in the specified set (policy '{policy.name}')"
    else .ok none

/-- `eval_none_of_constraint`. -/
def evalNoneOfConstraint : Except EngineError (Option Verdict) :=
  withArray policy constraint "values" "none_of constraint missing 'values' array" fun values =>
    if !values.contains value then
      fire onMatch s!"Parameter '{paramName}' is not in the allowed set (policy '{policy.name}')"
    else .ok none

/-- `evaluate_single_constraint`. -/
def evaluateSingleConstraint (op : String) : Except EngineError (Option Verdict) :=
  match op with
  | "glob" => evalGlobConstraint ext settings policy paramName onMatch value constraint
  | "not_glob" => evalNotGlobConstraint ext settings policy paramName onMatch value constraint
  | "domain_match" =>
    evalDomainMatchConstraint ext settings policy paramName onMatch value constraint
  | "domain_not_in" =>
    evalDomainNotInConstraint ext settings policy paramName onMatch value constraint
  | "regex" => evalRegexConstraint ext settings policy paramName onMatch value constraint
  | "eq" => evalEqConstraint ext policy paramName onMatch value constraint
  | "ne" => evalNeConstraint ext policy paramName onMatch value constraint
  | "one_of" => evalOneOfConstraint policy paramName onMatch value constraint
  | "none_of" => evalNoneOfConstraint policy paramName onMatch value constraint
  | op => .error (.invalidCondition policy.id s!"Unknown constraint operator '{op}'")

variable (action : Action)

/-- One iteration of `evaluate_parameter_constraints`: the decision, and whether the constraint was
    evaluated rather than skipped. -/
def evaluateParameterConstraint : Except EngineError (Option Verdict × Bool) :=
  if constraint.asObject.isNone then
    .error (.invalidCondition policy.id "Each parameter constraint must be a JSON object")
  else
    match (constraint.get "param").bind Json.asStr with
    | none =>
      .error (.invalidCondition policy.id "Constraint missing required 'param' string field")
    | some paramName =>
      match (constraint.get "op").bind Json.asStr with
      | none => .error (.invalidCondition policy.id "Constraint missing required 'op' string field")
      | some op =>
        let onMatch := ((constraint.get "on_match").bind Json.asStr).getD "deny"
        let onMissing := ((constraint.get "on_missing").bind Json.asStr).getD "deny"
        if paramName = "*" then
          let (allValues, truncated) := Params.collectAllStringValues action.parameters
          if allValues.isEmpty then
            if onMissing = "skip" then .ok (none, false)
            else (fire "deny" (noStringsReason policy)).map fun verdict => (verdict, false)
          else
            (orAsk
              (firstDecision (fun v => evaluateSingleConstraint ext settings policy v.1 onMatch
                (.string v.2) constraint op) allValues)
              (if truncated then .ok (some (.deny (truncatedReason policy))) else .ok none)).map
                fun verdict => (verdict, true)
        else
          match Params.getParamByPath action.parameters paramName with
          | none =>
            if onMissing = "skip" then .ok (none, false)
            else (fire "deny" (missingReason policy paramName)).map fun verdict => (verdict, false)
          | some value =>
            (evaluateSingleConstraint ext settings policy paramName onMatch value constraint
              op).map fun verdict => (verdict, true)

/-- The loop of `evaluate_parameter_constraints`. -/
def parameterConstraintLoop : List Json → Bool → Except EngineError (Option Verdict × Bool)
  | [], anyEvaluated => .ok (none, anyEvaluated)
  | c :: cs, anyEvaluated =>
    match evaluateParameterConstraint ext settings policy c action with
    | .error e => .error e
    | .ok (some v, evaluated) => .ok (some v, anyEvaluated || evaluated)
    | .ok (none, evaluated) => parameterConstraintLoop cs (anyEvaluated || evaluated)

/-- `evaluate_parameter_constraints`. -/
def evaluateParameterConstraints (constraints : List Json) (onNoMatchContinue : Bool) :
    Except EngineError (Option Verdict) :=
  match parameterConstraintLoop ext settings policy action constraints false with
  | .error e => .error e
  | .ok (some v, _) => .ok (some v)
  | .ok (none, anyEvaluated) =>
    let total := constraints.length
    if decide (0 < total) && !anyEvaluated && !onNoMatchContinue then
      .ok (some (.deny (allSkippedReason policy total)))
    else .ok none

/-! ## Conditions -/

/-- The loop over a list of parameter names, read from the condition JSON; what is no array is
    denied, what is no string in it is passed over. -/
def checkParameterNames (key : String) (wantPresent : Bool) (reason : String → String)
    (conditions : Json) : Option Verdict :=
  match conditions.get key with
  | none => none
  | some names =>
    match names.asArray with
    | none => some (.deny s!"Malformed {key} in policy '{policy.name}' (fail-closed)")
    | some arr =>
      ((arr.filterMap Json.asStr).find?
        fun p => (action.parameters.get p).isSome != wantPresent).map fun p => .deny (reason p)

/-- The parts of `evaluate_conditions` after the payload as a whole is accepted. -/
def evaluateConditionFields (conditions : Json) : Except EngineError (Option Verdict) :=
  let continues := (conditions.get "on_no_match").bind Json.asStr == some "continue"
  let closing : Except EngineError (Option Verdict) :=
    .ok (if continues then none else some .allow)
  if requireApprovalOf conditions then .ok (some (.requireApproval "Approval required by policy"))
  else
    orAsk (.ok (checkParameterNames policy action "forbidden_parameters" false
      policy.forbiddenReason conditions)) <|
    orAsk (.ok (checkParameterNames policy action "required_parameters" true
      policy.requiredReason conditions)) <|
    match conditions.get "parameter_constraints" with
    | none => closing
    | some constraints =>
      match constraints.asArray with
      | none => .error (.invalidCondition policy.id "parameter_constraints must be an array")
      | some arr =>
        orAsk (evaluateParameterConstraints ext settings policy action arr continues) closing

/-- `evaluate_conditions`. -/
def evaluateConditions (conditions : Json) : Except EngineError (Option Verdict) :=
  let size := (ext.jsonText conditions).utf8ByteSize
  if 10 < jsonDepth conditions then
    .error (.invalidCondition policy.id "Condition JSON exceeds maximum nesting depth of 10")
  else if maxConditionsSize < size then
    .error (.invalidCondition policy.id
      s!"Condition JSON too large: {size} bytes (max {maxConditionsSize})")
  else
    match (if settings.strictMode then unknownKey conditions else none) with
    | some key =>
      .error (.invalidCondition policy.id s!"Unknown condition key '{key}' in strict mode")
    | none =>
      if unrecognizedConditionPayload (conditionPayloadIsNonEmpty conditions)
          (conditionHasKnownKey conditions) then
        .ok (some (.deny
          s!"Policy '{policy.name}' has no recognized condition keys (fail-closed)"))
      else evaluateConditionFields ext settings policy action conditions

/-- `apply_policy`. -/
def applyPolicy : Except EngineError (Option Verdict) :=
  orAsk (.ok (checkRulesLegacy ext settings action policy)) <|
    match policy.policyType with
    | .allow => .ok (some .allow)
    | .deny => .ok (some (.deny "Request denied by policy"))
    | .conditional conditions => evaluateConditions ext settings policy action conditions

/-- The loop over sorted policies, for the ones that match the action. -/
def askPolicy (policy : Policy) : Except EngineError (Option Verdict) :=
  if matchesAction ext action policy then applyPolicy ext settings policy action else .ok none

end Vellaveto.Legacy
