/-
  POLICY COMPILATION (`vellaveto-engine/src/policy_compile.rs`, `compiled.rs`, and the checks it
  borrows from `lib.rs` and `traced.rs`).

  PROGRAM.  Every pattern of a policy (tool id, globs, regexes, domains, networks) and the condition
  JSON are parsed once, when the policy set is loaded.  A policy that does not parse is an ERROR of
  the whole set; the compiled policies are sorted into evaluation order.

  A context condition is compiled by a function of its own, which is a parameter here: evaluation
  without a context only asks whether a policy has any.
-/
import Mathlib.Data.List.Sort
import Vellaveto.Engine.Domain
import Vellaveto.Engine.Matcher
import Vellaveto.Engine.Params
import Vellaveto.Types.Core

namespace Vellaveto

open Vellaveto.Lib

/-! ## Compiled policies -/

/-- The operator of a constraint with its compiled operands. -/
inductive ConstraintOp where
  | glob (matcher : TextMatcher) (patternStr : String)
  | notGlob (matchers : List (String × TextMatcher))
  | regex (matcher : TextMatcher) (patternStr : String)
  | domainMatch (pattern : String)
  | domainNotIn (patterns : List String)
  | eq (value : Json)
  | ne (value : Json)
  | oneOf (values : List Json)
  | noneOf (values : List Json)

/-- `CompiledConstraint`: the fields its variants share, and the operator. -/
structure CompiledConstraint where
  param : String
  onMatch : String
  onMissing : String
  op : ConstraintOp

structure CompiledPathRules where
  allowed : List (String × TextMatcher)
  blocked : List (String × TextMatcher)

structure CompiledNetworkRules where
  allowedDomains : List String
  blockedDomains : List String

structure CompiledIpRules where
  blockPrivate : Bool
  blockedCidrs : List Ip.IpNet
  allowedCidrs : List Ip.IpNet

/-- `CompiledConditions`; `κ` is the type of compiled context conditions. -/
structure CompiledConditions (κ : Type) where
  requireApproval : Bool
  forbiddenParameters : List String
  requiredParameters : List String
  constraints : List CompiledConstraint
  onNoMatchContinue : Bool
  contextConditions : List κ

/-- `CompiledPolicy`.  The reason texts of forbidden and required parameters are functions of the
    parameter name. -/
structure CompiledPolicy (κ : Type) where
  policy : Policy
  toolMatcher : CompiledToolMatcher
  conditions : CompiledConditions κ
  compiledPathRules : Option CompiledPathRules
  compiledNetworkRules : Option CompiledNetworkRules
  compiledIpRules : Option CompiledIpRules

/-- `deny_reason`. -/
def Policy.denyReason (p : Policy) : String := s!"Denied by policy '{p.name}'"

/-- `approval_reason`. -/
def Policy.approvalReason (p : Policy) : String := s!"Approval required by policy '{p.name}'"

/-- The entry of `forbidden_reasons` for a parameter. -/
def Policy.forbiddenReason (p : Policy) (param : String) : String :=
  s!"Parameter '{param}' is forbidden by policy '{p.name}'"

/-- The entry of `required_reasons` for a parameter. -/
def Policy.requiredReason (p : Policy) (param : String) : String :=
  s!"Required parameter '{param}' missing (policy '{p.name}')"

/-- The externals together with the compilation of context conditions. -/
structure CompileEnv (κ : Type) extends Externals where
  compileContextCondition : Policy → Json → Except PolicyValidationError κ

/-- A validation error of a policy. -/
def invalid {α : Type} (policy : Policy) (reason : String) : Except PolicyValidationError α :=
  .error ⟨policy.id, policy.name, reason⟩

/-! ## Nesting depth -/

def maxJsonDepthLimit : Nat := 128
def maxJsonDepthNodes : Nat := 10000

/-- The loop of `json_depth`, over a stack listed from its top. -/
def jsonDepthLoop : Nat → List (Json × Nat) → Nat → Nat → Nat
  | 0, _, maxDepth, _ => maxDepth
  | _ + 1, [], maxDepth, _ => maxDepth
  | fuel + 1, (val, depth) :: rest, maxDepth, nodesVisited =>
    let maxDepth := if maxDepth < depth then depth else maxDepth
    if maxJsonDepthLimit < maxDepth ∨ maxJsonDepthNodes < nodesVisited + 1 then maxDepth
    else
      let pushed := ((Params.children "" val).map fun c => (c.2, depth + 1)).reverse ++ rest
      jsonDepthLoop fuel pushed maxDepth (nodesVisited + 1)

/-- `json_depth`. -/
def jsonDepth (value : Json) : Nat := jsonDepthLoop (Params.nodeCount value + 1) [(value, 0)] 0 0

/-! ## Regex safety -/

def maxRegexLen : Nat := 1024

/-- What the scan of `validate_regex_safety` keeps between characters. -/
structure RegexScan where
  parenDepth : Int
  hasInnerQuantifier : Bool
  groupHasAlternation : Bool
  skipNext : Bool

def isQuantifier (c : Char) : Bool := c = '+' || c = '*'

/-- The characters of the pattern, one by one; an error names what is wrong with it. -/
def scanRegex : RegexScan → List Char → Except String RegexScan
  | st, [] => .ok st
  | st, c :: cs =>
    if st.skipNext then scanRegex { st with skipNext := false } cs
    else if c = '\\' then scanRegex { st with skipNext := true } cs
    else if c = '(' then
      scanRegex { st with
        parenDepth := st.parenDepth + 1, hasInnerQuantifier := false
        groupHasAlternation := false } cs
    else if c = ')' then
      if st.parenDepth - 1 < 0 then .error "Invalid regex pattern — unbalanced parentheses"
      else if cs.head?.any isQuantifier && st.hasInnerQuantifier then
        .error "Regex pattern contains nested quantifiers (potential ReDoS)"
      else if cs.head?.any isQuantifier && st.groupHasAlternation then
        .error "Regex pattern contains alternation with outer quantifier (potential ReDoS)"
      else scanRegex { st with parenDepth := st.parenDepth - 1 } cs
    else if c = '|' && 0 < st.parenDepth then scanRegex { st with groupHasAlternation := true } cs
    else if isQuantifier c && 0 < st.parenDepth then
      scanRegex { st with hasInnerQuantifier := true } cs
    else scanRegex st cs

/-- The quoted start of a pattern in an error text.  A pattern cut inside a character makes the
    source panic, which ends the compilation just as the error does. -/
def quotedStart (pattern : String) : String :=
  match sliceTo pattern (min pattern.utf8ByteSize 100) with
  | some start => s!": '{start}'"
  | none => ": byte index 100 is not a char boundary"

/-- `validate_regex_safety`. -/
def validateRegexSafety (pattern : String) : Except String Unit :=
  let len := pattern.utf8ByteSize
  if maxRegexLen < len then
    .error s!"Regex pattern exceeds maximum length of {maxRegexLen} chars ({len} chars)"
  else
    match scanRegex ⟨0, false, false, false⟩ pattern.toList with
    | .error what => .error (what ++ quotedStart pattern)
    | .ok st =>
      if st.parenDepth ≠ 0 then
        .error (s!"Invalid regex pattern — unbalanced parentheses ({st.parenDepth} unclosed)" ++
          quotedStart pattern)
      else .ok ()

/-! ## Constraints -/

def maxConstraintElements : Nat := 1000

section Constraint

variable (ext : Externals) (policy : Policy)

/-- A required string field of a constraint object. -/
def stringField (obj : Json) (key reason : String) : Except PolicyValidationError String :=
  match (obj.get key).bind Json.asStr with
  | some s => .ok s
  | none => invalid policy reason

/-- A required array field of a constraint object, of bounded length. -/
def arrayField (obj : Json) (op key : String) : Except PolicyValidationError (List Json) :=
  match (obj.get key).bind Json.asArray with
  | none => invalid policy s!"{op} constraint missing '{key}' array"
  | some values =>
    let count := values.length
    if maxConstraintElements < count then
      invalid policy s!"{op} {key} count {count} exceeds maximum {maxConstraintElements}"
    else .ok values

/-- A required field of any type. -/
def valueField (obj : Json) (op : String) : Except PolicyValidationError Json :=
  match obj.get "value" with
  | some v => .ok v
  | none => invalid policy s!"{op} constraint missing 'value' field"

/-- A glob of a constraint. -/
def compileGlob (pattern : String) : Except PolicyValidationError TextMatcher :=
  match ext.globNew pattern with
  | .ok m => .ok m
  | .error e => invalid policy s!"Invalid glob pattern '{pattern}': {e}"

/-- One entry of a `not_glob` pattern list. -/
def compileNotGlobEntry (v : Json) : Except PolicyValidationError (String × TextMatcher) :=
  match v.asStr with
  | none => invalid policy "not_glob patterns must be strings"
  | some pat => do
    let m ← compileGlob ext policy pat
    .ok (pat, m)

/-- One entry of a `domain_not_in` pattern list. -/
def compileDomainEntry (v : Json) : Except PolicyValidationError String :=
  match v.asStr with
  | none => invalid policy "domain_not_in patterns must be strings"
  | some pat =>
    match Domain.validateDomainPattern pat with
    | .ok _ => .ok pat
    | .error reason => invalid policy s!"domain_not_in pattern invalid: {reason}"

/-- The operator of a constraint object. -/
def compileOp (obj : Json) (op : String) : Except PolicyValidationError ConstraintOp :=
  match op with
  | "glob" => do
    let pattern ← stringField policy obj "pattern" "glob constraint missing 'pattern' string"
    let m ← compileGlob ext policy pattern
    .ok (.glob m pattern)
  | "not_glob" => do
    let patterns ← arrayField policy obj "not_glob" "patterns"
    let matchers ← patterns.mapM (compileNotGlobEntry ext policy)
    .ok (.notGlob matchers)
  | "regex" => do
    let pattern ← stringField policy obj "pattern" "regex constraint missing 'pattern' string"
    match validateRegexSafety pattern with
    | .error reason => invalid policy reason
    | .ok _ =>
      match ext.regexNew pattern with
      | .ok m => .ok (.regex m pattern)
      | .error e => invalid policy s!"Invalid regex pattern '{pattern}': {e}"
  | "domain_match" => do
    let pattern ←
      stringField policy obj "pattern" "domain_match constraint missing 'pattern' string"
    match Domain.validateDomainPattern pattern with
    | .ok _ => .ok (.domainMatch pattern)
    | .error reason => invalid policy s!"domain_match pattern invalid: {reason}"
  | "domain_not_in" => do
    let entries ← arrayField policy obj "domain_not_in" "patterns"
    let patterns ← entries.mapM (compileDomainEntry policy)
    .ok (.domainNotIn patterns)
  | "eq" => do
    let value ← valueField policy obj "eq"
    .ok (.eq value)
  | "ne" => do
    let value ← valueField policy obj "ne"
    .ok (.ne value)
  | "one_of" => do
    let values ← arrayField policy obj "one_of" "values"
    .ok (.oneOf values)
  | "none_of" => do
    let values ← arrayField policy obj "none_of" "values"
    .ok (.noneOf values)
  | op => invalid policy s!"Unknown constraint operator '{op}'"

/-- An optional string field with its default and its admissible values. -/
def choiceField (obj : Json) (key : String) (choices : List String) (expected : String) :
    Except PolicyValidationError String :=
  let value := ((obj.get key).bind Json.asStr).getD "deny"
  if choices.contains value then .ok value
  else invalid policy s!"Constraint '{key}' value '{value}' is invalid; expected {expected}"

/-- `compile_constraint`. -/
def compileConstraint (constraint : Json) : Except PolicyValidationError CompiledConstraint :=
  if constraint.asObject.isNone then
    invalid policy "Each parameter constraint must be a JSON object"
  else do
    let param ←
      stringField policy constraint "param" "Constraint missing required 'param' string field"
    let op ← stringField policy constraint "op" "Constraint missing required 'op' string field"
    let onMatch ← choiceField policy constraint "on_match" ["deny", "allow", "require_approval"]
      "'deny', 'allow', or 'require_approval'"
    let onMissing ← choiceField policy constraint "on_missing" ["deny", "skip"] "'deny' or 'skip'"
    let compiledOp ← compileOp ext policy constraint op
    .ok ⟨param, onMatch, onMissing, compiledOp⟩

end Constraint

/-! ## Conditions -/

def maxConditionsSize : Nat := 65536
def maxParameterConstraints : Nat := 100
def maxContextConditions : Nat := 50

def conditionKeys : List String :=
  ["require_approval", "forbidden_parameters", "required_parameters", "parameter_constraints",
   "context_conditions", "on_no_match"]

/-- `condition_key_is_known`. -/
def conditionKeyIsKnown (key : String) : Bool := conditionKeys.contains key

/-- `condition_payload_is_non_empty`. -/
def conditionPayloadIsNonEmpty (conditions : Json) : Bool :=
  match conditions.asObject with
  | some obj => !obj.isEmpty
  | none => true

/-- `condition_has_known_key`. -/
def conditionHasKnownKey (conditions : Json) : Bool :=
  match conditions.asObject with
  | some _ => conditionKeys.any fun key => (conditions.get key).isSome
  | none => false

/-- `unrecognized_condition_payload`. -/
def unrecognizedConditionPayload (nonEmpty hasKnownKey : Bool) : Bool := nonEmpty && !hasKnownKey

section Conditions

variable {κ : Type} (env : CompileEnv κ) (policy : Policy)

/-- An optional array field, `[]` when it is absent. -/
def optionalArray (conditions : Json) (key : String) : Except PolicyValidationError (List Json) :=
  match conditions.get key with
  | none => .ok []
  | some v =>
    match v.asArray with
    | some arr => .ok arr
    | none => invalid policy s!"{key} must be an array"

/-- An optional array field with a bound on its length. -/
def boundedArray (conditions : Json) (key : String) (max : Nat) :
    Except PolicyValidationError (List Json) := do
  let arr ← optionalArray policy conditions key
  let count := arr.length
  if max < count then invalid policy s!"{key} has {count} entries, max is {max}"
  else .ok arr

/-- `require_approval`: anything but a boolean requires approval. -/
def requireApprovalOf (conditions : Json) : Bool :=
  ((conditions.get "require_approval").map fun v => v.asBool.getD true).getD false

/-- `on_no_match: "continue"`. -/
def onNoMatchContinueOf (conditions : Json) : Bool :=
  (((conditions.get "on_no_match").bind Json.asStr).map fun s => s == "continue").getD false

/-- The first key strict mode does not know. -/
def unknownKey (conditions : Json) : Option String :=
  conditions.asObject.bind fun obj =>
    (obj.map Prod.fst).find? fun key => !conditionKeyIsKnown key

/-- The fields of `compile_conditions`, once the payload as a whole is accepted. -/
def compileConditionFields (conditions : Json) :
    Except PolicyValidationError (CompiledConditions κ) := do
  let forbidden ← optionalArray policy conditions "forbidden_parameters"
  let required ← optionalArray policy conditions "required_parameters"
  let constraintArr ←
    boundedArray policy conditions "parameter_constraints" maxParameterConstraints
  let constraints ← constraintArr.mapM (compileConstraint env.toExternals policy)
  let ctxArr ← boundedArray policy conditions "context_conditions" maxContextConditions
  let contextConditions ← ctxArr.mapM (env.compileContextCondition policy)
  .ok
    { requireApproval := requireApprovalOf conditions
      forbiddenParameters := forbidden.filterMap Json.asStr
      requiredParameters := required.filterMap Json.asStr
      constraints := constraints
      onNoMatchContinue := onNoMatchContinueOf conditions
      contextConditions := contextConditions }

/-- `compile_conditions`. -/
def compileConditions (conditions : Json) (strictMode : Bool) :
    Except PolicyValidationError (CompiledConditions κ) :=
  let size := (env.jsonText conditions).utf8ByteSize
  if 10 < jsonDepth conditions then
    invalid policy "Condition JSON exceeds maximum nesting depth of 10"
  else if maxConditionsSize < size then
    invalid policy s!"Condition JSON too large: {size} bytes (max {maxConditionsSize})"
  else
    match (if strictMode then unknownKey conditions else none) with
    | some key => invalid policy s!"Unknown condition key '{key}' in strict mode"
    | none =>
      if unrecognizedConditionPayload (conditionPayloadIsNonEmpty conditions)
          (conditionHasKnownKey conditions) then
        invalid policy <| "Conditional conditions must be an object with at least one recognized " ++
          "condition key, or an empty object"
      else compileConditionFields env policy conditions

/-- The conditions of a policy without any. -/
def noConditions : CompiledConditions κ := ⟨false, [], [], [], false, []⟩

/-! ## Policies -/

def maxPolicyNameLen : Nat := 512

/-- A list of path globs under the error text of its rule. -/
def compilePathGlobs (which : String) (patterns : List String) :
    Except PolicyValidationError (List (String × TextMatcher)) :=
  patterns.mapM fun pattern =>
    match env.globNew pattern with
    | .ok m => .ok (pattern, m)
    | .error e => invalid policy s!"Invalid {which} path glob '{pattern}': {e}"

/-- A list of networks under the error text of its rule. -/
def compileCidrs (which : String) (cidrs : List String) :
    Except PolicyValidationError (List Ip.IpNet) :=
  cidrs.mapM fun cidr =>
    match env.parseIpNet cidr with
    | .ok net => .ok net
    | .error e => invalid policy s!"Invalid {which} CIDR '{cidr}': {e}"

def compilePathRules (rules : PathRules) : Except PolicyValidationError CompiledPathRules := do
  let allowed ← compilePathGlobs env policy "allowed" rules.allowed
  let blocked ← compilePathGlobs env policy "blocked" rules.blocked
  .ok ⟨allowed, blocked⟩

def compileNetworkRules (rules : NetworkRules) :
    Except PolicyValidationError CompiledNetworkRules := do
  (rules.allowedDomains ++ rules.blockedDomains).forM fun domain =>
    match Domain.validateDomainPattern domain with
    | .ok _ => .ok ()
    | .error reason => invalid policy s!"Invalid domain pattern: {reason}"
  .ok ⟨rules.allowedDomains, rules.blockedDomains⟩

def compileIpRules (rules : IpRules) : Except PolicyValidationError CompiledIpRules := do
  let blocked ← compileCidrs env policy "blocked" rules.blockedCidrs
  let allowed ← compileCidrs env policy "allowed" rules.allowedCidrs
  .ok ⟨rules.blockPrivate, blocked, allowed⟩

/-- Compile an optional part of a policy. -/
def compileOptional {α β : Type} (compile : α → Except PolicyValidationError β) :
    Option α → Except PolicyValidationError (Option β)
  | none => .ok none
  | some a => (compile a).map some

end Conditions

section Policies

variable {κ : Type} (env : CompileEnv κ)

/-- The conditions of a policy: only a conditional one has any. -/
def compilePolicyConditions (strictMode : Bool) (policy : Policy) :
    Except PolicyValidationError (CompiledConditions κ) :=
  match policy.policyType with
  | .allow | .deny => .ok noConditions
  | .conditional conditions => compileConditions env policy conditions strictMode

/-- `compile_single_policy`. -/
def compileSinglePolicy (strictMode : Bool) (policy : Policy) :
    Except PolicyValidationError (CompiledPolicy κ) :=
  let nameLen := policy.name.utf8ByteSize
  if maxPolicyNameLen < nameLen then
    invalid policy s!"Policy name is {nameLen} bytes, max is {maxPolicyNameLen}"
  else do
    let conditions ← compilePolicyConditions env strictMode policy
    let pathRules ← compileOptional (compilePathRules env policy) policy.pathRules
    let networkRules ← compileOptional (compileNetworkRules policy) policy.networkRules
    let ipRules ←
      compileOptional (compileIpRules env policy) (policy.networkRules.bind NetworkRules.ipRules)
    .ok
      { policy := policy
        toolMatcher := .compile env.toExternals policy.id
        conditions := conditions
        compiledPathRules := pathRules
        compiledNetworkRules := networkRules
        compiledIpRules := ipRules }

end Policies

/-- Compilation on plain text, with context conditions kept as they are. -/
def plainEnv : CompileEnv Json where
  toExternals := plainExternals
  compileContextCondition := fun _ condition => .ok condition

end Vellaveto
