/-
  THE ATTRIBUTE ENGINE (`vellaveto-engine/src/abac.rs`): policies that permit or forbid.

  PROGRAM.  `AbacEngine.new` validates and compiles every policy and sorts them by priority.
  `AbacEngine.evaluate` walks the list: a policy matches when its principal, action, resource and
  conditions all do; the first Forbid that matches denies, otherwise the first Permit that matches
  allows.

  Two steps can go wrong without an error of their own.  A path pattern that is no glob sets
  `path_compile_failed`, after which the policy matches nothing; a target path that cannot be
  normalized is skipped.  Both make a policy match LESS, whatever its effect is.

  SPEC.  `AbacPolicy.AppliesTo` is the conjunction of the four tests, on the policy as it was
  written.

  CORRECTNESS.
    1. `evaluateLoop_eq`            the loop is `Lib.combine`;
    2. `AbacEngine.new_spec`        an accepted policy set is compiled policy by policy;
    3. `evaluate_allows_iff`        Forbid overrides: a request is allowed exactly when a Permit
                                    policy applies and no Forbid policy does.

  `find_conflicts`, the entity lookup and the warnings are left out.
-/
import Mathlib.Data.List.Sort
import Vellaveto.Engine.Domain
import Vellaveto.Engine.Matcher
import Vellaveto.Engine.Path
import Vellaveto.Lib.Decision
import Vellaveto.Lib.Overrides
import Vellaveto.Types.Abac

namespace Vellaveto.Abac

open Vellaveto.Lib

/-- The libraries the attribute engine calls. -/
structure AbacExternals extends Externals where
  /-- `GlobBuilder::new(p).literal_separator(true).build()`, compiled; nothing when `p` is not a
      valid glob. -/
  globBuild : String → Option TextMatcher
  /-- `str::escape_debug`. -/
  escapeDebug : String → String
  /-- The `Debug` text of a string. -/
  debugString : String → String

/-- `str::split_once`: the texts before and after the first separator. -/
def splitOnce (sep : List Char) : List Char → Option (List Char × List Char)
  | [] => if sep.isEmpty then some ([], []) else none
  | c :: cs =>
    if sep.isPrefixOf (c :: cs) then some ([], (c :: cs).drop sep.length)
    else (splitOnce sep cs).map fun parts => (c :: parts.1, parts.2)

/-- `n as f64`: the nearest number with 53 significant bits, ties to even. -/
def roundToF64 (n : Nat) : Nat :=
  let unit := 2 ^ (n.log2 + 1 - 53)
  let quotient := n / unit
  let rest := n % unit
  let rounded :=
    if 2 * rest < unit then quotient
    else if unit < 2 * rest then quotient + 1
    else quotient + quotient % 2
  rounded * unit

/-- `Value::as_f64`; what it returns is always finite. -/
def asF64 : Json → Option Rat
  | .number (.posInt n) => some (roundToF64 n)
  | .number (.negInt n) => some (-(roundToF64 n.natAbs))
  | .number (.float q) => some q
  | _ => none

/-! ## Compiled policies -/

/-- `CompiledPathMatcher`. -/
inductive CompiledPathMatcher where
  | simple (m : PatternMatcher)
  | glob (m : TextMatcher)

/-- `CompiledPrincipal`. -/
structure CompiledPrincipal where
  principalType : Option String
  idMatchers : List PatternMatcher
  claims : List (String × PatternMatcher)

/-- `CompiledAction`. -/
structure CompiledAction where
  matchers : List (PatternMatcher × PatternMatcher)

/-- `CompiledResource`. -/
structure CompiledResource where
  pathMatchers : List CompiledPathMatcher
  domainMatchers : List PatternMatcher
  tags : List String
  pathCompileFailed : Bool

/-- `CompiledCondition`. -/
structure CompiledCondition where
  field : String
  op : AbacOp
  value : Json

/-- `CompiledAbacPolicy`. -/
structure CompiledAbacPolicy where
  id : String
  effect : AbacEffect
  priority : Int
  principal : CompiledPrincipal
  action : CompiledAction
  resource : CompiledResource
  conditions : List CompiledCondition

/-- `AbacDecision`. -/
inductive AbacDecision where
  | allow (policyId : String)
  | deny (policyId reason : String)
  | noMatch
deriving DecidableEq, Repr

/-- `EntityStore`, as far as memberships go: the parents of an entity. -/
structure EntityStore where
  memberships : AList fun _ : String => List String

/-- `AbacEngine`. -/
structure AbacEngine where
  compiled : List CompiledAbacPolicy
  entityStore : EntityStore

def maxMembershipDepth : Nat := 16
def maxAbacEntities : Nat := 10000

section Program

variable (ext : AbacExternals)

/-! ## Entities -/

/-- The key of an entity: type and id, each normalized. -/
def entityKey (entityType id : String) : String :=
  ext.normalizeFull entityType ++ "::" ++ ext.normalizeFull id

/-- `normalize_entity_key`, which is also what `from_config` does to a parent. -/
def normalizeEntityKey (key : String) : String :=
  match splitOnce [':', ':'] key.toList with
  | some (entityType, id) => entityKey ext (String.ofList entityType) (String.ofList id)
  | none => ext.normalizeFull key

/-- `EntityStore::from_config`; an entity replaces an earlier one with the same key. -/
def EntityStore.fromConfig (entities : List AbacEntity) : EntityStore :=
  ⟨entities.foldl (fun memberships entity =>
    memberships.insert (entityKey ext entity.entityType entity.id)
      (entity.parents.map (normalizeEntityKey ext))) ∅⟩

/-- `is_member_of_bounded`: `left` is what remains of the depth, and the keys visited on the way are
    returned, since the source keeps them in one set for the whole search. -/
def EntityStore.isMemberOfBounded (store : EntityStore) (groupKey : String) :
    Nat → String → List String → Bool × List String
  | 0, _, visited => (false, visited)
  | left + 1, key, visited =>
    if key ∈ visited then (false, visited)
    else
      ((store.memberships.lookup key).getD []).foldl
        (fun found parent =>
          if found.1 then found
          else if parent = groupKey then (true, found.2)
          else isMemberOfBounded store groupKey left parent found.2)
        (false, key :: visited)

/-- `is_member_of`. -/
def EntityStore.isMemberOf (store : EntityStore) (key groupKey : String) : Bool :=
  (store.isMemberOfBounded (normalizeEntityKey ext groupKey) maxMembershipDepth
    (normalizeEntityKey ext key) []).1

/-! ## Compilation -/

/-- Does the pattern hold a glob metacharacter? -/
def hasGlobMeta (pattern : String) : Bool :=
  pattern.toList.contains '*' || pattern.toList.contains '?' || pattern.toList.contains '['

/-- `CompiledPathMatcher::compile`. -/
def CompiledPathMatcher.compile (pattern : String) : Option CompiledPathMatcher :=
  if !hasGlobMeta pattern then some (.simple (.compile ext.toExternals pattern))
  else (ext.globBuild pattern).map .glob

/-- `CompiledPathMatcher::matches`. -/
def CompiledPathMatcher.matchesPath : CompiledPathMatcher → String → Bool
  | .simple m, path => m.matchesValue path
  | .glob m, path => m path

/-- `compile_principal`. -/
def compilePrincipal (pc : PrincipalConstraint) : CompiledPrincipal where
  principalType := pc.principalType
  idMatchers := pc.idPatterns.map (.compile ext.toExternals)
  claims := pc.claims.entries.map fun e => (e.1, .compile ext.toExternals e.2)

/-- `compile_action`: a pattern without a colon asks for a tool and any function. -/
def compileAction (ac : ActionConstraint) : CompiledAction where
  matchers := ac.patterns.map fun p =>
    match splitOnce [':'] p.toList with
    | some (tool, func) =>
      (.compile ext.toExternals (String.ofList tool),
        .compile ext.toExternals (String.ofList func))
    | none => (.compile ext.toExternals p, .compile ext.toExternals "*")

/-- `compile_resource`.  It never fails: a pattern that does not compile is left out of the
    matchers and remembered in the flag. -/
def compileResource (rc : ResourceConstraint) : CompiledResource where
  pathMatchers := rc.pathPatterns.filterMap (CompiledPathMatcher.compile ext)
  domainMatchers := rc.domainPatterns.map (.compile ext.toExternals)
  tags := rc.tags
  pathCompileFailed := rc.pathPatterns.any fun p => (CompiledPathMatcher.compile ext p).isNone

/-- The operators that compare numbers. -/
def AbacOp.isNumeric : AbacOp → Bool
  | .gt | .lt | .gte | .lte => true
  | _ => false

/-- The body of the loop over the conditions in `compile_policy`.  The test for a number that is not
    finite is gone, since no `serde_json` number is. -/
def compileCondition (policyId : String) (c : AbacCondition) : Except String CompiledCondition :=
  let field := c.field
  if c.field.isEmpty then
    .error s!"ABAC policy '{policyId}' has a condition with an empty field name"
  else if hasDangerousChars c.field then
    let escaped := ext.debugString (ext.escapeDebug c.field)
    .error <| s!"ABAC policy '{policyId}' has a condition with control or format characters in " ++
      s!"field name: {escaped}"
  else if c.op.isNumeric && (asF64 c.value).isNone then
    let op := c.op.debug
    .error <| s!"ABAC policy '{policyId}' condition on field '{field}' uses numeric operator {op} " ++
      "but value is not a number"
  else .ok ⟨c.field, c.op, c.value⟩

/-- `compile_policy`. -/
def compilePolicy (policy : AbacPolicy) : Except String CompiledAbacPolicy := do
  let conditions ← policy.conditions.mapM (compileCondition ext policy.id)
  .ok {
    id := policy.id
    effect := policy.effect
    priority := policy.priority
    principal := compilePrincipal ext policy.principal
    action := compileAction ext policy.action
    resource := compileResource ext policy.resource
    conditions := conditions }

/-- The checks of the entity list in `AbacEngine::new`. -/
def validateEntities (entities : List AbacEntity) : Except String Unit :=
  let count := entities.length
  if maxAbacEntities < count then
    .error s!"ABAC entity count {count} exceeds maximum {maxAbacEntities}"
  else
    entities.forM fun entity =>
      let entityType := entity.entityType
      let id := entity.id
      inContext s!"ABAC entity '{entityType}::{id}' validation failed: "
        (entity.validate ext.jsonText)

/-- The body of the loop over the policies in `AbacEngine::new`. -/
def validateAndCompile (policy : AbacPolicy) : Except String CompiledAbacPolicy := do
  let id := policy.id
  inContext s!"ABAC policy '{id}' validation failed: " (policy.validate ext.escapeDebug ext.jsonText)
  compilePolicy ext policy

/-- `AbacEngine::new`. -/
def AbacEngine.new (policies : List AbacPolicy) (entities : List AbacEntity) :
    Except String AbacEngine := do
  let compiled ← policies.mapM (validateAndCompile ext)
  let sorted := compiled.insertionSort fun a b => b.priority ≤ a.priority
  validateEntities ext entities
  .ok ⟨sorted, .fromConfig ext entities⟩

/-! ## Matching -/

/-- The type test of `matches_principal`: the required type, or membership in the entity of that
    type with the principal's own id. -/
def matchesType (required : Option String) (ctx : AbacEvalContext) (store : EntityStore) : Bool :=
  match required with
  | none => true
  | some required =>
    if ext.normalizeFull required ≠ ext.normalizeFull ctx.principalType then
      let key := entityKey ext ctx.principalType ctx.principalId
      let groupKey := entityKey ext required ctx.principalId
      key = groupKey || store.isMemberOf ext key groupKey
    else true

/-- One claim of `matches_principal`: an absent claim does not match, a claim that is not a string
    counts as the empty string. -/
def matchesClaim (ctx : AbacEvalContext) (claim : String × PatternMatcher) : Bool :=
  match ctx.evalCtx.claims.bind fun claims => claims.lookup claim.1 with
  | none => false
  | some v => claim.2.matchesValue (ext.normalizeFull (v.asStr.getD ""))

/-- `matches_principal`. -/
def matchesPrincipal (principal : CompiledPrincipal) (ctx : AbacEvalContext)
    (store : EntityStore) : Bool :=
  matchesType ext principal.principalType ctx store &&
    (principal.idMatchers.isEmpty ||
      principal.idMatchers.any fun m => m.matchesValue (ext.normalizeFull ctx.principalId)) &&
    principal.claims.all (matchesClaim ext ctx)

/-- `matches_action`. -/
def matchesAction (constraint : CompiledAction) (action : Action) : Bool :=
  constraint.matchers.isEmpty ||
    constraint.matchers.any fun m =>
      m.1.matchesValue (ext.normalizeFull action.tool) &&
        m.2.matchesValue (ext.normalizeFull action.function)

/-- One target path: a path that cannot be normalized is skipped. -/
def pathMatches (matchers : List CompiledPathMatcher) (path : String) : Bool :=
  match Path.normalizePathBounded path Path.defaultMaxPathDecodeIterations with
  | .ok normalized => matchers.any fun m => m.matchesPath normalized
  | .error _ => false

/-- One target domain: a domain that cannot be normalized is skipped. -/
def domainMatches (matchers : List PatternMatcher) (domain : String) : Bool :=
  match Domain.normalizeDomainForMatch ext.toExternals domain with
  | some normalized => matchers.any fun m => m.matchesValue normalized
  | none => false

/-- The tags are looked for among the parameters. -/
def tagsPresent (tags : List String) (parameters : Json) : Bool :=
  match parameters.asObject with
  | some params => tags.all fun tag => (params.lookup tag).isSome
  | none => false

/-- `matches_resource`.  Without target paths (domains) no path (domain) matches, which is the
    source's separate test for an empty list. -/
def matchesResource (resource : CompiledResource) (action : Action) : Bool :=
  !resource.pathCompileFailed &&
    (resource.pathMatchers.isEmpty ||
      action.targetPaths.any (pathMatches resource.pathMatchers)) &&
    (resource.domainMatchers.isEmpty ||
      action.targetDomains.any (domainMatches ext resource.domainMatchers)) &&
    (resource.tags.isEmpty || tagsPresent resource.tags action.parameters)

/-- `resolve_field`. -/
def resolveField (field : String) (ctx : AbacEvalContext) : Json :=
  match field with
  | "principal.type" => .string ctx.principalType
  | "principal.id" => .string ctx.principalId
  | "risk.score" =>
    match ctx.riskScore with
    | some (.finite q) => .number (.float q)
    | some .nonFinite => .number (.float 1)
    | none => .null
  | "context.agent_id" => (ctx.evalCtx.agentId.map Json.string).getD .null
  | "context.tenant_id" => (ctx.evalCtx.tenantId.map Json.string).getD .null
  | "context.call_chain_depth" => .number (.posInt ctx.evalCtx.callChainDepth)
  | _ =>
    match stripPrefix "claims.".toList field.toList with
    | some key => (ctx.evalCtx.claims.bind fun cs => cs.lookup (String.ofList key)).getD .null
    | none => .null

/-- `compare_numbers`. -/
def compareNumbers (a b : Json) (cmp : Rat → Rat → Bool) : Bool :=
  match asF64 a, asF64 b with
  | some av, some bv => cmp av bv
  | _, _ => false

/-- Equality of a field with a value: of the normalized texts when both are strings. -/
def sameValue (a b : Json) : Bool :=
  match a.asStr, b.asStr with
  | some a, some b => ext.normalizeFull a == ext.normalizeFull b
  | _, _ => a = b

/-- `evaluate_single_condition`.  In `In` and `NotIn` a value that is not an array fails either way. -/
def evaluateSingleCondition (condition : CompiledCondition) (ctx : AbacEvalContext) : Bool :=
  let fieldValue := resolveField condition.field ctx
  match condition.op with
  | .eq => sameValue ext fieldValue condition.value
  | .ne => !sameValue ext fieldValue condition.value
  | .isIn =>
    match condition.value.asArray with
    | some arr => arr.any fun v => sameValue ext v fieldValue
    | none => false
  | .notIn =>
    match condition.value.asArray with
    | some arr => !arr.any fun v => sameValue ext v fieldValue
    | none => false
  | .contains =>
    match fieldValue.asStr, condition.value.asStr with
    | some haystack, some needle =>
      containsInfix (ext.normalizeFull needle).toList (ext.normalizeFull haystack).toList
    | _, _ => false
  | .startsWith =>
    match fieldValue.asStr, condition.value.asStr with
    | some s, some start =>
      (ext.normalizeFull start).toList.isPrefixOf (ext.normalizeFull s).toList
    | _, _ => false
  | .gt => compareNumbers fieldValue condition.value fun a b => decide (b < a)
  | .lt => compareNumbers fieldValue condition.value fun a b => decide (a < b)
  | .gte => compareNumbers fieldValue condition.value fun a b => decide (b ≤ a)
  | .lte => compareNumbers fieldValue condition.value fun a b => decide (a ≤ b)

/-- `evaluate_conditions`. -/
def evaluateConditions (conditions : List CompiledCondition) (ctx : AbacEvalContext) : Bool :=
  conditions.all fun c => evaluateSingleCondition ext c ctx

/-! ## Evaluation -/

/-- The loop of `evaluate`. -/
def evaluateLoop (store : EntityStore) (action : Action) (ctx : AbacEvalContext) :
    Option String → List CompiledAbacPolicy → AbacDecision
  | some id, [] => .allow id
  | none, [] => .noMatch
  | bestPermit, policy :: policies =>
    if !matchesPrincipal ext policy.principal ctx store then
      evaluateLoop store action ctx bestPermit policies
    else if !matchesAction ext policy.action action then
      evaluateLoop store action ctx bestPermit policies
    else if !matchesResource ext policy.resource action then
      evaluateLoop store action ctx bestPermit policies
    else if !evaluateConditions ext policy.conditions ctx then
      evaluateLoop store action ctx bestPermit policies
    else
      match policy.effect with
      | .forbid =>
        let id := policy.id
        .deny policy.id s!"ABAC forbid policy '{id}' matched"
      | .permit =>
        evaluateLoop store action ctx
          (if bestPermit.isNone then some policy.id else bestPermit) policies

/-- `AbacEngine::evaluate`. -/
def AbacEngine.evaluate (engine : AbacEngine) (action : Action) (ctx : AbacEvalContext) :
    AbacDecision :=
  evaluateLoop ext engine.entityStore action ctx none engine.compiled

end Program

/-! ## The loop is the forbid-overrides loop -/

section Spec

variable {ext : AbacExternals}

/-- Does a compiled policy match a request? -/
def CompiledAbacPolicy.appliesTo (ext : AbacExternals) (store : EntityStore) (action : Action)
    (ctx : AbacEvalContext) (policy : CompiledAbacPolicy) : Bool :=
  matchesPrincipal ext policy.principal ctx store && matchesAction ext policy.action action &&
    matchesResource ext policy.resource action && evaluateConditions ext policy.conditions ctx

def CompiledAbacPolicy.forbids (policy : CompiledAbacPolicy) : Bool := policy.effect = .forbid

/-- A ruling as `evaluate` reports it. -/
def reported : Ruling CompiledAbacPolicy → AbacDecision
  | .deny policy =>
    let id := policy.id
    .deny policy.id s!"ABAC forbid policy '{id}' matched"
  | .allow policy => .allow policy.id
  | .noMatch => .noMatch

/-- One round of the loop, by whether the policy applies. -/
theorem evaluateLoop_cons (store : EntityStore) (action : Action) (ctx : AbacEvalContext)
    (bestPermit : Option String) (policy : CompiledAbacPolicy)
    (policies : List CompiledAbacPolicy) :
    evaluateLoop ext store action ctx bestPermit (policy :: policies) =
      if policy.appliesTo ext store action ctx then
        if policy.forbids then reported (.deny policy)
        else evaluateLoop ext store action ctx (bestPermit <|> some policy.id) policies
      else evaluateLoop ext store action ctx bestPermit policies := by
  rw [evaluateLoop, CompiledAbacPolicy.appliesTo, CompiledAbacPolicy.forbids]
  cases matchesPrincipal ext policy.principal ctx store
  · simp
  cases matchesAction ext policy.action action
  · simp
  cases matchesResource ext policy.resource action
  · simp
  cases evaluateConditions ext policy.conditions ctx
  · simp
  cases policy.effect with
  | forbid => simp [reported]
  | permit => cases bestPermit <;> simp

theorem evaluateLoop_eq (store : EntityStore) (action : Action) (ctx : AbacEvalContext)
    (best : Option CompiledAbacPolicy) (policies : List CompiledAbacPolicy) :
    evaluateLoop ext store action ctx (best.map CompiledAbacPolicy.id) policies =
      reported (combine CompiledAbacPolicy.forbids
        (CompiledAbacPolicy.appliesTo ext store action ctx) best policies) := by
  induction policies generalizing best with
  | nil => cases best <;> rfl
  | cons policy policies ih =>
    have hbest : (best.map CompiledAbacPolicy.id <|> some policy.id) =
        (best <|> some policy).map CompiledAbacPolicy.id := by
      cases best <;> rfl
    rw [evaluateLoop_cons, hbest, ih, ih]
    cases happlies : policy.appliesTo ext store action ctx with
    | false =>
      rw [combine_cons_skip best policies happlies]
      rfl
    | true =>
      cases hforbids : policy.forbids with
      | false =>
        rw [combine_cons_permit best policies happlies hforbids]
        rfl
      | true =>
        rw [combine_cons_deny best policies happlies hforbids]
        rfl

/-! ## Accepted policy sets -/

/-- A policy whose conditions were accepted, compiled. -/
def AbacPolicy.compiled (ext : AbacExternals) (p : AbacPolicy) : CompiledAbacPolicy where
  id := p.id
  effect := p.effect
  priority := p.priority
  principal := compilePrincipal ext p.principal
  action := compileAction ext p.action
  resource := compileResource ext p.resource
  conditions := p.conditions.map fun c => ⟨c.field, c.op, c.value⟩

/-- A condition compiles to itself, if it compiles. -/
theorem compileCondition_spec {policyId : String} {c : AbacCondition} {compiled : CompiledCondition}
    (h : compileCondition ext policyId c = .ok compiled) : compiled = ⟨c.field, c.op, c.value⟩ := by
  rw [compileCondition] at h
  split at h
  · cases h
  · split at h
    · cases h
    · split at h
      · cases h
      · cases h
        rfl

theorem compilePolicy_spec {p : AbacPolicy} {compiled : CompiledAbacPolicy}
    (h : compilePolicy ext p = .ok compiled) : compiled = p.compiled ext := by
  rw [compilePolicy] at h
  obtain ⟨conditions, hconditions, h⟩ := bind_eq_ok_iff.mp h
  have heq : conditions = p.conditions.map fun c => ⟨c.field, c.op, c.value⟩ :=
    eq_map_of_mapM_eq_ok (fun c compiled hc => compileCondition_spec hc) hconditions
  cases h
  rw [heq]
  rfl

theorem validateAndCompile_spec {p : AbacPolicy} {compiled : CompiledAbacPolicy}
    (h : validateAndCompile ext p = .ok compiled) : compiled = p.compiled ext := by
  rw [validateAndCompile] at h
  obtain ⟨_, _, h⟩ := bind_eq_ok_iff.mp h
  exact compilePolicy_spec h

/-- An accepted policy set: the compiled policies are those of the set, in some order. -/
theorem AbacEngine.new_spec {policies : List AbacPolicy} {entities : List AbacEntity}
    {engine : AbacEngine} (h : AbacEngine.new ext policies entities = .ok engine) :
    engine.compiled.Perm (policies.map (AbacPolicy.compiled ext)) ∧
      engine.entityStore = .fromConfig ext entities := by
  rw [AbacEngine.new] at h
  obtain ⟨compiled, hcompiled, h⟩ := bind_eq_ok_iff.mp h
  obtain ⟨_, _, h⟩ := bind_eq_ok_iff.mp h
  have heq : compiled = policies.map (AbacPolicy.compiled ext) :=
    eq_map_of_mapM_eq_ok (fun p c hc => validateAndCompile_spec hc) hcompiled
  cases h
  rw [← heq]
  exact ⟨List.perm_insertionSort _ compiled, rfl⟩

/-! ## What a policy set allows -/

/-- A policy as it was written applies to a request when all four of its parts match. -/
structure AbacPolicy.AppliesTo (ext : AbacExternals) (entities : List AbacEntity) (action : Action)
    (ctx : AbacEvalContext) (p : AbacPolicy) : Prop where
  principalMatches :
    matchesPrincipal ext (compilePrincipal ext p.principal) ctx (.fromConfig ext entities) = true
  actionMatches : matchesAction ext (compileAction ext p.action) action = true
  resourceMatches : matchesResource ext (compileResource ext p.resource) action = true
  conditionsHold : evaluateConditions ext (p.compiled ext).conditions ctx = true

theorem appliesTo_compiled_iff {entities : List AbacEntity} {action : Action} {ctx : AbacEvalContext}
    {p : AbacPolicy} :
    (p.compiled ext).appliesTo ext (.fromConfig ext entities) action ctx = true ↔
      p.AppliesTo ext entities action ctx := by
  rw [CompiledAbacPolicy.appliesTo, Bool.and_eq_true, Bool.and_eq_true, Bool.and_eq_true]
  constructor
  · rintro ⟨⟨⟨hprincipal, haction⟩, hresource⟩, hconditions⟩
    exact ⟨hprincipal, haction, hresource, hconditions⟩
  · rintro ⟨hprincipal, haction, hresource, hconditions⟩
    exact ⟨⟨⟨hprincipal, haction⟩, hresource⟩, hconditions⟩

theorem forbids_compiled_iff {p : AbacPolicy} :
    (p.compiled ext).forbids = true ↔ p.effect = .forbid :=
  decide_eq_true_iff

section Evaluate

variable {policies : List AbacPolicy} {entities : List AbacEntity} {engine : AbacEngine}

/-- What holds of some compiled policy of an accepted set holds of some compiled policy of the
    list, and the other way round. -/
theorem exists_mem_compiled_iff (h : AbacEngine.new ext policies entities = .ok engine)
    (P : CompiledAbacPolicy → Prop) :
    (∃ c ∈ engine.compiled, P c) ↔ ∃ p ∈ policies, P (p.compiled ext) := by
  obtain ⟨hperm, -⟩ := AbacEngine.new_spec h
  simp only [hperm.mem_iff, List.mem_map]
  constructor
  · rintro ⟨c, ⟨p, hp, rfl⟩, hc⟩
    exact ⟨p, hp, hc⟩
  · rintro ⟨p, hp, hc⟩
    exact ⟨p.compiled ext, ⟨p, hp, rfl⟩, hc⟩

/-- The decision is the ruling of the forbid-overrides loop. -/
theorem evaluate_eq (h : AbacEngine.new ext policies entities = .ok engine) (action : Action)
    (ctx : AbacEvalContext) :
    engine.evaluate ext action ctx =
      reported (combine CompiledAbacPolicy.forbids
        (CompiledAbacPolicy.appliesTo ext (.fromConfig ext entities) action ctx) none
        engine.compiled) := by
  obtain ⟨-, hstore⟩ := AbacEngine.new_spec h
  rw [AbacEngine.evaluate, hstore]
  exact evaluateLoop_eq (.fromConfig ext entities) action ctx none engine.compiled

/-- A request is denied exactly when a Forbid policy applies to it. -/
theorem evaluate_denies_iff (h : AbacEngine.new ext policies entities = .ok engine)
    (action : Action) (ctx : AbacEvalContext) :
    (∃ id reason, engine.evaluate ext action ctx = .deny id reason) ↔
      ∃ p ∈ policies, p.effect = .forbid ∧ p.AppliesTo ext entities action ctx := by
  have hreported : ∀ r, (∃ id reason, reported r = .deny id reason) ↔ ∃ p, r = .deny p := by
    intro r
    cases r <;> simp [reported]
  rw [evaluate_eq h, hreported, exists_combine_eq_deny_iff, exists_mem_compiled_iff h]
  simp only [appliesTo_compiled_iff, forbids_compiled_iff]

/-- **Forbid overrides.**  A request is allowed exactly when no Forbid policy applies to it and some
    Permit policy does. -/
theorem evaluate_allows_iff (h : AbacEngine.new ext policies entities = .ok engine)
    (action : Action) (ctx : AbacEvalContext) :
    (∃ id, engine.evaluate ext action ctx = .allow id) ↔
      (¬∃ p ∈ policies, p.effect = .forbid ∧ p.AppliesTo ext entities action ctx) ∧
        ∃ p ∈ policies, p.effect = .permit ∧ p.AppliesTo ext entities action ctx := by
  have hreported : ∀ r, (∃ id, reported r = .allow id) ↔ ∃ p, r = .allow p := by
    intro r
    cases r <;> simp [reported]
  rw [evaluate_eq h, hreported, exists_combine_eq_allow_iff, exists_mem_compiled_iff h,
    exists_mem_compiled_iff h]
  simp only [appliesTo_compiled_iff, forbids_compiled_iff]
  refine and_congr_right fun hnone => ?_
  constructor
  · rintro ⟨p, hp, happlies⟩
    refine ⟨p, hp, ?_, happlies⟩
    -- a policy that applies is a Permit, there being no Forbid that does
    cases heffect : p.effect with
    | permit => rfl
    | forbid => exact absurd ⟨p, hp, heffect, happlies⟩ hnone
  · rintro ⟨p, hp, -, happlies⟩
    exact ⟨p, hp, happlies⟩

end Evaluate

end Spec

end Vellaveto.Abac
