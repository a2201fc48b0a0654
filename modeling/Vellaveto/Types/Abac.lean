/-
  ATTRIBUTE-BASED POLICIES: the data an operator writes and its bounds
  (`vellaveto-types/src/abac.rs`; the fields of `AgentIdentity` and `EvaluationContext` in
  `identity.rs` that the attribute engine reads).

  A policy has an effect and four parts: who acts, what is done, on what, and under which
  conditions.  An empty part asks for nothing.  `validate` bounds every list and every text; nothing
  in it looks at whether a pattern is a glob.

  A `HashMap` is an `AList`: its entries are listed in some order, which is the order in which the
  source happens to iterate.  Only the choice of the error that is reported depends on it.
-/
import Mathlib.Data.List.AList
import Vellaveto.Json
import Vellaveto.Types.Chars

namespace Vellaveto.Abac

/-- `AbacEffect`. -/
inductive AbacEffect where
  | permit
  | forbid
deriving DecidableEq, Repr

/-- `AbacOp`. -/
inductive AbacOp where
  | eq | ne | isIn | notIn | contains | startsWith | gt | lt | gte | lte
deriving DecidableEq, Repr

/-- The `Debug` text of an operator. -/
def AbacOp.debug : AbacOp → String
  | .eq => "Eq"
  | .ne => "Ne"
  | .isIn => "In"
  | .notIn => "NotIn"
  | .contains => "Contains"
  | .startsWith => "StartsWith"
  | .gt => "Gt"
  | .lt => "Lt"
  | .gte => "Gte"
  | .lte => "Lte"

/-- `PrincipalConstraint`: who is performing the action. -/
structure PrincipalConstraint where
  principalType : Option String := none
  idPatterns : List String := []
  claims : AList fun _ : String => String := ∅

/-- `ActionConstraint`: what operation is being performed. -/
structure ActionConstraint where
  patterns : List String := []

/-- `ResourceConstraint`: what is being acted upon. -/
structure ResourceConstraint where
  pathPatterns : List String := []
  domainPatterns : List String := []
  tags : List String := []

/-- `AbacCondition`. -/
structure AbacCondition where
  field : String
  op : AbacOp
  value : Json

/-- `AbacPolicy`. -/
structure AbacPolicy where
  id : String
  description : String
  effect : AbacEffect
  priority : Int := 0
  principal : PrincipalConstraint := {}
  action : ActionConstraint := {}
  resource : ResourceConstraint := {}
  conditions : List AbacCondition := []

/-- `AbacEntity`. -/
structure AbacEntity where
  entityType : String
  id : String
  attributes : AList fun _ : String => Json := ∅
  parents : List String := []

/-! ## What a request brings along -/

/-- The score of a `RiskScore`, an `f64` that nothing has validated yet. -/
inductive Score where
  | finite (q : Rat)
  | nonFinite
deriving DecidableEq, Repr

/-- The fields of `EvaluationContext` that the attribute engine reads.  `claims` are those of the
    `agent_identity`, if there is one; of the call chain only the length is asked. -/
structure EvaluationContext where
  agentId : Option String := none
  claims : Option (AList fun _ : String => Json) := none
  callChainDepth : Nat := 0
  tenantId : Option String := none

/-- `AbacEvalContext`. -/
structure AbacEvalContext where
  evalCtx : EvaluationContext
  principalType : String
  principalId : String
  riskScore : Option Score := none

/-! ## Bounds

  Every check is of a length, of the characters or of a count; its message starts with what is
  checked. -/

/-- A text of at most `max` bytes. -/
def checkLen (what : String) (max : Nat) (s : String) : Except String Unit :=
  let len := s.utf8ByteSize
  if max < len then .error s!"{what} length {len} exceeds max {max}" else .ok ()

/-- A text without control and format characters. -/
def checkChars (what s : String) : Except String Unit :=
  if hasDangerousChars s then .error s!"{what} contains control or format characters" else .ok ()

/-- At most `max` entries. -/
def checkCount (what : String) (max count : Nat) : Except String Unit :=
  if max < count then .error s!"{what} count {count} exceeds max {max}" else .ok ()

/-- Length, then characters. -/
def checkText (what : String) (max : Nat) (s : String) : Except String Unit := do
  checkLen what max s
  checkChars what s

/-- Every entry of a list, under its index. -/
def checkEntries (what : String) (max : Nat) (entries : List String) : Except String Unit :=
  entries.zipIdx.forM fun e =>
    let i := e.2
    checkText s!"{what}[{i}]" max e.1

/-- The count of a list, then its entries. -/
def checkList (what : String) (maxCount maxLen : Nat) (entries : List String) :
    Except String Unit := do
  checkCount what maxCount entries.length
  checkEntries what maxLen entries

/-- `map_err` with a text in front of the error. -/
def inContext {α : Type} (context : String) : Except String α → Except String α :=
  Except.mapError fun e => context ++ e

/-- `PrincipalConstraint::validate`. -/
def PrincipalConstraint.validate (c : PrincipalConstraint) : Except String Unit := do
  match c.principalType with
  | some pt => checkChars "PrincipalConstraint principal_type" pt
  | none => pure ()
  checkList "PrincipalConstraint id_patterns" 64 1024 c.idPatterns
  checkCount "PrincipalConstraint claims" 64 c.claims.entries.length
  c.claims.entries.forM fun e => do
    checkText "PrincipalConstraint claims key" 256 e.1
    checkText "PrincipalConstraint claims value" 1024 e.2

/-- `ActionConstraint::validate`. -/
def ActionConstraint.validate (c : ActionConstraint) : Except String Unit :=
  checkList "ActionConstraint patterns" 256 1024 c.patterns

/-- `ResourceConstraint::validate`. -/
def ResourceConstraint.validate (c : ResourceConstraint) : Except String Unit := do
  checkList "ResourceConstraint path_patterns" 256 2048 c.pathPatterns
  checkList "ResourceConstraint domain_patterns" 256 1024 c.domainPatterns
  checkList "ResourceConstraint tags" 64 256 c.tags

/-- `AbacCondition::MAX_VALUE_SIZE`. -/
def maxValueSize : Nat := 8192

section Validate

-- The text functions of the standard library and of `serde_json`: `escape_debug`, and the compact
-- JSON text (which always exists: a `Value` has string keys and finite numbers).
variable (escapeDebug : String → String) (jsonText : Json → String)

/-- `AbacCondition::validate`. -/
def AbacCondition.validate (c : AbacCondition) : Except String Unit := do
  if c.field.isEmpty then throw "AbacCondition field must not be empty"
  checkLen "AbacCondition field" 256 c.field
  let escaped := escapeDebug c.field
  checkChars s!"AbacCondition field '{escaped}'" c.field
  let size := (jsonText c.value).utf8ByteSize
  if maxValueSize < size then
    let field := c.field
    throw s!"AbacCondition field '{field}' value serialized size {size} exceeds max {maxValueSize}"

/-- `AbacPolicy::validate`. -/
def AbacPolicy.validate (p : AbacPolicy) : Except String Unit := do
  let id := p.id
  checkChars s!"AbacPolicy '{id}' id" p.id
  checkChars s!"AbacPolicy '{id}' description" p.description
  checkCount "AbacPolicy conditions" 256 p.conditions.length
  p.conditions.zipIdx.forM fun c =>
    let i := c.2
    inContext s!"conditions[{i}]: " (c.1.validate escapeDebug jsonText)
  p.principal.validate
  p.action.validate
  p.resource.validate

/-- `AbacEntity::MAX_ATTR_VALUE_SIZE`. -/
def maxAttrValueSize : Nat := 65536

/-- `AbacEntity::validate`. -/
def AbacEntity.validate (e : AbacEntity) : Except String Unit := do
  let entityType := e.entityType
  let id := e.id
  let entity := s!"AbacEntity '{entityType}::{id}'"
  checkLen "AbacEntity entity_type" 256 e.entityType
  checkLen "AbacEntity id" 512 e.id
  checkChars s!"{entity} entity_type" e.entityType
  checkChars s!"{entity} id" e.id
  let parents := e.parents.length
  if 256 < parents then throw s!"{entity} has {parents} parents (max 256)"
  checkEntries s!"{entity} parents" 256 e.parents
  let attributes := e.attributes.entries.length
  if 256 < attributes then throw s!"{entity} has {attributes} attributes (max 256)"
  e.attributes.entries.forM fun a => do
    let key := a.1
    checkText s!"{entity} attribute key" 256 a.1
    let size := (jsonText a.2).utf8ByteSize
    if maxAttrValueSize < size then
      throw s!"{entity} attribute '{key}' value size {size} exceeds max {maxAttrValueSize}"

end Validate

end Vellaveto.Abac
