/-
  CORE TYPES of the policy engine: actions, verdicts, policies and their errors
  (`vellaveto-types/src/core.rs`, `threat.rs`, `vellaveto-engine/src/error.rs`).

  `Action.validate` is the check every action passes at a trust boundary.  Its three target fields
  go through the same per-entry check (`validateTargets`), each under its own field name.
-/
import Vellaveto.Json
import Vellaveto.Lib.Text
import Vellaveto.Types.Chars

namespace Vellaveto

open Vellaveto.Lib

/-! ## Actions -/

def maxNameLen : Nat := 256
def maxTargetLen : Nat := 4096
def maxTargets : Nat := 256
def maxParametersSize : Nat := 1048576

/-- `ValidationError`. -/
inductive ValidationError where
  | emptyField (field : String)
  | nullByte (field : String)
  | controlCharacter (field : String)
  | tooLong (field : String) (len max : Nat)
  | tooManyTargets (count max : Nat)
  | targetTooLong (field : String) (index len max : Nat)
  | targetNullByte (field : String) (index : Nat)
  | parametersTooLarge (size max : Nat)
deriving DecidableEq, Repr

/-- A tool call submitted for evaluation. -/
structure Action where
  tool : String
  function : String
  parameters : Json
  targetPaths : List String
  targetDomains : List String
  resolvedIps : List String
deriving DecidableEq, Repr

/-- `Action::new`. -/
def Action.new (tool function : String) (parameters : Json) : Action :=
  ⟨tool, function, parameters, [], [], []⟩

/-- A control character other than NUL (which has an error of its own), or a format character. -/
def isForbiddenInText (c : Char) : Bool :=
  (isControl c && c ≠ Char.ofNat 0) || isUnicodeFormatChar c

/-- Does the text hold a NUL? -/
def hasNull (s : String) : Bool := s.toList.contains (Char.ofNat 0)

/-- `validate_name`. -/
def validateName (value field : String) : Except ValidationError Unit :=
  if value.isEmpty then .error (.emptyField field)
  else if hasNull value then .error (.nullByte field)
  else if maxNameLen < value.utf8ByteSize then
    .error (.tooLong field value.utf8ByteSize maxNameLen)
  else if value.toList.all isWhitespace then .error (.emptyField field)
  else if value.toList.any isForbiddenInText then .error (.controlCharacter field)
  else .ok ()

/-- `Action::validated`. -/
def Action.validated (tool function : String) (parameters : Json) :
    Except ValidationError Action := do
  validateName tool "tool"
  validateName function "function"
  .ok (Action.new tool function parameters)

def mcpToolNameMaxLen : Nat := 64

/-- What `validate_mcp_tool_name` finds wrong with a name. -/
inductive McpToolNameError where
  | empty
  | tooLong (len : Nat)
  | invalidCharacter (c : Char) (position : Nat)
  | badStart
  | badEnd
  | consecutiveDots
  | consecutiveSlashes
deriving DecidableEq, Repr

/-- The characters of an MCP tool name. -/
def isMcpToolNameChar (c : Char) : Bool :=
  c.isAlphanum || c = '_' || c = '-' || c = '.' || c = '/'

/-- `validate_mcp_tool_name`. -/
def validateMcpToolName (name : String) : Except McpToolNameError Unit :=
  let cs := name.toList
  if cs.isEmpty then .error .empty
  else if mcpToolNameMaxLen < name.utf8ByteSize then .error (.tooLong name.utf8ByteSize)
  else
    match cs.zipIdx.find? fun p => !isMcpToolNameChar p.1 with
    | some (c, i) => .error (.invalidCharacter c i)
    | none =>
      if cs.head? = some '.' ∨ cs.head? = some '/' then .error .badStart
      else if cs.getLast? = some '.' ∨ cs.getLast? = some '/' then .error .badEnd
      else if containsInfix "..".toList cs then .error .consecutiveDots
      else if containsInfix "//".toList cs then .error .consecutiveSlashes
      else .ok ()

/-- The check of one entry of `target_paths`, `target_domains` or `resolved_ips`. -/
def validateTarget (field : String) (index : Nat) (entry : String) : Except ValidationError Unit :=
  if hasNull entry then .error (.targetNullByte field index)
  else if maxTargetLen < entry.utf8ByteSize then
    .error (.targetTooLong field index entry.utf8ByteSize maxTargetLen)
  else if entry.toList.any isForbiddenInText then .error (.controlCharacter field)
  else .ok ()

/-- Every entry of one target field, in order. -/
def validateTargets (field : String) (entries : List String) : Except ValidationError Unit :=
  entries.zipIdx.forM fun e => validateTarget field e.2 e.1

/-- `Action::validate`; `jsonTextLen` is the byte length of the compact JSON text of a value. -/
def Action.validate (jsonTextLen : Json → Nat) (a : Action) : Except ValidationError Unit := do
  validateName a.tool "tool"
  validateName a.function "function"
  if maxParametersSize < jsonTextLen a.parameters then
    .error (.parametersTooLarge (jsonTextLen a.parameters) maxParametersSize)
  let totalTargets := a.targetPaths.length + a.targetDomains.length + a.resolvedIps.length
  if maxTargets < totalTargets then .error (.tooManyTargets totalTargets maxTargets)
  validateTargets "target_paths" a.targetPaths
  validateTargets "target_domains" a.targetDomains
  validateTargets "resolved_ips" a.resolvedIps

/-! ## Verdicts and policies -/

/-- `Verdict`. -/
inductive Verdict where
  | allow
  | deny (reason : String)
  | requireApproval (reason : String)
deriving DecidableEq, Repr

/-- A verdict without its reason text. -/
inductive VerdictKind where
  | allow
  | deny
  | requireApproval
deriving DecidableEq, Repr

def Verdict.kind : Verdict → VerdictKind
  | .allow => .allow
  | .deny _ => .deny
  | .requireApproval _ => .requireApproval

/-- `PolicyType`. -/
inductive PolicyType where
  | allow
  | deny
  | conditional (conditions : Json)
deriving DecidableEq, Repr

structure PathRules where
  allowed : List String
  blocked : List String
deriving DecidableEq, Repr

structure IpRules where
  blockPrivate : Bool
  blockedCidrs : List String
  allowedCidrs : List String
deriving DecidableEq, Repr

structure NetworkRules where
  allowedDomains : List String
  blockedDomains : List String
  ipRules : Option IpRules
deriving DecidableEq, Repr

/-- `Policy`; the priority is an `i32`. -/
structure Policy where
  id : String
  name : String
  policyType : PolicyType
  priority : Int
  pathRules : Option PathRules
  networkRules : Option NetworkRules
deriving DecidableEq, Repr

/-! ## Engine errors -/

/-- `EngineError`, with the variants the modelled functions return. -/
inductive EngineError where
  | noPolicies
  | evaluationError (message : String)
  | invalidCondition (policyId reason : String)
  | pathNormalization (reason : String)
deriving DecidableEq, Repr

/-- The `Display` text of an engine error. -/
def EngineError.display : EngineError → String
  | .noPolicies => "No policies defined"
  | .evaluationError message => s!"Evaluation error: {message}"
  | .invalidCondition policyId reason => s!"Invalid condition in policy '{policyId}': {reason}"
  | .pathNormalization reason => s!"Path normalization failed (fail-closed): {reason}"

/-- `PolicyValidationError`. -/
structure PolicyValidationError where
  policyId : String
  policyName : String
  reason : String
deriving DecidableEq, Repr

end Vellaveto
