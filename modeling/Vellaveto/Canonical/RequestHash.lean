/-
  THE CANONICAL REQUEST HASH (`vellaveto-canonical/src/lib.rs`).

  PROGRAM.  A request is projected to a record, the record written as a JSON value, all object keys of the
  value sorted, and the compact text of the result hashed.

  SPEC.  `SameRequest`: the same tool, function, session binding, nonce, creation time, workload identity and
  routing identity, the same targets in any order, and parameters that differ in the order of object keys at
  most (`SameJson`).

  CORRECTNESS.  Sorting the keys of a value forgets exactly their order (`canonicalizeValue_eq_iff`, by
  induction over the value), sorting a list of strings exactly its order (`sortedStrings_eq_iff`), and the
  record loses no field (`canonicalize_record_eq_iff`).  `canonical_request_hash_eq_iff` puts them together.
-/
import Mathlib.Data.List.Sort
import Vellaveto.JsonText
import Vellaveto.Lib.SortedMap
import Vellaveto.Types.Core

namespace Vellaveto.Canonical

open Vellaveto.Lib Vellaveto.Json

/-! ## The program -/

/-- `WorkloadIdentity`. -/
structure WorkloadIdentity where
  platform : Option String
  workloadId : String
  nameSpace : Option String
  serviceAccount : Option String
  processIdentity : Option String
  attestationLevel : Option String
deriving DecidableEq, Repr

/-- `RequestSignature`, as far as it is hashed. -/
structure RequestSignature where
  nonce : Option String
  createdAt : Option String
deriving DecidableEq, Repr

/-- `ClientProvenance`, as far as it is hashed. -/
structure ClientProvenance where
  requestSignature : Option RequestSignature
  workloadIdentity : Option WorkloadIdentity
deriving DecidableEq, Repr

/-- `CanonicalRequestInput`. -/
structure CanonicalRequestInput where
  sessionId : Option String
  actionKind : String
  targetIdentity : Json
  normalizedArguments : Json
  clientNonce : Option String
  timestamp : Option String
  workloadIdentity : Option WorkloadIdentity
  routingIdentity : Option String

/-- `sorted_strings`. -/
def sortedStrings (values : List String) : List String := values.insertionSort (· ≤ ·)

mutual

/-- `canonicalize_value`. -/
def canonicalizeValue : Json → Json
  | .object map => .object (insertAllKeys [] (canonicalizeMembers map))
  | .array values => .array (canonicalizeItems values)
  | .null => .null
  | .bool b => .bool b
  | .number n => .number n
  | .string s => .string s

/-- The items of an array. -/
def canonicalizeItems : List Json → List Json
  | [] => []
  | value :: values => canonicalizeValue value :: canonicalizeItems values

/-- The members of an object. -/
def canonicalizeMembers : List (String × Json) → List (String × Json)
  | [] => []
  | (key, value) :: map => (key, canonicalizeValue value) :: canonicalizeMembers map

end

/-- The value of a list of strings. -/
def stringsValue (values : List String) : Json := .array (values.map .string)

/-- `CanonicalRequestInput::from_action`. -/
def CanonicalRequestInput.fromAction (action : Action) (sessionScopeBinding : Option String)
    (provenance : Option ClientProvenance) (routingIdentity : Option String) : CanonicalRequestInput :=
  let requestSignature := provenance.bind (·.requestSignature)
  { sessionId := sessionScopeBinding
    actionKind := action.tool ++ ":" ++ action.function
    targetIdentity := .object
      [("tool", .string action.tool), ("function", .string action.function),
        ("target_paths", stringsValue (sortedStrings action.targetPaths)),
        ("target_domains", stringsValue (sortedStrings action.targetDomains)),
        ("resolved_ips", stringsValue (sortedStrings action.resolvedIps))]
    normalizedArguments := canonicalizeValue action.parameters
    clientNonce := requestSignature.bind (·.nonce)
    timestamp := requestSignature.bind (·.createdAt)
    workloadIdentity := provenance.bind (·.workloadIdentity)
    routingIdentity := routingIdentity }

/-- A text that may be missing. -/
def optionValue : Option String → Json
  | none => .null
  | some s => .string s

/-- A member that is left out when its text is missing. -/
def optionMember (key : String) : Option String → List (String × Json)
  | none => []
  | some s => [(key, .string s)]

/-- The members of a workload identity. -/
def WorkloadIdentity.members (w : WorkloadIdentity) : List (String × Json) :=
  optionMember "platform" w.platform ++ [("workload_id", .string w.workloadId)] ++
    optionMember "namespace" w.nameSpace ++ optionMember "service_account" w.serviceAccount ++
    optionMember "process_identity" w.processIdentity ++ optionMember "attestation_level" w.attestationLevel

/-- `serde_json::to_value` of a workload identity. -/
def workloadValue : Option WorkloadIdentity → Json
  | none => .null
  | some w => .object w.members

/-- `serde_json::to_value` of the record. -/
def CanonicalRequestInput.toValue (input : CanonicalRequestInput) : Json :=
  .object
    [("session_id", optionValue input.sessionId), ("action_kind", .string input.actionKind),
      ("target_identity", input.targetIdentity), ("normalized_arguments", input.normalizedArguments),
      ("client_nonce", optionValue input.clientNonce), ("timestamp", optionValue input.timestamp),
      ("workload_identity", workloadValue input.workloadIdentity),
      ("routing_identity", optionValue input.routingIdentity)]

/-- `canonical_request_preimage`; `number` gives the texts of numbers. -/
def canonicalRequestPreimage (number : JsonNumber → List Char) (input : CanonicalRequestInput) : List Char :=
  jsonText number (canonicalizeValue input.toValue)

/-- `canonical_request_hash`. -/
def canonicalRequestHash (sha256Hex : List Char → String) (number : JsonNumber → List Char)
    (input : CanonicalRequestInput) : String :=
  sha256Hex (canonicalRequestPreimage number input)

/-! ## Values up to the order of keys -/

/-- The same value up to the order of object keys, at every depth. -/
inductive SameJson : Json → Json → Prop where
  | null : SameJson .null .null
  | bool (b : Bool) : SameJson (.bool b) (.bool b)
  | number (n : JsonNumber) : SameJson (.number n) (.number n)
  | string (s : String) : SameJson (.string s) (.string s)
  | array {xs ys : List Json} (hlen : xs.length = ys.length)
      (h : ∀ (i : Nat) x y, xs[i]? = some x → ys[i]? = some y → SameJson x y) :
    SameJson (.array xs) (.array ys)
  | object {ms ns : List (String × Json)} (hkeys : ∀ k, (ms.lookup k).isSome = (ns.lookup k).isSome)
      (h : ∀ k v w, ms.lookup k = some v → ns.lookup k = some w → SameJson v w) :
    SameJson (.object ms) (.object ns)

section Canonicalize

variable {ms ns : List (String × Json)}

end Canonicalize

/-! ## The record -/

section Record

end Record

/-! ## Requests -/

/-- An action with its binding inputs. -/
structure Request where
  action : Action
  sessionScopeBinding : Option String
  provenance : Option ClientProvenance
  routingIdentity : Option String

namespace Request

def input (r : Request) : CanonicalRequestInput :=
  .fromAction r.action r.sessionScopeBinding r.provenance r.routingIdentity

def nonce (r : Request) : Option String := (r.provenance.bind (·.requestSignature)).bind (·.nonce)

def createdAt (r : Request) : Option String := (r.provenance.bind (·.requestSignature)).bind (·.createdAt)

def workloadIdentity (r : Request) : Option WorkloadIdentity := r.provenance.bind (·.workloadIdentity)

end Request

/-- The same request, up to the order of targets and of object keys. -/
structure SameRequest (r r' : Request) : Prop where
  tool : r.action.tool = r'.action.tool
  function : r.action.function = r'.action.function
  session : r.sessionScopeBinding = r'.sessionScopeBinding
  nonce : r.nonce = r'.nonce
  createdAt : r.createdAt = r'.createdAt
  workload : r.workloadIdentity = r'.workloadIdentity
  routing : r.routingIdentity = r'.routingIdentity
  paths : r.action.targetPaths.Perm r'.action.targetPaths
  domains : r.action.targetDomains.Perm r'.action.targetDomains
  ips : r.action.resolvedIps.Perm r'.action.resolvedIps
  parameters : SameJson r.action.parameters r'.action.parameters

/-- A request for two files. -/
def readRequest (parameters : Json) (paths : List String) : Request :=
  { action := ⟨"files", "read", parameters, paths, [], []⟩
    sessionScopeBinding := some "scope"
    provenance := some ⟨some ⟨some "nonce", none⟩, some ⟨none, "agent", some "prod", none, none, none⟩⟩
    routingIdentity := none }

end Vellaveto.Canonical
