/-
  APPROVALS: a tool call that waits for a human decision (`vellaveto-approval/src/lib.rs`, the data
  types and the checks on them; `verified_approval_scope.rs`, `verified_approval_consumption.rs`).

  An approval is created for one action, may be bound to a session and to a fingerprint of the action,
  and carries the containment context in which it was asked for.  Times are nanoseconds since the
  epoch.
-/
import Mathlib.Data.List.Sort
import Vellaveto.Engine.Externals
import Vellaveto.Types.Core
import Vellaveto.Types.Provenance

namespace Vellaveto.Approval

open Vellaveto.Lib

/-! ## Containment context -/

inductive SignatureVerificationStatus where
  | missing
  | verified
  | invalid
  | expired
  | error
deriving DecidableEq, Repr

inductive WorkloadBindingStatus where
  | unknown
  | bound
  | missing
  | mismatch
  | unverified
deriving DecidableEq, Repr

inductive SessionKeyScope where
  | unknown
  | ephemeralExecution
  | ephemeralSession
  | persistedClient
  | persistedService
deriving DecidableEq, Repr

inductive ReplayStatus where
  | notChecked
  | fresh
  | replayDetected
deriving DecidableEq, Repr

/-- `ApprovalContainmentContext`. -/
structure ContainmentContext where
  semanticTaint : List TaintLabel
  lineageChannels : List ContextChannel
  effectiveTrustTier : Option TrustTier
  sinkClass : Option SinkClass
  containmentMode : Option ContainmentMode
  semanticRiskScore : Option UInt8
  signatureStatus : Option SignatureVerificationStatus
  clientKeyId : Option String
  workloadBindingStatus : Option WorkloadBindingStatus
  replayStatus : Option ReplayStatus
  sessionKeyScope : Option SessionKeyScope
  sessionScopeBinding : Option String
  canonicalRequestHash : Option String
  executionIsEphemeral : Bool
  counterfactualReviewRequired : Bool
deriving DecidableEq, Repr

/-- `ApprovalContainmentContext::default`. -/
def ContainmentContext.default : ContainmentContext where
  semanticTaint := []
  lineageChannels := []
  effectiveTrustTier := none
  sinkClass := none
  containmentMode := none
  semanticRiskScore := none
  signatureStatus := none
  clientKeyId := none
  workloadBindingStatus := none
  replayStatus := none
  sessionKeyScope := none
  sessionScopeBinding := none
  canonicalRequestHash := none
  executionIsEphemeral := false
  counterfactualReviewRequired := false

/-- `semantic_taint_rank`. -/
def semanticTaintRank : TaintLabel → Nat
  | .sanitized => 0
  | .sensitive => 1
  | .untrusted => 2
  | .crossAgent => 3
  | .mixedProvenance => 4
  | .replayed => 5
  | .integrityFailed => 6
  | .quarantined => 7

/-- `context_channel_rank`. -/
def contextChannelRank : ContextChannel → Nat
  | .data => 0
  | .toolOutput => 1
  | .resourceContent => 2
  | .freeText => 3
  | .memory => 4
  | .url => 5
  | .commandLike => 6
  | .approvalPrompt => 7

/-- The rest of `Vec::dedup` after an element that stays. -/
def dedupAfter {α : Type} [DecidableEq α] (x : α) : List α → List α
  | [] => [x]
  | y :: rest => if x = y then dedupAfter x rest else x :: dedupAfter y rest

/-- `Vec::dedup`: of equal neighbours the first one stays. -/
def dedupNeighbours {α : Type} [DecidableEq α] : List α → List α
  | [] => []
  | x :: rest => dedupAfter x rest

/-- `sort_by_key` and `dedup`. -/
def sortedByRank {α : Type} [DecidableEq α] (rank : α → Nat) (xs : List α) : List α :=
  dedupNeighbours (xs.insertionSort fun a b => rank a ≤ rank b)

namespace ContainmentContext

def maxSemanticTaint : Nat := 100
def maxLineageChannels : Nat := 100
def maxContainmentStringLen : Nat := 512

/-- The check of one optional text of the context. -/
def validateText (field : String) : Option String → Except String Unit
  | none => .ok ()
  | some text =>
    if maxContainmentStringLen < text.utf8ByteSize then
      .error s!"{field} exceeds maximum length of {maxContainmentStringLen}"
    else if hasDangerousChars text then .error s!"{field} contains dangerous characters"
    else .ok ()

/-- `ApprovalContainmentContext::validate`. -/
def validate (c : ContainmentContext) : Except String Unit := do
  let taints := c.semanticTaint.length
  if maxSemanticTaint < taints then
    .error s!"semantic_taint count {taints} exceeds maximum {maxSemanticTaint}"
  let channels := c.lineageChannels.length
  if maxLineageChannels < channels then
    .error s!"lineage_channels count {channels} exceeds maximum {maxLineageChannels}"
  validateText "client_key_id" c.clientKeyId
  validateText "session_scope_binding" c.sessionScopeBinding
  validateText "canonical_request_hash" c.canonicalRequestHash

/-- `ApprovalContainmentContext::normalized`. -/
def normalized (c : ContainmentContext) : ContainmentContext :=
  { c with
    semanticTaint := sortedByRank semanticTaintRank c.semanticTaint
    lineageChannels := sortedByRank contextChannelRank c.lineageChannels }

/-- `ApprovalContainmentContext::is_meaningful`. -/
def isMeaningful (c : ContainmentContext) : Bool :=
  !c.semanticTaint.isEmpty || !c.lineageChannels.isEmpty || c.effectiveTrustTier.isSome ||
    c.sinkClass.isSome || c.containmentMode.isSome || c.semanticRiskScore.isSome ||
    c.signatureStatus.isSome || c.clientKeyId.isSome || c.workloadBindingStatus.isSome ||
    c.replayStatus.isSome || c.sessionKeyScope.isSome || c.sessionScopeBinding.isSome ||
    c.canonicalRequestHash.isSome || c.executionIsEphemeral || c.counterfactualReviewRequired

end ContainmentContext

theorem length_dedupAfter_le {α : Type} [DecidableEq α] (x : α) (xs : List α) :
    (dedupAfter x xs).length ≤ xs.length + 1 := by
  fun_induction dedupAfter x xs with
  | case1 x => exact Nat.le_refl _
  | case2 x rest ih =>
    simp only [List.length_cons]
    omega
  | case3 x y rest hne ih =>
    simp only [List.length_cons]
    omega

theorem length_dedupNeighbours_le {α : Type} [DecidableEq α] (xs : List α) :
    (dedupNeighbours xs).length ≤ xs.length := by
  cases xs with
  | nil => exact Nat.le_refl _
  | cons x rest => exact length_dedupAfter_le x rest

theorem length_sortedByRank_le {α : Type} [DecidableEq α] (rank : α → Nat) (xs : List α) :
    (sortedByRank rank xs).length ≤ xs.length := by
  refine (length_dedupNeighbours_le _).trans ?_
  rw [List.length_insertionSort]

/-- Normalizing a context that passes the check gives one that passes it too. -/
theorem validate_normalized {c : ContainmentContext} (h : c.validate = .ok ()) :
    c.normalized.validate = .ok () := by
  have htaint := length_sortedByRank_le semanticTaintRank c.semanticTaint
  have hchannel := length_sortedByRank_le contextChannelRank c.lineageChannels
  unfold ContainmentContext.validate at h ⊢
  dsimp only at h ⊢
  split at h
  · cases h
  · rename_i htaints
    split at h
    · cases h
    · rename_i hchannels
      rw [if_neg, if_neg]
      · exact h
      · show ¬_ < (sortedByRank contextChannelRank c.lineageChannels).length
        omega
      · show ¬_ < (sortedByRank semanticTaintRank c.semanticTaint).length
        omega

/-! ## Approvals -/

/-- `ApprovalStatus`. -/
inductive ApprovalStatus where
  | pending
  | approved
  | consumed
  | denied
  | expired
deriving DecidableEq, Repr

/-- `PendingApproval`. -/
structure PendingApproval where
  id : String
  action : Action
  reason : String
  createdAt : Int
  expiresAt : Int
  status : ApprovalStatus
  resolvedBy : Option String
  resolvedAt : Option Int
  consumedAt : Option Int
  requestedBy : Option String
  sessionId : Option String
  actionFingerprint : Option String
  containmentContext : Option ContainmentContext
deriving DecidableEq, Repr

/-- `ApprovalError`; of an I/O error only that it happened is kept. -/
inductive ApprovalError where
  | notFound (id : String)
  | alreadyResolved (id : String)
  | expired (id : String)
  | capacityExceeded (maxPending : Nat)
  | validation (message : String)
  | io
deriving DecidableEq, Repr

/-- What the store takes from elsewhere: Unicode tables, SHA-256 and the JSON texts of contexts and
    whole approvals. -/
structure Env where
  ext : Externals
  /-- `nfkc`. -/
  nfkc : List Char → List Char
  /-- `char::to_lowercase` outside ASCII. -/
  lowerChar : Char → List Char
  /-- The SHA-256 digest of a text, in hexadecimal. -/
  sha256Hex : String → String
  /-- `serde_json::to_string` of a context. -/
  contextText : ContainmentContext → String
  /-- `serde_json::to_string` of an approval. -/
  toLine : PendingApproval → List Char
  /-- `serde_json::from_str` of an approval. -/
  fromLine : List Char → Option PendingApproval

def sessionBindingPrefix : String := "sidbind:v1:"

/-- `bind_session_scope`. -/
def bindSessionScope (env : Env) (sessionId : String) : String :=
  if sessionBindingPrefix.toList.isPrefixOf sessionId.toList then sessionId
  else sessionBindingPrefix ++ env.sha256Hex ("vellaveto:approval:session_scope:v1:" ++ sessionId)

/-- `PendingApproval::scope_matches`: a binding that is present must be presented again. -/
def PendingApproval.scopeMatches (env : Env) (a : PendingApproval)
    (sessionId actionFingerprint : Option String) : Bool :=
  let sessionOk :=
    match a.sessionId, sessionId with
    | none, _ => true
    | some bound, some request => bindSessionScope env request == bindSessionScope env bound
    | some _, none => false
  let fingerprintOk :=
    match a.actionFingerprint, actionFingerprint with
    | none, _ => true
    | some bound, some request => request == bound
    | some _, none => false
  sessionOk && fingerprintOk

/-- `approval_consumption_permitted`. -/
def approvalConsumptionPermitted (isApproved hasFingerprint scopeMatches : Bool) : Bool :=
  isApproved && (hasFingerprint && scopeMatches)

/-! ## Dedup keys -/

/-- `normalize_identity`. -/
def normalizeIdentity (env : Env) (s : String) : String :=
  String.ofList ((env.ext.toLowercase s).toList.map normalizeHomoglyph)

/-- `Vec::<String>::sort`. -/
def sortStrings (xs : List String) : List String := xs.insertionSort (· ≤ ·)

/-- The canonical JSON of an action: `serde_json` lists the members of an object by key. -/
def canonicalAction (env : Env) (action : Action) : Json :=
  .object [
    ("function", .string (normalizeIdentity env action.function)),
    ("parameters", action.parameters),
    ("resolved_ips", .array ((sortStrings action.resolvedIps).map .string)),
    ("target_domains", .array ((sortStrings action.targetDomains).map .string)),
    ("target_paths", .array ((sortStrings action.targetPaths).map .string)),
    ("tool", .string (normalizeIdentity env action.tool))]

/-- A text between NUL characters, which no identity can hold. -/
def sentinel (text : String) : String := String.ofList ([Char.ofNat 0] ++ text.toList ++ [Char.ofNat 0])

/-- `compute_dedup_key_with_context`. -/
def computeDedupKeyWithContext (env : Env) (action : Action) (reason : String)
    (requestedBy sessionId : Option String) (context : Option ContainmentContext) : String :=
  let canonicalStr := env.ext.jsonText (canonicalAction env action)
  let rb := requestedBy.getD (sentinel "NONE")
  let sess := sessionId.getD (sentinel "NOSESS")
  let containment :=
    match context with
    | some c => if c.isMeaningful then env.contextText c.normalized else sentinel "NOCTX"
    | none => sentinel "NOCTX"
  env.sha256Hex s!"{canonicalStr}||{reason}||{rb}||{sess}||{containment}"

/-- `compute_dedup_key`. -/
def computeDedupKey (env : Env) (action : Action) (reason : String)
    (requestedBy sessionId : Option String) : String :=
  computeDedupKeyWithContext env action reason requestedBy sessionId none

namespace PendingApproval

variable (env : Env) (a : PendingApproval)

/-- The key under which an approval is filed when it is created. -/
def contextKey : String :=
  computeDedupKeyWithContext env a.action a.reason a.requestedBy a.sessionId a.containmentContext

/-- The key that is taken out when an approval is resolved. -/
def plainKey : String := computeDedupKey env a.action a.reason a.requestedBy a.sessionId

/-- Without a context the two keys are the same. -/
theorem contextKey_eq_plainKey {a : PendingApproval} (h : a.containmentContext = none) :
    a.contextKey env = a.plainKey env := by
  rw [contextKey, plainKey, computeDedupKey, h]

end PendingApproval

/-! ## Plain approvals

  The JSON of approvals whose texts need no escapes, whose times are whole seconds of the first day
  of the epoch and whose contexts hold texts only.  Concrete inputs below are of this kind. -/

def statusText : ApprovalStatus → String
  | .pending => "Pending"
  | .approved => "Approved"
  | .consumed => "Consumed"
  | .denied => "Denied"
  | .expired => "Expired"

/-- A number of at most two digits. -/
def twoDigits (n : Nat) : String := if n < 10 then "0" ++ toString n else toString n

/-- The text of a time. -/
def plainTime (t : Int) : String :=
  let seconds := (t / 1000000000).toNat
  let hour := twoDigits (seconds / 3600)
  let minute := twoDigits (seconds / 60 % 60)
  s!"1970-01-01T{hour}:{minute}:{twoDigits (seconds % 60)}Z"

/-- A JSON string. -/
def quoted (text : String) : List Char := "\"".toList ++ text.toList ++ "\"".toList

/-- A JSON array or object. -/
def bracketed (opening closing : String) (items : List (List Char)) : List Char :=
  opening.toList ++ (items.intersperse [',']).flatten ++ closing.toList

def member (key : String) (value : List Char) : List Char := quoted key ++ [':'] ++ value

/-- A member that is left out when there is no value. -/
def optionalMember (key : String) (value : Option (List Char)) : List (List Char) :=
  (value.map (member key)).toList

/-- A list of texts, left out when it is empty. -/
def textsMember (key : String) (texts : List String) : List (List Char) :=
  if texts.isEmpty then [] else [member key (bracketed "[" "]" (texts.map quoted))]

def plainContext (c : ContainmentContext) : List Char :=
  bracketed "\x7b" "\x7d" (optionalMember "client_key_id" (c.clientKeyId.map quoted) ++
    optionalMember "session_scope_binding" (c.sessionScopeBinding.map quoted) ++
    optionalMember "canonical_request_hash" (c.canonicalRequestHash.map quoted))

def plainAction (action : Action) : List Char :=
  bracketed "\x7b" "\x7d" ([member "tool" (quoted action.tool),
      member "function" (quoted action.function),
      member "parameters" (plainJsonText action.parameters).toList] ++
    textsMember "target_paths" action.targetPaths ++
    textsMember "target_domains" action.targetDomains ++
    textsMember "resolved_ips" action.resolvedIps)

def plainLine (a : PendingApproval) : List Char :=
  let time := fun t => quoted (plainTime t)
  bracketed "\x7b" "\x7d" ([member "id" (quoted a.id), member "action" (plainAction a.action),
      member "reason" (quoted a.reason), member "created_at" (time a.createdAt),
      member "expires_at" (time a.expiresAt), member "status" (quoted (statusText a.status)),
      member "resolved_by" ((a.resolvedBy.map quoted).getD "null".toList),
      member "resolved_at" ((a.resolvedAt.map time).getD "null".toList)] ++
    optionalMember "consumed_at" (a.consumedAt.map time) ++
    optionalMember "requested_by" (a.requestedBy.map quoted) ++
    optionalMember "session_id" (a.sessionId.map quoted) ++
    optionalMember "action_fingerprint" (a.actionFingerprint.map quoted) ++
    optionalMember "containment_context" (a.containmentContext.map plainContext))

/-- The environment for plain approvals, where the lines of the given approvals can be read.  A text
    stands for its own digest. -/
def plainEnv (readable : List PendingApproval) : Env where
  ext := plainExternals
  nfkc := id
  lowerChar := fun c => [c]
  sha256Hex := id
  contextText := fun c => String.ofList (plainContext c)
  toLine := plainLine
  fromLine := fun line => readable.find? fun a => plainLine a == line

end Vellaveto.Approval
