/-
  THE APPEND of the audit log (`log_entry_inner` of `vellaveto-audit/src/logger.rs`,
  `verified_audit_append.rs`).

  PROGRAM.      The request is validated and redacted.  Under the lock of the chain head: the log is
                rotated if it is due, the entry gets the next sequence number, the previous hash and a
                timestamp that does not go back, its line is written, the chain head moves, its leaf
                goes to the Merkle tree, and only then the counters are advanced.  Every write can fail
                (`EntryIo`) and returns at once.

  CORRECTNESS.
    1. `appendEntry_cases`   everything the append can do: nothing, write the line and fail at the
                             leaf, or do both and advance;
    2. `logEntry_cases`      the same for the whole call, with the rotation before it.
-/
import Vellaveto.Audit.Rotation
import Vellaveto.Engine.Params
import Vellaveto.Types.Chars

namespace Vellaveto.Audit

open Vellaveto.Lib

variable {H T : Type}

def maxMetadataSize : Nat := 65536
def maxMetadataDepth : Nat := 20
def maxMetadataKeyDepth : Nat := 5
def maxTenantIdLen : Nat := 64

/-! ## Validation -/

/-- The loop of `json_depth`, over a stack listed from its top. -/
def jsonDepthLoop : Nat → List (Json × Nat) → Nat → Nat
  | 0, _, maxDepth => maxDepth
  | _ + 1, [], maxDepth => maxDepth
  | fuel + 1, (val, depth) :: rest, maxDepth =>
    let maxDepth := if maxDepth < depth then depth else maxDepth
    if 128 < maxDepth then maxDepth
    else
      let pushed := ((Params.children "" val).map fun c => (c.2, depth + 1)).reverse ++ rest
      jsonDepthLoop fuel pushed maxDepth

/-- `AuditLogger::json_depth`. -/
def jsonDepth (value : Json) : Nat := jsonDepthLoop (Params.nodeCount value + 1) [(value, 0)] 0

/-- The length check of one kind of target. -/
def checkTargets (kind : String) (targets : List String) : Except AuditError Unit :=
  targets.forM fun target =>
    if 4096 < target.utf8ByteSize then
      .error (.validation ("Target " ++ kind ++ " too long: " ++ toString target.utf8ByteSize ++
        " bytes (max 4096)"))
    else .ok ()

/-- `validate_action`. -/
def validateAction (env : Env H T) (action : Action) : Except AuditError Unit := do
  if hasDangerousChars action.tool then
    throw (.validation "Tool name contains control or format characters")
  if hasDangerousChars action.function then
    throw (.validation "Function name contains control or format characters")
  let totalTargets :=
    action.targetPaths.length + action.targetDomains.length + action.resolvedIps.length
  if 256 < totalTargets then
    throw (.validation ("Too many targets: " ++ toString totalTargets ++ " (max 256)"))
  checkTargets "path" action.targetPaths
  checkTargets "domain" action.targetDomains
  if 20 < jsonDepth action.parameters then
    throw (.validation "Parameters exceed maximum nesting depth of 20")
  let size := env.jsonTextLen action.parameters
  if 1000000 < size then
    throw (.validation ("Parameters too large: " ++ toString size ++ " bytes (max 1000000)"))

/-- `validate_metadata_keys`, with the levels that are left. -/
def validateMetadataKeys : Nat → Nat → Json → Except AuditError Unit
  | 0, _, _ => .ok ()
  | levels + 1, depth, .object members =>
    members.forM fun member =>
      if hasDangerousChars member.1 then
        .error (.validation ("Metadata key contains control or format characters at depth " ++
          toString depth ++ " (key starts with: '" ++ String.ofList (member.1.toList.take 32) ++ "')"))
      else validateMetadataKeys levels (depth + 1) member.2
  | levels + 1, depth, .array items =>
    items.forM fun item => validateMetadataKeys levels (depth + 1) item
  | _ + 1, _, _ => .ok ()

/-- What is to be logged. -/
structure LogRequest where
  action : Action
  verdict : Verdict
  metadata : Json
  acisEnvelope : Option AcisDecisionEnvelope

/-- The checks of `log_entry` before anything else. -/
def validateRequest (env : Env H T) (req : LogRequest) : Except AuditError Unit := do
  validateAction env req.action
  let metadataSize := env.jsonTextLen req.metadata
  if maxMetadataSize < metadataSize then
    throw (.validation ("Metadata too large: " ++ toString metadataSize ++ " bytes (max " ++
      toString maxMetadataSize ++ " bytes)"))
  if maxMetadataDepth < jsonDepth req.metadata then
    throw (.validation ("Metadata exceeds maximum nesting depth of " ++ toString maxMetadataDepth))
  validateMetadataKeys (maxMetadataKeyDepth + 1) 0 req.metadata

/-! ## The entry -/

/-- `tenant_id` of the metadata, if it can be used. -/
def extractTenantId (metadata : Json) : Option String :=
  match metadata.get "tenant_id" with
  | some (.string s) =>
    if maxTenantIdLen < s.utf8ByteSize then none else if hasDangerousChars s then none else some s
  | _ => none

/-- `Map::remove`, on an object. -/
def removeMember (key : String) : Json → Json
  | .object members => .object (members.filter fun m => m.1 ≠ key)
  | v => v

/-- `BTreeMap::insert` into a list of members. -/
def insertSorted (key : String) (value : Json) : List (String × Json) → List (String × Json)
  | [] => [(key, value)]
  | m :: ms =>
    if m.1 = key then (key, value) :: ms
    else if strLe key.toList m.1.toList then (key, value) :: m :: ms
    else m :: insertSorted key value ms

/-- `Map::insert`, on an object. -/
def insertMember (key : String) (value : Json) : Json → Json
  | .object members => .object (insertSorted key value members)
  | v => v

/-- The clock and the generator of UUIDs for one call, and for each write the text of its error, if it
    fails. -/
structure EntryIo where
  rotation : RotationIo
  id : String
  /-- the time, without its offset: `to_rfc3339` of a time in UTC ends with `+00:00` -/
  now : String
  append : Option String
  leafAppend : Option String
  sink : Option String

/-- The entry before its timestamp is compared with the last one. -/
def draftEntry (env : Env H T) (io : EntryIo) (req : LogRequest) (s : AuditLogger H T) : AuditEntry :=
  let metadata := env.redactMetadata req.metadata
  let tenantId := extractTenantId metadata
  { id := io.id
    action := env.redactAction req.action
    verdict := env.redactVerdict req.verdict
    timestamp := io.now ++ "+00:00"
    metadata := if tenantId.isNone then removeMember "tenant_id" metadata else metadata
    sequence := s.globalSequence
    entryHash := none
    prevHash := s.lastHash
    commitment := none
    tenantId := tenantId
    acisEnvelope := req.acisEnvelope.map fun envelope =>
      { envelope with reason := env.redactReason envelope.reason } }

/-- A timestamp that goes back is clamped to the last one; the observed one is kept in the metadata. -/
def clampTimestamp (lastTimestamp : Option String) (entry : AuditEntry) : AuditEntry :=
  if timestampOrderedAfter entry.timestamp lastTimestamp then entry
  else
    let clamped := lastTimestamp.getD entry.timestamp
    { entry with
      timestamp := clamped
      metadata := insertMember "timestamp_regression"
        (.object [("clamped_to", .string clamped), ("observed", .string entry.timestamp)])
        entry.metadata }

/-- The entry that is hashed. -/
def nextEntry (env : Env H T) (io : EntryIo) (req : LogRequest) (s : AuditLogger H T) : AuditEntry :=
  clampTimestamp s.lastTimestamp (draftEntry env io req s)

/-! ## The append -/

/-- The line is in the log and the chain head moves. -/
def AuditLogger.writeLine (env : Env H T) (s : AuditLogger H T) (entry : AuditEntry) :
    AuditLogger H T :=
  { s with
    disk := { s.disk with log := some (s.disk.log.getD [] ++ [env.texts.entryLine entry]) }
    lastHash := entry.entryHash
    lastTimestamp := some entry.timestamp }

/-- The leaf of an entry hash. -/
def leafOfHash (d : Digests H) (hash : String) : Except AuditError H :=
  match hexDecode hash with
  | .error e => .error (.validation ("Invalid entry hash hex for Merkle tree: " ++ e.display))
  | .ok bytes =>
    match d.ofBytes bytes with
    | none =>
      .error (.validation ("Entry hash has wrong length: " ++ toString bytes.length ++
        " (expected 32)"))
    | some digest => .ok (d.hashLeaf (d.bytes digest))

/-- The leaf goes to the tree, if there is one. -/
def AuditLogger.appendLeaf (env : Env H T) (fault : Option String) (s : AuditLogger H T)
    (hash : String) : Except AuditError (AuditLogger H T) :=
  match s.merkleTree with
  | none => .ok s
  | some tree =>
    match leafOfHash env.digests hash with
    | .error e => .error e
    | .ok leaf =>
      match tree.append env.digests s.disk.leaves leaf fault with
      | .error e => .error e
      | .ok (tree, leaves) =>
        .ok { s with merkleTree := some tree, disk := { s.disk with leaves := leaves } }

def nextEntryCount (currentEntryCount : Nat) : Nat := saturatingAdd u64Max currentEntryCount 1
def nextGlobalSequence (currentGlobalSequence : Nat) : Nat :=
  saturatingAdd u64Max currentGlobalSequence 1

/-- Both counters go up. -/
def AuditLogger.advance (s : AuditLogger H T) : AuditLogger H T :=
  { s with
    entryCount := nextEntryCount s.entryCount
    globalSequence := nextGlobalSequence s.globalSequence }

/-- `log_entry`, after the rotation. -/
def appendEntry (env : Env H T) (cfg : Config) (io : EntryIo) (req : LogRequest)
    (s : AuditLogger H T) : Except AuditError Unit × AuditLogger H T :=
  let entry := nextEntry env io req s
  match computeEntryHash env.digests env.canonical entry with
  | .error e => (.error e, s)
  | .ok hash =>
    match io.append with
    | some message => (.error (.io message), s)
    | none =>
      let s := s.writeLine env { entry with entryHash := some hash }
      match s.appendLeaf env io.leafAppend hash with
      | .error e => (.error e, s)
      | .ok s =>
        match io.sink with
        | some message =>
          if cfg.sinkFailureFatal then
            (.error (.validation ("Audit sink write failed (fatal mode): " ++ message)), s.advance)
          else (.ok (), s.advance)
        | none => (.ok (), s.advance)

/-- The chain head and the counter of a new file; the last timestamp stays. -/
def AuditLogger.startFile (s : AuditLogger H T) : AuditLogger H T :=
  { s with lastHash := none, entryCount := 0 }

/-- `log_entry`. -/
def logEntry (env : Env H T) (cfg : Config) (io : EntryIo) (req : LogRequest) (s : AuditLogger H T) :
    Except AuditError Unit × AuditLogger H T :=
  match validateRequest env req with
  | .error e => (.error e, s)
  | .ok () =>
    match maybeRotate env cfg io.rotation s with
    | (.error e, s) => (.error e, s)
    | (.ok true, s) => appendEntry env cfg io req s.startFile
    | (.ok false, s) => appendEntry env cfg io req s

/-- A call of `log_entry`, with the clock and the faults it meets. -/
structure LogCall where
  io : EntryIo
  req : LogRequest

/-- The state after a call, whatever it returns. -/
def logStep (env : Env H T) (cfg : Config) (s : AuditLogger H T) (call : LogCall) :
    Option (AuditLogger H T) :=
  some (logEntry env cfg call.io call.req s).2

/-! ## What a call can do -/

section Cases

variable {env : Env H T} {cfg : Config} {io : EntryIo} {req : LogRequest} {s s' : AuditLogger H T}

/-- The entry that is written, with its hash. -/
def hashedEntry (env : Env H T) (io : EntryIo) (req : LogRequest) (s : AuditLogger H T)
    (hash : String) : AuditEntry :=
  { nextEntry env io req s with entryHash := some hash }

@[simp] theorem sequence_nextEntry : (nextEntry env io req s).sequence = s.globalSequence := by
  rw [nextEntry, clampTimestamp]
  split <;> rfl

@[simp] theorem prevHash_nextEntry : (nextEntry env io req s).prevHash = s.lastHash := by
  rw [nextEntry, clampTimestamp]
  split <;> rfl

@[simp] theorem sequence_hashedEntry (hash : String) :
    (hashedEntry env io req s hash).sequence = s.globalSequence := sequence_nextEntry

@[simp] theorem prevHash_hashedEntry (hash : String) :
    (hashedEntry env io req s hash).prevHash = s.lastHash := prevHash_nextEntry

/-- The hash of a hashed entry can be made a leaf. -/
theorem leafOfHash_encodeHashHex (d : Digests H) (h : H) :
    leafOfHash d (d.encodeHashHex h) = .ok (d.hashLeaf (d.bytes h)) := by
  rw [leafOfHash, Digests.encodeHashHex, hexDecode_hexEncode]
  simp [d.ofBytes_bytes]

/-- The leaf changes the tree and its file, and nothing else. -/
theorem appendLeaf_eq_ok {fault : Option String} {hash : String}
    (h : s.appendLeaf env fault hash = .ok s') :
    ∃ tree leaves, s' = { s with merkleTree := tree, disk := { s.disk with leaves := leaves } } := by
  rw [AuditLogger.appendLeaf] at h
  split at h
  · cases h
    exact ⟨s.merkleTree, s.disk.leaves, rfl⟩
  · split at h
    · cases h
    · split at h
      · cases h
      · cases h
        exact ⟨_, _, rfl⟩

/-- **Everything the append can do**: nothing; write the line and fail at the leaf; or write both and
    advance. -/
theorem appendEntry_cases {r : Except AuditError Unit} (h : appendEntry env cfg io req s = (r, s')) :
    (s' = s ∧ (∃ e, r = .error e) ∧
      ∀ hash, computeEntryHash env.digests env.canonical (nextEntry env io req s) = .ok hash →
        io.append ≠ none) ∨
    ∃ hash, computeEntryHash env.digests env.canonical (nextEntry env io req s) = .ok hash ∧
      io.append = none ∧
      ((∃ e, r = .error e ∧ s' = s.writeLine env (hashedEntry env io req s hash) ∧
          s'.appendLeaf env io.leafAppend hash = .error e) ∨
        ∃ t, (s.writeLine env (hashedEntry env io req s hash)).appendLeaf env io.leafAppend hash =
            .ok t ∧
          s' = t.advance ∧ (io.sink = none → r = .ok ())) := by
  simp only [appendEntry] at h
  split at h
  · rename_i e hhash
    cases h
    refine .inl ⟨rfl, ⟨_, rfl⟩, fun hash hok => ?_⟩
    rw [hhash] at hok
    cases hok
  rename_i hash hhash
  cases happend : io.append with
  | some message =>
    rw [happend] at h
    cases h
    exact .inl ⟨rfl, ⟨_, rfl⟩, fun _ _ hnone => by cases hnone⟩
  | none =>
    rw [happend] at h
    refine .inr ⟨hash, hhash, rfl, ?_⟩
    dsimp only at h
    split at h
    · rename_i e hleaf
      cases h
      exact .inl ⟨e, rfl, rfl, hleaf⟩
    · rename_i t hleaf
      refine .inr ⟨t, hleaf, ?_⟩
      cases hsink : io.sink with
      | none =>
        rw [hsink] at h
        cases h
        exact ⟨rfl, fun _ => rfl⟩
      | some message =>
        rw [hsink] at h
        dsimp only at h
        split at h
        · cases h
          exact ⟨rfl, fun h => by cases h⟩
        · cases h
          exact ⟨rfl, fun _ => rfl⟩

/-- A call that returns `Ok` has written the line and the leaf and advanced. -/
theorem appendEntry_eq_ok (h : appendEntry env cfg io req s = (.ok (), s')) :
    ∃ hash t, computeEntryHash env.digests env.canonical (nextEntry env io req s) = .ok hash ∧
      (s.writeLine env (hashedEntry env io req s hash)).appendLeaf env io.leafAppend hash = .ok t ∧
      s' = t.advance := by
  obtain ⟨-, ⟨e, he⟩, -⟩ | ⟨hash, hhash, -, ⟨e, he, -, -⟩ | ⟨t, ht, hs', -⟩⟩ := appendEntry_cases h
  · cases he
  · cases he
  · exact ⟨hash, t, hhash, ht, hs'⟩

/-- **Everything a call can do**: the rotation first, then the append. -/
theorem logEntry_cases {r : Except AuditError Unit} (h : logEntry env cfg io req s = (r, s')) :
    (s' = s ∧ ∃ e, r = .error e) ∨
    (∃ e, maybeRotate env cfg io.rotation s = (.error e, s') ∧ r = .error e) ∨
    (∃ t, maybeRotate env cfg io.rotation s = (.ok true, t) ∧
      appendEntry env cfg io req t.startFile = (r, s')) ∨
    (maybeRotate env cfg io.rotation s = (.ok false, s) ∧ appendEntry env cfg io req s = (r, s')) := by
  rw [logEntry] at h
  split at h
  · cases h
    exact .inl ⟨rfl, _, rfl⟩
  split at h
  · rename_i e t hrotate
    cases h
    exact .inr (.inl ⟨e, hrotate, rfl⟩)
  · rename_i t hrotate
    exact .inr (.inr (.inl ⟨t, hrotate, h⟩))
  · rename_i t hrotate
    -- a rotation that is skipped changes nothing
    obtain ⟨rfl, -⟩ | ⟨_, _, -, -, ⟨e, he, -⟩ | ⟨_, -, he, -⟩⟩ := maybeRotate_cases hrotate
    · exact .inr (.inr (.inr ⟨hrotate, h⟩))
    · cases he
    · cases he

end Cases

/-! ### Plain calls -/

/-- An allowed call of a tool, at second `now`; the leaf cannot be written if there is a fault. -/
def plainCall (id now : String) (leafAppend : Option String) : LogCall where
  io := ⟨plainRotationIo, id, "2026-01-01T00:00:" ++ now, none, leafAppend, none⟩
  req := ⟨.new "t" "f" .null, .allow, .object [], none⟩

end Vellaveto.Audit
