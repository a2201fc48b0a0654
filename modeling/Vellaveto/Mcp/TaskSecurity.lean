/-
  SECURE TASKS (`vellaveto-mcp/src/task_security.rs`, `vellaveto-types/src/task.rs`).

  A task has a status, a chain of hashed status transitions, an encrypted state, a resume token and the
  nonces of the resume requests it has accepted.  The manager keeps the tasks under their ids.

  What comes from elsewhere is a parameter: SHA-256, decryption and the RFC 3339 parser as functions, and
  what a call draws or reads (its resume token, the encrypted state, its time) as a part of the call.
  Checkpoints and the counters of the statistics are left out, and of a tracked task the fields that none
  of these functions reads.
-/
import Mathlib.Data.List.AList
import Vellaveto.Json
import Vellaveto.Types.Chars
import Vellaveto.Audit.Types
import Vellaveto.Lib.Hex
import Vellaveto.Lib.Run
import Vellaveto.Lib.Slice
import Vellaveto.Lib.Table

namespace Vellaveto.TaskSecurity

open Vellaveto.Lib
open Vellaveto.Audit (Hash32)

/-- `MAX_SECURE_TASKS`. -/
def maxSecureTasks : Nat := 50000

/-- `MAX_RETENTION_SECS`. -/
def maxRetentionSecs : Nat := 365 * 24 * 3600

/-- `MAX_STATE_CHAIN`. -/
def maxStateChain : Nat := 1000

/-- `MAX_NONCES_CAP`. -/
def maxNoncesCap : Nat := 10000

/-- `MAX_ENTRY_LEN`. -/
def maxEntryLen : Nat := 256

/-- `TaskSecurityError`, with the variants the modelled functions return. -/
inductive TaskSecurityError where
  | taskNotFound (taskId : String)
  | encryptionFailed (message : String)
  | decryptionFailed (message : String)
  | replayDetected
  | integrityViolation (message : String)
  | taskTerminal
  | authorizationFailed (message : String)
  | validationFailed (message : String)
deriving DecidableEq

/-- `TaskStatus`. -/
inductive TaskStatus where
  | pending
  | running
  | completed
  | failed (reason : String)
  | cancelled
  | expired
deriving DecidableEq

/-- The `Display` text of a status. -/
def TaskStatus.display : TaskStatus → String
  | pending => "pending"
  | running => "running"
  | completed => "completed"
  | failed reason => "failed: " ++ reason
  | cancelled => "cancelled"
  | expired => "expired"

/-- `is_terminal`. -/
def TaskStatus.isTerminal : TaskStatus → Bool
  | pending | running => false
  | completed | failed _ | cancelled | expired => true

/-- `TrackedTask`. -/
structure TrackedTask where
  taskId : String
  status : TaskStatus
  createdAt : String

/-- `TaskStateTransition`. -/
structure TaskStateTransition where
  sequence : Nat
  prevHash : String
  newStatus : TaskStatus
  timestamp : String
  triggeredBy : Option String
  hash : String
deriving DecidableEq

/-- `SecureTask`. -/
structure SecureTask where
  task : TrackedTask
  encryptedState : Option String
  encryptionNonce : Option String
  stateChain : List TaskStateTransition
  resumeToken : Option String
  seenNonces : List String
  maxNonces : Nat

/-- `SecureTask::new`. -/
def SecureTask.new (task : TrackedTask) : SecureTask := ⟨task, none, none, [], none, [], 1000⟩

/-- `latest_hash`, or the empty text. -/
def SecureTask.latestHash (task : SecureTask) : String :=
  (task.stateChain.getLast?.map (·.hash)).getD ""

/-- `current_sequence`. -/
def SecureTask.currentSequence (task : SecureTask) : Nat :=
  (task.stateChain.getLast?.map (·.sequence)).getD 0

/-- `is_nonce_seen`. -/
def SecureTask.isNonceSeen (task : SecureTask) (nonce : String) : Bool := task.seenNonces.elem nonce

/-- Walk back from byte `n` to a character boundary and cut there. -/
def cutBack (s : String) : Nat → String
  | 0 => ""
  | n + 1 => (sliceTo s (n + 1)).getD (cutBack s n)

/-- `truncate_nonce`. -/
def truncateNonce (nonce : String) : String :=
  if maxEntryLen < nonce.utf8ByteSize then cutBack nonce maxEntryLen else nonce

/-- `try_record_nonce`: `none` when the cache is full. -/
def SecureTask.tryRecordNonce (task : SecureTask) (nonce : String) : Option SecureTask :=
  if min task.maxNonces maxNoncesCap ≤ task.seenNonces.length then none
  else some { task with seenNonces := task.seenNonces ++ [truncateNonce nonce] }

/-- `TaskResumeRequest`. -/
structure TaskResumeRequest where
  taskId : String
  resumeToken : String
  nonce : String
  agentId : Option String

/-- The checks of one text field of a resume request. -/
def validateField (name value : String) (maxLen : Nat) : Except String Unit := do
  if value.isEmpty then throw s!"TaskResumeRequest {name} must not be empty"
  if maxLen < value.utf8ByteSize then
    throw s!"TaskResumeRequest {name} length {value.utf8ByteSize} exceeds max {maxLen}"
  if hasDangerousChars value then
    throw s!"TaskResumeRequest {name} contains control or format characters"

/-- The checks of the agent id, which may be empty. -/
def validateAgentId : Option String → Except String Unit
  | none => .ok ()
  | some agentId => do
    if 256 < agentId.utf8ByteSize then
      throw s!"TaskResumeRequest agent_id length {agentId.utf8ByteSize} exceeds max 256"
    if hasDangerousChars agentId then
      throw "TaskResumeRequest agent_id contains control or format characters"

/-- `TaskResumeRequest::validate`. -/
def TaskResumeRequest.validate (request : TaskResumeRequest) : Except String Unit := do
  validateField "task_id" request.taskId 256
  validateField "resume_token" request.resumeToken 512
  validateField "nonce" request.nonce 256
  validateAgentId request.agentId

/-- `TaskResumeResult`. -/
structure TaskResumeResult where
  authorized : Bool
  task : Option SecureTask
  decryptedState : Option Json
  denialReason : Option String

/-- `TaskIntegrityResult`. -/
structure TaskIntegrityResult where
  valid : Bool
  transitionsVerified : Nat
  firstBrokenAt : Option Nat
  failureReason : Option String
deriving DecidableEq

/-- The tasks, by their ids. -/
abbrev Tasks := AList fun _ : String => SecureTask

/-- The functions that the manager takes from elsewhere. -/
structure Env where
  sha256 : List UInt8 → Hash32
  /-- `decrypt_state` under the key of the manager: ciphertext and nonce -/
  decryptState : String → String → Except TaskSecurityError Json
  /-- `DateTime::parse_from_rfc3339`, in nanoseconds -/
  parseRfc3339 : String → Option Int

/-! ## The chain of transitions -/

/-- The bytes that the hash of a transition covers. -/
def hashedBytes (t : TaskStateTransition) : List UInt8 :=
  toLeBytes t.sequence ++ strBytes t.prevHash ++ strBytes t.newStatus.display ++
    strBytes t.timestamp ++ (t.triggeredBy.map strBytes).getD []

/-- The hash of a transition. -/
def transitionHash (env : Env) (t : TaskStateTransition) : String :=
  hexEncode (env.sha256 (hashedBytes t)).1

/-- `create_transition` at a time. -/
def createTransition (env : Env) (task : SecureTask) (newStatus : TaskStatus)
    (triggeredBy : Option String) (timestamp : String) : TaskStateTransition :=
  let t : TaskStateTransition :=
    ⟨task.currentSequence + 1, task.latestHash, newStatus, timestamp, triggeredBy, ""⟩
  { t with hash := transitionHash env t }

/-- The loop of `verify_chain`, from position `i` on. -/
def verifyFrom (env : Env) (prevHash : String) (i : Nat) :
    List TaskStateTransition → TaskIntegrityResult
  | [] => ⟨true, i, none, none⟩
  | t :: chain =>
    if t.sequence ≠ i + 1 then
      ⟨false, i, some i, some ("Sequence mismatch: expected " ++ toString (i + 1) ++ ", got " ++
        toString t.sequence)⟩
    else if t.prevHash ≠ prevHash then ⟨false, i, some i, some "Previous hash mismatch"⟩
    else if transitionHash env t ≠ t.hash then
      ⟨false, i, some i, some "Hash verification failed"⟩
    else verifyFrom env t.hash (i + 1) chain

/-- `verify_chain`. -/
def verifyChain (env : Env) (chain : List TaskStateTransition) : TaskIntegrityResult :=
  verifyFrom env "" 0 chain

/-! ## The manager -/

/-- A call on the manager, with what it draws and reads: the resume token, the ciphertext and nonce of
    `encrypt_state`, and the time. -/
inductive TaskCall where
  | createSecureTask (task : TrackedTask) (token : Except TaskSecurityError String)
      (encrypted : Option (Except TaskSecurityError (String × String))) (timestamp : String)
  | updateStatus (taskId : String) (newStatus : TaskStatus) (triggeredBy : Option String)
      (timestamp : String)
  | updateState (taskId : String) (encrypted : Except TaskSecurityError (String × String))
  | resumeTask (request : TaskResumeRequest)
  | cleanupOldTasks (retentionSecs : Nat) (now : Int)

/-- The text for a chain that is full. -/
def chainFull : TaskSecurityError := .integrityViolation "state_chain exceeds maximum of 1000 entries"

/-- A task with an encrypted state. -/
def SecureTask.withState (task : SecureTask) : String × String → SecureTask
  | (ciphertext, nonce) =>
    { task with encryptedState := some ciphertext, encryptionNonce := some nonce }

/-- A task with one more transition. -/
def SecureTask.push (env : Env) (task : SecureTask) (newStatus : TaskStatus)
    (triggeredBy : Option String) (timestamp : String) : SecureTask :=
  { task with
    stateChain := task.stateChain ++ [createTransition env task newStatus triggeredBy timestamp] }

/-- The task that `create_secure_task` makes. -/
def newSecureTask (env : Env) (task : TrackedTask) (token : Except TaskSecurityError String)
    (encrypted : Option (Except TaskSecurityError (String × String))) (timestamp : String) :
    Except TaskSecurityError SecureTask := do
  let token ← token
  let secureTask : SecureTask := { SecureTask.new task with resumeToken := some token }
  let secureTask ←
    match encrypted with
    | none => .ok secureTask
    | some encrypted => encrypted.map secureTask.withState
  if maxStateChain ≤ secureTask.stateChain.length then throw chainFull
  .ok (secureTask.push env task.status none timestamp)

/-- `create_secure_task`. -/
def createSecureTask (env : Env) (tasks : Tasks) (task : TrackedTask)
    (token : Except TaskSecurityError String)
    (encrypted : Option (Except TaskSecurityError (String × String))) (timestamp : String) :
    Except TaskSecurityError SecureTask × Tasks :=
  if task.taskId ∈ tasks then
    (.error (.integrityViolation s!"Task '{task.taskId}' already exists"), tasks)
  else if maxSecureTasks ≤ tasks.keys.length then
    (.error (.integrityViolation "Maximum secure tasks (50000) reached"), tasks)
  else
    match newSecureTask env task token encrypted timestamp with
    | .error e => (.error e, tasks)
    | .ok secureTask => (.ok secureTask, tasks.insert task.taskId secureTask)

/-- `update_status`. -/
def updateStatus (env : Env) (tasks : Tasks) (taskId : String) (newStatus : TaskStatus)
    (triggeredBy : Option String) (timestamp : String) : Except TaskSecurityError Unit × Tasks :=
  match tasks.lookup taskId with
  | none => (.error (.taskNotFound taskId), tasks)
  | some task =>
    if task.task.status.isTerminal then (.error .taskTerminal, tasks)
    else if maxStateChain ≤ task.stateChain.length then (.error chainFull, tasks)
    else
      let pushed := task.push env newStatus triggeredBy timestamp
      (.ok (), tasks.insert taskId { pushed with task := { task.task with status := newStatus } })

/-- `update_state`. -/
def updateState (tasks : Tasks) (taskId : String)
    (encrypted : Except TaskSecurityError (String × String)) :
    Except TaskSecurityError Unit × Tasks :=
  match tasks.lookup taskId with
  | none => (.error (.taskNotFound taskId), tasks)
  | some task =>
    match encrypted with
    | .error e => (.error e, tasks)
    | .ok state => (.ok (), tasks.insert taskId (task.withState state))

/-- `constant_time_str_eq`. -/
def constantTimeStrEq (a b : String) : Bool := a.utf8ByteSize == b.utf8ByteSize && a == b

/-- The state of a task for a resume that is authorized. -/
def decryptedState (env : Env) (task : SecureTask) : Except TaskSecurityError (Option Json) :=
  match task.encryptedState, task.encryptionNonce with
  | some ciphertext, some nonce => (env.decryptState ciphertext nonce).map some
  | _, _ => .ok none

/-- `resume_task`.  The nonce is recorded before the state is decrypted, so it stays recorded when
    decryption fails. -/
def resumeTask (env : Env) (tasks : Tasks) (request : TaskResumeRequest) :
    Except TaskSecurityError TaskResumeResult × Tasks :=
  match request.validate with
  | .error e => (.error (.validationFailed e), tasks)
  | .ok () =>
    match tasks.lookup request.taskId with
    | none => (.error (.taskNotFound request.taskId), tasks)
    | some task =>
      if task.isNonceSeen request.nonce then (.error .replayDetected, tasks)
      else if !task.resumeToken.any (constantTimeStrEq · request.resumeToken) then
        (.ok ⟨false, none, none, some "Invalid resume token"⟩, tasks)
      else
        match task.tryRecordNonce request.nonce with
        | none => (.error (.authorizationFailed ("replay-protection cache full for this task; " ++
            "resume denied rather than evicting a nonce that could then be replayed")), tasks)
        | some recorded =>
          (match decryptedState env recorded with
            | .error e => .error e
            | .ok state => .ok ⟨true, some recorded, state, none⟩,
            tasks.insert request.taskId recorded)

/-- `cleanup_old_tasks`: terminal tasks that were created before the cutoff go. -/
def cleanupOldTasks (env : Env) (tasks : Tasks) (retentionSecs : Nat) (now : Int) : Tasks :=
  let cutoff : Int := now - min retentionSecs maxRetentionSecs * 1000000000
  retain (fun _ task =>
    !task.task.status.isTerminal ||
      match env.parseRfc3339 task.task.createdAt with
      | some created => cutoff < created
      | none => true) tasks

/-- The tasks after a call. -/
def step (env : Env) (tasks : Tasks) : TaskCall → Option Tasks
  | .createSecureTask task token encrypted timestamp =>
    some (createSecureTask env tasks task token encrypted timestamp).2
  | .updateStatus taskId newStatus triggeredBy timestamp =>
    some (updateStatus env tasks taskId newStatus triggeredBy timestamp).2
  | .updateState taskId encrypted => some (updateState tasks taskId encrypted).2
  | .resumeTask request => some (resumeTask env tasks request).2
  | .cleanupOldTasks retentionSecs now => some (cleanupOldTasks env tasks retentionSecs now)

/-! ## What a call does to one task -/

/-- What a call changes of a task that it finds under its id. -/
inductive TaskChange (env : Env) (task : SecureTask) : TaskCall → SecureTask → Prop
  | status {taskId : String} {newStatus : TaskStatus} {triggeredBy : Option String}
      {timestamp : String} (hlive : task.task.status.isTerminal = false)
      (hroom : task.stateChain.length < maxStateChain) :
      TaskChange env task (.updateStatus taskId newStatus triggeredBy timestamp)
        { task.push env newStatus triggeredBy timestamp with
          task := { task.task with status := newStatus } }
  | state {taskId : String} {state : String × String} :
      TaskChange env task (.updateState taskId (.ok state)) (task.withState state)
  | resume {request : TaskResumeRequest} {recorded : SecureTask}
      (hvalid : request.validate = .ok ()) (hfresh : task.isNonceSeen request.nonce = false)
      (htoken : task.resumeToken.any (constantTimeStrEq · request.resumeToken) = true)
      (hrecorded : task.tryRecordNonce request.nonce = some recorded) :
      TaskChange env task (.resumeTask request) recorded

/-- Where a task of the table after a call comes from: it was there, a call changed it, or it was made
    under an id that was free. -/
inductive Origin (env : Env) (tasks : Tasks) (call : TaskCall) (taskId : String) :
    SecureTask → Prop
  | kept {task : SecureTask} (hold : tasks.lookup taskId = some task) : Origin env tasks call taskId task
  | changed {old task : SecureTask} (hold : tasks.lookup taskId = some old)
      (hchange : TaskChange env old call task) : Origin env tasks call taskId task
  | made {tracked : TrackedTask} {token : Except TaskSecurityError String}
      {encrypted : Option (Except TaskSecurityError (String × String))} {timestamp : String}
      {task : SecureTask} (hfree : tasks.lookup taskId = none)
      (hcall : call = .createSecureTask tracked token encrypted timestamp)
      (hnew : newSecureTask env tracked token encrypted timestamp = .ok task) :
      Origin env tasks call taskId task

variable {env : Env} {tasks tasks' : Tasks} {taskId : String} {task : SecureTask}

/-- The table after one entry is written. -/
theorem origin_insert {call : TaskCall} {key : String} {value : SecureTask}
    (hvalue : Origin env tasks call key value)
    (h : (tasks.insert key value).lookup taskId = some task) : Origin env tasks call taskId task := by
  rw [lookup_insert_eq] at h
  split at h
  · rename_i hkey
    cases hkey
    cases h
    exact hvalue
  · exact .kept h

theorem origin_createSecureTask {tracked : TrackedTask} {token : Except TaskSecurityError String}
    {encrypted : Option (Except TaskSecurityError (String × String))} {timestamp : String}
    (h : (createSecureTask env tasks tracked token encrypted timestamp).2.lookup taskId = some task) :
    Origin env tasks (.createSecureTask tracked token encrypted timestamp) taskId task := by
  unfold createSecureTask at h
  split at h
  · exact .kept h
  · rename_i hfree
    split at h
    · exact .kept h
    · split at h
      · exact .kept h
      · rename_i secureTask hnew
        exact origin_insert (.made (AList.lookup_eq_none.mpr hfree) rfl hnew) h

theorem origin_updateStatus {key : String} {newStatus : TaskStatus} {triggeredBy : Option String}
    {timestamp : String}
    (h : (updateStatus env tasks key newStatus triggeredBy timestamp).2.lookup taskId = some task) :
    Origin env tasks (.updateStatus key newStatus triggeredBy timestamp) taskId task := by
  unfold updateStatus at h
  split at h
  · exact .kept h
  · rename_i old hold
    split at h
    · exact .kept h
    · rename_i hlive
      split at h
      · exact .kept h
      · rename_i hroom
        refine origin_insert (.changed hold (.status ?_ ?_)) h
        · simpa using hlive
        · omega

theorem origin_updateState {key : String} {encrypted : Except TaskSecurityError (String × String)}
    (h : (updateState tasks key encrypted).2.lookup taskId = some task) :
    Origin env tasks (.updateState key encrypted) taskId task := by
  unfold updateState at h
  split at h
  · exact .kept h
  · rename_i old hold
    split at h
    · exact .kept h
    · exact origin_insert (.changed hold .state) h

theorem origin_resumeTask {request : TaskResumeRequest}
    (h : (resumeTask env tasks request).2.lookup taskId = some task) :
    Origin env tasks (.resumeTask request) taskId task := by
  unfold resumeTask at h
  split at h
  · exact .kept h
  · rename_i hvalid
    split at h
    · exact .kept h
    · rename_i old hold
      split at h
      · exact .kept h
      · rename_i hfresh
        split at h
        · exact .kept h
        · rename_i htoken
          split at h
          · exact .kept h
          · rename_i recorded hrecorded
            refine origin_insert (.changed hold (.resume hvalid ?_ ?_ hrecorded)) h
            · simpa using hfresh
            · simpa using htoken

/-- **What one call can do.** -/
theorem origin_of_step {call : TaskCall} (hstep : step env tasks call = some tasks')
    (h : tasks'.lookup taskId = some task) : Origin env tasks call taskId task := by
  cases call with
  | createSecureTask tracked token encrypted timestamp =>
    cases hstep
    exact origin_createSecureTask h
  | updateStatus key newStatus triggeredBy timestamp =>
    cases hstep
    exact origin_updateStatus h
  | updateState key encrypted =>
    cases hstep
    exact origin_updateState h
  | resumeTask request =>
    cases hstep
    exact origin_resumeTask h
  | cleanupOldTasks retentionSecs now =>
    cases hstep
    exact .kept (lookup_retain_eq_some.mp h).1

/-- Recording a nonce changes nothing but the nonces. -/
theorem tryRecordNonce_eq_some {nonce : String} {recorded : SecureTask}
    (h : task.tryRecordNonce nonce = some recorded) :
    recorded = { task with seenNonces := task.seenNonces ++ [truncateNonce nonce] } := by
  unfold SecureTask.tryRecordNonce at h
  split at h
  · cases h
  · exact (Option.some.inj h).symm

/-- The task that a create makes. -/
theorem newSecureTask_eq_ok {tracked : TrackedTask} {token : Except TaskSecurityError String}
    {encrypted : Option (Except TaskSecurityError (String × String))} {timestamp : String}
    (h : newSecureTask env tracked token encrypted timestamp = .ok task) :
    ∃ drawn : String, ∃ bare : SecureTask, token = .ok drawn ∧ bare.resumeToken = some drawn ∧
      bare.stateChain = [] ∧ bare.seenNonces = [] ∧
      task = bare.push env tracked.status none timestamp := by
  cases token with
  | error e => cases h
  | ok drawn =>
    cases encrypted with
    | none =>
      cases h
      exact ⟨drawn, _, rfl, rfl, rfl, rfl, rfl⟩
    | some encrypted =>
      cases encrypted with
      | error e => cases h
      | ok state =>
        cases h
        exact ⟨drawn, _, rfl, rfl, rfl, rfl, rfl⟩

end Vellaveto.TaskSecurity
