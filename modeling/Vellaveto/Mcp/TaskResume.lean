/-
  RESUMING A TASK, at most once for a nonce.

  A task remembers the nonces of the resumes it accepted, and stores them cut to 256 bytes while the
  check looks for the whole text.  The request was validated before, and a nonce that passes has at most
  256 bytes, so nothing is ever cut.  The memory never forgets: when it is full the resume is refused.

  A task that is removed takes its memory with it.  A task made later under the same id has another
  token, and with that the old request is refused.  So what holds of the task that HOLDS A TOKEN, and
  that no call undoes, holds to the end of the run as long as the token is not drawn again
  (`run_holder`); both halves of `resume_authorized_once` are cases of it.
-/
import Vellaveto.Lib.Decision
import Vellaveto.Mcp.TaskSecurity

namespace Vellaveto.TaskSecurity

open Vellaveto.Lib

/-- The token that a call draws.  A create that is refused before it draws one carries an error. -/
def drawnToken : TaskCall → Option String
  | .createSecureTask _ (.ok token) _ _ => some token
  | _ => none

/-- Whether a resume is authorized. -/
def resumeAuthorized (env : Env) (tasks : Tasks) (request : TaskResumeRequest) : Bool :=
  match (resumeTask env tasks request).1 with
  | .ok result => result.authorized
  | .error _ => false

/-- Two requests for the same task with the same token and nonce; the agent may differ. -/
structure SameResume (request request' : TaskResumeRequest) : Prop where
  taskId : request'.taskId = request.taskId
  resumeToken : request'.resumeToken = request.resumeToken
  nonce : request'.nonce = request.nonce

variable {env : Env} {tasks tasks' : Tasks} {request : TaskResumeRequest}

/-! ## What an authorized resume leaves -/

theorem size_le_of_validateField {name value : String} {maxLen : Nat}
    (h : validateField name value maxLen = .ok ()) : value.utf8ByteSize ≤ maxLen := by
  by_contra hlong
  have hlt : maxLen < value.utf8ByteSize := by omega
  unfold validateField at h
  by_cases hempty : value.isEmpty = true
  · rw [if_pos hempty] at h
    cases h
  · rw [if_neg hempty, if_pos hlt] at h
    cases h

/-- A nonce that passes the checks is stored whole. -/
theorem truncateNonce_of_validate (h : request.validate = .ok ()) :
    truncateNonce request.nonce = request.nonce := by
  unfold TaskResumeRequest.validate at h
  obtain ⟨-, -, h⟩ := bind_eq_ok_iff.mp h
  obtain ⟨-, -, h⟩ := bind_eq_ok_iff.mp h
  obtain ⟨_, hnonce, -⟩ := bind_eq_ok_iff.mp h
  have hsize : request.nonce.utf8ByteSize ≤ maxEntryLen := size_le_of_validateField hnonce
  rw [truncateNonce, if_neg (by omega)]

theorem constantTimeStrEq_iff {a b : String} : constantTimeStrEq a b = true ↔ a = b := by
  simp only [constantTimeStrEq, Bool.and_eq_true, beq_iff_eq]
  constructor
  · exact fun h => h.2
  · rintro rfl
    exact ⟨rfl, rfl⟩

/-- A resume is authorized for the task that holds the token and has not seen the nonce; the task has
    seen it afterwards. -/
theorem resumeAuthorized_spec (h : resumeAuthorized env tasks request = true) :
    ∃ task, tasks.lookup request.taskId = some task ∧
      task.resumeToken = some request.resumeToken ∧ request.nonce ∉ task.seenNonces ∧
      (resumeTask env tasks request).2 = tasks.insert request.taskId
        { task with seenNonces := task.seenNonces ++ [request.nonce] } := by
  unfold resumeAuthorized at h
  revert h
  fun_cases resumeTask env tasks request with
  | case1 e hvalid =>
    intro h
    cases h
  | case2 hvalid hlookup =>
    intro h
    cases h
  | case3 hvalid task hlookup hseen =>
    intro h
    cases h
  | case4 hvalid task hlookup hfresh htoken =>
    intro h
    cases h
  | case5 hvalid task hlookup hfresh htoken hfull =>
    intro h
    cases h
  | case6 hvalid task hlookup hfresh htoken recorded hrecorded =>
    intro _
    refine ⟨task, hlookup, ?_, ?_, ?_⟩
    · cases hstored : task.resumeToken with
      | none =>
        rw [hstored] at htoken
        exact absurd rfl htoken
      | some stored =>
        rw [hstored, Option.any_some, Bool.not_eq_true, Bool.not_eq_false'] at htoken
        rw [constantTimeStrEq_iff.mp htoken]
    · intro hmem
      exact hfresh (List.elem_eq_true_of_mem hmem)
    · rw [tryRecordNonce_eq_some hrecorded, truncateNonce_of_validate hvalid]

/-! ## The task that holds a token -/

/-- What holds of the task under an id, while it holds the token. -/
def Holder (taskId token : String) (P : SecureTask → Prop) (tasks : Tasks) : Prop :=
  ∀ task, tasks.lookup taskId = some task → task.resumeToken = some token → P task

variable {taskId token : String} {P : SecureTask → Prop}

/-- A task keeps its token. -/
theorem TaskChange.resumeToken_eq {call : TaskCall} {old task : SecureTask}
    (h : TaskChange env old call task) : task.resumeToken = old.resumeToken := by
  cases h with
  | status hlive hroom => rfl
  | state => rfl
  | resume hvalid hfresh htoken hrecorded => rw [tryRecordNonce_eq_some hrecorded]

/-- A task that a call makes holds the token that the call draws. -/
theorem drawnToken_of_newSecureTask {tracked : TrackedTask} {drawn : Except TaskSecurityError String}
    {encrypted : Option (Except TaskSecurityError (String × String))} {timestamp : String}
    {task : SecureTask} (h : newSecureTask env tracked drawn encrypted timestamp = .ok task) :
    task.resumeToken = drawnToken (.createSecureTask tracked drawn encrypted timestamp) := by
  obtain ⟨token, bare, rfl, htoken, -, -, rfl⟩ := newSecureTask_eq_ok h
  exact htoken

/-- One call, that does not draw the token. -/
theorem step_holder (hP : ∀ call old task, TaskChange env old call task → P old → P task)
    {call : TaskCall} (hdrawn : drawnToken call ≠ some token) (hinv : Holder taskId token P tasks)
    (hstep : step env tasks call = some tasks') : Holder taskId token P tasks' := by
  intro task hlookup htoken
  cases origin_of_step hstep hlookup with
  | kept hold => exact hinv task hold htoken
  | @changed old _ hold hchange =>
    rw [hchange.resumeToken_eq] at htoken
    exact hP call old task hchange (hinv old hold htoken)
  | made hfree hcall hnew =>
    rw [drawnToken_of_newSecureTask hnew, ← hcall] at htoken
    exact absurd htoken hdrawn

/-- **Holder rule.**  What no call undoes holds of the holder of a token to the end of a run that does
    not draw the token. -/
theorem run_holder (hP : ∀ call old task, TaskChange env old call task → P old → P task)
    {calls : List TaskCall} (hdrawn : token ∉ calls.filterMap drawnToken)
    (hinv : Holder taskId token P tasks) (hrun : run (step env) tasks calls = some tasks') :
    Holder taskId token P tasks' := by
  refine run_invariant_mem ?_ hinv hrun
  intro s call s' hmem hs hstep
  refine step_holder hP ?_ hs hstep
  intro hcall
  exact hdrawn (List.mem_filterMap.mpr ⟨call, hmem, hcall⟩)

/-- Every task of the table holds one of these tokens. -/
def TokensFrom (tokens : List String) (tasks : Tasks) : Prop :=
  ∀ taskId task, tasks.lookup taskId = some task → ∃ token ∈ tokens, task.resumeToken = some token

theorem step_tokensFrom {tokens : List String} {call : TaskCall}
    (hdrawn : ∀ token, drawnToken call = some token → token ∈ tokens) (hinv : TokensFrom tokens tasks)
    (hstep : step env tasks call = some tasks') : TokensFrom tokens tasks' := by
  intro taskId task hlookup
  cases origin_of_step hstep hlookup with
  | kept hold => exact hinv taskId task hold
  | @changed old _ hold hchange =>
    rw [hchange.resumeToken_eq]
    exact hinv taskId old hold
  | made hfree hcall hnew =>
    obtain ⟨token, bare, rfl, htoken, -, -, rfl⟩ := newSecureTask_eq_ok hnew
    refine ⟨token, hdrawn token ?_, htoken⟩
    rw [hcall]
    rfl

/-- The tokens in the table were drawn by calls of the run. -/
theorem run_tokensFrom {calls : List TaskCall} (hrun : run (step env) ∅ calls = some tasks) :
    TokensFrom (calls.filterMap drawnToken) tasks := by
  refine run_invariant_mem ?_ ?_ hrun
  · intro s call s' hmem hs hstep
    refine step_tokensFrom ?_ hs hstep
    intro token hcall
    exact List.mem_filterMap.mpr ⟨call, hmem, hcall⟩
  · intro taskId task hempty
    rw [AList.lookup_empty] at hempty
    cases hempty

/-- A token that is in the table is not drawn any more. -/
theorem token_not_drawn {earlier later : List TaskCall}
    (hearlier : run (step env) ∅ earlier = some tasks)
    (htokens : ((earlier ++ later).filterMap drawnToken).Nodup) {task : SecureTask}
    (hlookup : tasks.lookup taskId = some task) (htoken : task.resumeToken = some token) :
    token ∉ later.filterMap drawnToken := by
  obtain ⟨drawn, hdrawn, heq⟩ := run_tokensFrom hearlier _ _ hlookup
  cases htoken.symm.trans heq
  rw [List.filterMap_append] at htokens
  intro hagain
  exact (List.nodup_append.mp htokens).2.2 token hdrawn token hagain rfl

/-! ## What no call undoes -/

/-- A nonce that was seen stays seen. -/
theorem TaskChange.seen {nonce : String} {call : TaskCall} {old task : SecureTask}
    (h : TaskChange env old call task) (hseen : nonce ∈ old.seenNonces) : nonce ∈ task.seenNonces := by
  cases h with
  | status hlive hroom => exact hseen
  | state => exact hseen
  | resume hvalid hfresh htoken hrecorded =>
    rw [tryRecordNonce_eq_some hrecorded]
    exact List.mem_append_left _ hseen

/-- The status and the chain of a terminal task stay as they are. -/
theorem TaskChange.terminal {status : TaskStatus} {chain : List TaskStateTransition} {call : TaskCall}
    {old task : SecureTask} (hterminal : status.isTerminal = true) (h : TaskChange env old call task)
    (hold : old.task.status = status ∧ old.stateChain = chain) :
    task.task.status = status ∧ task.stateChain = chain := by
  cases h with
  | status hlive hroom =>
    rw [hold.1, hterminal] at hlive
    cases hlive
  | state => exact hold
  | resume hvalid hfresh htoken hrecorded =>
    rw [tryRecordNonce_eq_some hrecorded]
    exact hold

/-- After an authorized resume, and whatever calls follow that do not draw its token, the same resume
    is not authorized. -/
theorem not_resumeAuthorized_again {between : List TaskCall} {again : TaskResumeRequest}
    (hfirst : resumeAuthorized env tasks request = true)
    (hdrawn : request.resumeToken ∉ between.filterMap drawnToken)
    (hrun : run (step env) tasks (.resumeTask request :: between) = some tasks')
    (hsame : SameResume request again) : resumeAuthorized env tasks' again = false := by
  obtain ⟨task, hlookup, htoken, hfresh, hafter⟩ := resumeAuthorized_spec hfirst
  obtain ⟨middle, hstep, hrest⟩ := run_cons_eq_some.mp hrun
  have hmiddle : middle = tasks.insert request.taskId
      { task with seenNonces := task.seenNonces ++ [request.nonce] } :=
    (Option.some.inj hstep).symm.trans hafter
  have hholder : Holder request.taskId request.resumeToken
      (fun task => request.nonce ∈ task.seenNonces) middle := by
    intro recorded hrecorded _
    rw [hmiddle, AList.lookup_insert] at hrecorded
    cases hrecorded
    exact List.mem_append_right _ List.mem_cons_self
  have hlater := run_holder (fun call old task h => h.seen) hdrawn hholder hrest
  by_contra hsecond
  rw [Bool.not_eq_false] at hsecond
  obtain ⟨task', hlookup', htoken', hfresh', -⟩ := resumeAuthorized_spec hsecond
  rw [hsame.taskId] at hlookup'
  rw [hsame.resumeToken] at htoken'
  rw [hsame.nonce] at hfresh'
  exact hfresh' (hlater task' hlookup' htoken')

/-- **Resumes and status changes, in every sequence of calls.**  The same resume is not authorized at
    two places; and between two places a terminal task, known by its token, gets no transition. -/
theorem resume_authorized_once (env : Env) (calls : List TaskCall)
    (htokens : (calls.filterMap drawnToken).Nodup) :
    (∀ (earlier between later : List TaskCall) (first again : TaskResumeRequest)
        (tasks tasks' : Tasks),
      calls = earlier ++ .resumeTask first :: (between ++ .resumeTask again :: later) →
      run (step env) ∅ earlier = some tasks →
      run (step env) tasks (.resumeTask first :: between) = some tasks' → SameResume first again →
      ¬(resumeAuthorized env tasks first = true ∧ resumeAuthorized env tasks' again = true)) ∧
    ∀ (earlier between later : List TaskCall) (tasks tasks' : Tasks) (taskId : String)
        (task task' : SecureTask),
      calls = earlier ++ (between ++ later) → run (step env) ∅ earlier = some tasks →
      run (step env) tasks between = some tasks' →
      tasks.lookup taskId = some task → task.task.status.isTerminal = true →
      tasks'.lookup taskId = some task' → task'.resumeToken = task.resumeToken →
      task'.task.status = task.task.status ∧ task'.stateChain = task.stateChain := by
  refine ⟨?_, ?_⟩
  · rintro earlier between later first again tasks tasks' rfl hearlier hrun hsame ⟨hfirst, hagain⟩
    obtain ⟨task, hlookup, htoken, -, -⟩ := resumeAuthorized_spec hfirst
    have hlater := token_not_drawn hearlier htokens hlookup htoken
    have hbetween : first.resumeToken ∉ between.filterMap drawnToken := by
      intro hmem
      refine hlater ?_
      rw [List.filterMap_cons_none rfl, List.filterMap_append]
      exact List.mem_append_left _ hmem
    rw [not_resumeAuthorized_again hfirst hbetween hrun hsame] at hagain
    cases hagain
  · rintro earlier between later tasks tasks' taskId task task' rfl hearlier hrun hlookup hterminal
      hlookup' htoken'
    obtain ⟨token, -, htoken⟩ := run_tokensFrom hearlier _ _ hlookup
    have hlater := token_not_drawn hearlier htokens hlookup htoken
    have hbetween : token ∉ between.filterMap drawnToken := by
      intro hmem
      refine hlater ?_
      rw [List.filterMap_append]
      exact List.mem_append_left _ hmem
    have hholder : Holder taskId token (fun t => t.task.status = task.task.status ∧
        t.stateChain = task.stateChain) tasks := by
      intro t ht _
      cases hlookup.symm.trans ht
      exact ⟨rfl, rfl⟩
    have hkept := run_holder (fun call old new h => h.terminal hterminal) hbetween hholder hrun
    exact hkept task' hlookup' (htoken'.trans htoken)

/-- SHA-256, as far as the call below uses it. -/
def completedEnv : Env where
  sha256 _ := ⟨[6, 130, 75, 229, 164, 96, 11, 148, 12, 185, 119, 49, 37, 189, 11, 152, 51, 178, 219, 161, 32, 67, 90, 196, 206, 221, 191, 80, 252, 73, 116, 154], by decide⟩
  decryptState _ _ := .error (.decryptionFailed "no state")
  parseRfc3339 _ := none

/-- A task that is completed when it is created. -/
def createCompleted : TaskCall :=
  .createSecureTask ⟨"task-1", .completed, "2026-01-01T00:00:00+00:00"⟩ (.ok "token") none
    "2026-01-01T00:00:00+00:00"

/-- A resume of this task. -/
def resumeBy (agentId : Option String) : TaskResumeRequest := ⟨"task-1", "token", "nonce-1", agentId⟩

/-- The table with this task. -/
def completedTasks : Tasks :=
  (createSecureTask completedEnv ∅ ⟨"task-1", .completed, "2026-01-01T00:00:00+00:00"⟩ (.ok "token") none
    "2026-01-01T00:00:00+00:00").2

theorem resume_authorized_once_completed :
    ∃ tasks task task', run (step completedEnv) ∅ [createCompleted] = some completedTasks ∧
      run (step completedEnv) completedTasks [.resumeTask (resumeBy none)] = some tasks ∧
      resumeAuthorized completedEnv completedTasks (resumeBy none) = true ∧
      resumeAuthorized completedEnv tasks (resumeBy (some "agent-1")) = false ∧
      completedTasks.lookup "task-1" = some task ∧ tasks.lookup "task-1" = some task' ∧
      task'.task.status = task.task.status ∧ task'.stateChain = task.stateChain := by
  have honce := resume_authorized_once completedEnv [createCompleted, .resumeTask (resumeBy none),
    .resumeTask (resumeBy (some "agent-1"))] (by decide)
  have hfirst : resumeAuthorized completedEnv completedTasks (resumeBy none) = true := by
    decide +kernel
  have hnot := honce.1 [createCompleted] [] [] (resumeBy none) (resumeBy (some "agent-1")) _ _ rfl rfl rfl
    ⟨rfl, rfl, rfl⟩
  have hkept := honce.2 [createCompleted] [.resumeTask (resumeBy none)] _ _ _ "task-1" _ _ rfl rfl rfl
    rfl rfl rfl rfl
  refine ⟨_, _, _, rfl, rfl, hfirst, ?_, rfl, rfl, hkept⟩
  rw [← Bool.not_eq_true]
  exact fun hagain => hnot ⟨hfirst, hagain⟩

end Vellaveto.TaskSecurity
