/-
  THE STATE CHAIN OF A TASK, and what its last hash binds.

  The hash of a transition covers its number, the hash before it, the text of the status, the timestamp
  and the triggering agent, one after the other and with nothing between them.  The number has eight
  bytes and the hash before it 64 (none at the first transition), so these two can be read back.  The
  other three can not: an agent that is absent and one that is the empty text add the same bytes, and a
  byte can move from the end of a failure reason to the front of the timestamp.

  `chain_last_hash_binds_iff`: two accepted chains of one length with one last hash are the same chain
  EXACTLY when at each position the status texts have one length, the timestamps have one length, and
  the agent is present in both or in neither.  In the same theorem: the chains that the manager builds
  are accepted, in every run.
-/
import Vellaveto.Mcp.TaskSecurity

namespace Vellaveto.TaskSecurity

open Vellaveto.Lib
open Vellaveto.Audit (Hash32)

/-- The last hash of a chain, or `prevHash` when it has no transition. -/
def lastHash (prevHash : String) (chain : List TaskStateTransition) : String :=
  (chain.getLast?.map (·.hash)).getD prevHash

/-- The fields that the hash covers end at the same places. -/
structure SameBoundaries (t u : TaskStateTransition) : Prop where
  status : t.newStatus.display.utf8ByteSize = u.newStatus.display.utf8ByteSize
  timestamp : t.timestamp.utf8ByteSize = u.timestamp.utf8ByteSize
  triggeredBy : t.triggeredBy.isSome = u.triggeredBy.isSome

/-- The bytes that two chains hash do not collide. -/
def NoCollision (env : Env) (chain chain' : List TaskStateTransition) : Prop :=
  ∀ t ∈ chain, ∀ u ∈ chain',
    env.sha256 (hashedBytes t) = env.sha256 (hashedBytes u) → hashedBytes t = hashedBytes u

variable {env : Env}

/-! ## Reading the bytes back -/

theorem length_strBytes (s : String) : (strBytes s).length = s.utf8ByteSize := by
  rw [strBytes, Array.length_toList]
  rfl

/-- The status that a text shows. -/
def TaskStatus.ofDisplay (text : String) : TaskStatus :=
  if text.toList.take 8 = "failed: ".toList then .failed (String.ofList (text.toList.drop 8))
  else if text = "pending" then .pending
  else if text = "running" then .running
  else if text = "completed" then .completed
  else if text = "cancelled" then .cancelled
  else .expired

theorem TaskStatus.ofDisplay_display (status : TaskStatus) :
    TaskStatus.ofDisplay status.display = status := by
  cases status with
  | failed reason =>
    have hlen : "failed: ".toList.length = 8 := by decide
    rw [TaskStatus.ofDisplay, TaskStatus.display, String.toList_append, List.take_left' hlen,
      List.drop_left' hlen, if_pos rfl, String.ofList_toList]
  | pending => decide
  | running => decide
  | completed => decide
  | cancelled => decide
  | expired => decide

/-- The text of a status shows which one it is, with its reason. -/
theorem TaskStatus.display_injective : Function.Injective TaskStatus.display :=
  Function.LeftInverse.injective TaskStatus.ofDisplay_display

/-- A hash has 64 bytes. -/
theorem length_strBytes_transitionHash (t : TaskStateTransition) :
    (strBytes (transitionHash env t)).length = 64 := by
  rw [transitionHash, length_strBytes_hexEncode, (env.sha256 (hashedBytes t)).2]

/-- With the fields before the status out of the way, and the boundaries known, the bytes of a
    transition give back every field that they cover. -/
theorem eq_of_hashedBytes_eq {t u : TaskStateTransition} (hsequence : t.sequence = u.sequence)
    (hprev : (strBytes t.prevHash).length = (strBytes u.prevHash).length)
    (hsame : SameBoundaries t u) (hhash : t.hash = u.hash) (h : hashedBytes t = hashedBytes u) :
    t = u := by
  obtain ⟨sequence, prevHash, status, timestamp, agent, hash⟩ := t
  obtain ⟨sequence', prevHash', status', timestamp', agent', hash'⟩ := u
  obtain ⟨hstatus, htimestamp, hagent⟩ := hsame
  cases hsequence
  cases hhash
  simp only [hashedBytes, List.append_assoc, List.append_cancel_left_eq] at h
  obtain ⟨hp, h⟩ := List.append_inj h hprev
  obtain ⟨hs, h⟩ := List.append_inj h (by simpa [length_strBytes] using hstatus)
  obtain ⟨ht, ha⟩ := List.append_inj h (by simpa [length_strBytes] using htimestamp)
  cases strBytes_injective hp
  cases strBytes_injective ht
  cases TaskStatus.display_injective (strBytes_injective hs)
  suffices hagents : agent = agent' by rw [hagents]
  cases agent with
  | none =>
    cases agent' with
    | none => rfl
    | some name' => cases hagent
  | some name =>
    cases agent' with
    | none => cases hagent
    | some name' => rw [strBytes_injective ha]

/-! ## Accepted chains -/

theorem lastHash_cons (prevHash : String) (t : TaskStateTransition) (chain : List TaskStateTransition) :
    lastHash prevHash (t :: chain) = lastHash t.hash chain := by
  cases chain with
  | nil => rfl
  | cons u chain =>
    simp only [lastHash, List.getLast?_cons, Option.map_some, Option.getD_some]

/-- What the loop checks of one transition. -/
theorem verifyFrom_cons_valid {prevHash : String} {i : Nat} {t : TaskStateTransition}
    {chain : List TaskStateTransition} :
    (verifyFrom env prevHash i (t :: chain)).valid = true ↔
      t.sequence = i + 1 ∧ t.prevHash = prevHash ∧ transitionHash env t = t.hash ∧
        (verifyFrom env t.hash (i + 1) chain).valid = true := by
  rw [verifyFrom]
  split_ifs with hsequence hprev hhash
  · simp [hsequence]
  · simp [hprev]
  · simp [hhash]
  · simp only [ne_eq, not_not] at hsequence hprev hhash
    simp [hsequence, hprev, hhash]

/-- **The last hash and the boundaries determine an accepted chain.**  The induction goes along both
    chains; the hash before them is found from the tails backwards. -/
theorem eq_of_lastHash_eq {prev prev' : String} {i : Nat} {chain chain' : List TaskStateTransition}
    (hprev : (strBytes prev).length = (strBytes prev').length)
    (hvalid : (verifyFrom env prev i chain).valid = true)
    (hvalid' : (verifyFrom env prev' i chain').valid = true)
    (hsame : List.Forall₂ SameBoundaries chain chain')
    (hcollision : NoCollision env chain chain')
    (hlast : lastHash prev chain = lastHash prev' chain') : prev = prev' ∧ chain = chain' := by
  induction hsame generalizing prev prev' i with
  | nil => exact ⟨hlast, rfl⟩
  | @cons t u chain chain' htu hsame ih =>
    obtain ⟨hsequence, rfl, hhash, htail⟩ := verifyFrom_cons_valid.mp hvalid
    obtain ⟨hsequence', rfl, hhash', htail'⟩ := verifyFrom_cons_valid.mp hvalid'
    rw [lastHash_cons, lastHash_cons] at hlast
    have hlen : (strBytes t.hash).length = (strBytes u.hash).length := by
      rw [← hhash, ← hhash', length_strBytes_transitionHash, length_strBytes_transitionHash]
    have hrest : NoCollision env chain chain' := fun x hx y hy =>
      hcollision x (List.mem_cons_of_mem t hx) y (List.mem_cons_of_mem u hy)
    obtain ⟨hhashes, rfl⟩ := ih hlen htail htail' hrest hlast
    have hdigests : env.sha256 (hashedBytes t) = env.sha256 (hashedBytes u) := by
      apply Subtype.ext
      apply hexEncode_injective
      exact hhash.trans (hhashes.trans hhash'.symm)
    have hbytes := hcollision t List.mem_cons_self u List.mem_cons_self hdigests
    obtain rfl := eq_of_hashedBytes_eq (hsequence.trans hsequence'.symm) hprev htu hhashes hbytes
    exact ⟨rfl, rfl⟩

theorem sameBoundaries_refl (chain : List TaskStateTransition) :
    List.Forall₂ SameBoundaries chain chain :=
  List.forall₂_same.mpr fun _ _ => ⟨rfl, rfl, rfl⟩

/-! ## The chains that the manager builds -/

/-- One more transition after an accepted chain. -/
theorem verifyFrom_append_singleton {prev : String} {i : Nat} {chain : List TaskStateTransition}
    {t : TaskStateTransition} (hvalid : (verifyFrom env prev i chain).valid = true)
    (hsequence : t.sequence = i + chain.length + 1) (hprev : t.prevHash = lastHash prev chain)
    (hhash : transitionHash env t = t.hash) :
    (verifyFrom env prev i (chain ++ [t])).valid = true := by
  induction chain generalizing prev i with
  | nil => exact verifyFrom_cons_valid.mpr ⟨hsequence, hprev, hhash, rfl⟩
  | cons u chain ih =>
    obtain ⟨hsequence', hprev', hhash', htail⟩ := verifyFrom_cons_valid.mp hvalid
    refine verifyFrom_cons_valid.mpr ⟨hsequence', hprev', hhash', ih htail ?_ ?_⟩
    · rw [hsequence, List.length_cons]
      omega
    · rw [hprev, lastHash_cons]

/-- The transitions of an accepted chain are numbered. -/
theorem last_sequence {prev : String} {i : Nat} {chain : List TaskStateTransition}
    (hvalid : (verifyFrom env prev i chain).valid = true) :
    (chain.getLast?.map (·.sequence)).getD i = i + chain.length := by
  induction chain generalizing prev i with
  | nil => rfl
  | cons t chain ih =>
    obtain ⟨hsequence, -, -, htail⟩ := verifyFrom_cons_valid.mp hvalid
    have hih := ih htail
    rw [List.length_cons]
    cases chain with
    | nil => exact hsequence
    | cons u chain =>
      rw [List.getLast?_cons_cons]
      simp only [List.getLast?_cons, Option.map_some, Option.getD_some, List.length_cons] at hih ⊢
      omega

theorem verifyChain_push {task : SecureTask} (hvalid : (verifyChain env task.stateChain).valid = true)
    (newStatus : TaskStatus) (triggeredBy : Option String) (timestamp : String) :
    (verifyChain env (task.push env newStatus triggeredBy timestamp).stateChain).valid = true := by
  refine verifyFrom_append_singleton hvalid ?_ rfl rfl
  have hlast := last_sequence hvalid
  rw [Nat.zero_add] at hlast ⊢
  exact congrArg (· + 1) hlast

/-- Every chain of the table is accepted. -/
def ChainsAccepted (env : Env) (tasks : Tasks) : Prop :=
  ∀ taskId task, tasks.lookup taskId = some task → (verifyChain env task.stateChain).valid = true

theorem step_chainsAccepted {tasks tasks' : Tasks} {call : TaskCall} (hinv : ChainsAccepted env tasks)
    (hstep : step env tasks call = some tasks') : ChainsAccepted env tasks' := by
  intro taskId task hlookup
  cases origin_of_step hstep hlookup with
  | kept hold => exact hinv taskId task hold
  | @changed old _ hold hchange =>
    have hvalid := hinv taskId old hold
    cases hchange with
    | status hlive hroom => exact verifyChain_push hvalid _ _ _
    | state => exact hvalid
    | resume hrequest hfresh htoken hrecorded =>
      rw [tryRecordNonce_eq_some hrecorded]
      exact hvalid
  | made hfree hcall hnew =>
    obtain ⟨drawn, bare, -, -, hempty, -, rfl⟩ := newSecureTask_eq_ok hnew
    refine verifyChain_push ?_ _ _ _
    rw [hempty]
    rfl

/-- **The last hash of a task's state chain.** -/
theorem chain_last_hash_binds_iff (env : Env) :
    (∀ chain chain' : List TaskStateTransition,
      (verifyChain env chain).valid = true → (verifyChain env chain').valid = true →
      lastHash "" chain = lastHash "" chain' → NoCollision env chain chain' →
      (chain = chain' ↔ List.Forall₂ SameBoundaries chain chain')) ∧
    ∀ (calls : List TaskCall) (tasks : Tasks), run (step env) ∅ calls = some tasks →
      ChainsAccepted env tasks := by
  refine ⟨?_, ?_⟩
  · intro chain chain' hvalid hvalid' hlast hcollision
    constructor
    · rintro rfl
      exact sameBoundaries_refl chain
    · intro hsame
      exact (eq_of_lastHash_eq rfl hvalid hvalid' hsame hcollision hlast).2
  · intro calls tasks hrun
    refine run_invariant (fun s call s' => step_chainsAccepted) ?_ hrun
    intro taskId task hlookup
    rw [AList.lookup_empty] at hlookup
    cases hlookup

/-! ## An agent that is absent, and one that is empty -/

/-- The digests of the two messages below. -/
def firstDigest : Hash32 :=
  ⟨[57, 245, 141, 35, 47, 30, 113, 67, 72, 146, 234, 204, 106, 202, 80, 91, 119, 10, 2, 72, 206, 178,
    35, 254, 168, 112, 40, 243, 253, 69, 44, 207], by decide⟩

@[inherit_doc firstDigest]
def secondDigest : Hash32 :=
  ⟨[223, 44, 215, 56, 131, 145, 215, 125, 140, 146, 21, 202, 135, 139, 47, 165, 245, 226, 17, 188, 72,
    8, 255, 243, 106, 172, 14, 168, 39, 86, 58, 164], by decide⟩

/-- What the first transition hashes. -/
def firstMessage : List UInt8 := toLeBytes 1 ++ strBytes "pending2026-01-01T00:00:00+00:00"

/-- SHA-256, as far as the two calls below use it. -/
def sampleEnv : Env where
  sha256 bytes := if bytes = firstMessage then firstDigest else secondDigest
  decryptState _ _ := .error (.decryptionFailed "no state")
  parseRfc3339 _ := none

/-- A task is created and started by an agent, five seconds later. -/
def startedBy (agent : Option String) : List TaskCall :=
  [.createSecureTask ⟨"task-1", .pending, "2026-01-01T00:00:00+00:00"⟩ (.ok "token") none
      "2026-01-01T00:00:00+00:00",
    .updateStatus "task-1" .running agent "2026-01-01T00:00:05+00:00"]

/-- The chain of the task. -/
def startedChain (agent : Option String) : List TaskStateTransition :=
  match (run (step sampleEnv) ∅ (startedBy agent)).bind (·.lookup "task-1") with
  | some task => task.stateChain
  | none => []

/-- Both chains are accepted and end in one hash. -/
theorem startedChains_alike :
    (verifyChain sampleEnv (startedChain none)).valid = true ∧
      (verifyChain sampleEnv (startedChain (some ""))).valid = true ∧
      lastHash "" (startedChain none) = lastHash "" (startedChain (some "")) ∧
      NoCollision sampleEnv (startedChain none) (startedChain (some "")) := by
  refine ⟨by decide +kernel, by decide +kernel, by decide +kernel, ?_⟩
  unfold NoCollision
  decide +kernel

theorem startedChains_ne : startedChain none ≠ startedChain (some "") := by decide +kernel

theorem chain_last_hash_binds_iff_started :
    (startedChain none = startedChain (some "") ↔
        List.Forall₂ SameBoundaries (startedChain none) (startedChain (some ""))) ∧
      ¬List.Forall₂ SameBoundaries (startedChain none) (startedChain (some "")) ∧
      ∃ tasks, run (step sampleEnv) ∅ (startedBy none) = some tasks ∧
        ChainsAccepted sampleEnv tasks := by
  obtain ⟨hvalid, hvalid', hlast, hcollision⟩ := startedChains_alike
  have hiff := (chain_last_hash_binds_iff sampleEnv).1 _ _ hvalid hvalid' hlast hcollision
  refine ⟨hiff, fun hsame => startedChains_ne (hiff.mpr hsame), _, rfl, ?_⟩
  exact (chain_last_hash_binds_iff sampleEnv).2 (startedBy none) _ rfl

theorem absent_and_empty_agent_hash_alike :
    ¬∀ chain chain' : List TaskStateTransition, chain.length = chain'.length →
      (verifyChain sampleEnv chain).valid = true → (verifyChain sampleEnv chain').valid = true →
      lastHash "" chain = lastHash "" chain' → NoCollision sampleEnv chain chain' →
      chain = chain' := by
  intro hclaim
  obtain ⟨hvalid, hvalid', hlast, hcollision⟩ := startedChains_alike
  exact startedChains_ne (hclaim _ _ (by decide +kernel) hvalid hvalid' hlast hcollision)

end Vellaveto.TaskSecurity
