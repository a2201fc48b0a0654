/-
  THE SESSION GUARD (`vellaveto-mcp/src/session_guard.rs`).

  Each session is a small state machine, Init → Active → Suspicious → Locked → Ended, driven by events;
  `should_deny` refuses a session that is Locked or Ended, and ends one that has lasted too long.  The
  table holds `max_sessions` sessions: a new one evicts the least recently used session that is Init or
  Active, or else the least recently used Suspicious one, or is refused.

  The durable backend is left out: it is written through without an effect on the table, and only a
  restart reads it.  Nothing under the lock panics, so the lock is never poisoned.
-/
import Vellaveto.Lib.Counters
import Vellaveto.Lib.Table
import Vellaveto.Types.Chars

namespace Vellaveto.Guard

open Vellaveto.Lib

/-- `SessionState`. -/
inductive SessionState where
  | init
  | active
  | suspicious
  | locked
  | ended
  deriving DecidableEq, Repr

/-- `AnomalySeverity`. -/
inductive AnomalySeverity where
  | low
  | medium
  | high
  | critical
  deriving DecidableEq, Repr

/-- `SessionEvent`. -/
inductive SessionEvent where
  | firstAction
  | normalAction
  | anomalyDetected (severity : AnomalySeverity) (description : String)
  | policyViolation (reason : String)
  | repeatedViolation (count : Nat)
  | cooldownElapsed
  | adminUnlock (adminToken : String)
  | sessionEnd
  deriving DecidableEq, Repr

/-- `TransitionAction`. -/
inductive TransitionAction where
  | none
  | warn (message : String)
  | denyAll (reason : String)
  | auditEvent (eventType : String)
  deriving DecidableEq, Repr

/-- `TransitionResult`. -/
structure TransitionResult where
  previous : SessionState
  current : SessionState
  action : TransitionAction
  deriving DecidableEq, Repr

/-- `SessionGuardError::SessionNotFound`. -/
inductive SessionGuardError where
  | sessionNotFound (reason : String)
  deriving DecidableEq, Repr

/-- `SessionGuardConfig`. -/
structure SessionGuardConfig where
  suspiciousThreshold : Nat
  lockThreshold : Nat
  cooldownSecs : Nat
  maxSessionDurationSecs : Nat
  maxSessions : Nat
  adminUnlockToken : Option String

/-- `SessionContext`. -/
structure SessionContext where
  state : SessionState
  anomalyCount : Nat
  violationCount : Nat
  startedAt : Nat
  lastActionAt : Nat
  lockedAt : Option Nat
  failedUnlockAttempts : Nat
  transitionHistory : List (SessionState × SessionState × Nat)
  deriving DecidableEq

abbrev Sessions := AList fun _ : String => SessionContext

/-- `SessionGuard`. -/
structure SessionGuard where
  config : SessionGuardConfig
  sessions : Sessions

/-- `SessionGuard::new`. -/
def new (config : SessionGuardConfig) : SessionGuard where
  config := config
  sessions := ∅

/-- `MAX_TRANSITION_HISTORY`. -/
def maxTransitionHistory : Nat := 1000

/-- `MAX_SESSION_ID_LEN`. -/
def maxSessionIdLen : Nat := 256

/-- `MAX_EVENT_FIELD_LEN`. -/
def maxEventFieldLen : Nat := 1024

/-- `MAX_COMPUTE_TRANSITION_DEPTH`. -/
def maxComputeTransitionDepth : Nat := 2

/-- `MAX_FAILED_UNLOCK_ATTEMPTS`. -/
def maxFailedUnlockAttempts : Nat := 5

/-- The characters that fit into so many bytes. -/
def truncateBytes : Nat → List Char → List Char
  | _, [] => []
  | left, c :: cs => if c.utf8Size ≤ left then c :: truncateBytes (left - c.utf8Size) cs else []

/-- `truncate_event_field`. -/
def truncateEventField (s : String) : String :=
  String.ofList (truncateBytes maxEventFieldLen s.toList)

/-- `u32::saturating_add`. -/
def addCount (a b : Nat) : Nat := saturatingAdd (2 ^ 32 - 1) a b

/-- `SessionContext::new`. -/
def SessionContext.new (now : Nat) : SessionContext where
  state := .init
  anomalyCount := 0
  violationCount := 0
  startedAt := now
  lastActionAt := now
  lockedAt := none
  failedUnlockAttempts := 0
  transitionHistory := []

/-- One more transition in the bounded history. -/
def SessionContext.remember (ctx : SessionContext) (source target : SessionState) (now : Nat) :
    SessionContext :=
  if ctx.transitionHistory.length < maxTransitionHistory then
    { ctx with transitionHistory := ctx.transitionHistory ++ [(source, target, now)] }
  else ctx

/-- `SessionContext::record_transition`. -/
def SessionContext.recordTransition (ctx : SessionContext) (source target : SessionState)
    (now : Nat) : SessionContext :=
  let moved := { ctx with
    state := target
    lastActionAt := now
    lockedAt := if target = SessionState.locked then some now else ctx.lockedAt }
  moved.remember source target now

/-! ### The state machine -/

def unlockPermanentlyDenied (attempts : Nat) : String :=
  s!"Admin unlock permanently denied: {attempts} failed attempts exceeded limit " ++
    s!"({maxFailedUnlockAttempts})"

/-- An `AdminUnlock` in a locked session. -/
def adminUnlock (config : SessionGuardConfig) (ctx : SessionContext) (adminToken : String) :
    SessionContext × SessionState × TransitionAction :=
  if maxFailedUnlockAttempts ≤ ctx.failedUnlockAttempts then
    (ctx, .ended, .denyAll (unlockPermanentlyDenied ctx.failedUnlockAttempts))
  else if config.adminUnlockToken = some adminToken then
    ({ ctx with anomalyCount := 0, violationCount := 0, failedUnlockAttempts := 0 }, .active,
      .auditEvent "session_admin_unlocked")
  else
    let ctx' := { ctx with failedUnlockAttempts := addCount ctx.failedUnlockAttempts 1 }
    if maxFailedUnlockAttempts ≤ ctx'.failedUnlockAttempts then
      (ctx', .ended, .denyAll (unlockPermanentlyDenied ctx'.failedUnlockAttempts))
    else (ctx', .locked, .denyAll "Admin unlock denied: invalid or missing admin token")

/-- `compute_transition`, with the depth that is left: the context it changes, the new state and the
    action. -/
def computeTransition (config : SessionGuardConfig) :
    Nat → SessionContext → SessionEvent → Nat → SessionContext × SessionState × TransitionAction
  | 0, ctx, _, _ =>
    (ctx, .locked, .denyAll "Session state machine recursion depth exceeded — fail-closed")
  | left + 1, ctx, event, now =>
    match ctx.state, event with
    | .init, .firstAction => (ctx, .active, .auditEvent "session_activated")
    | .init, .sessionEnd => (ctx, .ended, .auditEvent "session_ended")
    | .init, event =>
      computeTransition config left ({ ctx with state := .active }.remember .init .active now)
        event now
    | .active, .normalAction => (ctx, .active, .none)
    | .active, .anomalyDetected severity description =>
      let counted := { ctx with anomalyCount := addCount ctx.anomalyCount 1 }
      let desc := truncateEventField description
      if severity = .critical ∨ config.suspiciousThreshold ≤ counted.anomalyCount then
        (counted, .suspicious, .warn
          s!"Session transitioning to Suspicious: {desc} (anomalies: {counted.anomalyCount})")
      else (counted, .active, .warn s!"Anomaly detected: {desc}")
    | .active, .policyViolation reason =>
      let counted := { ctx with
        violationCount := addCount ctx.violationCount 1
        anomalyCount := addCount ctx.anomalyCount 1 }
      let rsn := truncateEventField reason
      if config.suspiciousThreshold ≤ counted.anomalyCount then
        (counted, .suspicious, .warn s!"Session transitioning to Suspicious after violation: {rsn}")
      else (counted, .active, .warn s!"Policy violation: {rsn}")
    | .active, .repeatedViolation count =>
      if count = 0 then (ctx, .active, .none)
      else
        ({ ctx with
          violationCount := addCount ctx.violationCount count
          anomalyCount := addCount ctx.anomalyCount count }, .suspicious,
          .warn s!"Repeated violations ({count}), transitioning to Suspicious")
    | .active, .sessionEnd => (ctx, .ended, .auditEvent "session_ended")
    | .suspicious, .normalAction => (ctx, .suspicious, .none)
    | .suspicious, .anomalyDetected severity description =>
      let counted := { ctx with anomalyCount := addCount ctx.anomalyCount 1 }
      let desc := truncateEventField description
      if severity = .critical ∨ severity = .high ∨ config.lockThreshold ≤ counted.violationCount then
        (counted, .locked, .denyAll s!"Session locked: {desc} (violations: {counted.violationCount})")
      else (counted, .suspicious, .warn s!"Anomaly in suspicious session: {desc}")
    | .suspicious, .policyViolation reason =>
      let counted := { ctx with violationCount := addCount ctx.violationCount 1 }
      let rsn := truncateEventField reason
      if config.lockThreshold ≤ counted.violationCount then
        (counted, .locked, .denyAll s!"Session locked after {counted.violationCount} violations: {rsn}")
      else (counted, .suspicious, .warn s!"Policy violation in suspicious session: {rsn}")
    | .suspicious, .repeatedViolation count =>
      if count = 0 then (ctx, .suspicious, .none)
      else
        let counted := { ctx with violationCount := addCount ctx.violationCount count }
        (counted, .locked,
          .denyAll s!"Session locked: repeated violations ({counted.violationCount} total)")
    | .suspicious, .sessionEnd => (ctx, .ended, .auditEvent "session_ended")
    | .locked, .cooldownElapsed =>
      -- `saturating_sub`: a clock behind the time of locking counts as no time at all
      if ctx.lockedAt.any fun locked => config.cooldownSecs ≤ now - locked then
        (ctx, .suspicious, .warn "Cooldown elapsed, session returning to Suspicious")
      else
        (ctx, .locked, .denyAll s!"Cooldown period ({config.cooldownSecs} secs) has not elapsed")
    | .locked, .adminUnlock adminToken => adminUnlock config ctx adminToken
    | .locked, .sessionEnd => (ctx, .ended, .auditEvent "session_ended")
    | .locked, _ => (ctx, .locked, .denyAll "Session is locked")
    | .ended, _ => (ctx, .ended, .denyAll "Session has ended")
    | state, _ => (ctx, state, .none)

/-! ### Sessions in the table -/

/-- `Iterator::min_by_key`: the first of the least. -/
def minByKey {α : Type} (key : α → Nat) : List α → Option α
  | [] => none
  | x :: xs =>
    match minByKey key xs with
    | none => some x
    | some y => if key x ≤ key y then some x else some y

/-- The least recently used session in one of these states. -/
def oldestIn (states : List SessionState) (sessions : Sessions) : Option String :=
  (minByKey (fun e => e.2.lastActionAt)
    (sessions.entries.filter fun e => e.2.state ∈ states)).map (·.1)

/-- Room for one more session, if it can be had. -/
def makeRoom (config : SessionGuardConfig) (sessions : Sessions) :
    Except SessionGuardError Sessions :=
  if config.maxSessions ≤ sessions.keys.length then
    match oldestIn [.init, .active] sessions with
    | some key => .ok (sessions.erase key)
    | none =>
      match oldestIn [.suspicious] sessions with
      | some key => .ok (sessions.erase key)
      | none => .error (.sessionNotFound
          s!"Session limit reached ({config.maxSessions}) and no evictable sessions")
  else .ok sessions

/-- The checks of a session id in `process_event_at`. -/
def checkSessionId (sessionId : String) : Except SessionGuardError Unit :=
  if sessionId.utf8ByteSize = 0 then .error (.sessionNotFound "session_id must not be empty")
  else if maxSessionIdLen < sessionId.utf8ByteSize then
    .error (.sessionNotFound
      s!"session_id length {sessionId.utf8ByteSize} exceeds maximum {maxSessionIdLen}")
  else if hasDangerousChars sessionId then
    .error (.sessionNotFound "session_id contains control or Unicode format characters")
  else .ok ()

/-- A session that has lasted too long. -/
def expired (config : SessionGuardConfig) (ctx : SessionContext) (now : Nat) : Bool :=
  0 < config.maxSessionDurationSecs && config.maxSessionDurationSecs ≤ now - ctx.startedAt

/-- An event on the context of its session. -/
def applyEvent (config : SessionGuardConfig) (ctx : SessionContext) (event : SessionEvent)
    (now : Nat) : SessionContext × TransitionResult :=
  if ctx.state ≠ .ended ∧ expired config ctx now then
    (ctx.recordTransition ctx.state .ended now,
      { previous := ctx.state
        current := .ended
        action := .denyAll (s!"Session duration exceeded ({now - ctx.startedAt} >= " ++
          s!"{config.maxSessionDurationSecs} seconds)") })
  else
    let (ctx', newState, action) :=
      computeTransition config maxComputeTransitionDepth ctx event now
    let result := { previous := ctx.state, current := newState, action := action }
    if newState ≠ ctx.state then (ctx'.recordTransition ctx.state newState now, result)
    else ({ ctx' with lastActionAt := now }, result)

/-- The sessions with an entry for this one. -/
def withSession (config : SessionGuardConfig) (sessions : Sessions) (sessionId : String)
    (now : Nat) : Except SessionGuardError (Sessions × SessionContext) :=
  match sessions.lookup sessionId with
  | some ctx => .ok (sessions, ctx)
  | none =>
    match makeRoom config sessions with
    | .error e => .error e
    | .ok sessions' =>
      .ok (sessions'.insert sessionId (.new now), .new now)

/-- `process_event_at`. -/
def processEventAt (g : SessionGuard) (sessionId : String) (event : SessionEvent) (now : Nat) :
    SessionGuard × Except SessionGuardError TransitionResult :=
  match checkSessionId sessionId with
  | .error e => (g, .error e)
  | .ok () =>
    match withSession g.config g.sessions sessionId now with
    | .error e => (g, .error e)
    | .ok (sessions, ctx) =>
      let (ctx', result) := applyEvent g.config ctx event now
      ({ g with sessions := sessions.insert sessionId ctx' }, .ok result)

/-- `should_deny`, with the clock readings of its two phases. -/
def shouldDeny (g : SessionGuard) (sessionId : String) (now nowAgain : Nat) :
    SessionGuard × Option String :=
  match checkSessionId sessionId with
  | .error _ => (g, some "Session ID invalid — fail-closed deny")
  | .ok () =>
    match g.sessions.lookup sessionId with
    | none => (g, none)
    | some ctx =>
      match ctx.state with
      | .locked => (g, some s!"Session '{sessionId}' is locked")
      | .ended => (g, some s!"Session '{sessionId}' has ended")
      | _ =>
        if expired g.config ctx now then
          let ended := { ctx with state := .ended, lastActionAt := nowAgain }
          ({ g with
              sessions := g.sessions.insert sessionId (ended.remember ctx.state .ended nowAgain) },
            some (s!"Session '{sessionId}' exceeded max duration " ++
              s!"({g.config.maxSessionDurationSecs} seconds)"))
        else (g, none)

end Vellaveto.Guard
