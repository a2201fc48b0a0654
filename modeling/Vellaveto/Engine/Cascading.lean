/-
  CASCADING FAILURES: circuit breaking for whole pipelines (`vellaveto-engine/src/cascading.rs`).

  Each pipeline has a sliding window of events.  An error that leaves enough events in the window, with
  an error share at the threshold or above, BREAKS the pipeline; checks are refused for
  `break_duration_secs`, and then calls are let through as probes.  The flag is reset by the first event
  after that time at which the share is below the threshold.

  A pipeline whose share STAYS at the threshold is not broken a second time: the flag is still set, and
  the start of the break is written only where it was not.  So the probes never end
  (`failing_pipeline_blocked_iff`).

  An error share is an exact rational here.  The call chains of the breaker are a table of their own,
  which none of these functions reads.
-/
import Mathlib.Data.List.AList
import Mathlib.Algebra.Order.Ring.Rat
import Vellaveto.Types.Chars
import Vellaveto.Lib.Counters
import Vellaveto.Lib.Table
import Vellaveto.Lib.Window

namespace Vellaveto.Cascading

open Vellaveto.Lib

/-- `MAX_TRACKED_PIPELINES`. -/
def maxTrackedPipelines : Nat := 10000

/-- `MAX_EVENTS_PER_PIPELINE`. -/
def maxEventsPerPipeline : Nat := 10000

/-- `MAX_PIPELINE_ID_LEN`. -/
def maxPipelineIdLen : Nat := 512

/-- `ABSOLUTE_MAX_CHAIN_DEPTH`. -/
def absoluteMaxChainDepth : Nat := 100

/-- `CascadingError`. -/
inductive CascadingError where
  | invalidConfig (message : String)
  | invalidInput (message : String)
  | chainDepthExceeded (current max : Nat)
  | pipelineBroken (pipelineId : String) (errorRate : Rat)
deriving DecidableEq

/-- `CascadingConfig`. -/
structure CascadingConfig where
  enabled : Bool
  maxChainDepth : Nat
  errorRateThreshold : Rat
  windowSecs : Nat
  minWindowEvents : Nat
  breakDurationSecs : Nat

/-- `CascadingConfig::validate`.  The text for the threshold ends with the number, which is a float
    there and left out here. -/
def CascadingConfig.validate (config : CascadingConfig) : Except CascadingError Unit := do
  if config.maxChainDepth = 0 ∨ absoluteMaxChainDepth < config.maxChainDepth then
    throw (.invalidConfig s!"max_chain_depth must be in [1, 100], got {config.maxChainDepth}")
  if config.errorRateThreshold < 0 ∨ 1 < config.errorRateThreshold then
    throw (.invalidConfig "error_rate_threshold must be in [0.0, 1.0]")
  if config.windowSecs = 0 ∨ 86400 < config.windowSecs then
    throw (.invalidConfig s!"window_secs must be in [1, 86400], got {config.windowSecs}")
  if config.breakDurationSecs = 0 ∨ 86400 < config.breakDurationSecs then
    throw (.invalidConfig s!"break_duration_secs must be in [1, 86400], got {config.breakDurationSecs}")
  if config.minWindowEvents = 0 then
    throw (.invalidConfig "min_window_events must be >= 1, got 0")
  if 100000 < config.minWindowEvents then
    throw (.invalidConfig s!"min_window_events must be <= 100000, got {config.minWindowEvents}")

/-- `PipelineEvent`. -/
structure PipelineEvent where
  timestamp : Nat
  isError : Bool
deriving DecidableEq

/-- `PipelineState`. -/
structure PipelineState where
  events : List PipelineEvent
  isBroken : Bool
  brokenAt : Option Nat
  breakCount : Nat
deriving DecidableEq

/-- `PipelineState::new`. -/
def PipelineState.new : PipelineState := ⟨[], false, none, 0⟩

/-- `CascadingBreaker`, whose configuration `new` has validated. -/
structure CascadingBreaker where
  config : CascadingConfig
  valid : config.validate = .ok ()
  pipelines : AList fun _ : String => PipelineState

/-- `CascadingBreaker::new`. -/
def CascadingBreaker.new (config : CascadingConfig) : Except CascadingError CascadingBreaker :=
  match h : config.validate with
  | .ok () => .ok ⟨config, h, ∅⟩
  | .error e => .error e

/-- `validate_pipeline_id`. -/
def validatePipelineId (pipelineId : String) : Except CascadingError Unit := do
  if pipelineId.isEmpty ∨ maxPipelineIdLen < pipelineId.utf8ByteSize then
    throw (.invalidInput
      s!"pipeline_id length {pipelineId.utf8ByteSize} out of range [1, {maxPipelineIdLen}]")
  if hasDangerousChars pipelineId then
    throw (.invalidInput "pipeline_id contains control or Unicode format characters")

/-- `u64::saturating_add`. -/
def addSecs (a b : Nat) : Nat := saturatingAdd (2 ^ 64 - 1) a b

/-! ## One pipeline -/

/-- The events of the window at a time. -/
def windowAt (config : CascadingConfig) (state : PipelineState) (now : Nat) : List PipelineEvent :=
  state.events.filter fun e => now - config.windowSecs ≤ e.timestamp

/-- `compute_error_rate_inner`. -/
def computeErrorRate (config : CascadingConfig) (state : PipelineState) (now : Nat) : Rat :=
  let total := (windowAt config state now).length
  let errors := (windowAt config state now).countP (·.isError)
  if total = 0 then 0 else (errors : Rat) / total

/-- The break has lasted its time. -/
def breakElapsed (config : CascadingConfig) (state : PipelineState) (now : Nat) : Bool :=
  match state.brokenAt with
  | some brokenAt => addSecs brokenAt config.breakDurationSecs ≤ now
  | none => false

/-- Old events leave the window, the oldest one leaves a full window, and the event comes in. -/
def pushEvent (config : CascadingConfig) (state : PipelineState) (isError : Bool) (now : Nat) :
    PipelineState :=
  { state with
    events := pushBounded maxEventsPerPipeline
      (state.events.dropWhile fun e => e.timestamp < now - config.windowSecs) ⟨now, isError⟩ }

/-- The flag of a pipeline that has recovered after its break is reset. -/
def resetIfRecovered (config : CascadingConfig) (state : PipelineState) (now : Nat) :
    PipelineState :=
  if state.isBroken ∧ breakElapsed config state now ∧
      computeErrorRate config state now < config.errorRateThreshold then
    { state with isBroken := false, brokenAt := none }
  else state

/-- What `record_pipeline_event` does to the pipeline. -/
def afterEvent (config : CascadingConfig) (state : PipelineState) (isError : Bool) (now : Nat) :
    PipelineState := resetIfRecovered config (pushEvent config state isError now) now

/-- The test of `record_pipeline_error` for a break. -/
def mustBreak (config : CascadingConfig) (state : PipelineState) (now : Nat) : Bool :=
  !state.isBroken && decide (config.minWindowEvents ≤ state.events.length) &&
    decide (config.errorRateThreshold ≤ computeErrorRate config state now)

/-- The break. -/
def broken (state : PipelineState) (now : Nat) : PipelineState :=
  { state with
    isBroken := true
    brokenAt := some now
    breakCount := saturatingAdd (2 ^ 32 - 1) state.breakCount 1 }

/-! ## The breaker -/

/-- `check_pipeline`. -/
def checkPipeline (b : CascadingBreaker) (pipelineId : String) (now : Nat) :
    Except CascadingError Unit :=
  if b.config.enabled then do
    validatePipelineId pipelineId
    match b.pipelines.lookup pipelineId with
    | none => .ok ()
    | some state =>
      if state.isBroken ∧ !breakElapsed b.config state now then
        .error (.pipelineBroken pipelineId (computeErrorRate b.config state now * 100))
      else .ok ()
  else .ok ()

/-- `record_pipeline_event`; a new pipeline is refused when the table is full. -/
def recordPipelineEvent (b : CascadingBreaker) (pipelineId : String) (isError : Bool) (now : Nat) :
    Except CascadingError Unit × CascadingBreaker :=
  if b.pipelines.lookup pipelineId = none ∧ maxTrackedPipelines ≤ b.pipelines.keys.length then
    (.error (.chainDepthExceeded b.pipelines.keys.length maxTrackedPipelines), b)
  else
    let state := (b.pipelines.lookup pipelineId).getD .new
    (.ok (), { b with
      pipelines := b.pipelines.insert pipelineId (afterEvent b.config state isError now) })

/-- `record_pipeline_success`. -/
def recordPipelineSuccess (b : CascadingBreaker) (pipelineId : String) (now : Nat) :
    Except CascadingError Unit × CascadingBreaker :=
  if b.config.enabled then
    match validatePipelineId pipelineId with
    | .error e => (.error e, b)
    | .ok () => recordPipelineEvent b pipelineId false now
  else (.ok (), b)

/-- `record_pipeline_error`.  It reads the clock twice: `now` is the time of the event, `later` that
    of the test for a break. -/
def recordPipelineError (b : CascadingBreaker) (pipelineId : String) (now later : Nat) :
    Except CascadingError Bool × CascadingBreaker :=
  if b.config.enabled then
    match validatePipelineId pipelineId with
    | .error e => (.error e, b)
    | .ok () =>
      match recordPipelineEvent b pipelineId true now with
      | (.error e, b) => (.error e, b)
      | (.ok (), b) =>
        match b.pipelines.lookup pipelineId with
        | none => (.ok false, b)
        | some state =>
          if mustBreak b.config state later then
            (.ok true, { b with pipelines := b.pipelines.insert pipelineId (broken state later) })
          else (.ok false, b)
  else (.ok false, b)

/-! ## Runs -/

/-- A call that records an event, with what it reads from the clock. -/
inductive PipelineCall where
  | success (pipelineId : String) (now : Nat)
  | error (pipelineId : String) (now later : Nat)

/-- The times that a call reads from the clock. -/
def PipelineCall.readings : PipelineCall → List Nat
  | success _ now => [now]
  | error _ now later => [now, later]

/-- The breaker after a call. -/
def apply (b : CascadingBreaker) : PipelineCall → CascadingBreaker
  | .success pipelineId now => (recordPipelineSuccess b pipelineId now).2
  | .error pipelineId now later => (recordPipelineError b pipelineId now later).2

/-- The breaker after a sequence of calls. -/
def applyAll (b : CascadingBreaker) (calls : List PipelineCall) : CascadingBreaker :=
  calls.foldl apply b

/-- The state that `or_insert_with` gives an event to. -/
def stateOf (b : CascadingBreaker) (pipelineId : String) : PipelineState :=
  (b.pipelines.lookup pipelineId).getD .new

/-- The window holds enough events, with an error share at or above the threshold. -/
def Failing (config : CascadingConfig) (state : PipelineState) (now : Nat) : Prop :=
  config.minWindowEvents ≤ (windowAt config state now).length ∧
    config.errorRateThreshold ≤ computeErrorRate config state now

instance (config : CascadingConfig) (state : PipelineState) (now : Nat) :
    Decidable (Failing config state now) := inferInstanceAs (Decidable (_ ∧ _))

/-- `record_pipeline_event` either refuses a pipeline it does not know, or gives the pipeline the event
    and leaves the others alone. -/
theorem recordPipelineEvent_cases (b : CascadingBreaker) (pipelineId : String) (isError : Bool)
    (now : Nat) :
    (∃ e, recordPipelineEvent b pipelineId isError now = (.error e, b) ∧
        b.pipelines.lookup pipelineId = none) ∨
      recordPipelineEvent b pipelineId isError now = (.ok (), { b with
        pipelines := b.pipelines.insert pipelineId
          (afterEvent b.config (stateOf b pipelineId) isError now) }) := by
  unfold recordPipelineEvent
  split
  · rename_i hfull
    exact .inl ⟨_, rfl, hfull.1⟩
  · exact .inr rfl

/-- What a recorded error leaves behind: the breaker as it was, or the pipeline with the event, broken
    at the second reading of the clock if it must be. -/
theorem recordPipelineError_cases (b : CascadingBreaker) (pipelineId : String) (now later : Nat) :
    ((recordPipelineError b pipelineId now later).2 = b ∧
        (b.config.enabled = true → validatePipelineId pipelineId = .ok () →
          b.pipelines.lookup pipelineId = none)) ∨
      (b.config.enabled = true ∧
        (recordPipelineError b pipelineId now later).2.config = b.config ∧
        ∀ other, (recordPipelineError b pipelineId now later).2.pipelines.lookup other =
          if other = pipelineId then
            let state := afterEvent b.config (stateOf b pipelineId) true now
            some (if mustBreak b.config state later then broken state later else state)
          else b.pipelines.lookup other) := by
  unfold recordPipelineError
  by_cases henabled : b.config.enabled = true
  · rw [if_pos henabled]
    cases hid : validatePipelineId pipelineId with
    | error e => exact .inl ⟨rfl, fun _ h => by cases h⟩
    | ok u =>
      rcases recordPipelineEvent_cases b pipelineId true now with ⟨e, hrec, hnone⟩ | hrec
      · rw [hrec]
        exact .inl ⟨rfl, fun _ _ => hnone⟩
      · rw [hrec]
        refine .inr ⟨henabled, ?_⟩
        dsimp only
        rw [AList.lookup_insert]
        dsimp only
        split
        · refine ⟨rfl, fun other => ?_⟩
          rw [lookup_insert_eq, lookup_insert_eq]
          split <;> rfl
        · refine ⟨rfl, fun other => ?_⟩
          rw [lookup_insert_eq]
  · rw [if_neg henabled]
    exact .inl ⟨rfl, fun h => absurd h henabled⟩

theorem recordPipelineSuccess_cases (b : CascadingBreaker) (pipelineId : String) (now : Nat) :
    (recordPipelineSuccess b pipelineId now).2 = b ∨
      (b.config.enabled = true ∧ (recordPipelineSuccess b pipelineId now).2.config = b.config ∧
        ∀ other, (recordPipelineSuccess b pipelineId now).2.pipelines.lookup other =
          if other = pipelineId then some (afterEvent b.config (stateOf b pipelineId) false now)
          else b.pipelines.lookup other) := by
  unfold recordPipelineSuccess
  by_cases henabled : b.config.enabled = true
  · rw [if_pos henabled]
    cases validatePipelineId pipelineId with
    | error e => exact .inl rfl
    | ok u =>
      rcases recordPipelineEvent_cases b pipelineId false now with ⟨e, hrec, -⟩ | hrec
      · rw [hrec]
        exact .inl rfl
      · rw [hrec]
        exact .inr ⟨henabled, rfl, fun other => lookup_insert_eq _ _ _ _⟩
  · rw [if_neg henabled]
    exact .inl rfl

theorem config_apply (b : CascadingBreaker) (call : PipelineCall) :
    (apply b call).config = b.config := by
  cases call with
  | success pipelineId now =>
    rcases recordPipelineSuccess_cases b pipelineId now with h | ⟨-, h, -⟩
    · exact congrArg CascadingBreaker.config h
    · exact h
  | error pipelineId now later =>
    rcases recordPipelineError_cases b pipelineId now later with ⟨h, -⟩ | ⟨-, h, -⟩
    · exact congrArg CascadingBreaker.config h
    · exact h

theorem config_applyAll (b : CascadingBreaker) (calls : List PipelineCall) :
    (applyAll b calls).config = b.config :=
  List.foldlRecOn (motive := fun b' => b'.config = b.config) calls apply rfl
    fun b' hb' call _ => (config_apply b' call).trans hb'

/-! ## A broken pipeline stays broken for its time -/

/-- The pipeline was broken at this time, and is. -/
def BrokenAt (b : CascadingBreaker) (pipelineId : String) (time : Nat) : Prop :=
  ∃ state, b.pipelines.lookup pipelineId = some state ∧ state.isBroken = true ∧
    state.brokenAt = some time

theorem afterEvent_of_not_elapsed {config : CascadingConfig} {state : PipelineState}
    {isError : Bool} {now : Nat} (h : breakElapsed config state now = false) :
    afterEvent config state isError now = pushEvent config state isError now := by
  have hsame : breakElapsed config (pushEvent config state isError now) now = false := h
  rw [afterEvent, resetIfRecovered, if_neg]
  rintro ⟨-, helapsed, -⟩
  rw [hsame] at helapsed
  cases helapsed

theorem not_elapsed {config : CascadingConfig} {state : PipelineState} {time now : Nat}
    (hat : state.brokenAt = some time) (hbefore : now < time + config.breakDurationSecs)
    (hfits : time + config.breakDurationSecs < 2 ^ 64) : breakElapsed config state now = false := by
  rw [breakElapsed, hat]
  show decide (addSecs time config.breakDurationSecs ≤ now) = false
  rw [decide_eq_false_iff_not, addSecs, saturatingAdd]
  omega

/-- **Step lemma.**  Until its time is over, no recorded event ends a break or moves its start. -/
theorem BrokenAt.apply {b : CascadingBreaker} {pipelineId : String} {time : Nat}
    {call : PipelineCall} (h : BrokenAt b pipelineId time)
    (hbefore : ∀ r ∈ call.readings, r < time + b.config.breakDurationSecs)
    (hfits : time + b.config.breakDurationSecs < 2 ^ 64) :
    BrokenAt (apply b call) pipelineId time := by
  obtain ⟨state, hlookup, hbroken, hat⟩ := h
  have hstate : stateOf b pipelineId = state := by rw [stateOf, hlookup]; rfl
  cases call with
  | success other now =>
    rcases recordPipelineSuccess_cases b other now with hsame | ⟨-, -, hafter⟩
    · exact ⟨state, by rw [Cascading.apply, hsame]; exact hlookup, hbroken, hat⟩
    · by_cases hid : pipelineId = other
      · subst hid
        have hopen := not_elapsed hat (hbefore now List.mem_cons_self) hfits
        rw [hstate, afterEvent_of_not_elapsed hopen] at hafter
        exact ⟨_, (hafter pipelineId).trans (if_pos rfl), hbroken, hat⟩
      · exact ⟨state, ((hafter pipelineId).trans (if_neg hid)).trans hlookup, hbroken, hat⟩
  | error other now later =>
    rcases recordPipelineError_cases b other now later with ⟨hsame, -⟩ | ⟨-, -, hafter⟩
    · exact ⟨state, by rw [Cascading.apply, hsame]; exact hlookup, hbroken, hat⟩
    · by_cases hid : pipelineId = other
      · subst hid
        have hopen := not_elapsed hat (hbefore now List.mem_cons_self) hfits
        have hkeep : mustBreak b.config (pushEvent b.config state true now) later = false := by
          have hflag : (pushEvent b.config state true now).isBroken = true := hbroken
          rw [mustBreak, hflag]
          rfl
        rw [hstate, afterEvent_of_not_elapsed hopen] at hafter
        refine ⟨_, (hafter pipelineId).trans (if_pos rfl), ?_⟩
        simp only [hkeep]
        exact ⟨hbroken, hat⟩
      · exact ⟨state, ((hafter pipelineId).trans (if_neg hid)).trans hlookup, hbroken, hat⟩

/-- **Run lemma.**  A break lasts its time, whatever is recorded meanwhile. -/
theorem BrokenAt.applyAll {b : CascadingBreaker} {pipelineId : String} {time : Nat}
    {calls : List PipelineCall} (h : BrokenAt b pipelineId time)
    (hbefore : ∀ call ∈ calls, ∀ r ∈ call.readings, r < time + b.config.breakDurationSecs)
    (hfits : time + b.config.breakDurationSecs < 2 ^ 64) :
    BrokenAt (applyAll b calls) pipelineId time := by
  refine (List.foldlRecOn (motive := fun b' => b'.config = b.config ∧ BrokenAt b' pipelineId time)
    calls Cascading.apply ⟨rfl, h⟩ ?_).2
  rintro b' ⟨hconfig, hb'⟩ call hcall
  refine ⟨(config_apply b' call).trans hconfig, hb'.apply ?_ ?_⟩
  · rw [hconfig]
    exact hbefore call hcall
  · rw [hconfig]
    exact hfits

/-! ## What a check answers -/

theorem checkPipeline_eq {b : CascadingBreaker} {pipelineId : String} {state : PipelineState}
    (now : Nat) (henabled : b.config.enabled = true)
    (hid : validatePipelineId pipelineId = .ok ())
    (hlookup : b.pipelines.lookup pipelineId = some state) :
    checkPipeline b pipelineId now =
      if state.isBroken ∧ !breakElapsed b.config state now then
        .error (.pipelineBroken pipelineId (computeErrorRate b.config state now * 100))
      else .ok () := by
  rw [checkPipeline, if_pos henabled, hid, hlookup]
  rfl

theorem valid_of_checkPipeline {b : CascadingBreaker} {pipelineId : String} {now : Nat}
    (henabled : b.config.enabled = true) (h : checkPipeline b pipelineId now = .ok ()) :
    validatePipelineId pipelineId = .ok () := by
  rw [checkPipeline, if_pos henabled] at h
  cases hid : validatePipelineId pipelineId with
  | ok u => rfl
  | error e =>
    rw [hid] at h
    cases h

/-- A breaker that is switched off records nothing. -/
theorem applyAll_of_not_enabled {b₀ : CascadingBreaker} {calls : List PipelineCall}
    (hoff : b₀.config.enabled ≠ true) : applyAll b₀ calls = b₀ := by
  refine List.foldlRecOn (motive := fun b => b = b₀) calls apply rfl ?_
  rintro b rfl call _
  cases call with
  | success pipelineId now =>
    rcases recordPipelineSuccess_cases b pipelineId now with h | ⟨h, -⟩
    · exact h
    · exact absurd h hoff
  | error pipelineId now later =>
    rcases recordPipelineError_cases b pipelineId now later with ⟨h, -⟩ | ⟨h, -⟩
    · exact h
    · exact absurd h hoff

/-- A breaker with this configuration after these calls. -/
def Reached (config : CascadingConfig) (calls : List PipelineCall) (b : CascadingBreaker) : Prop :=
  ∃ b₀, CascadingBreaker.new config = .ok b₀ ∧ applyAll b₀ calls = b

theorem new_eq_ok {config : CascadingConfig} {b₀ : CascadingBreaker}
    (h : CascadingBreaker.new config = .ok b₀) : b₀.config = config ∧ b₀.pipelines = ∅ := by
  unfold CascadingBreaker.new at h
  split at h
  · cases h
    exact ⟨rfl, rfl⟩
  · cases h

/-- A validated break lasts at least a second. -/
theorem breakDurationSecs_pos (b : CascadingBreaker) : 0 < b.config.breakDurationSecs := by
  have h := b.valid
  by_contra hzero
  have hzero : b.config.breakDurationSecs = 0 := by omega
  simp [CascadingConfig.validate, hzero, bind, Except.bind, throw, throwThe,
    MonadExceptOf.throw] at h
  grind

theorem Reached.config_eq {config : CascadingConfig} {calls : List PipelineCall}
    {b : CascadingBreaker} (h : Reached config calls b) : b.config = config := by
  obtain ⟨b₀, hnew, rfl⟩ := h
  rw [config_applyAll]
  exact (new_eq_ok hnew).1

/-- A breaker that knows a pipeline is switched on. -/
theorem Reached.enabled {config : CascadingConfig} {calls : List PipelineCall}
    {b : CascadingBreaker} (h : Reached config calls b) {pipelineId : String}
    {state : PipelineState} (hlookup : b.pipelines.lookup pipelineId = some state) :
    b.config.enabled = true := by
  obtain ⟨b₀, hnew, rfl⟩ := h
  rw [config_applyAll]
  by_contra hoff
  rw [applyAll_of_not_enabled hoff, (new_eq_ok hnew).2] at hlookup
  cases hlookup

/-! ## The error that must break the pipeline again -/

/-- What is left of a break when an error comes in: the flag is not set, or it is set, its time is over,
    and with the error the share is below the threshold. -/
def FlagReset (config : CascadingConfig) (state : PipelineState) (now : Nat) : Prop :=
  state.isBroken = false ∨
    computeErrorRate config (pushEvent config state true now) now < config.errorRateThreshold

theorem isBroken_afterEvent {config : CascadingConfig} {state : PipelineState} {now : Nat}
    (hpassed : state.isBroken = true → breakElapsed config state now = true) :
    (afterEvent config state true now).isBroken = false ↔ FlagReset config state now := by
  rw [afterEvent, resetIfRecovered]
  cases hflag : state.isBroken with
  | false =>
    have hpushed : (pushEvent config state true now).isBroken = false := hflag
    rw [if_neg (by rw [hpushed]; simp)]
    exact ⟨fun _ => .inl hflag, fun _ => hpushed⟩
  | true =>
    have hpushed : (pushEvent config state true now).isBroken = true := hflag
    have helapsed : breakElapsed config (pushEvent config state true now) now = true := hpassed hflag
    by_cases hlow : computeErrorRate config (pushEvent config state true now) now <
        config.errorRateThreshold
    · rw [if_pos ⟨hpushed, helapsed, hlow⟩]
      exact ⟨fun _ => .inr hlow, fun _ => rfl⟩
    · rw [if_neg fun h => hlow h.2.2, hpushed]
      refine ⟨fun h => (Bool.noConfusion h), ?_⟩
      rintro (h | h)
      · rw [hflag] at h
        cases h
      · exact absurd h hlow

theorem Reached.error {config : CascadingConfig} {calls : List PipelineCall} {b : CascadingBreaker}
    (h : Reached config calls b) (pipelineId : String) (now later : Nat) :
    Reached config (calls ++ [.error pipelineId now later])
      (recordPipelineError b pipelineId now later).2 := by
  obtain ⟨b₀, hnew, rfl⟩ := h
  refine ⟨b₀, hnew, ?_⟩
  rw [applyAll, List.foldl_append]
  rfl

/-- What an error at `now` makes of a pipeline, when the break is tested for at `later`. -/
def afterError (config : CascadingConfig) (state : PipelineState) (now later : Nat) : PipelineState :=
  if mustBreak config (afterEvent config state true now) later then
    broken (afterEvent config state true now) later
  else afterEvent config state true now

/-- The pipeline after an error that was recorded. -/
theorem state_of_recordPipelineError {b : CascadingBreaker} {pipelineId : String} {now later : Nat}
    {state : PipelineState} (henabled : b.config.enabled = true)
    (hid : validatePipelineId pipelineId = .ok ())
    (hstate : (recordPipelineError b pipelineId now later).2.pipelines.lookup pipelineId =
      some state) :
    state = afterError b.config (stateOf b pipelineId) now later := by
  rcases recordPipelineError_cases b pipelineId now later with ⟨hsame, hnone⟩ | ⟨-, -, hafter⟩
  · rw [hsame, hnone henabled hid] at hstate
    cases hstate
  · rw [hafter pipelineId, if_pos rfl] at hstate
    exact (Option.some.inj hstate).symm

theorem windowAt_afterError (config : CascadingConfig) (state : PipelineState) (now later : Nat) :
    windowAt config (afterError config state now later) later =
      windowAt config (afterEvent config state true now) later := by
  unfold afterError
  split <;> rfl

/-- Where the flag is not set any more, the error breaks the pipeline. -/
theorem afterError_of_flagReset {config : CascadingConfig} {state : PipelineState} {now later : Nat}
    (helapsed : state.isBroken = true → breakElapsed config state now = true)
    (hreset : FlagReset config state now)
    (hfailing : Failing config (afterError config state now later) later) :
    (afterError config state now later).isBroken = true ∧
      (afterError config state now later).brokenAt = some later := by
  have hflag := (isBroken_afterEvent helapsed).mpr hreset
  obtain ⟨henough, hshare⟩ := hfailing
  rw [computeErrorRate, windowAt_afterError] at hshare
  rw [windowAt_afterError] at henough
  have hbreak : mustBreak config (afterEvent config state true now) later = true := by
    have hlen := henough.trans (List.length_filter_le _ _)
    rw [mustBreak, hflag, decide_eq_true hlen, Bool.not_false, Bool.true_and, Bool.true_and]
    exact decide_eq_true hshare
  rw [afterError, if_pos hbreak]
  exact ⟨rfl, rfl⟩

/-- Where the flag is still set, the error changes nothing about the break. -/
theorem afterError_of_not_flagReset {config : CascadingConfig} {state : PipelineState}
    {now later : Nat} (helapsed : state.isBroken = true → breakElapsed config state now = true)
    (hreset : ¬FlagReset config state now) (hle : now ≤ later) :
    breakElapsed config (afterError config state now later) later = true := by
  have hflag : (afterEvent config state true now).isBroken = true := by
    rw [← Bool.not_eq_false]
    exact fun h => hreset ((isBroken_afterEvent helapsed).mp h)
  have hkeep : ¬mustBreak config (afterEvent config state true now) later = true := by
    rw [mustBreak, hflag]
    exact Bool.false_ne_true
  have hevent : afterEvent config state true now = pushEvent config state true now := by
    rw [afterEvent, resetIfRecovered] at hflag ⊢
    split at hflag
    · cases hflag
    · rename_i hnot
      exact if_neg hnot
  have hbefore := helapsed (by rw [← Bool.not_eq_false]; exact fun h => hreset (.inl h))
  rw [afterError, if_neg hkeep, hevent]
  show breakElapsed config state later = true
  unfold breakElapsed at hbefore ⊢
  cases hat : state.brokenAt with
  | none =>
    rw [hat] at hbefore
    cases hbefore
  | some brokenAt =>
    rw [hat] at hbefore
    exact decide_eq_true ((of_decide_eq_true hbefore).trans hle)

/-- A check that admits a pipeline found the time of an old break over. -/
theorem elapsed_of_checkPipeline {b : CascadingBreaker} {pipelineId : String} {now : Nat}
    (henabled : b.config.enabled = true) (hid : validatePipelineId pipelineId = .ok ())
    (hpassed : checkPipeline b pipelineId now = .ok ())
    (hflag : (stateOf b pipelineId).isBroken = true) :
    breakElapsed b.config (stateOf b pipelineId) now = true := by
  unfold stateOf at hflag ⊢
  cases hlookup : b.pipelines.lookup pipelineId with
  | none =>
    rw [hlookup] at hflag
    cases hflag
  | some old =>
    rw [hlookup] at hflag
    rw [checkPipeline_eq now henabled hid hlookup] at hpassed
    split at hpassed
    · cases hpassed
    · rename_i hnot
      by_contra hrunning
      exact hnot ⟨hflag, by simpa using hrunning⟩

/-- A broken pipeline is refused for the break duration, whatever is recorded meanwhile. -/
theorem refused_of_brokenAt {b : CascadingBreaker} {pipelineId : String} {later time : Nat}
    {after : List PipelineCall} (hbroken : BrokenAt b pipelineId later)
    (henabled : b.config.enabled = true) (hid : validatePipelineId pipelineId = .ok ())
    (hafter : (later :: after.flatMap PipelineCall.readings ++ [time]).Pairwise (· ≤ ·))
    (hbefore : time < later + b.config.breakDurationSecs)
    (hfits : later + b.config.breakDurationSecs < 2 ^ 64) :
    ∃ rate, checkPipeline (applyAll b after) pipelineId time =
      .error (.pipelineBroken pipelineId rate) := by
  have hreadings : ∀ call ∈ after, ∀ r ∈ call.readings, r < later + b.config.breakDurationSecs := by
    intro call hcall r hr
    have hmem : r ∈ later :: after.flatMap PipelineCall.readings :=
      List.mem_cons_of_mem _ (List.mem_flatMap.mpr ⟨call, hcall, hr⟩)
    have hle : r ≤ time := (List.pairwise_append.mp hafter).2.2 r hmem time List.mem_cons_self
    omega
  obtain ⟨state, hlookup, hflag, hat⟩ := hbroken.applyAll hreadings hfits
  have hrunning := not_elapsed hat hbefore hfits
  rw [← config_applyAll _ after] at hrunning henabled
  refine ⟨_, (checkPipeline_eq time henabled hid hlookup).trans (if_pos ⟨hflag, ?_⟩)⟩
  rw [hrunning]
  rfl

/-- **Which failing pipelines are blocked.**  The breaker is in any state it can reach, its check admits
    the pipeline, and an error leaves a window that must break it.  Then every check in the break
    duration that follows is refused, whatever else is recorded meanwhile, EXACTLY IF the flag of an
    earlier break was not set any more when the error came in (and the end of the break is a time). -/
theorem failing_pipeline_blocked_iff {config : CascadingConfig} {before : List PipelineCall}
    {b : CascadingBreaker} {pipelineId : String} {now later : Nat} {state : PipelineState}
    (hreached : Reached config before b)
    (hclock : (before.flatMap PipelineCall.readings ++ [now, later]).Pairwise (· ≤ ·))
    (hlater : later < 2 ^ 64) (hpassed : checkPipeline b pipelineId now = .ok ())
    (hstate : (recordPipelineError b pipelineId now later).2.pipelines.lookup pipelineId = some state)
    (hfailing : Failing config state later) :
    (∀ (after : List PipelineCall) (time : Nat),
      (later :: after.flatMap PipelineCall.readings ++ [time]).Pairwise (· ≤ ·) →
      time < later + config.breakDurationSecs → time < 2 ^ 64 →
      ∃ rate, checkPipeline (applyAll (recordPipelineError b pipelineId now later).2 after) pipelineId
        time = .error (.pipelineBroken pipelineId rate)) ↔
      FlagReset config (stateOf b pipelineId) now ∧ later + config.breakDurationSecs < 2 ^ 64 := by
  have hreached' := hreached.error pipelineId now later
  have hconfig' := hreached'.config_eq
  have henabled' := hreached'.enabled hstate
  obtain rfl := hreached.config_eq
  have henabled : b.config.enabled = true := by rw [← hconfig']; exact henabled'
  have hid := valid_of_checkPipeline henabled hpassed
  have hnow : now ≤ later := by
    have hpair := (List.pairwise_append.mp hclock).2.1
    exact (List.pairwise_cons.mp hpair).1 later List.mem_cons_self
  -- a check after the error reads the state that the error left
  have hcheck := fun time => checkPipeline_eq time henabled' hid hstate
  rw [hconfig'] at hcheck
  -- the check before the error admitted the pipeline, so an old break is over
  have helapsed := fun hflag => elapsed_of_checkPipeline henabled hid hpassed hflag
  have hvalue := state_of_recordPipelineError henabled hid hstate
  subst hvalue
  constructor
  · intro hblocked
    have hpos := breakDurationSecs_pos b
    have hreset : FlagReset b.config (stateOf b pipelineId) now := by
      by_contra hreset
      obtain ⟨rate, hrefused⟩ := hblocked [] later (by simp) (by omega) hlater
      have hprobe := afterError_of_not_flagReset helapsed hreset hnow
      rw [applyAll, List.foldl_nil, hcheck later, if_neg (by rw [hprobe]; simp)] at hrefused
      cases hrefused
    refine ⟨hreset, ?_⟩
    by_contra hover
    obtain ⟨hflag, hat⟩ := afterError_of_flagReset helapsed hreset hfailing
    obtain ⟨rate, hrefused⟩ :=
      hblocked [] (2 ^ 64 - 1) (by simp; omega) (by omega) (by omega)
    have hend : breakElapsed b.config (afterError b.config (stateOf b pipelineId) now later)
        (2 ^ 64 - 1) = true := by
      rw [breakElapsed, hat]
      exact decide_eq_true (Nat.min_le_right _ _)
    rw [applyAll, List.foldl_nil, hcheck, if_neg (by rw [hend]; simp)] at hrefused
    cases hrefused
  · rintro ⟨hreset, hfits⟩ after time hafter hbefore -
    obtain ⟨hflag, hat⟩ := afterError_of_flagReset helapsed hreset hfailing
    have hbroken : BrokenAt (recordPipelineError b pipelineId now later).2 pipelineId later :=
      ⟨_, hstate, hflag, hat⟩
    rw [← hconfig'] at hfits hbefore
    exact refused_of_brokenAt hbroken henabled' hid hafter hbefore hfits

/-- A pipeline is broken by two events, at a share of one half, for a minute. -/
def sampleConfig : CascadingConfig := ⟨true, 10, 1 / 2, 300, 2, 60⟩

theorem sampleConfig_valid : sampleConfig.validate = .ok () := by decide +kernel

/-- A fresh breaker. -/
def sampleBreaker : CascadingBreaker := ⟨sampleConfig, sampleConfig_valid, ∅⟩

theorem new_sampleConfig : CascadingBreaker.new sampleConfig = .ok sampleBreaker := by
  unfold CascadingBreaker.new
  split
  · rfl
  · rename_i e h
    rw [sampleConfig_valid] at h
    cases h

/-- The second error breaks the pipeline for a minute. -/
theorem failing_pipeline_blocked_iff_first_break :
    ∃ rate, checkPipeline (applyAll
      (recordPipelineError (applyAll sampleBreaker [.error "etl" 100 100]) "etl" 101 101).2
      [.success "etl" 130]) "etl" 160 = .error (.pipelineBroken "etl" rate) := by
  have hreached : Reached sampleConfig [.error "etl" 100 100]
      (applyAll sampleBreaker [.error "etl" 100 100]) := ⟨sampleBreaker, new_sampleConfig, rfl⟩
  have hstate : (recordPipelineError (applyAll sampleBreaker [.error "etl" 100 100]) "etl" 101
      101).2.pipelines.lookup "etl" =
        some ⟨[⟨100, true⟩, ⟨101, true⟩], true, some 101, 1⟩ := by decide +kernel
  have hflag : (stateOf (applyAll sampleBreaker [.error "etl" 100 100]) "etl").isBroken = false := by
    decide +kernel
  exact (failing_pipeline_blocked_iff hreached (by decide) (by decide) (by decide +kernel) hstate
    (by decide +kernel)).mpr ⟨.inl hflag, by decide⟩ [.success "etl" 130] 160 (by decide)
      (by decide) (by decide)

/-- A pipeline that keeps failing: broken at 101, probed at 161, and the error of the probe leaves three
    errors out of three in the window.  The next checks admit it all the same. -/
theorem second_break_never_starts :
    ∃ b₀, CascadingBreaker.new sampleConfig = .ok b₀ ∧
      let b := applyAll b₀ [.error "etl" 100 100, .error "etl" 101 101]
      checkPipeline b "etl" 160 = .error (.pipelineBroken "etl" 100) ∧
      checkPipeline b "etl" 161 = .ok () ∧
      (recordPipelineError b "etl" 161 161).2.pipelines.lookup "etl" =
        some ⟨[⟨100, true⟩, ⟨101, true⟩, ⟨161, true⟩], true, some 101, 1⟩ ∧
      Failing sampleConfig ⟨[⟨100, true⟩, ⟨101, true⟩, ⟨161, true⟩], true, some 101, 1⟩ 161 ∧
      checkPipeline (recordPipelineError b "etl" 161 161).2 "etl" 161 = .ok () := by
  refine ⟨sampleBreaker, new_sampleConfig, ?_⟩
  decide +kernel

end Vellaveto.Cascading
