/-
  LOCKED OUT IN HALF-OPEN (`vellaveto-engine/src/circuit_breaker.rs`).

  Nothing but an outcome moves a half-open circuit, and outcomes come from admitted calls.  A
  half-open circuit with nothing outstanding that refuses the next call refuses the tool for good.
  That no such state is reached depends on the configuration alone (`no_lockout_iff`):
  `half_open_max_requests` has to be at least two and at least `success_threshold`.

    1. In a half-open circuit the number of successes is below `success_threshold`, or it is one: a
       success that arrives late, in an open circuit whose time is over, makes the circuit half-open
       and counts as its first success, whatever the threshold.
    2. If the limit is below the threshold, each success uses up an admission and the last one that is
       admitted does not close the circuit.  If the limit is one, the late success uses it up.

  The constructor `new` sets the limit to one, so its circuits can always lock out.
-/
import Vellaveto.Engine.HalfOpen

namespace Vellaveto.CircuitBreaker

open Vellaveto.Lib

variable (ext : Externals)

/-- The tool whose entry the action computes a time for while it holds the write lock. -/
def BreakerAction.locks (s : BreakerSystem) : BreakerAction → Option String
  | .check _ _ => none
  | .upgrade caller _ => s.waiting[caller]?
  | .success call _ => s.inFlight[call]?.map Flight.tool
  | .failure _ _ => none
  | .reset tool _ => some tool

/-- The states that are reached without an overflow under the write lock. -/
inductive Reachable (m : CircuitBreakerManager) : BreakerSystem → Prop
  | start : Reachable m (.start m)
  | step {s s' : BreakerSystem} {a : BreakerAction} (hs : Reachable m s)
      (hfits : ∀ tool, a.locks s = some tool → ¬ Overflows ext s.manager tool)
      (hstep : s.step ext a = some s') : Reachable m s'

/-- Nothing is outstanding for the tool. -/
def AllRecorded (s : BreakerSystem) (tool : String) : Prop :=
  ∀ flight ∈ s.inFlight, ext.normalizeFull flight.tool ≠ ext.normalizeFull tool

/-- Every half-open circuit with nothing outstanding lets the next call through. -/
def NoLockout (m : CircuitBreakerManager) : Prop :=
  ∀ s, Reachable ext m s → ∀ tool, isHalfOpen ext s.manager tool = true →
    AllRecorded ext s tool → ∀ now nowAgain,
      canProceed ext s.manager tool now nowAgain = (s.manager, some (.ok ()))

variable {ext} {m m' : CircuitBreakerManager} {s s' : BreakerSystem} {tool : String}

/-! ### The successes of a half-open circuit -/

/-- A half-open entry has fewer successes than the threshold, or one. -/
def FewSuccesses (threshold : Nat) (stats : CircuitStats) : Prop :=
  stats.state = .halfOpen → stats.successCount < threshold ∨ stats.successCount = 1

theorem fewSuccesses_afterSuccess {stats stats' : CircuitStats} {now : Nat}
    (h : afterSuccess m stats now = some stats') (hstats : FewSuccesses m.successThreshold stats) :
    FewSuccesses m.successThreshold stats' := by
  intro hhalf
  unfold afterSuccess at h
  split at h
  · rename_i hstate
    cases h
    rw [hstate] at hhalf
    cases hhalf
  · rename_i hstate
    split at h
    · cases h
    split at h
    · cases h
      exact .inr rfl
    · cases h
      exact hstats hhalf
  · split at h
    · cases h
      cases hhalf
    · rename_i hlt
      cases h
      exact .inl (Nat.lt_of_not_le hlt)

theorem fewSuccesses_afterFailure {stats : CircuitStats} {now : Nat} {threshold : Nat} :
    FewSuccesses threshold (afterFailure m stats now) := by
  intro hhalf
  unfold afterFailure at hhalf
  split at hhalf
  · rename_i hstate
    split at hhalf
    · cases hhalf
    · rw [hstate] at hhalf
      cases hhalf
  · rename_i hstate
    rw [hstate] at hhalf
    cases hhalf
  · cases hhalf

/-- The lock is intact, the configuration that of the start, and no entry has too many successes. -/
structure Recovering (start m : CircuitBreakerManager) : Prop where
  intact : m.poisoned = false
  config : SameConfig start m
  few : ∀ key stats, m.circuits.lookup key = some stats → FewSuccesses start.successThreshold stats

theorem Recovering.setStats {start : CircuitBreakerManager} (h : Recovering start m)
    {stats : CircuitStats} (hstats : FewSuccesses start.successThreshold stats) :
    Recovering start (setStats ext m tool stats) := by
  refine ⟨h.intact, h.config.trans ⟨rfl, rfl, rfl, rfl⟩, fun key stats' hlookup => ?_⟩
  rw [CircuitBreaker.setStats, lookup_insert_eq] at hlookup
  split at hlookup
  · cases hlookup
    exact hstats
  · exact h.few key stats' hlookup

theorem Recovering.getD {start : CircuitBreakerManager} (h : Recovering start m) (ext : Externals)
    (tool : String) (now : Nat) :
    FewSuccesses start.successThreshold ((statsOf ext m tool).getD (freshStats now)) := by
  cases hstats : statsOf ext m tool with
  | none => exact fun hhalf => by cases hhalf
  | some stats => exact h.few _ stats hstats

/-! ### One step -/

section Step

variable {start : CircuitBreakerManager}

theorem Recovering.checkUpgrade (h : Recovering start m) (hpos : 0 < start.successThreshold)
    (hfits : ¬ Overflows ext m tool) (now : Clock) :
    Recovering start (checkUpgrade ext m tool now).1 := by
  rcases checkUpgrade_cases ext m tool now with ⟨heq, -⟩ | ⟨stats, due, n, -, -, -, -, -, heq⟩ |
    ⟨hover, -⟩
  · rw [heq]
    exact h
  · rw [heq]
    exact h.setStats fun _ => .inl hpos
  · exact absurd hover hfits

theorem Recovering.recordSuccess (h : Recovering start m) (hfits : ¬ Overflows ext m tool)
    (now : Clock) : Recovering start (recordSuccess ext m tool now).1 := by
  rcases recordSuccess_cases ext m tool now with heq | ⟨stats', -, -, hafter, heq⟩ | ⟨hover, -⟩
  · rw [heq]
    exact h
  · rw [heq]
    have hstats := h.getD ext tool (nowOrZero now)
    rw [← h.config.successThreshold] at hstats
    refine h.setStats ?_
    rw [← h.config.successThreshold]
    exact fewSuccesses_afterSuccess hafter hstats
  · exact absurd hover hfits

theorem Recovering.recordFailure (h : Recovering start m) (now : Clock) :
    Recovering start (recordFailure ext m tool now).1 := by
  rcases recordFailure_cases ext m tool now with ⟨-, heq⟩ | ⟨-, -, heq⟩
  · rw [heq]
    exact h
  · rw [heq]
    exact h.setStats fewSuccesses_afterFailure

theorem Recovering.reset (h : Recovering start m) (hfits : ¬ Overflows ext m tool) (now : Clock) :
    Recovering start (reset ext m tool now).1 := by
  rcases reset_cases ext m tool now with ⟨heq, -⟩ | heq | ⟨hover, -⟩
  · rw [heq]
    exact h
  · rw [heq]
    refine ⟨h.intact, h.config.trans ⟨rfl, rfl, rfl, rfl⟩, fun key stats hlookup => ?_⟩
    rw [lookup_erase_eq] at hlookup
    split at hlookup
    · cases hlookup
    · exact h.few key stats hlookup
  · exact absurd hover hfits

theorem recovering_step (h : Recovering start s.manager) (hpos : 0 < start.successThreshold)
    {a : BreakerAction} (hfits : ∀ tool, a.locks s = some tool → ¬ Overflows ext s.manager tool)
    (hstep : s.step ext a = some s') : Recovering start s'.manager := by
  cases a with
  | check tool now =>
    simp only [BreakerSystem.step] at hstep
    split at hstep
    all_goals
      cases hstep
      exact h
  | upgrade caller now =>
    simp only [BreakerSystem.step] at hstep
    split at hstep
    · cases hstep
    rename_i tool htool
    have hnext := h.checkUpgrade hpos (hfits tool htool) now
    split at hstep
    all_goals
      cases hstep
      exact hnext
  | success call now =>
    simp only [BreakerSystem.step] at hstep
    split at hstep
    · cases hstep
    rename_i flight hflight
    cases hstep
    refine h.recordSuccess (hfits flight.tool ?_) now
    rw [BreakerAction.locks, hflight]
    rfl
  | failure call now =>
    simp only [BreakerSystem.step] at hstep
    split at hstep
    · cases hstep
    cases hstep
    exact h.recordFailure now
  | reset tool now =>
    cases hstep
    exact h.reset (hfits tool rfl) now

end Step

theorem recovering_of_reachable (hstart : m.circuits = ∅) (hintact : m.poisoned = false)
    (hpos : 0 < m.successThreshold) (hs : Reachable ext m s) : Recovering m s.manager := by
  induction hs with
  | start =>
    refine ⟨hintact, SameConfig.refl m, fun key stats hlookup => ?_⟩
    rw [BreakerSystem.start, hstart] at hlookup
    cases hlookup
  | step hs hfits hstep ih => exact recovering_step ih hpos hfits hstep

/-- Enough admissions for the successes there can be. -/
theorem noLockout_of_limits (hstart : m.circuits = ∅) (hintact : m.poisoned = false)
    (hpos : 0 < m.successThreshold) (htwo : 2 ≤ m.halfOpenMaxRequests)
    (hle : m.successThreshold ≤ m.halfOpenMaxRequests) : NoLockout ext m := by
  intro s hs tool hhalf _ now nowAgain
  have hrec := recovering_of_reachable hstart hintact hpos hs
  obtain ⟨stats, hstats, hstate⟩ := isHalfOpen_iff.mp hhalf
  have hlt : stats.successCount < s.manager.halfOpenMaxRequests := by
    rw [hrec.config.halfOpenMaxRequests]
    rcases hrec.few _ stats hstats hstate with hfew | hone
    · omega
    · omega
  have hadmits : admitsHalfOpen ext s.manager tool = true := by
    rw [admitsHalfOpen_eq hstats hstate, hrec.intact, decide_eq_true hlt]
    rfl
  exact (canProceed_halfOpen now nowAgain hhalf).mpr hadmits

/-! ### The way into a lockout -/

theorem reopensAt_congr (h : SameConfig m m') (stats : CircuitStats) :
    reopensAt m' stats = reopensAt m stats := by
  rw [reopensAt, reopensAt, effectiveOpenDuration, effectiveOpenDuration, h.openDurationSecs]

theorem afterFailure_congr (h : SameConfig m m') (stats : CircuitStats) (now : Nat) :
    afterFailure m' stats now = afterFailure m stats now := by
  rw [afterFailure, afterFailure, h.failureThreshold]

theorem afterSuccess_congr (h : SameConfig m m') (stats : CircuitStats) (now : Nat) :
    afterSuccess m' stats now = afterSuccess m stats now := by
  rw [afterSuccess, afterSuccess, reopensAt_congr h, h.successThreshold]

section Way

variable {start : CircuitBreakerManager} {stats : CircuitStats} {entry : Option CircuitStats}
  {flights : List Flight}

/-- A reachable state in which only this tool has been used. -/
structure At (ext : Externals) (start : CircuitBreakerManager) (tool : String) (s : BreakerSystem)
    (entry : Option CircuitStats) (flights : List Flight) : Prop where
  reachable : Reachable ext start s
  intact : s.manager.poisoned = false
  config : SameConfig start s.manager
  found : statsOf ext s.manager tool = entry
  room : entry = none → s.manager.circuits = ∅
  idle : s.waiting = []
  flying : s.inFlight = flights

theorem At.atCapacity (h : At ext start tool s entry flights) :
    atCapacity ext s.manager tool = false := by
  rw [CircuitBreaker.atCapacity, h.found]
  cases entry with
  | none =>
    rw [h.room rfl]
    rfl
  | some stats => simp

theorem isHalfOpen_of_ne (h : statsOf ext m tool = entry)
    (hstate : ∀ stats, entry = some stats → stats.state ≠ .halfOpen) :
    isHalfOpen ext m tool = false := by
  rw [← Bool.not_eq_true, isHalfOpen_iff]
  rintro ⟨stats, hstats, hhalf⟩
  exact hstate stats (h.symm.trans hstats) hhalf

/-- A closed circuit lets everyone through. -/
theorem At.check_closed (h : At ext start tool s entry flights)
    (hclosed : ∀ stats, entry = some stats → stats.state = .closed) :
    ∃ s', At ext start tool s' entry (flights ++ [⟨tool, none⟩]) := by
  have hok : checkRead ext s.manager tool (.ok 0) = .answer (.ok ()) := by
    unfold checkRead
    rw [h.intact, h.found]
    cases entry with
    | none => rfl
    | some stats => simp [hclosed stats rfl]
  have hhalf : isHalfOpen ext s.manager tool = false := by
    refine isHalfOpen_of_ne h.found fun stats hstats => ?_
    rw [hclosed stats hstats]
    exact CircuitState.noConfusion
  have hstep : s.step ext (.check tool (.ok 0)) = some (s.admitted ext tool) := by
    simp only [BreakerSystem.step, hok]
  refine ⟨s.admitted ext tool, ?_, h.intact, h.config, h.found, h.room, h.idle, ?_⟩
  · exact h.reachable.step (fun tool' htool' => by cases htool') hstep
  · simp only [BreakerSystem.admitted, h.flying, hhalf]
    rfl

theorem At.failure (h : At ext start tool s entry flights) {call : Nat} {episode : Option Nat}
    (hcall : flights[call]? = some ⟨tool, episode⟩) :
    ∃ s', At ext start tool s'
      (some (afterFailure start (entry.getD (freshStats 0)) 0)) (flights.eraseIdx call) := by
  have hset : (recordFailure ext s.manager tool (.ok 0)).1 = setStats ext s.manager tool
      (afterFailure start (entry.getD (freshStats 0)) 0) := by
    rcases recordFailure_cases ext s.manager tool (.ok 0) with ⟨hpois | hfull, -⟩ | ⟨-, -, heq⟩
    · rw [h.intact] at hpois
      cases hpois
    · rw [h.atCapacity] at hfull
      cases hfull
    · rw [heq, h.found, afterFailure_congr h.config]
      rfl
  have hstep : s.step ext (.failure call (.ok 0)) =
      some ({ s with inFlight := s.inFlight.eraseIdx call }.moved ext tool
        (recordFailure ext s.manager tool (.ok 0)).1) := by
    simp only [BreakerSystem.step, h.flying, hcall]
  refine ⟨_, h.reachable.step (fun tool' htool' => by cases htool') hstep, ?_, ?_, ?_, ?_, h.idle, ?_⟩
  · rw [BreakerSystem.moved, hset]
    exact h.intact
  · rw [BreakerSystem.moved, hset]
    exact h.config.trans ⟨rfl, rfl, rfl, rfl⟩
  · rw [BreakerSystem.moved, hset, statsOf_setStats, if_pos rfl]
  · exact fun hnone => by cases hnone
  · rw [← h.flying]
    rfl

theorem At.success (h : At ext start tool s (some stats) flights) (call : Nat)
    {episode : Option Nat} {now : Clock} {stats' : CircuitStats}
    (hcall : flights[call]? = some ⟨tool, episode⟩)
    (hafter : afterSuccess start stats (nowOrZero now) = some stats')
    (hfits : stats.state = .open → reopensAt start stats ≠ none) :
    ∃ s', At ext start tool s' (some stats') (flights.eraseIdx call) := by
  have hset : (recordSuccess ext s.manager tool now).1 = setStats ext s.manager tool stats' := by
    unfold recordSuccess
    rw [h.intact, h.atCapacity, h.found]
    simp only [Option.getD_some, afterSuccess_congr h.config, hafter]
    rfl
  have hstep : s.step ext (.success call now) =
      some ({ s with inFlight := s.inFlight.eraseIdx call }.moved ext tool
        (recordSuccess ext s.manager tool now).1) := by
    simp only [BreakerSystem.step, h.flying, hcall]
  have hlocks : ∀ tool', (BreakerAction.success call now).locks s = some tool' →
      ¬ Overflows ext s.manager tool' := by
    rw [BreakerAction.locks, h.flying, hcall]
    rintro tool' htool' ⟨stats'', hstats'', hopen, hdue⟩
    cases htool'
    cases h.found.symm.trans hstats''
    rw [reopensAt_congr h.config] at hdue
    exact hfits hopen hdue
  refine ⟨_, h.reachable.step hlocks hstep, ?_, ?_, ?_, ?_, h.idle, ?_⟩
  · rw [BreakerSystem.moved, hset]
    exact h.intact
  · rw [BreakerSystem.moved, hset]
    exact h.config.trans ⟨rfl, rfl, rfl, rfl⟩
  · rw [BreakerSystem.moved, hset, statsOf_setStats, if_pos rfl]
  · exact fun hnone => by cases hnone
  · rw [← h.flying]
    rfl

/-- An open circuit whose time is over becomes half-open and lets the caller through. -/
theorem At.upgrade (h : At ext start tool s (some stats) []) (hopen : stats.state = .open)
    {now : UInt64} {due : Nat} (hdue : reopensAt start stats = some due) (hnow : due ≤ now.toNat)
    (hpos : 0 < start.halfOpenMaxRequests) :
    ∃ s' episode, At ext start tool s' (some (halfOpened stats now.toNat))
      [⟨tool, some episode⟩] := by
  rw [← reopensAt_congr h.config] at hdue
  have hread : checkRead ext s.manager tool (.ok now) = .upgrade := by
    unfold checkRead
    rw [h.intact, h.found]
    simp [hopen, hdue, hnow]
  have hwait : s.step ext (.check tool (.ok now)) = some { s with waiting := [tool] } := by
    simp only [BreakerSystem.step, hread, h.idle]
    rfl
  have hwrite : checkUpgrade ext s.manager tool (.ok now) =
      (setStats ext s.manager tool (halfOpened stats now.toNat), some (.ok ())) := by
    have hlt : 0 < s.manager.halfOpenMaxRequests := by
      rw [h.config.halfOpenMaxRequests]
      exact hpos
    unfold checkUpgrade
    rw [h.intact, h.found]
    simp [hopen, hdue, hnow, halfOpenVerdict, halfOpened, hlt]
  have hstep : BreakerSystem.step ext { s with waiting := [tool] } (.upgrade 0 (.ok now)) =
      some (({ s with waiting := [] }.moved ext tool
        (setStats ext s.manager tool (halfOpened stats now.toNat))).admitted ext tool) := by
    simp [BreakerSystem.step, hwrite]
  have hlocks : ∀ tool', (BreakerAction.upgrade 0 (.ok now)).locks { s with waiting := [tool] }
      = some tool' → ¬ Overflows ext s.manager tool' := by
    rintro tool' htool' ⟨stats', hstats', -, hnone⟩
    cases htool'
    cases h.found.symm.trans hstats'
    rw [hdue] at hnone
    cases hnone
  have hhalf : isHalfOpen ext (setStats ext s.manager tool (halfOpened stats now.toNat)) tool
      = true := by
    rw [isHalfOpen, statsOf_setStats, if_pos rfl]
    rfl
  have hreach := (h.reachable.step (fun tool' htool' => by cases htool') hwait).step hlocks hstep
  refine ⟨_, ({ s with waiting := [] }.moved ext tool
    (setStats ext s.manager tool (halfOpened stats now.toNat))).episodes (ext.normalizeFull tool),
    hreach, h.intact, h.config.trans ⟨rfl, rfl, rfl, rfl⟩, ?_, ?_, rfl, ?_⟩
  · exact (statsOf_setStats _ _).trans (if_pos rfl)
  · exact fun hnone => by cases hnone
  · simp only [BreakerSystem.admitted, BreakerSystem.moved, h.flying, hhalf]
    rfl

/-- A half-open circuit with admissions left lets the caller through. -/
theorem At.check_halfOpen (h : At ext start tool s (some stats) []) (hhalf : stats.state = .halfOpen)
    (hlt : stats.successCount < start.halfOpenMaxRequests) :
    ∃ s' episode, At ext start tool s' (some stats) [⟨tool, some episode⟩] := by
  have hopen : isHalfOpen ext s.manager tool = true := isHalfOpen_iff.mpr ⟨stats, h.found, hhalf⟩
  have hok : checkRead ext s.manager tool (.ok 0) = .answer (.ok ()) := by
    rw [checkRead_halfOpen hopen, admitsHalfOpen_eq h.found hhalf, h.intact,
      h.config.halfOpenMaxRequests, decide_eq_true hlt]
    rfl
  have hstep : s.step ext (.check tool (.ok 0)) = some (s.admitted ext tool) := by
    simp only [BreakerSystem.step, hok]
  refine ⟨s.admitted ext tool, s.episodes (ext.normalizeFull tool), ?_, h.intact, h.config, h.found,
    h.room, h.idle, ?_⟩
  · exact h.reachable.step (fun tool' htool' => by cases htool') hstep
  · simp only [BreakerSystem.admitted, h.flying, hopen]
    rfl

/-- A closed entry, or none yet, with so many failures at time zero. -/
def ClosedWith (entry : Option CircuitStats) (failures : Nat) : Prop :=
  (entry.getD (freshStats 0)).state = .closed ∧
    (entry.getD (freshStats 0)).failureCount = failures ∧
    (entry.getD (freshStats 0)).tripCount = 0

/-- One more admitted call that fails. -/
theorem At.fail_once {failures : Nat} (h : At ext start tool s entry flights)
    (hentry : ClosedWith entry failures) :
    ∃ s', At ext start tool s' (some (afterFailure start (entry.getD (freshStats 0)) 0)) flights := by
  obtain ⟨s1, h1⟩ := h.check_closed fun stats hstats => by
    have hstate := hentry.1
    rw [hstats, Option.getD_some] at hstate
    exact hstate
  have hcall : (flights ++ [(⟨tool, none⟩ : Flight)])[flights.length]? = some ⟨tool, none⟩ := by simp
  have hflights : (flights ++ [(⟨tool, none⟩ : Flight)]).eraseIdx flights.length = flights := by
    rw [List.eraseIdx_append_of_length_le (Nat.le_refl _)]
    simp
  obtain ⟨s2, h2⟩ := h1.failure hcall
  rw [hflights] at h2
  exact ⟨s2, h2⟩

/-- The failures that are missing can be had, one admitted call after the other. -/
theorem At.fail_until_open (failures missing : Nat) (h : At ext start tool s entry flights)
    (hentry : ClosedWith entry failures) (hsum : failures + missing + 1 = start.failureThreshold)
    (hlt : start.failureThreshold < 2 ^ 32) :
    ∃ s' stats, At ext start tool s' (some stats) flights ∧ stats.state = .open ∧
      stats.lastStateChange = 0 ∧ stats.tripCount = 0 := by
  induction missing generalizing s entry failures with
  | zero =>
    obtain ⟨s', h'⟩ := h.fail_once hentry
    obtain ⟨hstate, hcount, htrip⟩ := hentry
    have hopens : start.failureThreshold
        ≤ saturatingSucc (entry.getD (freshStats 0)).failureCount := by
      rw [saturatingSucc, saturatingAdd, hcount]
      omega
    refine ⟨s', _, h', ?_, ?_, ?_⟩
    all_goals
      unfold afterFailure
      simp [hstate, hopens, htrip]
  | succ missing ih =>
    obtain ⟨s', h'⟩ := h.fail_once hentry
    obtain ⟨hstate, hcount, htrip⟩ := hentry
    have hsucc : saturatingSucc (entry.getD (freshStats 0)).failureCount = failures + 1 := by
      rw [saturatingSucc, saturatingAdd, hcount]
      omega
    have hstays : ¬ start.failureThreshold ≤ failures + 1 := by omega
    refine ih (failures + 1) h' ⟨?_, ?_, ?_⟩ (by omega)
    all_goals
      rw [Option.getD_some]
      unfold afterFailure
      simp [hstate, hsucc, hstays, htrip]

/-- At the end of its first open time the circuit may be tried again. -/
theorem reopensAt_first (hduration : start.openDurationSecs < 2 ^ 64)
    (hsince : stats.lastStateChange = 0) (htrip : stats.tripCount = 0) :
    reopensAt start stats = some start.openDurationSecs := by
  have heff : effectiveOpenDuration start stats = start.openDurationSecs := by
    rw [effectiveOpenDuration, htrip]
    simp only [Nat.zero_min, Nat.pow_zero, Nat.mul_one]
    omega
  rw [reopensAt, hsince, heff, Nat.zero_add, if_pos hduration]

/-- With a limit of one, a success that comes late uses it up. -/
theorem lockout_of_late_success {now : UInt64} (h : At ext start tool s none [])
    (hnow : start.openDurationSecs = now.toNat) (hthreshold : 0 < start.failureThreshold)
    (hlt : start.failureThreshold < 2 ^ 32) :
    ∃ s' stats, At ext start tool s' (some stats) [] ∧ stats.state = .halfOpen ∧
      stats.successCount = 1 := by
  obtain ⟨s1, h1⟩ := h.check_closed fun stats hstats => by cases hstats
  obtain ⟨s2, stats, h2, hopen, hsince, htrip⟩ :=
    h1.fail_until_open 0 (start.failureThreshold - 1) ⟨rfl, rfl, rfl⟩
      (by omega) hlt
  have hdue : reopensAt start stats = some start.openDurationSecs := by
    refine reopensAt_first ?_ hsince htrip
    rw [hnow]
    exact now.toNat_lt
  have hafter : afterSuccess start stats (nowOrZero (.ok now)) =
      some { stats with state := .halfOpen, successCount := 1, lastStateChange := now.toNat } := by
    unfold afterSuccess
    simp only [hopen, hdue, nowOrZero, hnow, Nat.le_refl, if_true]
  obtain ⟨s3, h3⟩ := h2.success 0 rfl hafter fun _ => by
    rw [hdue]
    exact Option.some_ne_none _
  exact ⟨s3, _, h3, rfl, rfl⟩

/-- With a limit below the threshold, any number of successes up to the limit can be had without
    closing the circuit. -/
theorem successes_up_to_limit {now : UInt64} (h : At ext start tool s none [])
    (hnow : start.openDurationSecs = now.toNat) (hthreshold : 0 < start.failureThreshold)
    (hlt : start.failureThreshold < 2 ^ 32) (hpos : 0 < start.halfOpenMaxRequests)
    (hlimit : start.halfOpenMaxRequests < start.successThreshold)
    (hlt' : start.successThreshold < 2 ^ 32) (successes : Nat)
    (hle : successes + 1 ≤ start.halfOpenMaxRequests) :
    ∃ s' stats, At ext start tool s' (some stats) [] ∧ stats.state = .halfOpen ∧
      stats.successCount = successes + 1 := by
  -- a success that is not the last one is counted
  have hcounted : ∀ s1 stats episode, At ext start tool s1 (some stats) [⟨tool, some episode⟩] →
      stats.state = .halfOpen → stats.successCount + 1 < start.successThreshold →
      ∃ s2, At ext start tool s2
        (some { stats with successCount := stats.successCount + 1 }) [] := by
    intro s1 stats episode h1 hhalf hmore
    have hsucc : saturatingSucc stats.successCount = stats.successCount + 1 := by
      rw [saturatingSucc, saturatingAdd]
      omega
    have hafter : afterSuccess start stats (nowOrZero (.ok now)) =
        some { stats with successCount := stats.successCount + 1 } := by
      unfold afterSuccess
      simp only [hhalf, hsucc, if_neg (Nat.not_le_of_lt hmore)]
    exact h1.success 0 rfl hafter fun hopen => by
      rw [hhalf] at hopen
      cases hopen
  induction successes with
  | zero =>
    obtain ⟨s2, stats, h2, hopen, hsince, htrip⟩ :=
      h.fail_until_open 0 (start.failureThreshold - 1) ⟨rfl, rfl, rfl⟩
        (by omega) hlt
    have hdue : reopensAt start stats = some start.openDurationSecs := by
      refine reopensAt_first ?_ hsince htrip
      rw [hnow]
      exact now.toNat_lt
    obtain ⟨s3, episode, h3⟩ := h2.upgrade hopen hdue (Nat.le_of_eq hnow) hpos
    obtain ⟨s4, h4⟩ := hcounted s3 _ episode h3 rfl (by simp only [halfOpened]; omega)
    exact ⟨s4, _, h4, rfl, rfl⟩
  | succ successes ih =>
    obtain ⟨s2, stats, h2, hhalf, hsuccesses⟩ := ih (by omega)
    obtain ⟨s3, episode, h3⟩ := h2.check_halfOpen hhalf (by omega)
    obtain ⟨s4, h4⟩ := hcounted s3 stats episode h3 hhalf (by omega)
    refine ⟨s4, _, h4, hhalf, ?_⟩
    rw [hsuccesses]

/-- A half-open circuit without admissions left and with nothing outstanding is a lockout. -/
theorem At.lockout (h : At ext start tool s (some stats) []) (hhalf : stats.state = .halfOpen)
    (hle : start.halfOpenMaxRequests ≤ stats.successCount) : ¬ NoLockout ext start := by
  intro hno
  have hopen : isHalfOpen ext s.manager tool = true := isHalfOpen_iff.mpr ⟨stats, h.found, hhalf⟩
  have hrecorded : AllRecorded ext s tool := by
    intro flight hflight
    rw [h.flying] at hflight
    cases hflight
  have hok := hno s h.reachable tool hopen hrecorded (.ok 0) (.ok 0)
  have hadmits := (canProceed_halfOpen (.ok 0) (.ok 0) hopen).mp hok
  rw [admitsHalfOpen_eq h.found hhalf, h.config.halfOpenMaxRequests,
    decide_eq_false (Nat.not_lt_of_le hle), Bool.and_false] at hadmits
  cases hadmits

end Way

theorem at_start (ext : Externals) (tool : String) (hstart : m.circuits = ∅)
    (hintact : m.poisoned = false) : At ext m tool (.start m) none [] where
  reachable := .start
  intact := hintact
  config := SameConfig.refl m
  found := by
    rw [statsOf, BreakerSystem.start, hstart]
    rfl
  room := fun _ => hstart
  idle := rfl
  flying := rfl

/-- **Lockout.**  Whatever the configuration, no half-open circuit with nothing outstanding refuses the
    next call, in any state reached without an overflow, exactly when the limit of half-open requests is
    at least two and at least the number of successes that close the circuit. -/
theorem no_lockout_iff (ext : Externals) (failureThreshold successThreshold : UInt32)
    (openDurationSecs : UInt64) (halfOpenMaxRequests : UInt32) :
    NoLockout ext (withConfig failureThreshold successThreshold openDurationSecs
      halfOpenMaxRequests) ↔
    2 ≤ halfOpenMaxRequests.toNat ∧ successThreshold.toNat ≤ halfOpenMaxRequests.toNat := by
  have hstart := at_start ext "t" (m := withConfig failureThreshold successThreshold
    openDurationSecs halfOpenMaxRequests) rfl rfl
  have hft : max failureThreshold.toNat 1 < 2 ^ 32 := by
    have := failureThreshold.toNat_lt
    omega
  have hst : max successThreshold.toNat 1 < 2 ^ 32 := by
    have := successThreshold.toNat_lt
    omega
  constructor
  · intro hno
    by_contra hlimits
    by_cases hone : max halfOpenMaxRequests.toNat 1 = 1
    · obtain ⟨s, stats, hs, hhalf, hcount⟩ :=
        lockout_of_late_success hstart rfl (Nat.le_max_right _ _) hft
      refine hs.lockout hhalf ?_ hno
      rw [hcount]
      exact Nat.le_of_eq hone
    · have hlt : max halfOpenMaxRequests.toNat 1 < max successThreshold.toNat 1 := by omega
      obtain ⟨s, stats, hs, hhalf, hcount⟩ :=
        successes_up_to_limit hstart rfl (Nat.le_max_right _ _) hft (Nat.le_max_right _ _) hlt hst
          (max halfOpenMaxRequests.toNat 1 - 1) (show _ ≤ max halfOpenMaxRequests.toNat 1 by omega)
      refine hs.lockout hhalf ?_ hno
      rw [hcount]
      show max halfOpenMaxRequests.toNat 1 ≤ _
      omega
  · rintro ⟨htwo, hle⟩
    refine noLockout_of_limits rfl rfl (Nat.le_max_right _ _) ?_ ?_
    · show 2 ≤ max halfOpenMaxRequests.toNat 1
      omega
    · show max successThreshold.toNat 1 ≤ max halfOpenMaxRequests.toNat 1
      omega

/-- The default configuration: five failures, three successes, thirty seconds, one request.  After its
    first success in half-open the tool is refused, and there is nobody left to report another one. -/
theorem default_config_locks_out :
    ∃ s ∈ run (BreakerSystem.step plainExternals) (.start (withConfig 5 3 30 1))
        [.check "sh" (.ok 1000), .failure 0 (.ok 1000), .check "sh" (.ok 1001),
          .failure 0 (.ok 1001), .check "sh" (.ok 1002), .failure 0 (.ok 1002),
          .check "sh" (.ok 1003), .failure 0 (.ok 1003), .check "sh" (.ok 1004),
          .failure 0 (.ok 1004), .check "sh" (.ok 1034), .upgrade 0 (.ok 1034),
          .success 0 (.ok 1035)],
      isHalfOpen plainExternals s.manager "sh" = true ∧ s.inFlight = [] ∧
        (canProceed plainExternals s.manager "sh" (.ok 1036) (.ok 1036)).2
          = some (.error (testingRecovery "sh")) := by
  decide +kernel

end Vellaveto.CircuitBreaker
