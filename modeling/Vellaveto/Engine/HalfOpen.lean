/-
  CALLS THROUGH A HALF-OPEN CIRCUIT (`vellaveto-engine/src/circuit_breaker.rs`).

  A half-open circuit compares `half_open_max_requests` with its number of SUCCESSES, not with the
  number of calls it has let through.  So the calls of one half-open episode whose outcome is still open
  are bounded by `half_open_max_requests` exactly as long as nobody asks while that many are outstanding
  (`outstanding_bounded_iff`); the code itself does not bound them (`two_outstanding_at_limit_one`).

  A run is any interleaving of the calls on any tools, the two halves of `can_proceed` as steps of their
  own.  The calls in flight and the episodes are ghosts beside the manager: an outcome is recorded for a
  call in flight only, and each call in flight knows the episode it was admitted in.
-/
import Vellaveto.Engine.CircuitBreaker
import Vellaveto.Lib.Run

namespace Vellaveto.CircuitBreaker

open Vellaveto.Lib

/-- An admitted call without outcome, and the half-open episode it was admitted in, if any. -/
structure Flight where
  tool : String
  episode : Option Nat
  deriving DecidableEq

/-- The manager with its callers. -/
structure BreakerSystem where
  manager : CircuitBreakerManager
  /-- Callers between the two halves of `can_proceed`. -/
  waiting : List String
  inFlight : List Flight
  /-- How often the circuit of a normalized name has become half-open. -/
  episodes : String → Nat

inductive BreakerAction where
  | check (tool : String) (now : Clock)
  | upgrade (caller : Nat) (now : Clock)
  | success (call : Nat) (now : Clock)
  | failure (call : Nat) (now : Clock)
  | reset (tool : String) (now : Clock)

variable (ext : Externals)

def isHalfOpen (m : CircuitBreakerManager) (tool : String) : Bool :=
  (statsOf ext m tool).any fun stats => stats.state = .halfOpen

/-- The manager after an operation on the tool; a new episode is counted. -/
def BreakerSystem.moved (s : BreakerSystem) (tool : String) (m' : CircuitBreakerManager) :
    BreakerSystem :=
  { s with
    manager := m'
    episodes :=
      if isHalfOpen ext m' tool && !isHalfOpen ext s.manager tool then
        Function.update s.episodes (ext.normalizeFull tool)
          (s.episodes (ext.normalizeFull tool) + 1)
      else s.episodes }

/-- A call on the tool is let through. -/
def BreakerSystem.admitted (s : BreakerSystem) (tool : String) : BreakerSystem :=
  { s with
    inFlight := s.inFlight ++ [{
      tool := tool
      episode :=
        if isHalfOpen ext s.manager tool then some (s.episodes (ext.normalizeFull tool))
        else none }] }

def BreakerSystem.step (s : BreakerSystem) : BreakerAction → Option BreakerSystem
  | .check tool now =>
    match checkRead ext s.manager tool now with
    | .answer (.ok ()) => some (s.admitted ext tool)
    | .answer (.error _) => some s
    | .panicked => some s
    | .upgrade => some { s with waiting := s.waiting ++ [tool] }
  | .upgrade caller now =>
    match s.waiting[caller]? with
    | none => none
    | some tool =>
      let (m', answer) := checkUpgrade ext s.manager tool now
      let s' := { s with waiting := s.waiting.eraseIdx caller }.moved ext tool m'
      if answer = some (.ok ()) then some (s'.admitted ext tool) else some s'
  | .success call now =>
    match s.inFlight[call]? with
    | none => none
    | some flight =>
      some ({ s with inFlight := s.inFlight.eraseIdx call }.moved ext flight.tool
        (recordSuccess ext s.manager flight.tool now).1)
  | .failure call now =>
    match s.inFlight[call]? with
    | none => none
    | some flight =>
      some ({ s with inFlight := s.inFlight.eraseIdx call }.moved ext flight.tool
        (recordFailure ext s.manager flight.tool now).1)
  | .reset tool now => some (s.moved ext tool (reset ext s.manager tool now).1)

def BreakerSystem.start (m : CircuitBreakerManager) : BreakerSystem where
  manager := m
  waiting := []
  inFlight := []
  episodes := fun _ => 0

/-- The calls on the tool admitted in an episode whose outcome is not recorded yet. -/
def outstanding (s : BreakerSystem) (tool : String) (episode : Nat) : Nat :=
  s.inFlight.countP fun flight =>
    ext.normalizeFull flight.tool = ext.normalizeFull tool ∧ flight.episode = some episode

/-- No episode has more calls outstanding than `half_open_max_requests`. -/
def AdmissionBound (s : BreakerSystem) : Prop :=
  ∀ tool episode, outstanding ext s tool episode ≤ s.manager.halfOpenMaxRequests

/-- The tool that the action asks about. -/
def BreakerAction.asks (s : BreakerSystem) : BreakerAction → Option String
  | .check tool _ => some tool
  | .upgrade caller _ => s.waiting[caller]?
  | _ => none

/-- A half-open circuit that lets the next call through. -/
def admitsHalfOpen (m : CircuitBreakerManager) (tool : String) : Bool :=
  !m.poisoned && (statsOf ext m tool).any fun stats =>
    stats.state = .halfOpen && stats.successCount < m.halfOpenMaxRequests

/-- Nobody asks a half-open circuit that would let him through while as many calls as it may have are
    outstanding. -/
def AsksInTime (s : BreakerSystem) (a : BreakerAction) : Prop :=
  ∀ tool, a.asks s = some tool → admitsHalfOpen ext s.manager tool = true →
    outstanding ext s tool (s.episodes (ext.normalizeFull tool)) < s.manager.halfOpenMaxRequests

variable {ext} {m m' : CircuitBreakerManager} {s s' : BreakerSystem} {tool : String}

/-! ### Letting a call through -/

theorem isHalfOpen_iff : isHalfOpen ext m tool = true ↔
    ∃ stats, statsOf ext m tool = some stats ∧ stats.state = .halfOpen := by
  rw [isHalfOpen, Option.any_eq_true]
  simp only [decide_eq_true_eq]

theorem admitsHalfOpen_eq {stats : CircuitStats} (hstats : statsOf ext m tool = some stats)
    (hstate : stats.state = .halfOpen) :
    admitsHalfOpen ext m tool =
      (!m.poisoned && decide (stats.successCount < m.halfOpenMaxRequests)) := by
  rw [admitsHalfOpen, hstats, Option.any_some, decide_eq_true hstate, Bool.true_and]

theorem isHalfOpen_of_admits (h : admitsHalfOpen ext m tool = true) :
    isHalfOpen ext m tool = true := by
  rw [admitsHalfOpen, Bool.and_eq_true, Option.any_eq_true] at h
  obtain ⟨-, stats, hstats, hadmits⟩ := h
  rw [Bool.and_eq_true, decide_eq_true_eq] at hadmits
  exact isHalfOpen_iff.mpr ⟨stats, hstats, hadmits.1⟩

/-- Under the read lock a half-open circuit answers by its successes. -/
theorem checkRead_halfOpen {now : Clock} (h : isHalfOpen ext m tool = true) :
    checkRead ext m tool now = .answer (.ok ()) ↔ admitsHalfOpen ext m tool = true := by
  obtain ⟨stats, hstats, hstate⟩ := isHalfOpen_iff.mp h
  rw [admitsHalfOpen_eq hstats hstate]
  unfold checkRead
  cases m.poisoned with
  | true => simp
  | false => simp [hstats, hstate, halfOpenVerdict]

/-- … and so it does under the write lock. -/
theorem checkUpgrade_halfOpen (now : Clock) (h : isHalfOpen ext m tool = true) :
    (checkUpgrade ext m tool now).1 = m ∧
      ((checkUpgrade ext m tool now).2 = some (.ok ()) ↔ admitsHalfOpen ext m tool = true) := by
  obtain ⟨stats, hstats, hstate⟩ := isHalfOpen_iff.mp h
  rw [admitsHalfOpen_eq hstats hstate]
  unfold checkUpgrade
  cases m.poisoned with
  | true => simp
  | false => simp [hstats, hstate, halfOpenVerdict]

theorem canProceed_halfOpen (now nowAgain : Clock) (h : isHalfOpen ext m tool = true) :
    canProceed ext m tool now nowAgain = (m, some (.ok ())) ↔ admitsHalfOpen ext m tool = true := by
  obtain ⟨stats, hstats, hstate⟩ := isHalfOpen_iff.mp h
  rw [admitsHalfOpen_eq hstats hstate]
  unfold canProceed checkRead
  cases m.poisoned with
  | true => simp
  | false => simp [hstats, hstate, halfOpenVerdict]

/-! ### Counting the calls in flight -/

@[simp] theorem outstanding_moved (tool' : String) (episode : Nat) :
    outstanding ext (s.moved ext tool m') tool' episode = outstanding ext s tool' episode := rfl

theorem outstanding_admitted (tool' : String) (episode : Nat) :
    outstanding ext (s.admitted ext tool) tool' episode =
      outstanding ext s tool' episode +
        if ext.normalizeFull tool = ext.normalizeFull tool' ∧ isHalfOpen ext s.manager tool = true ∧
          s.episodes (ext.normalizeFull tool) = episode then 1 else 0 := by
  have hflight : ∀ flight : Flight, [flight].countP (fun flight =>
      decide (ext.normalizeFull flight.tool = ext.normalizeFull tool' ∧
        flight.episode = some episode)) =
      if ext.normalizeFull flight.tool = ext.normalizeFull tool' ∧ flight.episode = some episode
      then 1 else 0 := by
    intro flight
    rw [List.countP_singleton]
    simp only [decide_eq_true_eq]
  rw [outstanding, outstanding, BreakerSystem.admitted, List.countP_append, hflight]
  cases hhalf : isHalfOpen ext s.manager tool with
  | true => simp
  | false => simp

/-- A call that is let through keeps the bound unless the circuit is half-open and its bound is
    reached. -/
theorem admissionBound_admitted (hs : AdmissionBound ext s) :
    AdmissionBound ext (s.admitted ext tool) ↔ (isHalfOpen ext s.manager tool = true →
      outstanding ext s tool (s.episodes (ext.normalizeFull tool))
        < s.manager.halfOpenMaxRequests) := by
  constructor
  · intro h hhalf
    have hle := h tool (s.episodes (ext.normalizeFull tool))
    rw [outstanding_admitted, if_pos ⟨rfl, hhalf, rfl⟩] at hle
    exact hle
  · intro h tool' episode
    rw [outstanding_admitted]
    split
    · rename_i hnew
      obtain ⟨hsame, hhalf, rfl⟩ := hnew
      have hlt := h hhalf
      have hout : outstanding ext s tool' (s.episodes (ext.normalizeFull tool)) =
          outstanding ext s tool (s.episodes (ext.normalizeFull tool)) := by
        rw [outstanding, outstanding, hsame]
      rw [hout]
      exact hlt
    · exact hs tool' episode

/-- Fewer calls in flight, under the same limit. -/
theorem admissionBound_of_sublist (hs : AdmissionBound ext s)
    (hflights : s'.inFlight.Sublist s.inFlight)
    (hmax : s'.manager.halfOpenMaxRequests = s.manager.halfOpenMaxRequests) :
    AdmissionBound ext s' := by
  intro tool episode
  rw [hmax]
  exact Nat.le_trans (hflights.countP_le) (hs tool episode)

/-! ### The configuration -/

/-- The configuration is never changed. -/
structure SameConfig (m m' : CircuitBreakerManager) : Prop where
  failureThreshold : m'.failureThreshold = m.failureThreshold
  successThreshold : m'.successThreshold = m.successThreshold
  openDurationSecs : m'.openDurationSecs = m.openDurationSecs
  halfOpenMaxRequests : m'.halfOpenMaxRequests = m.halfOpenMaxRequests

theorem SameConfig.refl (m : CircuitBreakerManager) : SameConfig m m := ⟨rfl, rfl, rfl, rfl⟩

theorem SameConfig.trans {m1 m2 m3 : CircuitBreakerManager} (h : SameConfig m1 m2)
    (h' : SameConfig m2 m3) : SameConfig m1 m3 where
  failureThreshold := h'.failureThreshold.trans h.failureThreshold
  successThreshold := h'.successThreshold.trans h.successThreshold
  openDurationSecs := h'.openDurationSecs.trans h.openDurationSecs
  halfOpenMaxRequests := h'.halfOpenMaxRequests.trans h.halfOpenMaxRequests

theorem sameConfig_checkUpgrade (now : Clock) :
    SameConfig m (checkUpgrade ext m tool now).1 := by
  rcases checkUpgrade_cases ext m tool now with ⟨h, -⟩ | ⟨_, _, _, -, -, -, -, -, h⟩ | ⟨-, h⟩
  all_goals
    rw [h]
    exact ⟨rfl, rfl, rfl, rfl⟩

theorem sameConfig_recordSuccess (now : Clock) :
    SameConfig m (recordSuccess ext m tool now).1 := by
  rcases recordSuccess_cases ext m tool now with h | ⟨_, -, -, -, h⟩ | ⟨-, h⟩
  all_goals
    rw [h]
    exact ⟨rfl, rfl, rfl, rfl⟩

theorem sameConfig_recordFailure (now : Clock) :
    SameConfig m (recordFailure ext m tool now).1 := by
  rcases recordFailure_cases ext m tool now with ⟨-, h⟩ | ⟨-, -, h⟩
  all_goals
    rw [h]
    exact ⟨rfl, rfl, rfl, rfl⟩

theorem sameConfig_reset (now : Clock) : SameConfig m (reset ext m tool now).1 := by
  rcases reset_cases ext m tool now with ⟨h, -⟩ | h | ⟨-, h⟩
  all_goals
    rw [h]
    exact ⟨rfl, rfl, rfl, rfl⟩

/-! ### The episodes -/

/-- The limit is positive, and every call in flight is of an episode that has begun. -/
structure EpisodesKnown (ext : Externals) (s : BreakerSystem) : Prop where
  positive : 1 ≤ s.manager.halfOpenMaxRequests
  begun : ∀ flight ∈ s.inFlight, ∀ episode, flight.episode = some episode →
    episode ≤ s.episodes (ext.normalizeFull flight.tool)

theorem episodes_le_moved (key : String) :
    s.episodes key ≤ (s.moved ext tool m').episodes key := by
  unfold BreakerSystem.moved
  simp only
  split
  · rw [Function.update_apply]
    split
    · rename_i hkey
      rw [hkey]
      exact Nat.le_succ _
    · exact Nat.le_refl _
  · exact Nat.le_refl _

theorem EpisodesKnown.moved (h : EpisodesKnown ext s) (hconfig : SameConfig s.manager m') :
    EpisodesKnown ext (s.moved ext tool m') := by
  refine ⟨?_, fun flight hflight episode hepisode => ?_⟩
  · rw [BreakerSystem.moved, hconfig.halfOpenMaxRequests]
    exact h.positive
  · exact Nat.le_trans (h.begun flight hflight episode hepisode) (episodes_le_moved _)

theorem EpisodesKnown.admitted (h : EpisodesKnown ext s) : EpisodesKnown ext (s.admitted ext tool) := by
  refine ⟨h.positive, fun flight hflight episode hepisode => ?_⟩
  rcases List.mem_append.mp hflight with hold | hnew
  · exact h.begun flight hold episode hepisode
  · rw [List.mem_singleton.mp hnew] at hepisode ⊢
    simp only at hepisode ⊢
    split at hepisode
    · cases hepisode
      exact Nat.le_refl _
    · cases hepisode

theorem EpisodesKnown.of_sublist (h : EpisodesKnown ext s) (hmanager : s'.manager = s.manager)
    (hepisodes : s'.episodes = s.episodes) (hflights : s'.inFlight.Sublist s.inFlight) :
    EpisodesKnown ext s' := by
  refine ⟨hmanager ▸ h.positive, fun flight hflight episode hepisode => ?_⟩
  rw [hepisodes]
  exact h.begun flight (hflights.subset hflight) episode hepisode

/-- An episode that has not begun has no calls. -/
theorem outstanding_eq_zero (h : EpisodesKnown ext s) {episode : Nat}
    (hlt : s.episodes (ext.normalizeFull tool) < episode) :
    outstanding ext s tool episode = 0 := by
  rw [outstanding, List.countP_eq_zero]
  intro flight hflight hboth
  rw [decide_eq_true_eq] at hboth
  obtain ⟨hsame, hepisode⟩ := hboth
  have hle := h.begun flight hflight episode hepisode
  rw [hsame] at hle
  omega

theorem episodesKnown_step (h : EpisodesKnown ext s) {a : BreakerAction}
    (hstep : s.step ext a = some s') : EpisodesKnown ext s' := by
  cases a with
  | check tool now =>
    simp only [BreakerSystem.step] at hstep
    split at hstep
    · cases hstep
      exact h.admitted
    · cases hstep
      exact h
    · cases hstep
      exact h
    · cases hstep
      exact h.of_sublist rfl rfl (List.Sublist.refl _)
  | upgrade caller now =>
    simp only [BreakerSystem.step] at hstep
    split at hstep
    · cases hstep
    rename_i tool htool
    have hmoved : EpisodesKnown ext ({ s with waiting := s.waiting.eraseIdx caller }.moved ext tool
        (checkUpgrade ext s.manager tool now).1) :=
      EpisodesKnown.moved (h.of_sublist rfl rfl (List.Sublist.refl _)) (sameConfig_checkUpgrade now)
    split at hstep
    · cases hstep
      exact hmoved.admitted
    · cases hstep
      exact hmoved
  | success call now =>
    simp only [BreakerSystem.step] at hstep
    split at hstep
    · cases hstep
    cases hstep
    exact EpisodesKnown.moved (h.of_sublist rfl rfl (List.eraseIdx_sublist _ _))
      (sameConfig_recordSuccess now)
  | failure call now =>
    simp only [BreakerSystem.step] at hstep
    split at hstep
    · cases hstep
    cases hstep
    exact EpisodesKnown.moved (h.of_sublist rfl rfl (List.eraseIdx_sublist _ _))
      (sameConfig_recordFailure now)
  | reset tool now =>
    cases hstep
    exact h.moved (sameConfig_reset now)

/-! ### The bound, step by step -/

/-- Under the read lock. -/
theorem admissionBound_check (hs : AdmissionBound ext s) {now : Clock}
    (hstep : s.step ext (.check tool now) = some s') :
    AdmissionBound ext s' ↔ AsksInTime ext s (.check tool now) := by
  have hasks : AsksInTime ext s (.check tool now) ↔ (admitsHalfOpen ext s.manager tool = true →
      outstanding ext s tool (s.episodes (ext.normalizeFull tool))
        < s.manager.halfOpenMaxRequests) := by
    refine ⟨fun h => h tool rfl, fun h tool' htool' => ?_⟩
    cases htool'
    exact h
  rw [hasks]
  by_cases hok : checkRead ext s.manager tool now = .answer (.ok ())
  · simp only [BreakerSystem.step, hok] at hstep
    cases hstep
    rw [admissionBound_admitted hs]
    by_cases hhalf : isHalfOpen ext s.manager tool = true
    · rw [(checkRead_halfOpen hhalf).mp hok, hhalf]
    · refine iff_of_true (fun h => absurd h hhalf) fun h => absurd (isHalfOpen_of_admits h) hhalf
  · -- nobody is let through
    have hsame : s'.inFlight = s.inFlight ∧ s'.manager = s.manager := by
      simp only [BreakerSystem.step] at hstep
      split at hstep
      · rename_i hanswer
        exact absurd hanswer hok
      all_goals
        cases hstep
        exact ⟨rfl, rfl⟩
    refine iff_of_true ?_ fun h => ?_
    · exact admissionBound_of_sublist hs (hsame.1 ▸ List.Sublist.refl _) (by rw [hsame.2])
    · exact absurd ((checkRead_halfOpen (isHalfOpen_of_admits h)).mpr h) hok

/-- Under the write lock: a circuit that becomes half-open here begins a new episode. -/
theorem admissionBound_upgrade (hknown : EpisodesKnown ext s) (hs : AdmissionBound ext s)
    {caller : Nat} {now : Clock} (hstep : s.step ext (.upgrade caller now) = some s') :
    AdmissionBound ext s' ↔ AsksInTime ext s (.upgrade caller now) := by
  simp only [BreakerSystem.step] at hstep
  split at hstep
  · cases hstep
  rename_i tool htool
  have hasks : AsksInTime ext s (.upgrade caller now) ↔
      (admitsHalfOpen ext s.manager tool = true →
        outstanding ext s tool (s.episodes (ext.normalizeFull tool))
          < s.manager.halfOpenMaxRequests) := by
    refine ⟨fun h => h tool htool, fun h tool' htool' => ?_⟩
    cases htool.symm.trans htool'
    exact h
  rw [hasks]
  have hbound : AdmissionBound ext ({ s with waiting := s.waiting.eraseIdx caller }.moved ext tool
      (checkUpgrade ext s.manager tool now).1) :=
    admissionBound_of_sublist hs (List.Sublist.refl _)
      (sameConfig_checkUpgrade now).halfOpenMaxRequests
  by_cases hhalf : isHalfOpen ext s.manager tool = true
  · -- half-open already: the manager and the episodes stay
    obtain ⟨hmanager, hok⟩ := checkUpgrade_halfOpen now hhalf
    rw [hmanager] at hstep hbound
    have hepisodes : ({ s with waiting := s.waiting.eraseIdx caller }.moved ext tool
        s.manager).episodes = s.episodes := by
      simp [BreakerSystem.moved]
    split at hstep
    · rename_i hadmitted
      cases hstep
      rw [admissionBound_admitted hbound, hepisodes, hok.mp hadmitted]
      exact ⟨fun h _ => h hhalf, fun h _ => h rfl⟩
    · rename_i hrefused
      cases hstep
      exact iff_of_true hbound fun h => absurd (hok.mpr h) hrefused
  · refine iff_of_true ?_ fun h => absurd (isHalfOpen_of_admits h) hhalf
    split at hstep
    swap
    · cases hstep
      exact hbound
    rename_i hadmitted
    cases hstep
    rw [admissionBound_admitted hbound]
    rcases checkUpgrade_cases ext s.manager tool now with
      ⟨hmanager, -⟩ | ⟨stats, due, n, -, -, -, -, -, h⟩ | ⟨-, h⟩
    · rw [hmanager]
      exact fun hnow => absurd hnow hhalf
    · -- the new episode has no calls yet
      rw [h]
      intro hnow
      have hepisodes : ({ s with waiting := s.waiting.eraseIdx caller }.moved ext tool
          (setStats ext s.manager tool (halfOpened stats n))).episodes (ext.normalizeFull tool) =
          s.episodes (ext.normalizeFull tool) + 1 := by
        have hbegins : isHalfOpen ext (setStats ext s.manager tool (halfOpened stats n)) tool
            = true := hnow
        simp [BreakerSystem.moved, hbegins, hhalf]
      rw [hepisodes]
      have hzero : outstanding ext ({ s with waiting := s.waiting.eraseIdx caller }.moved ext tool
          (setStats ext s.manager tool (halfOpened stats n))) tool
          (s.episodes (ext.normalizeFull tool) + 1) = 0 :=
        outstanding_eq_zero hknown (Nat.lt_succ_self _)
      rw [hzero]
      exact hknown.positive
    · rw [h] at hadmitted
      cases hadmitted

/-- A step keeps the bound exactly when nobody asks in it while the bound is reached. -/
theorem admissionBound_step (hknown : EpisodesKnown ext s) (hs : AdmissionBound ext s)
    {a : BreakerAction} (hstep : s.step ext a = some s') :
    AdmissionBound ext s' ↔ AsksInTime ext s a := by
  cases a with
  | check tool now => exact admissionBound_check hs hstep
  | upgrade caller now => exact admissionBound_upgrade hknown hs hstep
  | success call now =>
    simp only [BreakerSystem.step] at hstep
    split at hstep
    · cases hstep
    cases hstep
    refine iff_of_true ?_ fun tool htool => by cases htool
    exact admissionBound_of_sublist hs (List.eraseIdx_sublist _ _)
      (sameConfig_recordSuccess now).halfOpenMaxRequests
  | failure call now =>
    simp only [BreakerSystem.step] at hstep
    split at hstep
    · cases hstep
    cases hstep
    refine iff_of_true ?_ fun tool htool => by cases htool
    exact admissionBound_of_sublist hs (List.eraseIdx_sublist _ _)
      (sameConfig_recordFailure now).halfOpenMaxRequests
  | reset tool now =>
    cases hstep
    refine iff_of_true ?_ fun tool htool => by cases htool
    exact admissionBound_of_sublist hs (List.Sublist.refl _)
      (sameConfig_reset now).halfOpenMaxRequests

/-- **The half-open admissions are bounded exactly as long as nobody asks at the bound.** -/
theorem outstanding_bounded_iff (ext : Externals) (failureThreshold successThreshold : UInt32)
    (openDurationSecs : UInt64) (halfOpenMaxRequests : UInt32) (actions : List BreakerAction) :
    EachStep (BreakerSystem.step ext) (fun _ _ s' => AdmissionBound ext s')
      (.start (withConfig failureThreshold successThreshold openDurationSecs halfOpenMaxRequests))
      actions ↔
    EachStep (BreakerSystem.step ext) (fun s a _ => AsksInTime ext s a)
      (.start (withConfig failureThreshold successThreshold openDurationSecs halfOpenMaxRequests))
      actions := by
  refine eachStep_iff (I := EpisodesKnown ext) ?_ ?_ ?_ ?_
  · intro s a s' hs hstep
    exact episodesKnown_step hs hstep
  · intro s a s' hknown hs hstep
    exact admissionBound_step hknown hs hstep
  · refine ⟨Nat.le_max_right _ _, fun flight hflight => ?_⟩
    cases hflight
  · intro tool episode
    exact Nat.zero_le _

/-- One request at a time is allowed, and two are outstanding. -/
theorem two_outstanding_at_limit_one :
    ∃ s ∈ run (BreakerSystem.step plainExternals) (.start (withConfig 1 1 30 1))
        [.check "sh" (.ok 1000), .failure 0 (.ok 1000), .check "sh" (.ok 1030),
          .upgrade 0 (.ok 1030), .check "sh" (.ok 1031)],
      s.manager.halfOpenMaxRequests = 1 ∧ outstanding plainExternals s "sh" 1 = 2 := by
  decide +kernel

end Vellaveto.CircuitBreaker
