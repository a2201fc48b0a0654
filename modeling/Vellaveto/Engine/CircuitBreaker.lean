/-
  THE CIRCUIT BREAKER (`vellaveto-engine/src/circuit_breaker.rs`).

  One circuit for each tool, found under the tool's normalized name.  A closed circuit counts failures
  and opens at a threshold; an open one refuses calls for a while, twice as long after each trip; then
  it is half-open and lets some calls through, until enough successes close it or a failure opens it
  again.

  Two things around this are modelled as they are.  The sum `last_state_change + eff_duration` is a
  CHECKED `u64` addition: where it overflows, the call panics, and if it held the write lock the lock is
  POISONED, after which every check is refused.  And the table holds at most `MAX_TRACKED_CIRCUITS`
  circuits: outcomes of a further tool are not recorded.  `can_proceed` takes the lock twice, so it has
  two halves: a check under the read lock, and for an open circuit whose time has come an upgrade under
  the write lock.
-/
import Vellaveto.Engine.Externals
import Vellaveto.Lib.Counters
import Vellaveto.Lib.Table

namespace Vellaveto.CircuitBreaker

open Vellaveto.Lib

/-- `CircuitState`. -/
inductive CircuitState where
  | closed
  | open
  | halfOpen
  deriving DecidableEq, Repr

/-- `CircuitStats`. -/
structure CircuitStats where
  state : CircuitState
  failureCount : Nat
  successCount : Nat
  lastFailure : Option Nat
  lastStateChange : Nat
  tripCount : Nat
  deriving DecidableEq, Repr

/-- `CircuitBreakerManager`; `poisoned` is the state of the lock. -/
structure CircuitBreakerManager where
  circuits : AList fun _ : String => CircuitStats
  poisoned : Bool
  failureThreshold : Nat
  successThreshold : Nat
  openDurationSecs : Nat
  halfOpenMaxRequests : Nat

/-- `MAX_TRACKED_CIRCUITS`. -/
def maxTrackedCircuits : Nat := 10000

/-- `CircuitBreakerManager::with_config`: zero thresholds become one. -/
def withConfig (failureThreshold successThreshold : UInt32) (openDurationSecs : UInt64)
    (halfOpenMaxRequests : UInt32) : CircuitBreakerManager where
  circuits := ∅
  poisoned := false
  failureThreshold := max failureThreshold.toNat 1
  successThreshold := max successThreshold.toNat 1
  openDurationSecs := openDurationSecs.toNat
  halfOpenMaxRequests := max halfOpenMaxRequests.toNat 1

/-- `CircuitBreakerManager::new`. -/
def new (failureThreshold successThreshold : UInt32) (openDurationSecs : UInt64) :
    CircuitBreakerManager where
  circuits := ∅
  poisoned := false
  failureThreshold := max failureThreshold.toNat 1
  successThreshold := max successThreshold.toNat 1
  openDurationSecs := openDurationSecs.toNat
  halfOpenMaxRequests := 1

theorem new_eq_withConfig (failureThreshold successThreshold : UInt32) (openDurationSecs : UInt64) :
    new failureThreshold successThreshold openDurationSecs
      = withConfig failureThreshold successThreshold openDurationSecs 1 := rfl

/-- `now()`: the seconds since the epoch, or the text of the error. -/
abbrev Clock := Except String UInt64

/-- `now_or_zero`. -/
def nowOrZero : Clock → Nat
  | .ok n => n.toNat
  | .error _ => 0

/-- `u32::saturating_add(1)`. -/
def saturatingSucc (n : Nat) : Nat := saturatingAdd (2 ^ 32 - 1) n 1

/-- What an operation gave back; `none` is a panic. -/
abbrev Answer (α : Type) := Option α

variable (ext : Externals)

/-! ### One circuit -/

/-- `effective_open_duration`. -/
def effectiveOpenDuration (m : CircuitBreakerManager) (stats : CircuitStats) : Nat :=
  min (m.openDurationSecs * 2 ^ min stats.tripCount 5) (2 ^ 64 - 1)

/-- `last_state_change + eff_duration`, checked. -/
def reopensAt (m : CircuitBreakerManager) (stats : CircuitStats) : Option Nat :=
  if stats.lastStateChange + effectiveOpenDuration m stats < 2 ^ 64 then
    some (stats.lastStateChange + effectiveOpenDuration m stats)
  else none

/-- The entry that `or_insert_with` makes. -/
def freshStats (now : Nat) : CircuitStats where
  state := .closed
  failureCount := 0
  successCount := 0
  lastFailure := none
  lastStateChange := now
  tripCount := 0

/-- What `record_success` does to the entry. -/
def afterSuccess (m : CircuitBreakerManager) (stats : CircuitStats) (now : Nat) :
    Answer CircuitStats :=
  match stats.state with
  | .closed => some { stats with failureCount := 0 }
  | .open =>
    match reopensAt m stats with
    | none => none
    | some due =>
      if due ≤ now then
        some { stats with state := .halfOpen, successCount := 1, lastStateChange := now }
      else some stats
  | .halfOpen =>
    if m.successThreshold ≤ saturatingSucc stats.successCount then
      some { stats with
        state := .closed, failureCount := 0, successCount := 0, tripCount := 0,
        lastStateChange := now }
    else some { stats with successCount := saturatingSucc stats.successCount }

/-- What `record_failure` does to the entry. -/
def afterFailure (m : CircuitBreakerManager) (stats : CircuitStats) (now : Nat) : CircuitStats :=
  match stats.state with
  | .closed =>
    if m.failureThreshold ≤ saturatingSucc stats.failureCount then
      { stats with
        lastFailure := some now, failureCount := saturatingSucc stats.failureCount,
        state := .open, lastStateChange := now }
    else
      { stats with lastFailure := some now, failureCount := saturatingSucc stats.failureCount }
  | .open =>
    { stats with lastFailure := some now, failureCount := saturatingSucc stats.failureCount }
  | .halfOpen =>
    { stats with
      lastFailure := some now, state := .open, failureCount := saturatingSucc stats.failureCount,
      successCount := 0, tripCount := saturatingSucc stats.tripCount, lastStateChange := now }

/-! ### The operations -/

/-- The entry of a tool. -/
def statsOf (m : CircuitBreakerManager) (tool : String) : Option CircuitStats :=
  m.circuits.lookup (ext.normalizeFull tool)

def setStats (m : CircuitBreakerManager) (tool : String) (stats : CircuitStats) :
    CircuitBreakerManager :=
  { m with circuits := m.circuits.insert (ext.normalizeFull tool) stats }

def unavailable (tool : String) : String :=
  "Circuit breaker unavailable for tool '" ++ tool ++ "' (internal error — failing closed)"

def openFor (tool : String) : String := "Circuit breaker open for tool '" ++ tool ++ "'"

def testingRecovery (tool : String) : String :=
  "Circuit breaker half-open for tool '" ++ tool ++ "' (testing recovery)"

/-- The admission test of a half-open circuit. -/
def halfOpenVerdict (m : CircuitBreakerManager) (tool : String) (stats : CircuitStats) :
    Except String Unit :=
  if stats.successCount < m.halfOpenMaxRequests then .ok () else .error (testingRecovery tool)

/-- How the first half of `can_proceed` ends. -/
inductive Check where
  | answer (result : Except String Unit)
  | upgrade
  | panicked
  deriving DecidableEq

/-- `can_proceed` under the read lock.  A panic here leaves the lock as it is. -/
def checkRead (m : CircuitBreakerManager) (tool : String) (now : Clock) : Check :=
  if m.poisoned then .answer (.error (unavailable tool))
  else
    match statsOf ext m tool with
    | none => .answer (.ok ())
    | some stats =>
      match stats.state with
      | .closed => .answer (.ok ())
      | .open =>
        match now with
        | .error e => .answer (.error e)
        | .ok n =>
          match reopensAt m stats with
          | none => .panicked
          | some due => if due ≤ n.toNat then .upgrade else .answer (.error (openFor tool))
      | .halfOpen => .answer (halfOpenVerdict m tool stats)

/-- `can_proceed` under the write lock: the state is looked at again, and an answer is given whatever
    it is by now. -/
def checkUpgrade (m : CircuitBreakerManager) (tool : String) (now : Clock) :
    CircuitBreakerManager × Answer (Except String Unit) :=
  if m.poisoned then (m, some (.error (unavailable tool)))
  else
    match statsOf ext m tool with
    | none => (m, some (.ok ()))
    | some stats =>
      match stats.state with
      | .closed => (m, some (.ok ()))
      | .halfOpen => (m, some (halfOpenVerdict m tool stats))
      | .open =>
        match now with
        | .error e => (m, some (.error e))
        | .ok n =>
          match reopensAt m stats with
          | none => ({ m with poisoned := true }, none)
          | some due =>
            if due ≤ n.toNat then
              let stats' := { stats with
                state := .halfOpen, successCount := 0, lastStateChange := n.toNat }
              (setStats ext m tool stats', some (halfOpenVerdict m tool stats'))
            else (m, some (.ok ()))

/-- `can_proceed`, with the clock readings of its two halves. -/
def canProceed (m : CircuitBreakerManager) (tool : String) (now nowAgain : Clock) :
    CircuitBreakerManager × Answer (Except String Unit) :=
  match checkRead ext m tool now with
  | .answer result => (m, some result)
  | .panicked => (m, none)
  | .upgrade => checkUpgrade ext m tool nowAgain

/-- A tool that the full table has no entry for. -/
def atCapacity (m : CircuitBreakerManager) (tool : String) : Bool :=
  maxTrackedCircuits ≤ m.circuits.keys.length && (statsOf ext m tool).isNone

/-- `record_success`. -/
def recordSuccess (m : CircuitBreakerManager) (tool : String) (now : Clock) :
    CircuitBreakerManager × Answer Unit :=
  if m.poisoned then (m, some ())
  else if atCapacity ext m tool then (m, some ())
  else
    let stats := (statsOf ext m tool).getD (freshStats (nowOrZero now))
    match afterSuccess m stats (nowOrZero now) with
    | none => ({ m with poisoned := true }, none)
    | some stats' => (setStats ext m tool stats', some ())

/-- `record_failure`: the new state of the circuit is returned. -/
def recordFailure (m : CircuitBreakerManager) (tool : String) (now : Clock) :
    CircuitBreakerManager × CircuitState :=
  if m.poisoned then (m, .open)
  else if atCapacity ext m tool then (m, .open)
  else
    let stats := (statsOf ext m tool).getD (freshStats (nowOrZero now))
    let stats' := afterFailure m stats (nowOrZero now)
    (setStats ext m tool stats', stats'.state)

/-- `reset`. -/
def reset (m : CircuitBreakerManager) (tool : String) (now : Clock) :
    CircuitBreakerManager × Answer (Except String Unit) :=
  if m.poisoned then
    (m, some (.error ("Circuit breaker unavailable for tool '" ++ tool ++ "' (internal error)")))
  else
    let removed := { m with circuits := m.circuits.erase (ext.normalizeFull tool) }
    match statsOf ext m tool with
    | none => (removed, some (.ok ()))
    | some stats =>
      if stats.state = .open then
        match reopensAt m stats with
        | none => ({ m with poisoned := true }, none)
        | some due =>
          if nowOrZero now < due then
            (m, some (.error ("Circuit breaker reset rejected for tool '" ++ tool ++
              "': open cooldown has " ++ toString (due - nowOrZero now) ++ "s remaining")))
          else (removed, some (.ok ()))
      else (removed, some (.ok ()))

/-! ### What an operation can do -/

variable {ext} {m : CircuitBreakerManager} {tool : String}

@[simp] theorem statsOf_setStats (stats : CircuitStats) (other : String) :
    statsOf ext (setStats ext m tool stats) other =
      if ext.normalizeFull other = ext.normalizeFull tool then some stats
      else statsOf ext m other :=
  lookup_insert_eq _ _ _ _

/-- The entry of a circuit that has just become half-open. -/
def halfOpened (stats : CircuitStats) (now : Nat) : CircuitStats :=
  { stats with state := .halfOpen, successCount := 0, lastStateChange := now }

/-- The sum of a time and a duration that a call needs does not fit. -/
def Overflows (ext : Externals) (m : CircuitBreakerManager) (tool : String) : Prop :=
  ∃ stats, statsOf ext m tool = some stats ∧ stats.state = .open ∧ reopensAt m stats = none

theorem overflows_of_checkRead {now : Clock} (h : checkRead ext m tool now = .panicked) :
    Overflows ext m tool := by
  unfold checkRead at h
  split at h
  · cases h
  split at h
  · cases h
  rename_i stats hstats
  split at h
  · cases h
  · rename_i hopen
    split at h
    · cases h
    · split at h
      · rename_i hdue
        exact ⟨stats, hstats, hopen, hdue⟩
      · split at h <;> cases h
  · cases h

/-- Under the write lock an open circuit whose time has come becomes half-open, and nothing else
    happens. -/
theorem checkUpgrade_cases (ext : Externals) (m : CircuitBreakerManager) (tool : String)
    (now : Clock) :
    ((checkUpgrade ext m tool now).1 = m ∧ (checkUpgrade ext m tool now).2 ≠ none) ∨
    (∃ stats due n, m.poisoned = false ∧ statsOf ext m tool = some stats ∧ stats.state = .open ∧
      reopensAt m stats = some due ∧ due ≤ n ∧ checkUpgrade ext m tool now
        = (setStats ext m tool (halfOpened stats n),
            some (halfOpenVerdict m tool (halfOpened stats n)))) ∨
    (Overflows ext m tool ∧ checkUpgrade ext m tool now = ({ m with poisoned := true }, none)) := by
  unfold checkUpgrade
  split
  · exact .inl ⟨rfl, Option.some_ne_none _⟩
  rename_i hpois
  split
  · exact .inl ⟨rfl, Option.some_ne_none _⟩
  rename_i stats hstats
  split
  · exact .inl ⟨rfl, Option.some_ne_none _⟩
  · exact .inl ⟨rfl, Option.some_ne_none _⟩
  rename_i hopen
  split
  · exact .inl ⟨rfl, Option.some_ne_none _⟩
  rename_i n
  split
  · rename_i hdue
    exact .inr (.inr ⟨⟨stats, hstats, hopen, hdue⟩, rfl⟩)
  rename_i due hdue
  split
  · rename_i hle
    exact .inr (.inl ⟨stats, due, n.toNat, Bool.eq_false_iff.mpr hpois, hstats, hopen, hdue, hle,
      rfl⟩)
  · exact .inl ⟨rfl, Option.some_ne_none _⟩

/-- The manager changes in `can_proceed` only if it gets to the write lock. -/
theorem canProceed_cases (ext : Externals) (m : CircuitBreakerManager) (tool : String)
    (now nowAgain : Clock) :
    ((canProceed ext m tool now nowAgain).1 = m ∧ (canProceed ext m tool now nowAgain).2 ≠ none) ∨
    (Overflows ext m tool ∧ canProceed ext m tool now nowAgain = (m, none)) ∨
    canProceed ext m tool now nowAgain = checkUpgrade ext m tool nowAgain := by
  unfold canProceed
  split
  · exact .inl ⟨rfl, Option.some_ne_none _⟩
  · rename_i hpanic
    exact .inr (.inl ⟨overflows_of_checkRead hpanic, rfl⟩)
  · exact .inr (.inr rfl)

/-- Only an open circuit is asked for its time; a fresh entry is closed. -/
theorem overflows_of_afterSuccess {now : Nat}
    (h : afterSuccess m ((statsOf ext m tool).getD (freshStats now)) now = none) :
    Overflows ext m tool := by
  cases hstats : statsOf ext m tool with
  | none => rw [hstats] at h; cases h
  | some stats =>
    rw [hstats, Option.getD_some] at h
    unfold afterSuccess at h
    split at h
    · cases h
    · rename_i hopen
      split at h
      · rename_i hdue
        exact ⟨stats, hstats, hopen, hdue⟩
      · split at h <;> cases h
    · split at h <;> cases h

theorem recordSuccess_cases (ext : Externals) (m : CircuitBreakerManager) (tool : String)
    (now : Clock) :
    recordSuccess ext m tool now = (m, some ()) ∨
    (∃ stats', m.poisoned = false ∧ atCapacity ext m tool = false ∧
      afterSuccess m ((statsOf ext m tool).getD (freshStats (nowOrZero now))) (nowOrZero now)
        = some stats' ∧
      recordSuccess ext m tool now = (setStats ext m tool stats', some ())) ∨
    (Overflows ext m tool ∧ recordSuccess ext m tool now = ({ m with poisoned := true }, none)) := by
  unfold recordSuccess
  split
  · exact .inl rfl
  rename_i hpois
  split
  · exact .inl rfl
  rename_i hroom
  simp only
  split
  · rename_i hpanic
    exact .inr (.inr ⟨overflows_of_afterSuccess hpanic, rfl⟩)
  · rename_i stats' hstats'
    exact .inr (.inl ⟨stats', Bool.eq_false_iff.mpr hpois, Bool.eq_false_iff.mpr hroom, hstats',
      rfl⟩)

theorem recordFailure_cases (ext : Externals) (m : CircuitBreakerManager) (tool : String)
    (now : Clock) :
    ((m.poisoned = true ∨ atCapacity ext m tool = true) ∧ (recordFailure ext m tool now).1 = m) ∨
    (m.poisoned = false ∧ atCapacity ext m tool = false ∧
      (recordFailure ext m tool now).1 = setStats ext m tool
        (afterFailure m ((statsOf ext m tool).getD (freshStats (nowOrZero now)))
          (nowOrZero now))) := by
  unfold recordFailure
  split
  · rename_i hpois
    exact .inl ⟨.inl hpois, rfl⟩
  rename_i hpois
  split
  · rename_i hfull
    exact .inl ⟨.inr hfull, rfl⟩
  · rename_i hroom
    exact .inr ⟨Bool.eq_false_iff.mpr hpois, Bool.eq_false_iff.mpr hroom, rfl⟩

theorem reset_cases (ext : Externals) (m : CircuitBreakerManager) (tool : String)
    (now : Clock) :
    ((reset ext m tool now).1 = m ∧ (reset ext m tool now).2 ≠ none) ∨
    reset ext m tool now
      = ({ m with circuits := m.circuits.erase (ext.normalizeFull tool) }, some (.ok ())) ∨
    (Overflows ext m tool ∧ reset ext m tool now = ({ m with poisoned := true }, none)) := by
  unfold reset
  split
  · exact .inl ⟨rfl, Option.some_ne_none _⟩
  simp only
  split
  · exact .inr (.inl rfl)
  rename_i stats hstats
  split
  · rename_i hopen
    split
    · rename_i hdue
      exact .inr (.inr ⟨⟨stats, hstats, hopen, hdue⟩, rfl⟩)
    · split
      · exact .inl ⟨rfl, Option.some_ne_none _⟩
      · exact .inr (.inl rfl)
  · exact .inr (.inl rfl)

end Vellaveto.CircuitBreaker
