/-
  THE CIRCUIT OPENS AND STAYS OPEN (`vellaveto-engine/src/circuit_breaker.rs`).

  After `failure_threshold` failures of a tool with no success between them its calls are refused until
  the effective open duration has passed since the circuit opened, provided that

    1. each of these failures finds an entry of the tool or room for one: a full table drops the
       failures of a tool it does not track, and `can_proceed` then lets the tool through
       (`dropped_failures_leave_tool_open`);
    2. wherever the code adds the open duration to the time of opening, the sum fits into 64 bits: the
       addition is checked and panics otherwise.

  A history is any list of calls on any tools.  Beside the manager the run keeps a ghost, the time at
  which the circuit of the tool became open; failures in an open circuit do not move it.
-/
import Vellaveto.Engine.CircuitBreaker
import Vellaveto.Lib.Run

namespace Vellaveto.CircuitBreaker

open Vellaveto.Lib

/-- A call on the manager, with the clock readings it makes. -/
inductive Call where
  | canProceed (tool : String) (now nowAgain : Clock)
  | recordSuccess (tool : String) (now : Clock)
  | recordFailure (tool : String) (now : Clock)
  | reset (tool : String) (now : Clock)

namespace Call

def tool : Call → String
  | canProceed tool _ _ => tool
  | recordSuccess tool _ => tool
  | recordFailure tool _ => tool
  | reset tool _ => tool

/-- The time with which the call stamps a change of state. -/
def stamp : Call → Nat
  | canProceed _ _ nowAgain => nowOrZero nowAgain
  | recordSuccess _ now => nowOrZero now
  | recordFailure _ now => nowOrZero now
  | reset _ now => nowOrZero now

/-- Calls that start the count of failures anew. -/
def clearsFailures : Call → Bool
  | recordSuccess _ _ => true
  | reset _ _ => true
  | _ => false

def isFailure : Call → Bool
  | recordFailure _ _ => true
  | _ => false

end Call

variable (ext : Externals)

/-- The manager after the call, and whether the call panicked. -/
def perform (m : CircuitBreakerManager) : Call → CircuitBreakerManager × Bool
  | .canProceed tool now nowAgain =>
    ((canProceed ext m tool now nowAgain).1, (canProceed ext m tool now nowAgain).2.isNone)
  | .recordSuccess tool now =>
    ((recordSuccess ext m tool now).1, (recordSuccess ext m tool now).2.isNone)
  | .recordFailure tool now => ((recordFailure ext m tool now).1, false)
  | .reset tool now => ((reset ext m tool now).1, (reset ext m tool now).2.isNone)

/-- Two names of one tool. -/
def SameTool (a b : String) : Prop := ext.normalizeFull a = ext.normalizeFull b

instance (a b : String) : Decidable (SameTool ext a b) :=
  inferInstanceAs (Decidable (ext.normalizeFull a = ext.normalizeFull b))

def isOpen (m : CircuitBreakerManager) (tool : String) : Bool :=
  (statsOf ext m tool).any fun stats => stats.state = .open

/-- The manager, and when the circuit of the watched tool became open. -/
structure Watched where
  manager : CircuitBreakerManager
  openedAt : Option Nat

def watch (tool : String) (w : Watched) (c : Call) : Option Watched :=
  let m' := (perform ext w.manager c).1
  some {
    manager := m'
    openedAt :=
      if isOpen ext m' tool then
        if isOpen ext w.manager tool then w.openedAt else some c.stamp
      else none }

/-- The time at which an open circuit may be tried again is a 64-bit number, in case the call
    computes it. -/
def Fits (m : CircuitBreakerManager) (c : Call) : Prop :=
  c.isFailure = true ∨ ∀ stats, statsOf ext m c.tool = some stats → stats.state = .open →
    stats.lastStateChange + effectiveOpenDuration m stats < 2 ^ 64

/-- A failure of the tool finds its entry, or room for one. -/
def Recorded (m : CircuitBreakerManager) (tool : String) (c : Call) : Prop :=
  c.isFailure = true → SameTool ext c.tool tool → atCapacity ext m c.tool = false

instance (m : CircuitBreakerManager) (c : Call) : Decidable (Fits ext m c) :=
  inferInstanceAs (Decidable (c.isFailure = true ∨
    ∀ stats ∈ statsOf ext m c.tool, stats.state = .open →
      stats.lastStateChange + effectiveOpenDuration m stats < 2 ^ 64))

instance (m : CircuitBreakerManager) (tool : String) (c : Call) :
    Decidable (Recorded ext m tool c) :=
  inferInstanceAs (Decidable (c.isFailure = true → SameTool ext c.tool tool →
    atCapacity ext m c.tool = false))

variable {ext} {m : CircuitBreakerManager} {tool : String} {c : Call}

theorem not_overflows (hfits : Fits ext m c) (hc : c.isFailure = false) :
    ¬ Overflows ext m c.tool := by
  rintro ⟨stats, hstats, hopen, hdue⟩
  rcases hfits with hfail | hfits
  · rw [hc] at hfail
    cases hfail
  · unfold reopensAt at hdue
    rw [if_pos (hfits stats hstats hopen)] at hdue
    cases hdue

/-! ### What a call does to an intact manager -/

/-- What a call that fits can do: nothing, set the entry of its tool, or remove it.  It does not
    panic. -/
theorem perform_cases (hfits : Fits ext m c) : (perform ext m c).2 = false ∧
    ((perform ext m c).1 = m ∨
    (c.clearsFailures = false ∧ ∃ stats n, statsOf ext m c.tool = some stats ∧
      stats.state = .open ∧ (perform ext m c).1 = setStats ext m c.tool (halfOpened stats n)) ∨
    (c.isFailure = true ∧ atCapacity ext m c.tool = false ∧ (perform ext m c).1
      = setStats ext m c.tool
        (afterFailure m ((statsOf ext m c.tool).getD (freshStats c.stamp)) c.stamp)) ∨
    (c.clearsFailures = true ∧ ∃ stats', afterSuccess m
        ((statsOf ext m c.tool).getD (freshStats c.stamp)) c.stamp = some stats' ∧
      (perform ext m c).1 = setStats ext m c.tool stats') ∨
    (c.clearsFailures = true ∧ (perform ext m c).1
      = { m with circuits := m.circuits.erase (ext.normalizeFull c.tool) })) := by
  cases c with
  | canProceed tool now nowAgain =>
    have hno := not_overflows hfits rfl
    rcases canProceed_cases ext m tool now nowAgain with ⟨h, hans⟩ | ⟨hover, -⟩ | h
    · exact ⟨Option.isNone_eq_false_iff.mpr (Option.isSome_iff_ne_none.mpr hans), .inl h⟩
    · exact absurd hover hno
    simp only [perform, h]
    rcases checkUpgrade_cases ext m tool nowAgain with
      ⟨h, hans⟩ | ⟨stats, due, n, -, hstats, hopen, -, -, h⟩ | ⟨hover, -⟩
    · exact ⟨Option.isNone_eq_false_iff.mpr (Option.isSome_iff_ne_none.mpr hans), .inl h⟩
    · rw [h]
      exact ⟨rfl, .inr (.inl ⟨rfl, stats, n, hstats, hopen, rfl⟩)⟩
    · exact absurd hover hno
  | recordSuccess tool now =>
    simp only [perform]
    rcases recordSuccess_cases ext m tool now with h | ⟨stats', -, -, hstats', h⟩ | ⟨hover, -⟩
    · rw [h]
      exact ⟨rfl, .inl rfl⟩
    · rw [h]
      exact ⟨rfl, .inr (.inr (.inr (.inl ⟨rfl, stats', hstats', rfl⟩)))⟩
    · exact absurd hover (not_overflows hfits rfl)
  | recordFailure tool now =>
    rcases recordFailure_cases ext m tool now with ⟨-, h⟩ | ⟨-, hroom, h⟩
    · exact ⟨rfl, .inl h⟩
    · exact ⟨rfl, .inr (.inr (.inl ⟨rfl, hroom, h⟩))⟩
  | reset tool now =>
    simp only [perform]
    rcases reset_cases ext m tool now with ⟨h, hans⟩ | h | ⟨hover, -⟩
    · exact ⟨Option.isNone_eq_false_iff.mpr (Option.isSome_iff_ne_none.mpr hans), .inl h⟩
    · rw [h]
      exact ⟨rfl, .inr (.inr (.inr (.inr ⟨rfl, rfl⟩)))⟩
    · exact absurd hover (not_overflows hfits rfl)

/-- The configuration and the state of the lock are kept by a call that fits. -/
theorem perform_keeps (hfits : Fits ext m c) :
    (perform ext m c).1.poisoned = m.poisoned ∧
    (perform ext m c).1.failureThreshold = m.failureThreshold := by
  rcases (perform_cases hfits).2 with h | ⟨-, stats, n, -, -, h⟩ | ⟨-, -, h⟩ | ⟨-, stats', -, h⟩ | ⟨-, h⟩
  all_goals
    rw [h]
    exact ⟨rfl, rfl⟩

/-- A call leaves the circuits of other tools alone. -/
theorem perform_other (hfits : Fits ext m c) (hother : ¬ SameTool ext c.tool tool) :
    statsOf ext (perform ext m c).1 tool = statsOf ext m tool := by
  have hne : ext.normalizeFull tool ≠ ext.normalizeFull c.tool := fun h => hother h.symm
  rcases (perform_cases hfits).2 with h | ⟨-, stats, n, -, -, h⟩ | ⟨-, -, h⟩ | ⟨-, stats', -, h⟩ | ⟨-, h⟩
  · rw [h]
  · rw [h, statsOf_setStats, if_neg hne]
  · rw [h, statsOf_setStats, if_neg hne]
  · rw [h, statsOf_setStats, if_neg hne]
  · rw [h]
    exact AList.lookup_erase_ne hne

/-! ### The time of opening -/

theorem afterFailure_open {stats : CircuitStats} {now : Nat}
    (h : (afterFailure m stats now).state = .open) :
    (stats.state = .open ∧ (afterFailure m stats now).lastStateChange = stats.lastStateChange) ∨
      (stats.state ≠ .open ∧ (afterFailure m stats now).lastStateChange = now) := by
  unfold afterFailure at h ⊢
  match hstate : stats.state with
  | .closed =>
    simp only [hstate] at h ⊢
    split at h
    · rename_i hle
      rw [if_pos hle]
      exact .inr ⟨CircuitState.noConfusion, rfl⟩
    · cases h
  | .open => exact .inl ⟨rfl, rfl⟩
  | .halfOpen => exact .inr ⟨CircuitState.noConfusion, rfl⟩

theorem afterSuccess_open {stats stats' : CircuitStats} {now : Nat}
    (h : afterSuccess m stats now = some stats') (hopen : stats'.state = .open) :
    stats' = stats := by
  unfold afterSuccess at h
  split at h
  · rename_i hclosed
    cases h
    rw [hclosed] at hopen
    cases hopen
  · split at h
    · cases h
    split at h
    · cases h
      cases hopen
    · cases h
      rfl
  · rename_i hhalf
    split at h
    · cases h
      cases hopen
    · cases h
      rw [hhalf] at hopen
      cases hopen

theorem isOpen_iff : isOpen ext m tool = true ↔
    ∃ stats, statsOf ext m tool = some stats ∧ stats.state = .open := by
  rw [isOpen, Option.any_eq_true]
  simp only [decide_eq_true_eq]

/-- **One step.**  A circuit that is open after a call was open before it, since the same time, or has
    been opened by the call. -/
theorem open_after_perform (hfits : Fits ext m c) {stats' : CircuitStats}
    (hstats' : statsOf ext (perform ext m c).1 tool = some stats') (hopen : stats'.state = .open) :
    (∃ stats, statsOf ext m tool = some stats ∧ stats.state = .open ∧
      stats'.lastStateChange = stats.lastStateChange) ∨
    (isOpen ext m tool = false ∧ stats'.lastStateChange = c.stamp) := by
  by_cases hsame : SameTool ext c.tool tool
  swap
  · rw [perform_other hfits hsame] at hstats'
    exact .inl ⟨stats', hstats', hopen, rfl⟩
  have hlookup : ∀ m', statsOf ext m' tool = statsOf ext m' c.tool := by
    intro m'
    rw [statsOf, statsOf, hsame]
  rw [hlookup] at hstats'
  simp only [hlookup m]
  rcases (perform_cases hfits).2 with h | ⟨-, stats, n, -, -, h⟩ | ⟨-, -, h⟩ |
    ⟨-, stats, hafter, h⟩ | ⟨-, h⟩
  · rw [h] at hstats'
    exact .inl ⟨stats', hstats', hopen, rfl⟩
  · rw [h, statsOf_setStats, if_pos rfl] at hstats'
    cases hstats'
    cases hopen
  · rw [h, statsOf_setStats, if_pos rfl] at hstats'
    cases hstats'
    cases hbefore : statsOf ext m c.tool with
    | none =>
      rw [hbefore] at hopen
      rcases afterFailure_open hopen with ⟨hfresh, -⟩ | ⟨-, hstamp⟩
      · cases hfresh
      · refine .inr ⟨?_, hstamp⟩
        rw [isOpen, hlookup, hbefore]
        rfl
    | some stats =>
      rw [hbefore] at hopen
      rcases afterFailure_open hopen with ⟨hstate, hsince⟩ | ⟨hstate, hstamp⟩
      · exact .inl ⟨stats, rfl, hstate, hsince⟩
      · refine .inr ⟨?_, hstamp⟩
        rw [isOpen, hlookup, hbefore]
        simpa using hstate
  · rw [h, statsOf_setStats, if_pos rfl] at hstats'
    cases hstats'
    have hkept := afterSuccess_open hafter hopen
    cases hbefore : statsOf ext m c.tool with
    | none =>
      rw [hbefore, Option.getD_none] at hkept
      rw [hkept] at hopen
      cases hopen
    | some stats =>
      rw [hbefore, Option.getD_some] at hkept
      exact .inl ⟨stats, rfl, hkept ▸ hopen, by rw [hkept]⟩
  · rw [h] at hstats'
    have hgone : statsOf ext { m with circuits := m.circuits.erase (ext.normalizeFull c.tool) }
        c.tool = none := AList.lookup_erase _ _
    rw [hgone] at hstats'
    cases hstats'

/-- The lock is intact, the threshold is that of the configuration, and the ghost is the time that the
    code compares with. -/
structure Tracking (ext : Externals) (tool : String) (threshold : Nat) (w : Watched) : Prop where
  intact : w.manager.poisoned = false
  threshold : w.manager.failureThreshold = threshold
  since : ∀ stats, statsOf ext w.manager tool = some stats → stats.state = .open →
    w.openedAt = some stats.lastStateChange

theorem tracking_step {threshold : Nat} {w w' : Watched} (hw : Tracking ext tool threshold w)
    (hfits : Fits ext w.manager c) (hstep : watch ext tool w c = some w') :
    Tracking ext tool threshold w' := by
  cases hstep
  obtain ⟨hpois, hthreshold⟩ := perform_keeps hfits
  refine ⟨hpois.trans hw.intact, hthreshold.trans hw.threshold, ?_⟩
  intro stats' hstats' hopen
  simp only at hstats' ⊢
  rw [if_pos (isOpen_iff.mpr ⟨stats', hstats', hopen⟩)]
  rcases open_after_perform hfits hstats' hopen with ⟨stats, hstats, hstate, hsince⟩ | ⟨hwas, hstamp⟩
  · rw [if_pos (isOpen_iff.mpr ⟨stats, hstats, hstate⟩), hsince]
    exact hw.since stats hstats hstate
  · rw [if_neg (by rw [hwas]; exact Bool.false_ne_true), hstamp]

theorem tracking_run {threshold : Nat} {w w' : Watched} {calls : List Call}
    (hw : Tracking ext tool threshold w)
    (hfits : EachStep (watch ext tool) (fun w c _ => Fits ext w.manager c) w calls)
    (hrun : run (watch ext tool) w calls = some w') : Tracking ext tool threshold w' := by
  refine run_invariant_of_eachStep ?_ hfits hw hrun
  intro w c w' _ hw hfits hstep
  exact tracking_step hw hfits hstep

/-! ### The failures -/

/-- The failures of the tool among the calls. -/
def failuresOf (ext : Externals) (tool : String) (calls : List Call) : Nat :=
  calls.countP fun c => c.isFailure && decide (SameTool ext c.tool tool)

/-- After `n` failures a circuit that is still closed has counted them, up to the threshold. -/
structure Counting (ext : Externals) (tool : String) (threshold n : Nat)
    (m : CircuitBreakerManager) : Prop where
  counted : ∀ stats, statsOf ext m tool = some stats → stats.state = .closed →
    min n threshold ≤ stats.failureCount
  tracked : 0 < n → statsOf ext m tool ≠ none

/-- … also when the entry is made by the next failure. -/
theorem Counting.counted_getD {threshold n now : Nat} (hm : Counting ext tool threshold n m)
    (hclosed : ((statsOf ext m tool).getD (freshStats now)).state = .closed) :
    min n threshold ≤ ((statsOf ext m tool).getD (freshStats now)).failureCount := by
  cases hstats : statsOf ext m tool with
  | none =>
    have hn : n = 0 := by
      by_contra hne
      exact hm.tracked (Nat.pos_of_ne_zero hne) hstats
    rw [hn, Nat.zero_min]
    exact Nat.zero_le _
  | some stats =>
    rw [hstats, Option.getD_some] at hclosed
    exact hm.counted stats hstats hclosed

theorem counting_zero {threshold : Nat} : Counting ext tool threshold 0 m := by
  refine ⟨fun stats _ _ => ?_, fun hpos => ?_⟩
  · rw [Nat.zero_min]
    exact Nat.zero_le _
  · exact absurd hpos (Nat.lt_irrefl 0)

/-- A closed circuit that a failure leaves closed has counted it. -/
theorem afterFailure_closed {stats : CircuitStats} {now n : Nat}
    (hthreshold : m.failureThreshold < 2 ^ 32)
    (h : (afterFailure m stats now).state = .closed)
    (hn : stats.state = .closed → min n m.failureThreshold ≤ stats.failureCount) :
    min (n + 1) m.failureThreshold ≤ (afterFailure m stats now).failureCount := by
  unfold afterFailure at h ⊢
  match hstate : stats.state with
  | .closed =>
    have hcount := hn hstate
    simp only [hstate] at h ⊢
    split at h
    · cases h
    · rename_i hlt
      rw [if_neg hlt]
      simp only [saturatingSucc, saturatingAdd] at hlt ⊢
      omega
  | .open =>
    simp only [hstate] at h
    cases h
  | .halfOpen =>
    simp only [hstate] at h
    cases h

/-- **One step.**  A call that neither clears the count nor is dropped keeps counting. -/
theorem counting_step {threshold n : Nat} (hthreshold : m.failureThreshold = threshold)
    (hlt : threshold < 2 ^ 32) (hfits : Fits ext m c) (hintact : m.poisoned = false)
    (hrecorded : Recorded ext m tool c)
    (hclear : SameTool ext c.tool tool → c.clearsFailures = false)
    (hm : Counting ext tool threshold n m) :
    Counting ext tool threshold (n + failuresOf ext tool [c]) (perform ext m c).1 := by
  subst hthreshold
  have hlookup : SameTool ext c.tool tool →
      ∀ m', statsOf ext m' tool = statsOf ext m' c.tool := by
    intro hsame m'
    rw [statsOf, statsOf, hsame]
  by_cases hsame : SameTool ext c.tool tool
  swap
  · -- another tool: neither the entry nor the count changes
    have hzero : failuresOf ext tool [c] = 0 := by simp [failuresOf, hsame]
    rw [hzero, Nat.add_zero]
    exact ⟨by rw [perform_other hfits hsame]; exact hm.counted,
      by rw [perform_other hfits hsame]; exact hm.tracked⟩
  cases hfail : c.isFailure with
  | false =>
    have hzero : failuresOf ext tool [c] = 0 := by simp [failuresOf, hfail]
    rw [hzero, Nat.add_zero]
    rcases (perform_cases hfits).2 with h | ⟨-, stats, now, -, -, h⟩ | ⟨hf, -⟩ | ⟨hc, -⟩ | ⟨hc, -⟩
    · rw [h]
      exact hm
    · rw [h]
      refine ⟨fun stats' hstats' hclosed => ?_, fun _ => ?_⟩
      · rw [hlookup hsame, statsOf_setStats, if_pos rfl] at hstats'
        cases hstats'
        cases hclosed
      · rw [hlookup hsame, statsOf_setStats, if_pos rfl]
        exact Option.some_ne_none _
    · rw [hfail] at hf
      cases hf
    · rw [hclear hsame] at hc
      cases hc
    · rw [hclear hsame] at hc
      cases hc
  | true =>
    have hone : failuresOf ext tool [c] = 1 := by simp [failuresOf, hfail, hsame]
    rw [hone]
    have hset : (perform ext m c).1 = setStats ext m c.tool
        (afterFailure m ((statsOf ext m c.tool).getD (freshStats c.stamp)) c.stamp) := by
      cases c with
      | recordFailure name now =>
        rcases recordFailure_cases ext m name now with ⟨hpois | hfull, -⟩ | ⟨-, -, h⟩
        · rw [hintact] at hpois
          cases hpois
        · have hroom : atCapacity ext m name = false := hrecorded rfl hsame
          rw [hroom] at hfull
          cases hfull
        · exact h
      | canProceed => cases hfail
      | recordSuccess => cases hfail
      | reset => cases hfail
    rw [hset]
    refine ⟨fun stats' hstats' hclosed => ?_, fun _ => ?_⟩
    · rw [hlookup hsame, statsOf_setStats, if_pos rfl] at hstats'
      cases hstats'
      refine afterFailure_closed hlt hclosed fun hbefore => ?_
      rw [← hlookup hsame] at hbefore ⊢
      exact hm.counted_getD hbefore
    · rw [hlookup hsame, statsOf_setStats, if_pos rfl]
      exact Option.some_ne_none _

theorem failuresOf_cons (ext : Externals) (tool : String) (c : Call) (calls : List Call) :
    failuresOf ext tool (c :: calls) = failuresOf ext tool [c] + failuresOf ext tool calls := by
  rw [failuresOf, failuresOf, failuresOf, ← List.singleton_append, List.countP_append]

theorem counting_run {threshold n : Nat} {w w' : Watched} {calls : List Call}
    (hlt : threshold < 2 ^ 32) (hw : Tracking ext tool threshold w)
    (hfits : EachStep (watch ext tool) (fun w c _ => Fits ext w.manager c) w calls)
    (hrecorded : EachStep (watch ext tool) (fun w c _ => Recorded ext w.manager tool c) w calls)
    (hclear : ∀ c ∈ calls, SameTool ext c.tool tool → c.clearsFailures = false)
    (hn : Counting ext tool threshold n w.manager)
    (hrun : run (watch ext tool) w calls = some w') :
    Counting ext tool threshold (n + failuresOf ext tool calls) w'.manager := by
  induction calls generalizing w n with
  | nil => cases hrun; exact hn
  | cons c calls ih =>
    obtain ⟨w1, hstep, hrest⟩ := run_cons_eq_some.mp hrun
    obtain ⟨hfit, hfits⟩ := hfits w1 hstep
    obtain ⟨hrec, hrecorded⟩ := hrecorded w1 hstep
    have hone : Counting ext tool threshold (n + failuresOf ext tool [c]) w1.manager := by
      have hcount := counting_step hw.threshold hlt hfit hw.intact hrec
        (hclear c List.mem_cons_self) hn
      cases hstep
      exact hcount
    rw [failuresOf_cons, ← Nat.add_assoc]
    exact ih (tracking_step hw hfit hstep) hfits hrecorded
      (fun c' hc' => hclear c' (List.mem_cons_of_mem c hc')) hone hrest

/-- The failure that reaches the threshold leaves the circuit open. -/
theorem afterFailure_opens {stats : CircuitStats} {now n : Nat}
    (hthreshold : m.failureThreshold < 2 ^ 32) (hn : m.failureThreshold ≤ n + 1)
    (hcount : stats.state = .closed → min n m.failureThreshold ≤ stats.failureCount) :
    (afterFailure m stats now).state = .open := by
  unfold afterFailure
  match hstate : stats.state with
  | .closed =>
    have hle : m.failureThreshold ≤ saturatingSucc stats.failureCount := by
      have hcounted := hcount hstate
      simp only [saturatingSucc, saturatingAdd]
      omega
    simp only [if_pos hle]
  | .open => rfl
  | .halfOpen => rfl

theorem recordFailure_opens {n : Nat} {now : Clock} (hintact : m.poisoned = false)
    (hthreshold : m.failureThreshold < 2 ^ 32) (hroom : atCapacity ext m tool = false)
    (hn : m.failureThreshold ≤ n + 1) (hm : Counting ext tool m.failureThreshold n m) :
    ∃ stats, statsOf ext (recordFailure ext m tool now).1 tool = some stats ∧
      stats.state = .open := by
  rcases recordFailure_cases ext m tool now with ⟨hpois | hfull, -⟩ | ⟨-, -, hset⟩
  · rw [hintact] at hpois
    cases hpois
  · rw [hroom] at hfull
    cases hfull
  · rw [hset, statsOf_setStats, if_pos rfl]
    exact ⟨_, rfl, afterFailure_opens hthreshold hn fun hclosed => hm.counted_getD hclosed⟩

/-- Other tools' calls leave an open circuit open. -/
theorem statsOf_run_other {w w' : Watched} {calls : List Call}
    (hfits : EachStep (watch ext tool) (fun w c _ => Fits ext w.manager c) w calls)
    (hother : ∀ c ∈ calls, ¬ SameTool ext c.tool tool)
    (hrun : run (watch ext tool) w calls = some w') :
    statsOf ext w'.manager tool = statsOf ext w.manager tool := by
  induction calls generalizing w with
  | nil => cases hrun; rfl
  | cons c calls ih =>
    obtain ⟨w1, hstep, hrest⟩ := run_cons_eq_some.mp hrun
    obtain ⟨hfit, hfits⟩ := hfits w1 hstep
    rw [ih hfits (fun c' hc' => hother c' (List.mem_cons_of_mem c hc')) hrest]
    cases hstep
    exact perform_other hfit (hother c List.mem_cons_self)

/-! ### The whole history -/

/-- The clock gives no time from `limit` on. -/
def ReadsBefore (now : Clock) (limit : Nat) : Prop := ∀ n, now = .ok n → n.toNat < limit

theorem canProceed_of_open {stats : CircuitStats} {now nowAgain : Clock}
    (hintact : m.poisoned = false) (hstats : statsOf ext m tool = some stats)
    (hopen : stats.state = .open)
    (hfits : stats.lastStateChange + effectiveOpenDuration m stats < 2 ^ 64)
    (hnow : ReadsBefore now (stats.lastStateChange + effectiveOpenDuration m stats)) :
    ∃ reason, canProceed ext m tool now nowAgain = (m, some (.error reason)) := by
  have hdue : reopensAt m stats = some (stats.lastStateChange + effectiveOpenDuration m stats) := by
    rw [reopensAt, if_pos hfits]
  unfold canProceed checkRead
  rw [hintact, hstats]
  simp only [hopen, hdue]
  cases now with
  | error e => exact ⟨e, rfl⟩
  | ok n =>
    have hlt : ¬ (stats.lastStateChange + effectiveOpenDuration m stats ≤ n.toNat) := by
      have := hnow n rfl
      omega
    simp only [if_neg hlt]
    exact ⟨openFor tool, rfl⟩

/-- **The circuit opens and stays open.**  In a history whose calls fit, the failures of the tool from
    some point on reach the threshold, none of them is dropped, no success or reset of the tool comes
    between them, and after the last of them only other tools are called.  Then nothing has panicked,
    the circuit is open, and the tool is refused until the effective open duration has passed since the
    circuit became open. -/
theorem circuit_opens_and_stays_open (ext : Externals) (failureThreshold successThreshold : UInt32)
    (openDurationSecs : UInt64) (halfOpenMaxRequests : UInt32) (tool : String)
    (before segment after : List Call) (last now nowAgain : Clock) (w0 w : Watched)
    (hbefore : run (watch ext tool) ⟨withConfig failureThreshold successThreshold openDurationSecs
      halfOpenMaxRequests, none⟩ before = some w0)
    (hrun : run (watch ext tool) w0 (segment ++ .recordFailure tool last :: after) = some w)
    (hcount : max failureThreshold.toNat 1 ≤ failuresOf ext tool segment + 1)
    (hclear : ∀ c ∈ segment, SameTool ext c.tool tool → c.clearsFailures = false)
    (hother : ∀ c ∈ after, ¬ SameTool ext c.tool tool)
    (hfits : EachStep (watch ext tool) (fun w c _ => Fits ext w.manager c)
      ⟨withConfig failureThreshold successThreshold openDurationSecs halfOpenMaxRequests, none⟩
      (before ++ (segment ++ .recordFailure tool last :: after)))
    (hfitsNow : Fits ext w.manager (.canProceed tool now nowAgain))
    (hrecorded : EachStep (watch ext tool) (fun w c _ => Recorded ext w.manager tool c) w0
      (segment ++ .recordFailure tool last :: after)) :
    EachStep (watch ext tool) (fun w c _ => (perform ext w.manager c).2 = false)
        ⟨withConfig failureThreshold successThreshold openDurationSecs halfOpenMaxRequests, none⟩
        (before ++ (segment ++ .recordFailure tool last :: after)) ∧
      ∃ stats since, statsOf ext w.manager tool = some stats ∧ stats.state = .open ∧
        w.openedAt = some since ∧
        (ReadsBefore now (since + effectiveOpenDuration w.manager stats) →
          ∃ reason, canProceed ext w.manager tool now nowAgain
            = (w.manager, some (.error reason))) := by
  refine ⟨?_, ?_⟩
  · exact EachStep.mono (I := fun _ => True) (fun _ _ _ _ _ => trivial)
      (fun w c w' _ _ _ hfit => (perform_cases hfit).1) trivial hfits
  have hlt : max failureThreshold.toNat 1 < 2 ^ 32 := by
    have := failureThreshold.toNat_lt
    omega
  have hstart : Tracking ext tool (max failureThreshold.toNat 1)
      ⟨withConfig failureThreshold successThreshold openDurationSecs halfOpenMaxRequests, none⟩ := by
    refine ⟨rfl, rfl, fun stats hstats => ?_⟩
    cases hstats
  obtain ⟨hfitsBefore, hfits⟩ := hfits.append hbefore
  obtain ⟨w1, hsegment, hrest⟩ := run_append_eq_some.mp hrun
  obtain ⟨hfitsSegment, hfits⟩ := hfits.append hsegment
  obtain ⟨hrecSegment, hrec⟩ := hrecorded.append hsegment
  obtain ⟨w2, hlast, hafter⟩ := run_cons_eq_some.mp hrest
  obtain ⟨hfitLast, hfitsAfter⟩ := hfits w2 hlast
  have hw0 := tracking_run hstart hfitsBefore hbefore
  have hw1 := tracking_run hw0 hfitsSegment hsegment
  have hw2 := tracking_step hw1 hfitLast hlast
  have hw := tracking_run hw2 hfitsAfter hafter
  have hcounting := counting_run hlt hw0 hfitsSegment hrecSegment hclear counting_zero hsegment
  -- the last failure opens the circuit, or finds it open
  obtain ⟨stats, hstats, hopen⟩ :
      ∃ stats, statsOf ext w2.manager tool = some stats ∧ stats.state = .open := by
    have hroom : atCapacity ext w1.manager tool = false := (hrec w2 hlast).1 rfl rfl
    have hthreshold := hw1.threshold
    rw [← hthreshold, Nat.zero_add] at hcounting
    cases hlast
    exact recordFailure_opens hw1.intact (by omega) hroom (by omega) hcounting
  have hkept : statsOf ext w.manager tool = some stats :=
    (statsOf_run_other hfitsAfter hother hafter).trans hstats
  have hsince := hw.since stats hkept hopen
  refine ⟨stats, stats.lastStateChange, hkept, hopen, hsince, fun hnow => ?_⟩
  refine canProceed_of_open hw.intact hkept hopen ?_ hnow
  rcases hfitsNow with hfail | hfitsNow
  · cases hfail
  · exact hfitsNow stats hkept hopen

/-- Three failures in a row at a threshold of three, with another tool's calls around them. -/
theorem circuit_opens_and_stays_open_third_failure :
    ∃ w0 w, run (watch plainExternals "sh") ⟨withConfig 3 2 30 1, none⟩
        [.recordSuccess "ls" (.ok 900)] = some w0 ∧
      run (watch plainExternals "sh") w0
        ([.recordFailure "sh" (.ok 998), .recordFailure "Sh" (.ok 999)] ++
          .recordFailure "sh" (.ok 1000) :: [.canProceed "ls" (.ok 1001) (.ok 1001)]) = some w ∧
      ∃ reason, canProceed plainExternals w.manager "sh" (.ok 1029) (.ok 1029)
        = (w.manager, some (.error reason)) := by
  have hrun : ∃ w0 ∈ run (watch plainExternals "sh") ⟨withConfig 3 2 30 1, none⟩
        [Call.recordSuccess "ls" (.ok 900)],
      ∃ w ∈ run (watch plainExternals "sh") w0
        ([Call.recordFailure "sh" (.ok 998), Call.recordFailure "Sh" (.ok 999)] ++
          Call.recordFailure "sh" (.ok 1000) :: [Call.canProceed "ls" (.ok 1001) (.ok 1001)]),
      w.openedAt = some 1000 ∧
      (∀ stats ∈ statsOf plainExternals w.manager "sh",
        effectiveOpenDuration w.manager stats = 30) ∧
      EachStep (watch plainExternals "sh") (fun w c _ => Fits plainExternals w.manager c)
        ⟨withConfig 3 2 30 1, none⟩ ([Call.recordSuccess "ls" (.ok 900)] ++
        ([Call.recordFailure "sh" (.ok 998), Call.recordFailure "Sh" (.ok 999)] ++
          Call.recordFailure "sh" (.ok 1000) :: [Call.canProceed "ls" (.ok 1001) (.ok 1001)])) ∧
      Fits plainExternals w.manager (.canProceed "sh" (.ok 1029) (.ok 1029)) ∧
      EachStep (watch plainExternals "sh")
        (fun w c _ => Recorded plainExternals w.manager "sh" c) w0
        ([Call.recordFailure "sh" (.ok 998), Call.recordFailure "Sh" (.ok 999)] ++
          Call.recordFailure "sh" (.ok 1000) :: [Call.canProceed "ls" (.ok 1001) (.ok 1001)]) := by
    decide +kernel
  obtain ⟨w0, hw0, w, hw, hopened, heff, hfits, hfitsNow, hrecorded⟩ := hrun
  refine ⟨w0, w, hw0, hw, ?_⟩
  obtain ⟨-, stats, since, hstats, -, hsince, hrefused⟩ :=
    circuit_opens_and_stays_open plainExternals 3 2 30 1 "sh" _ _ _ (.ok 1000) (.ok 1029) (.ok 1029)
      w0 w hw0 hw (by decide +kernel) (by decide +kernel) (by decide +kernel) hfits hfitsNow
      hrecorded
  refine hrefused fun n hn => ?_
  cases hn
  cases hopened.symm.trans hsince
  rw [heff stats hstats]
  decide

/-! ### What the conditions exclude -/

/-- **A full table drops failures.**  However many are recorded, the tool is let through. -/
theorem dropped_failures_leave_tool_open (hintact : m.poisoned = false)
    (hfull : atCapacity ext m tool = true) (clocks : List Clock) (now nowAgain : Clock) :
    clocks.foldl (fun m now => (recordFailure ext m tool now).1) m = m ∧
      canProceed ext m tool now nowAgain = (m, some (.ok ())) := by
  have hnone : statsOf ext m tool = none := by
    rw [atCapacity, Bool.and_eq_true] at hfull
    exact Option.isNone_iff_eq_none.mp hfull.2
  refine ⟨?_, ?_⟩
  · induction clocks with
    | nil => rfl
    | cons clock clocks ih =>
      have hsame : (recordFailure ext m tool clock).1 = m := by
        unfold recordFailure
        rw [hintact, hfull]
        rfl
      rw [List.foldl_cons, hsame, ih]
  · unfold canProceed checkRead
    rw [hintact, hnone]
    rfl

/-- The names `a`, `aa`, `aaa`, … -/
def toolName (n : Nat) : String := String.ofList (List.replicate (n + 1) 'a')

theorem toolName_injective : Function.Injective toolName := by
  intro i j hij
  have hlen := congrArg (fun s : String => s.toList.length) hij
  simp only [toolName, String.toList_ofList, List.length_replicate] at hlen
  omega

theorem normalizeFull_toolName (n : Nat) :
    plainExternals.normalizeFull (toolName n) = toolName n := by
  have hascii : IsAsciiText (toolName n).toList := by
    intro c hc
    rw [toolName, String.toList_ofList] at hc
    rw [List.eq_of_mem_replicate hc]
    decide
  have hlower : plainExternals.normalizeFull (toolName n) = toAsciiLowercase (toolName n) :=
    normalizeFull_ascii (fun _ _ => rfl) _ _ hascii
  rw [hlower, toAsciiLowercase, toolName, String.toList_ofList, List.map_replicate]
  rfl

/-- One call for each of `n` tools. -/
def fillTable (n : Nat) : List Call :=
  (List.range n).map fun i => .recordSuccess (toolName i) (.ok 0)

theorem fillTable_succ (n : Nat) :
    fillTable (n + 1) = fillTable n ++ [Call.recordSuccess (toolName n) (.ok 0)] := by
  rw [fillTable, List.range_succ, List.map_append]
  rfl

/-- As long as there is room, each of the tools gets an entry. -/
theorem run_fillTable {n : Nat} (hn : n ≤ maxTrackedCircuits) :
    ∃ w, run (watch plainExternals "sh") ⟨withConfig 1 1 30 1, none⟩ (fillTable n) = some w ∧
      w.manager.poisoned = false ∧ w.manager.circuits.keys.length = n ∧
      ∀ key ∈ w.manager.circuits.keys, ∃ i < n, key = toolName i := by
  induction n with
  | zero => exact ⟨_, rfl, rfl, rfl, fun key hkey => by cases hkey⟩
  | succ n ih =>
    obtain ⟨w, hrun, hintact, hlen, hkeys⟩ := ih (by omega)
    have hfresh : toolName n ∉ w.manager.circuits.keys := by
      intro hmem
      obtain ⟨i, hi, heq⟩ := hkeys _ hmem
      have := toolName_injective heq
      omega
    have hset : (perform plainExternals w.manager (.recordSuccess (toolName n) (.ok 0))).1 =
        setStats plainExternals w.manager (toolName n) (freshStats 0) := by
      have hnone : statsOf plainExternals w.manager (toolName n) = none := by
        rw [statsOf, normalizeFull_toolName]
        exact AList.lookup_eq_none.mpr hfresh
      have hroom : atCapacity plainExternals w.manager (toolName n) = false := by
        have hlt : ¬ maxTrackedCircuits ≤ w.manager.circuits.keys.length := by omega
        rw [atCapacity, decide_eq_false hlt, Bool.false_and]
      unfold perform recordSuccess
      simp only [hintact, hroom, hnone]
      rfl
    have hkeys' : (setStats plainExternals w.manager (toolName n) (freshStats 0)).circuits.keys =
        toolName n :: w.manager.circuits.keys := by
      rw [setStats, normalizeFull_toolName, AList.keys_insert, List.erase_of_not_mem hfresh]
    obtain ⟨w', hstep, hmanager⟩ : ∃ w', watch plainExternals "sh" w
        (.recordSuccess (toolName n) (.ok 0)) = some w' ∧
        w'.manager = setStats plainExternals w.manager (toolName n) (freshStats 0) :=
      ⟨_, rfl, hset⟩
    refine ⟨w', ?_, ?_, ?_, ?_⟩
    · rw [fillTable_succ]
      exact run_append_eq_some.mpr ⟨w, hrun, run_cons_eq_some.mpr ⟨w', hstep, rfl⟩⟩
    · rw [hmanager]
      exact hintact
    · rw [hmanager, hkeys', List.length_cons, hlen]
    · intro key hkey
      rw [hmanager, hkeys'] at hkey
      rcases List.mem_cons.mp hkey with rfl | hkey
      · exact ⟨n, Nat.lt_succ_self n, rfl⟩
      · obtain ⟨i, hi, heq⟩ := hkeys key hkey
        exact ⟨i, Nat.lt_succ_of_lt hi, heq⟩

/-- Ten thousand tools are tracked; a further one fails, reaches the threshold of one failure, and is
    let through a second later, though circuits stay open for thirty. -/
theorem full_table_lets_failing_tool_through :
    ∃ w, run (watch plainExternals "sh") ⟨withConfig 1 1 30 1, none⟩
        (fillTable 10000 ++ [.recordFailure "sh" (.ok 1000)]) = some w ∧
      (canProceed plainExternals w.manager "sh" (.ok 1001) (.ok 1001)).2 = some (.ok ()) := by
  obtain ⟨w, hrun, hintact, hlen, hkeys⟩ := run_fillTable (Nat.le_refl maxTrackedCircuits)
  have hnone : statsOf plainExternals w.manager "sh" = none := by
    have hkey : plainExternals.normalizeFull "sh" = "sh" := by decide +kernel
    rw [statsOf, hkey]
    refine AList.lookup_eq_none.mpr fun hmem => ?_
    obtain ⟨i, -, heq⟩ := hkeys _ hmem
    have hhead := congrArg (fun s : String => s.toList.head?) heq
    simp only [toolName, String.toList_ofList, List.replicate_succ, List.head?_cons] at hhead
    exact absurd hhead (by decide)
  have hfull : atCapacity plainExternals w.manager "sh" = true := by
    rw [atCapacity, hnone, decide_eq_true (Nat.le_of_eq hlen.symm)]
    rfl
  obtain ⟨hdropped, hok⟩ :=
    dropped_failures_leave_tool_open hintact hfull [.ok 1000] (.ok 1001) (.ok 1001)
  have hlast : watch plainExternals "sh" w (.recordFailure "sh" (.ok 1000)) = some _ := rfl
  refine ⟨_, run_append_eq_some.mpr ⟨w, hrun, run_cons_eq_some.mpr ⟨_, hlast, run_nil _⟩⟩, ?_⟩
  have hsame : (perform plainExternals w.manager (.recordFailure "sh" (.ok 1000))).1 = w.manager :=
    hdropped
  simp only [hsame, hok]

/-- With the longest open duration the time of the next try does not fit, and the check panics. -/
theorem longest_open_duration_panics :
    ∃ w ∈ run (watch plainExternals "sh") ⟨withConfig 1 1 0xFFFFFFFFFFFFFFFF 1, none⟩
        [.recordFailure "sh" (.ok 1000)],
      w.openedAt = some 1000 ∧
      (canProceed plainExternals w.manager "sh" (.ok 1001) (.ok 1001)).2 = none := by
  decide +kernel

end Vellaveto.CircuitBreaker
