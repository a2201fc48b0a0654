/-
  CONTAGION: taint that tool responses leave behind in a session
  (`vellaveto-engine/src/contagion.rs`).

  PROGRAM.  `ContagionTracker` keeps a list of at most `maxTaintEntries` taints, each with the
  trust floor it imposes, and clears it on declassification or, in decay mode, after enough clean
  actions.  The effective floor is the strictest of the kept ones; a privileged sink is blocked
  when that floor is below what the sink requires.

  SPEC.  `Ledger` is what the tracker stands for: EVERY taint recorded since the last clear, with
  an unbounded clean streak.  `KeepsStrictest` says that the tracker's answers are at least as
  strict as every pending taint of the ledger demands.

  CORRECTNESS.
    1. The saturating streak of the source triggers the decay exactly when the unbounded one does
       (`streak_reaches_iff`), so tracker and ledger clear together.
    2. A call keeps `KeepsStrictest` exactly when the taint it records is not DROPPED while stricter
       than what is kept (`step_keepsStrictest_iff`): a full list drops every later taint.
    3. `contagion_keeps_strictest_iff` lifts this to every state of every run.

  A tool name that is cut inside a UTF-8 character panics in the source; `none` stands for that.
-/
import Mathlib.Data.List.MinMax
import Vellaveto.Lib.Run
import Vellaveto.Lib.Text
import Vellaveto.Types.Provenance

namespace Vellaveto.Contagion

open Vellaveto.Lib

/-! ## The tracker -/

/-- How taint goes away. -/
inductive ContagionMode where
  | sessionPersistent
  | decayAfterClean (threshold : UInt32)
  | explicitClearOnly
deriving DecidableEq, Repr

/-- `ContagionTaintType`. -/
inductive ContagionTaintType where
  | injectionDetected
  | dlpFinding
  | schemaPoisoning
  | memoryPoisoning
  | outputContractViolation
  | trustDowngrade
  | sourceClassUntrusted
  | sourceClassUnknown
deriving DecidableEq, Repr

/-- `ContagionTaintType::trust_floor`. -/
def ContagionTaintType.trustFloor : ContagionTaintType → TrustTier
  | .injectionDetected => .quarantined
  | .dlpFinding => .low
  | .schemaPoisoning => .quarantined
  | .memoryPoisoning => .quarantined
  | .outputContractViolation => .untrusted
  | .trustDowngrade => .low
  | .sourceClassUntrusted => .untrusted
  | .sourceClassUnknown => .low

structure TaintEntry where
  sourceTool : String
  taintType : ContagionTaintType
  trustFloor : TrustTier
deriving DecidableEq, Repr

/-- `ContagionVerdict`. -/
inductive ContagionVerdict where
  | clean
  | tainted (trustFloor : TrustTier) (activeTaintCount : Nat) (sources : List String)
deriving DecidableEq, Repr

/-- Most taint entries a session keeps. -/
def maxTaintEntries : Nat := 256

structure ContagionTracker where
  mode : ContagionMode
  activeTaints : List TaintEntry
  cleanActionStreak : UInt32
  everTainted : Bool
deriving DecidableEq, Repr

namespace ContagionTracker

def new (mode : ContagionMode) : ContagionTracker := ⟨mode, [], 0, false⟩

/-- `record_taint`: a full list takes no further entry. -/
def recordTaint (t : ContagionTracker) (sourceTool : String) (taintType : ContagionTaintType) :
    Option ContagionTracker :=
  let t := { t with everTainted := true, cleanActionStreak := 0 }
  if t.activeTaints.length < maxTaintEntries then do
    let name ← sliceTo sourceTool (min sourceTool.utf8ByteSize 256)
    some { t with activeTaints := t.activeTaints ++ [⟨name, taintType, taintType.trustFloor⟩] }
  else some t

/-- `u32::saturating_add(1)`. -/
def saturatingSucc (n : UInt32) : UInt32 := if n = 0xFFFFFFFF then n else n + 1

/-- `record_clean_action`. -/
def recordCleanAction (t : ContagionTracker) : ContagionTracker :=
  let t := { t with cleanActionStreak := saturatingSucc t.cleanActionStreak }
  match t.mode with
  | .decayAfterClean threshold =>
    if threshold ≤ t.cleanActionStreak then { t with activeTaints := [] } else t
  | _ => t

/-- `declassify`. -/
def declassify (t : ContagionTracker) : ContagionTracker := { t with activeTaints := [] }

/-- `record_source_response`: sources below `Low` taint the session on every response. -/
def recordSourceResponse (t : ContagionTracker) (sourceTool : String) (sourceTrust : TrustTier) :
    Option ContagionTracker :=
  match sourceTrust with
  | .untrusted | .quarantined => t.recordTaint sourceTool .sourceClassUntrusted
  | .unknown => t.recordTaint sourceTool .sourceClassUnknown
  | _ => some t

/-- The strictest kept floor: `min_by_key` over the ranks, the first one on a tie. -/
def strictest (t : ContagionTracker) : Option TrustTier :=
  (t.activeTaints.map TaintEntry.trustFloor).argmin TrustTier.rank

/-- `effective_trust_floor`. -/
def effectiveTrustFloor (t : ContagionTracker) : TrustTier := t.strictest.getD .verified

/-- `should_block_privileged_sink`. -/
def shouldBlockPrivilegedSink (t : ContagionTracker) (sink : SinkClass) : Bool :=
  if t.activeTaints.isEmpty then false
  else (t.strictest.getD .untrusted).rank < (minimumTrustTierForSink sink).rank

/-- The first ten distinct sources, in order. -/
def sources (t : ContagionTracker) : List String :=
  t.activeTaints.foldl (fun seen e =>
    if !seen.contains e.sourceTool && seen.length < 10 then seen ++ [e.sourceTool] else seen) []

/-- `check`. -/
def check (t : ContagionTracker) : ContagionVerdict :=
  if t.activeTaints.isEmpty then .clean
  else .tainted (t.strictest.getD .untrusted) t.activeTaints.length t.sources

end ContagionTracker

/-- A call that changes the tracker. -/
inductive Op where
  | recordTaint (sourceTool : String) (taintType : ContagionTaintType)
  | recordSourceResponse (sourceTool : String) (sourceTrust : TrustTier)
  | recordCleanAction
  | declassify
deriving DecidableEq, Repr

/-- Perform one call. -/
def ContagionTracker.apply (t : ContagionTracker) : Op → Option ContagionTracker
  | .recordTaint tool taint => t.recordTaint tool taint
  | .recordSourceResponse tool trust => t.recordSourceResponse tool trust
  | .recordCleanAction => some t.recordCleanAction
  | .declassify => some t.declassify

/-! ## The ledger: what the tracker stands for -/

/-- Every taint recorded since the last clear, and the clean actions since the last taint. -/
structure Ledger where
  pending : List ContagionTaintType
  cleanStreak : Nat
deriving DecidableEq, Repr

def Ledger.empty : Ledger := ⟨[], 0⟩

/-- The taint a call records, if it records one. -/
def Op.recorded : Op → Option ContagionTaintType
  | .recordTaint _ taint => some taint
  | .recordSourceResponse _ .untrusted | .recordSourceResponse _ .quarantined =>
    some .sourceClassUntrusted
  | .recordSourceResponse _ .unknown => some .sourceClassUnknown
  | _ => none

/-- Does a clean streak of this length clear the session's taint? -/
def ContagionMode.ClearsAt (mode : ContagionMode) (streak : Nat) : Prop :=
  ∃ threshold, mode = .decayAfterClean threshold ∧ threshold.toNat ≤ streak

instance (mode : ContagionMode) (streak : Nat) : Decidable (mode.ClearsAt streak) :=
  match mode with
  | .decayAfterClean threshold =>
    decidable_of_iff (threshold.toNat ≤ streak) (by simp [ContagionMode.ClearsAt])
  | .sessionPersistent => .isFalse (by simp [ContagionMode.ClearsAt])
  | .explicitClearOnly => .isFalse (by simp [ContagionMode.ClearsAt])

/-- One call on the ledger. -/
def Ledger.apply (mode : ContagionMode) (l : Ledger) (op : Op) : Ledger :=
  match op with
  | .declassify => { l with pending := [] }
  | .recordCleanAction =>
    if mode.ClearsAt (l.cleanStreak + 1) then ⟨[], l.cleanStreak + 1⟩
    else { l with cleanStreak := l.cleanStreak + 1 }
  | op =>
    match op.recorded with
    | some taint => ⟨l.pending ++ [taint], 0⟩
    | none => l

/-- A tracker with the ledger of the calls made on it. -/
abbrev State := ContagionTracker × Ledger

/-- Tracker and ledger move in lockstep. -/
def step (s : State) (op : Op) : Option State :=
  (s.1.apply op).map fun t => (t, s.2.apply s.1.mode op)

def initial (mode : ContagionMode) : State := (ContagionTracker.new mode, Ledger.empty)

/-- The tracker is at least as strict as every pending taint demands. -/
structure KeepsStrictest (s : State) : Prop where
  floorLe : ∀ taint ∈ s.2.pending, s.1.effectiveTrustFloor.rank ≤ taint.trustFloor.rank
  blocks : ∀ sink, ∀ taint ∈ s.2.pending,
    taint.trustFloor.rank < (minimumTrustTierForSink sink).rank →
    s.1.shouldBlockPrivilegedSink sink = true

/-- The call records no taint, or the list has room for it, or what is kept is as strict. -/
def NotDropped (t : ContagionTracker) (op : Op) : Prop :=
  ∀ taint, op.recorded = some taint →
    t.activeTaints.length < maxTaintEntries ∨
      t.effectiveTrustFloor.rank ≤ taint.trustFloor.rank

/-! ## The effective floor -/

section Floor

variable {t t' : ContagionTracker}

/-- An entry pushed onto the list lowers the floor to its own, if that is lower. -/
theorem rank_effectiveTrustFloor_push {e : TaintEntry}
    (hpush : t'.activeTaints = t.activeTaints ++ [e]) :
    t'.effectiveTrustFloor.rank = min t.effectiveTrustFloor.rank e.trustFloor.rank := by
  have hconcat : t'.strictest = ((t.activeTaints.map TaintEntry.trustFloor) ++
      [e.trustFloor]).argmin TrustTier.rank := by
    rw [ContagionTracker.strictest, hpush, List.map_append, List.map_singleton]
  rw [ContagionTracker.effectiveTrustFloor, hconcat, List.argmin_concat]
  cases hmin : t.strictest with
  | none =>
    have hfloor : t.effectiveTrustFloor = .verified := by
      rw [ContagionTracker.effectiveTrustFloor, hmin]; rfl
    rw [ContagionTracker.strictest] at hmin
    rw [hmin, hfloor, Nat.min_eq_right (TrustTier.rank_le_verified _)]
    rfl
  | some c =>
    have hfloor : t.effectiveTrustFloor = c := by
      rw [ContagionTracker.effectiveTrustFloor, hmin]; rfl
    rw [ContagionTracker.strictest] at hmin
    rw [hmin, hfloor]
    show (Option.getD (if e.trustFloor.rank < c.rank then some e.trustFloor else some c)
      .verified).rank = min c.rank e.trustFloor.rank
    split
    · rename_i hlt
      rw [Option.getD_some, Nat.min_eq_right (Nat.le_of_lt hlt)]
    · rename_i hge
      rw [Option.getD_some, Nat.min_eq_left (Nat.le_of_not_lt hge)]

theorem effectiveTrustFloor_of_nil (hnil : t.activeTaints = []) :
    t.effectiveTrustFloor = .verified := by
  rw [ContagionTracker.effectiveTrustFloor, ContagionTracker.strictest, hnil]
  rfl

/-- On a tainted session both defaults of the source are out of play: blocking and checking read
    the effective floor. -/
theorem strictest_getD_of_ne_nil (hne : t.activeTaints ≠ []) (d : TrustTier) :
    t.strictest.getD d = t.effectiveTrustFloor := by
  cases hmin : t.strictest with
  | none =>
    rw [ContagionTracker.strictest, List.argmin_eq_none, List.map_eq_nil_iff] at hmin
    exact absurd hmin hne
  | some c => rw [ContagionTracker.effectiveTrustFloor, hmin]; rfl

/-- A sink is blocked exactly when it requires more than the effective floor of a tainted
    session. -/
theorem shouldBlockPrivilegedSink_iff {sink : SinkClass} :
    t.shouldBlockPrivilegedSink sink = true ↔
      t.activeTaints ≠ [] ∧
        t.effectiveTrustFloor.rank < (minimumTrustTierForSink sink).rank := by
  by_cases hnil : t.activeTaints = []
  · simp [ContagionTracker.shouldBlockPrivilegedSink, hnil]
  · simp [ContagionTracker.shouldBlockPrivilegedSink, hnil, strictest_getD_of_ne_nil hnil]

/-- `check` reports the effective floor of a tainted session. -/
theorem check_of_ne_nil (hne : t.activeTaints ≠ []) :
    t.check = .tainted t.effectiveTrustFloor t.activeTaints.length t.sources := by
  simp [ContagionTracker.check, hne, strictest_getD_of_ne_nil hne]

/-- A taint imposes a floor below the default of a clean session. -/
theorem trustFloor_rank_lt_verified (taint : ContagionTaintType) :
    taint.trustFloor.rank < TrustTier.verified.rank := by
  cases taint <;> decide

/-- The bound on the floor already carries the blocking of sinks. -/
theorem keepsStrictest_iff {s : State} :
    KeepsStrictest s ↔
      ∀ taint ∈ s.2.pending, s.1.effectiveTrustFloor.rank ≤ taint.trustFloor.rank := by
  refine ⟨KeepsStrictest.floorLe, fun hfloor => ⟨hfloor, fun sink taint htaint hbelow => ?_⟩⟩
  have hle := hfloor taint htaint
  refine shouldBlockPrivilegedSink_iff.mpr ⟨fun hnil => ?_, by omega⟩
  -- an empty list would put the floor at `Verified`, above every taint's
  have hlt := trustFloor_rank_lt_verified taint
  rw [effectiveTrustFloor_of_nil hnil] at hle
  omega

end Floor

/-! ## What the calls do -/

section Calls

variable {t t' : ContagionTracker} {op : Op} {taint : ContagionTaintType}

/-- Everything `record_taint` does when it returns. -/
theorem recordTaint_eq_some {tool : String} (h : t.recordTaint tool taint = some t') :
    t'.mode = t.mode ∧ t'.cleanActionStreak = 0 ∧
      ((t.activeTaints.length < maxTaintEntries ∧ ∃ name,
          sliceTo tool (min tool.utf8ByteSize 256) = some name ∧
          t'.activeTaints = t.activeTaints ++ [⟨name, taint, taint.trustFloor⟩]) ∨
        (¬ t.activeTaints.length < maxTaintEntries ∧ t'.activeTaints = t.activeTaints)) := by
  rw [ContagionTracker.recordTaint] at h
  by_cases hroom : t.activeTaints.length < maxTaintEntries
  · rw [if_pos hroom] at h
    obtain ⟨name, hslice, hname⟩ := Option.bind_eq_some_iff.mp h
    cases hname
    exact ⟨rfl, rfl, Or.inl ⟨hroom, name, hslice, rfl⟩⟩
  · rw [if_neg hroom] at h
    cases h
    exact ⟨rfl, rfl, Or.inr ⟨hroom, rfl⟩⟩

/-- A call that records a taint is a `record_taint`. -/
theorem apply_of_recorded (hrec : op.recorded = some taint) :
    ∃ tool, t.apply op = t.recordTaint tool taint := by
  cases op with
  | recordTaint tool taint' => cases hrec; exact ⟨tool, rfl⟩
  | recordSourceResponse tool trust => cases trust <;> cases hrec <;> exact ⟨tool, rfl⟩
  | recordCleanAction => cases hrec
  | declassify => cases hrec

/-- On the ledger the recorded taint is appended. -/
theorem ledger_apply_of_recorded {mode : ContagionMode} {l : Ledger}
    (hrec : op.recorded = some taint) : l.apply mode op = ⟨l.pending ++ [taint], 0⟩ := by
  cases op with
  | recordTaint tool taint' => cases hrec; rfl
  | recordSourceResponse tool trust => cases trust <;> cases hrec <;> rfl
  | recordCleanAction => cases hrec
  | declassify => cases hrec

/-- The saturating counter follows the unbounded one. -/
def StreakOk (s : State) : Prop :=
  s.1.cleanActionStreak.toNat = min s.2.cleanStreak (2 ^ 32 - 1)

/-- **Saturation does not matter**: no threshold of the source's type lies above the saturation
    point, so the bounded streak reaches it exactly when the unbounded one does. -/
theorem streak_reaches_iff {threshold streak : UInt32} {n : Nat}
    (hstreak : streak.toNat = min n (2 ^ 32 - 1)) :
    threshold ≤ streak ↔ threshold.toNat ≤ n := by
  have hlt : threshold.toNat < 2 ^ 32 := threshold.toNat_lt
  rw [UInt32.le_iff_toNat_le, hstreak]
  omega

theorem toNat_saturatingSucc {streak : UInt32} {n : Nat}
    (hstreak : streak.toNat = min n (2 ^ 32 - 1)) :
    (ContagionTracker.saturatingSucc streak).toNat = min (n + 1) (2 ^ 32 - 1) := by
  have hlt : streak.toNat < 2 ^ 32 := streak.toNat_lt
  unfold ContagionTracker.saturatingSucc
  split
  · rename_i hmax
    have hval : streak.toNat = 2 ^ 32 - 1 := by rw [hmax]; rfl
    omega
  · rename_i hmax
    have hval : streak.toNat ≠ 2 ^ 32 - 1 := fun h => hmax (UInt32.toNat_inj.mp h)
    rw [UInt32.toNat_add, Nat.mod_eq_of_lt]
    · show streak.toNat + 1 = _
      omega
    · show streak.toNat + 1 < 2 ^ 32
      omega

/-- A clean action clears the tracker's list exactly when it clears the ledger. -/
theorem recordCleanAction_activeTaints {l : Ledger} (hstreak : StreakOk (t, l)) :
    t.recordCleanAction.activeTaints =
      if t.mode.ClearsAt (l.cleanStreak + 1) then [] else t.activeTaints := by
  have hnext := toNat_saturatingSucc hstreak
  unfold ContagionTracker.recordCleanAction
  cases hmode : t.mode with
  | sessionPersistent => rw [if_neg (by simp [ContagionMode.ClearsAt])]
  | explicitClearOnly => rw [if_neg (by simp [ContagionMode.ClearsAt])]
  | decayAfterClean threshold =>
    have hclears : (ContagionMode.decayAfterClean threshold).ClearsAt (l.cleanStreak + 1) ↔
        threshold ≤ ContagionTracker.saturatingSucc t.cleanActionStreak := by
      rw [streak_reaches_iff hnext]
      simp [ContagionMode.ClearsAt]
    simp only [hclears]
    split <;> rfl

theorem recordCleanAction_cleanActionStreak :
    t.recordCleanAction.cleanActionStreak =
      ContagionTracker.saturatingSucc t.cleanActionStreak := by
  unfold ContagionTracker.recordCleanAction
  cases t.mode with
  | sessionPersistent => rfl
  | explicitClearOnly => rfl
  | decayAfterClean threshold =>
    dsimp only
    split <;> rfl

end Calls

/-! ## One step -/

/-- The streaks stay in step. -/
theorem step_streakOk (s : State) (op : Op) (s' : State) (hstreak : StreakOk s)
    (hstep : step s op = some s') : StreakOk s' := by
  obtain ⟨t, l⟩ := s
  obtain ⟨t', ht', rfl⟩ := Option.map_eq_some_iff.mp hstep
  cases hrec : op.recorded with
  | some taint =>
    obtain ⟨tool, happly⟩ := apply_of_recorded (t := t) hrec
    rw [happly] at ht'
    obtain ⟨-, hzero, -⟩ := recordTaint_eq_some ht'
    show t'.cleanActionStreak.toNat = min (l.apply t.mode op).cleanStreak _
    rw [ledger_apply_of_recorded hrec, hzero]
    rfl
  | none =>
    cases op with
    | recordTaint tool taint => cases hrec
    | recordSourceResponse tool trust =>
      cases trust <;> cases hrec <;> cases ht' <;> exact hstreak
    | recordCleanAction =>
      cases ht'
      have hledger : (l.apply t.mode .recordCleanAction).cleanStreak = l.cleanStreak + 1 := by
        rw [Ledger.apply]
        split <;> rfl
      show t.recordCleanAction.cleanActionStreak.toNat = _
      rw [hledger, recordCleanAction_cleanActionStreak]
      exact toNat_saturatingSucc hstreak
    | declassify =>
      cases ht'
      exact hstreak

/-- **One step.**  From a state as strict as its ledger, a call leads to such a state exactly when
    it does not drop a taint stricter than what is kept. -/
theorem step_keepsStrictest_iff (s : State) (op : Op) (s' : State) (hstreak : StreakOk s)
    (hkeeps : KeepsStrictest s) (hstep : step s op = some s') :
    KeepsStrictest s' ↔ NotDropped s.1 op := by
  obtain ⟨t, l⟩ := s
  obtain ⟨t', ht', rfl⟩ := Option.map_eq_some_iff.mp hstep
  rw [keepsStrictest_iff] at hkeeps ⊢
  cases hrec : op.recorded with
  | some taint =>
    obtain ⟨tool, happly⟩ := apply_of_recorded (t := t) hrec
    rw [happly] at ht'
    have hdrop : NotDropped t op ↔ t.activeTaints.length < maxTaintEntries ∨
        t.effectiveTrustFloor.rank ≤ taint.trustFloor.rank := by
      simp only [NotDropped, hrec, Option.some.injEq, forall_eq']
    simp only [ledger_apply_of_recorded hrec, hdrop]
    obtain ⟨-, -, ⟨hroom, name, -, hpush⟩ | ⟨hfull, hsame⟩⟩ := recordTaint_eq_some ht'
    · -- room: the floor drops to the new taint's, if that is lower
      refine iff_of_true (fun taint' hmem => ?_) (Or.inl hroom)
      rw [rank_effectiveTrustFloor_push hpush]
      rcases List.mem_append.mp hmem with hold | hnew
      · exact Nat.le_trans (Nat.min_le_left _ _) (hkeeps taint' hold)
      · rw [List.mem_singleton.mp hnew]
        exact Nat.min_le_right _ _
    · -- full: the floor stays, so the new taint is covered only if it was already
      have hfloor : t'.effectiveTrustFloor = t.effectiveTrustFloor := by
        rw [ContagionTracker.effectiveTrustFloor, ContagionTracker.effectiveTrustFloor,
          ContagionTracker.strictest, ContagionTracker.strictest, hsame]
      rw [hfloor]
      constructor
      · intro hall
        exact Or.inr (hall taint (List.mem_append_right _ List.mem_cons_self))
      · intro hcov taint' hmem
        rcases List.mem_append.mp hmem with hold | hnew
        · exact hkeeps taint' hold
        · rw [List.mem_singleton.mp hnew]
          exact hcov.resolve_left hfull
  | none =>
    have hdrop : NotDropped t op := by
      intro taint htaint
      rw [hrec] at htaint
      cases htaint
    refine iff_of_true ?_ hdrop
    cases op with
    | recordTaint tool taint => cases hrec
    | recordSourceResponse tool trust =>
      cases trust <;> cases hrec <;> cases ht' <;> exact hkeeps
    | recordCleanAction =>
      cases ht'
      have hactive := recordCleanAction_activeTaints hstreak
      intro taint hmem
      by_cases hclears : t.mode.ClearsAt (l.cleanStreak + 1)
      · simp only [Ledger.apply, if_pos hclears, List.not_mem_nil] at hmem
      · simp only [Ledger.apply, if_neg hclears] at hmem
        rw [if_neg hclears] at hactive
        rw [ContagionTracker.effectiveTrustFloor, ContagionTracker.strictest, hactive]
        exact hkeeps taint hmem
    | declassify =>
      cases ht'
      intro taint hmem
      cases hmem

/-! ## Whole runs -/

theorem initial_keepsStrictest (mode : ContagionMode) : KeepsStrictest (initial mode) :=
  keepsStrictest_iff.mpr fun taint hmem => by cases hmem

/-- **Contagion along a run.**  For every mode and every sequence of calls: every state of the run
    is at least as strict as each taint recorded since the last clear demands EXACTLY WHEN no call
    of the run drops a taint that is stricter than everything the full list keeps. -/
theorem contagion_keeps_strictest_iff (mode : ContagionMode) (ops : List Op) :
    EachStep step (fun _ _ s' => KeepsStrictest s') (initial mode) ops ↔
      EachStep step (fun s op _ => NotDropped s.1 op) (initial mode) ops :=
  eachStep_iff step_streakOk step_keepsStrictest_iff rfl (initial_keepsStrictest mode)

/-- **A full list forgets what comes later.**  After 256 `DlpFinding` taints an injection is not
    kept: the effective floor stays `Low` although a pending taint demands `Quarantined`, and a
    low-risk write, which needs `Low`, is let through. -/
theorem contagion_drops_injection_when_full :
    ∃ s, run step (initial .sessionPersistent)
        (List.replicate 256 (.recordTaint "tool" .dlpFinding) ++
          [.recordTaint "tool" .injectionDetected]) = some s ∧
      .injectionDetected ∈ s.2.pending ∧
      s.1.effectiveTrustFloor = .low ∧
      s.1.shouldBlockPrivilegedSink .lowRiskWrite = false ∧
      ¬ KeepsStrictest s := by
  have hrun : (run step (initial .sessionPersistent)
        (List.replicate 256 (.recordTaint "tool" .dlpFinding) ++
          [.recordTaint "tool" .injectionDetected])).map
      (fun s => (decide (.injectionDetected ∈ s.2.pending), s.1.effectiveTrustFloor,
        s.1.shouldBlockPrivilegedSink .lowRiskWrite)) = some (true, .low, false) := by
    decide +kernel
  obtain ⟨s, hs, hfacts⟩ := Option.map_eq_some_iff.mp hrun
  simp only [Prod.mk.injEq, decide_eq_true_eq] at hfacts
  obtain ⟨hmem, hfloor, hblock⟩ := hfacts
  refine ⟨s, hs, hmem, hfloor, hblock, fun hkeeps => ?_⟩
  have hle := hkeeps.floorLe _ hmem
  rw [hfloor] at hle
  exact absurd hle (by decide)

end Vellaveto.Contagion
