/-
  DENIAL OF WALLET (`vellaveto-engine/src/denial_of_wallet.rs`).

  The tracker watches the consumption of a session: its calls in the last minute, an A-B-A-B
  alternation of tools, the tokens and the duration.  Its two logs treat being full differently.
  The timestamps are the FIRST `MAX_WINDOW_ENTRIES` ones and nothing after them; the tool names are
  the LAST twenty.

  `RateSpike` is a function of the timestamps and the time of the call (`exists_rateSpike`),
  `RecursiveLoop` of the last four names (`mem_reported_recursiveLoop`).
-/
import Mathlib.Data.List.Basic
import Vellaveto.Lib.Report
import Vellaveto.Lib.Slice
import Vellaveto.Lib.Window

namespace Vellaveto.DenialOfWallet

open Vellaveto.Lib

/-- `MAX_WINDOW_ENTRIES`. -/
def maxWindowEntries : Nat := 1000

/-- `DoWType`. -/
inductive DoWType where
  | rateSpike
  | recursiveLoop
  | tokenExhaustion
  | sessionExhaustion
deriving DecidableEq

/-- `DoWFinding`. -/
structure DoWFinding where
  findingType : DoWType
  severity : Nat
  description : String
deriving DecidableEq

/-- The thresholds of a tracker. -/
structure DoWLimits where
  maxCallsPerMinute : Nat
  maxTokensPerSession : Nat
  maxSessionDurationMs : Nat

/-- `DoWTracker`. -/
structure DoWTracker where
  callTimestamps : List Nat
  recentTools : List String
  totalTokens : Nat
  sessionStartMs : Nat
  limits : DoWLimits

/-- `DoWTracker::new` at a time of the clock. -/
def DoWTracker.new (limits : DoWLimits) (now : Nat) : DoWTracker := ⟨[], [], 0, now, limits⟩

/-- The arguments of `record_call`, with the time at which it reads the clock. -/
structure DoWCall where
  toolName : String
  estimatedTokens : Nat
  nowMs : Nat
deriving DecidableEq

/-- The logged calls that are at most a minute old. -/
def callsLastMinute (now : Nat) (timestamps : List Nat) : Nat :=
  timestamps.countP fun t => now - 60000 ≤ t

/-- The rate check. -/
def checkRateSpike (t : DoWTracker) (now : Nat) : Option DoWFinding :=
  let calls := callsLastMinute now t.callTimestamps
  if t.limits.maxCallsPerMinute < calls then
    some {
      findingType := .rateSpike
      severity := 70
      description := toString calls ++ " calls in last minute (max " ++
        toString t.limits.maxCallsPerMinute ++ ")" }
  else none

/-- The A-B-A-B check, over the four last names. -/
def checkRecursiveLoop (recentTools : List String) : Option DoWFinding :=
  match recentTools.reverse with
  | last :: third :: second :: first :: _ =>
    if last = second ∧ third = first ∧ last ≠ third then
      some {
        findingType := .recursiveLoop
        severity := 85
        description := "Recursive loop: " ++ last ++ " ↔ " ++ third }
    else none
  | _ => none

/-- The token check. -/
def checkTokenExhaustion (t : DoWTracker) : Option DoWFinding :=
  if t.limits.maxTokensPerSession < t.totalTokens then
    some {
      findingType := .tokenExhaustion
      severity := 75
      description := toString t.totalTokens ++ " tokens consumed (max " ++
        toString t.limits.maxTokensPerSession ++ ")" }
  else none

/-- The duration check. -/
def checkSessionExhaustion (t : DoWTracker) (now : Nat) : Option DoWFinding :=
  let duration := now - t.sessionStartMs
  if t.limits.maxSessionDurationMs < duration then
    some {
      findingType := .sessionExhaustion
      severity := 60
      description := "Session running " ++ toString duration ++ "ms (max " ++
        toString t.limits.maxSessionDurationMs ++ "ms)" }
  else none

/-- `record_call`; it panics when byte 256 of the name is inside a character. -/
def recordCall (t : DoWTracker) (call : DoWCall) : Option (DoWTracker × List DoWFinding) :=
  (clipBytes 256 call.toolName).map fun shortName =>
    let t' : DoWTracker := { t with
      callTimestamps := pushUnlessFull maxWindowEntries t.callTimestamps call.nowMs
      recentTools := pushBounded 20 t.recentTools shortName
      totalTokens := min (t.totalTokens + call.estimatedTokens) (2 ^ 64 - 1) }
    (t', (checkRateSpike t' call.nowMs).toList ++ (checkRecursiveLoop t'.recentTools).toList ++
      (checkTokenExhaustion t').toList ++ (checkSessionExhaustion t' call.nowMs).toList)

/-! ## What a call reports -/

theorem checkRateSpike_type {t : DoWTracker} {now : Nat} {f : DoWFinding}
    (h : checkRateSpike t now = some f) : f.findingType = .rateSpike := by
  obtain ⟨_, hsome⟩ := Option.ite_none_right_eq_some.mp h
  cases hsome
  rfl

theorem checkRecursiveLoop_type {names : List String} {f : DoWFinding}
    (h : checkRecursiveLoop names = some f) : f.findingType = .recursiveLoop := by
  unfold checkRecursiveLoop at h
  split at h
  · obtain ⟨_, hsome⟩ := Option.ite_none_right_eq_some.mp h
    cases hsome
    rfl
  · cases h

theorem checkTokenExhaustion_type {t : DoWTracker} {f : DoWFinding}
    (h : checkTokenExhaustion t = some f) : f.findingType = .tokenExhaustion := by
  obtain ⟨_, hsome⟩ := Option.ite_none_right_eq_some.mp h
  cases hsome
  rfl

theorem checkSessionExhaustion_type {t : DoWTracker} {now : Nat} {f : DoWFinding}
    (h : checkSessionExhaustion t now = some f) : f.findingType = .sessionExhaustion := by
  obtain ⟨_, hsome⟩ := Option.ite_none_right_eq_some.mp h
  cases hsome
  rfl

/-- The name of a call in the log. -/
def shortName (call : DoWCall) : String := (clipBytes 256 call.toolName).getD ""

/-- What one call does: the limits stay, the two logs take the call each in its own way, and the
    findings are those of the four checks. -/
theorem recordCall_spec {t t' : DoWTracker} {call : DoWCall} {fs : List DoWFinding}
    (h : recordCall t call = some (t', fs)) :
    t'.limits = t.limits ∧
      t'.callTimestamps = pushUnlessFull maxWindowEntries t.callTimestamps call.nowMs ∧
      t'.recentTools = pushBounded 20 t.recentTools (shortName call) ∧
      ∀ f, f ∈ fs ↔ checkRateSpike t' call.nowMs = some f ∨
        checkRecursiveLoop t'.recentTools = some f ∨ checkTokenExhaustion t' = some f ∨
        checkSessionExhaustion t' call.nowMs = some f := by
  obtain ⟨name, hname, hresult⟩ := Option.map_eq_some_iff.mp h
  have hshort : shortName call = name := by rw [shortName, hname]; rfl
  cases hresult
  refine ⟨rfl, rfl, by rw [hshort], fun f => ?_⟩
  simp only [List.mem_append, Option.mem_toList, or_assoc]

/-- Of the findings of a call, those of type `RateSpike` are the rate check's. -/
theorem mem_rateSpike {t t' : DoWTracker} {call : DoWCall} {fs : List DoWFinding}
    (h : recordCall t call = some (t', fs)) {f : DoWFinding} (hf : f.findingType = .rateSpike) :
    f ∈ fs ↔ checkRateSpike t' call.nowMs = some f := by
  rw [(recordCall_spec h).2.2.2 f]
  refine ⟨?_, .inl⟩
  rintro (hrate | hloop | htokens | hsession)
  · exact hrate
  · cases hf.symm.trans (checkRecursiveLoop_type hloop)
  · cases hf.symm.trans (checkTokenExhaustion_type htokens)
  · cases hf.symm.trans (checkSessionExhaustion_type hsession)

/-- Of the findings of a call, those of type `RecursiveLoop` are the alternation check's. -/
theorem mem_recursiveLoop {t t' : DoWTracker} {call : DoWCall} {fs : List DoWFinding}
    (h : recordCall t call = some (t', fs)) {f : DoWFinding}
    (hf : f.findingType = .recursiveLoop) :
    f ∈ fs ↔ checkRecursiveLoop t'.recentTools = some f := by
  rw [(recordCall_spec h).2.2.2 f]
  refine ⟨?_, fun hloop => .inr (.inl hloop)⟩
  rintro (hrate | hloop | htokens | hsession)
  · cases hf.symm.trans (checkRateSpike_type hrate)
  · exact hloop
  · cases hf.symm.trans (checkTokenExhaustion_type htokens)
  · cases hf.symm.trans (checkSessionExhaustion_type hsession)

/-- The timestamps of a tracker that was fed these calls. -/
def timestampsOf (calls : List DoWCall) : List Nat :=
  (calls.map DoWCall.nowMs).take maxWindowEntries

/-- The tool names of a tracker that was fed these calls. -/
def toolsOf (calls : List DoWCall) : List String := (calls.map shortName).rtake 20

theorem run_logs {limits : DoWLimits} {start : Nat} {calls : List DoWCall}
    {r : DoWTracker × List DoWFinding}
    (hrun : run (feed recordCall) (.new limits start, []) calls = some r) :
    r.1.limits = limits ∧ r.1.callTimestamps = timestampsOf calls ∧
      r.1.recentTools = toolsOf calls := by
  refine ⟨?_, ?_, ?_⟩
  · refine run_invariant (I := fun r : DoWTracker × List DoWFinding => r.1.limits = limits) ?_ rfl
      hrun
    intro s call s' hs hcall
    obtain ⟨t', fs⟩ := s'
    exact (recordCall_spec hcall).1.trans hs
  · have hempty : (DoWTracker.new limits start).callTimestamps = [].take maxWindowEntries :=
      List.take_nil.symm
    refine log_run DoWTracker.callTimestamps DoWCall.nowMs (List.take maxWindowEntries) ?_ hempty
      hrun
    intro t call t' fs hcall xs hxs
    rw [(recordCall_spec hcall).2.1, ← pushUnlessFull_take, ← hxs]
  · have hempty : (DoWTracker.new limits start).recentTools = [].rtake 20 := rfl
    have hstep : ∀ t call t' fs, recordCall t call = some (t', fs) → ∀ xs : List String,
        t.recentTools = xs.rtake 20 → t'.recentTools = (xs ++ [shortName call]).rtake 20 := by
      intro t call t' fs hcall xs hxs
      rw [(recordCall_spec hcall).2.2.1, hxs]
      exact pushBounded_rtake (by decide) xs (shortName call)
    have hlog := log_run DoWTracker.recentTools shortName (List.rtake · 20) hstep hempty hrun
    rw [List.nil_append] at hlog
    exact hlog

theorem recordCall_isSome (t : DoWTracker) (call : DoWCall) :
    (recordCall t call).isSome ↔ (clipBytes 256 call.toolName).isSome := by
  rw [recordCall, Option.isSome_map]

/-- **`RateSpike` is a function of the logged timestamps and the time of the call.** -/
theorem exists_rateSpike {limits : DoWLimits} {start : Nat} {calls : List DoWCall}
    {call : DoWCall} :
    (∃ f ∈ reported recordCall (.new limits start) (calls ++ [call]), f.findingType = .rateSpike) ↔
      (∀ c ∈ calls ++ [call], (clipBytes 256 c.toolName).isSome) ∧
        limits.maxCallsPerMinute < callsLastMinute call.nowMs (timestampsOf (calls ++ [call])) := by
  rw [← run_feed_isSome recordCall_isSome (r := (.new limits start, []))]
  constructor
  · rintro ⟨f, hmem, hf⟩
    obtain ⟨t, fs, hrun, hfs⟩ := mem_reported.mp hmem
    obtain ⟨r, hr, hcall⟩ := exists_last_call hrun
    obtain ⟨hlimits, htimes, -⟩ := run_logs hrun
    obtain ⟨hover, -⟩ := Option.ite_none_right_eq_some.mp ((mem_rateSpike hcall hf).mp hfs)
    rw [hlimits, htimes] at hover
    exact ⟨by rw [hrun]; rfl, hover⟩
  · rintro ⟨hsome, hover⟩
    obtain ⟨⟨t, fs⟩, hrun⟩ := Option.isSome_iff_exists.mp hsome
    obtain ⟨r, hr, hcall⟩ := exists_last_call hrun
    obtain ⟨hlimits, htimes, -⟩ := run_logs hrun
    have hspike : checkRateSpike t call.nowMs = some _ := if_pos (by rw [hlimits, htimes]; exact hover)
    have htype := checkRateSpike_type hspike
    exact ⟨_, mem_reported.mpr ⟨t, fs, hrun, (mem_rateSpike hcall htype).mpr hspike⟩, htype⟩

/-- **`RecursiveLoop` is a function of the last names.** -/
theorem mem_reported_recursiveLoop {limits : DoWLimits} {start : Nat} {calls : List DoWCall}
    {f : DoWFinding} (hf : f.findingType = .recursiveLoop) :
    f ∈ reported recordCall (.new limits start) calls ↔
      (∀ call ∈ calls, (clipBytes 256 call.toolName).isSome) ∧
        checkRecursiveLoop (toolsOf calls) = some f := by
  rw [← run_feed_isSome recordCall_isSome (r := (.new limits start, []))]
  rcases calls.eq_nil_or_concat' with rfl | ⟨calls, call, rfl⟩
  · simp [reported, toolsOf, checkRecursiveLoop]
  · rw [mem_reported]
    constructor
    · rintro ⟨t, fs, hrun, hfs⟩
      obtain ⟨r, hr, hcall⟩ := exists_last_call hrun
      refine ⟨by rw [hrun]; rfl, ?_⟩
      rw [← (run_logs hrun).2.2]
      exact (mem_recursiveLoop hcall hf).mp hfs
    · rintro ⟨hsome, hloop⟩
      obtain ⟨⟨t, fs⟩, hrun⟩ := Option.isSome_iff_exists.mp hsome
      obtain ⟨r, hr, hcall⟩ := exists_last_call hrun
      rw [← (run_logs hrun).2.2] at hloop
      exact ⟨t, fs, hrun, (mem_recursiveLoop hcall hf).mpr hloop⟩

/-! ## Looking back past the start of an attack -/

/-- The alternation is found in the last four names, whatever comes before them. -/
theorem checkRecursiveLoop_append {before after : List String} {f : DoWFinding}
    (h : checkRecursiveLoop (after.rtake 20) = some f) :
    checkRecursiveLoop ((before ++ after).rtake 20) = some f := by
  rw [checkRecursiveLoop, List.rtake_eq_reverse_take_reverse, List.reverse_reverse] at h ⊢
  rw [List.reverse_append]
  rcases hnames : after.reverse with _ | ⟨last, _ | ⟨third, _ | ⟨second, _ | ⟨first, rest⟩⟩⟩⟩ <;>
    rw [hnames] at h
  · cases h
  · cases h
  · cases h
  · cases h
  · exact h

end Vellaveto.DenialOfWallet
