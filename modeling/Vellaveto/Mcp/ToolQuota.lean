/-
  TOOL QUOTAS: at most `max_calls` calls of a tool in any window of `window_secs` seconds
  (`vellaveto-mcp/src/tool_quota.rs`, `ToolQuota::validate` of `vellaveto-config`).

  PROGRAM.      The tracker keeps ONE list of call times per tool.  `checkQuota` goes through the
                quotas in order; each one that matches the tool first PRUNES this list to its own
                window and then counts.  `recordCall` appends the time of a call, up to a limit.

  SPEC.         Every interval of the window's length holds at most `max_calls` recorded calls.

  CORRECTNESS.
    1. `checkLoop_spec`        pruning keeps every call time of the last `w` seconds, when no matching
                               quota has a window smaller than `w`;
    2. `handleCall_keeps`      one call keeps the invariant `Tracks`: the list agrees with the calls
                               recorded so far on everything that the window can still see;
    3. `quota_holds`           the bound, over every run with a clock that does not go back;
    4. `quota_exceeded_behind_smaller_window`  with a smaller window in the list the larger one loses
                               count: its calls were pruned away for the other.

  An instant is the number of nanoseconds since the earliest one that the clock can represent, so
  that `Instant::checked_sub` fails exactly when the difference is negative.
-/
import Mathlib.Data.List.AList
import Mathlib.Tactic.Common
import Vellaveto.Lib.Run
import Vellaveto.Lib.Text
import Vellaveto.Types.Chars

namespace Vellaveto.ToolQuota

open Vellaveto.Lib

/-! ## Quotas -/

/-- `ToolQuota`. -/
structure Quota where
  toolPattern : String
  maxCalls : Nat
  windowSecs : Nat
  onExceed : String
deriving DecidableEq, Repr

/-- `ToolQuota::validate`. -/
def Quota.validate (q : Quota) : Except String Unit :=
  let len := q.toolPattern.utf8ByteSize
  let window := q.windowSecs
  let onExceed := q.onExceed
  if q.toolPattern.isEmpty then .error "tool_quotas[].tool_pattern is empty"
  else if 256 < len then .error s!"tool_quotas[].tool_pattern length {len} exceeds max 256"
  else if hasDangerousChars q.toolPattern then
    .error "tool_quotas[].tool_pattern contains control or format characters"
  else if q.maxCalls = 0 then .error "tool_quotas[].max_calls must be > 0"
  else if window = 0 ∨ 86400 < window then
    .error s!"tool_quotas[].window_secs must be in [1, 86400], got {window}"
  else if onExceed ≠ "deny" ∧ onExceed ≠ "require_approval" then
    .error s!"tool_quotas[].on_exceed must be 'deny' or 'require_approval', got '{onExceed}'"
  else .ok ()

/-- `tool_matches_pattern`: the text before the first star, and the text after it. -/
def toolMatchesPattern (toolName pattern : String) : Bool :=
  if pattern = "*" then true
  else if pattern.toList.contains '*' then
    let pre := beforeFirst '*' pattern.toList
    let suf := pattern.toList.drop (pre.length + 1)
    pre.isPrefixOf toolName.toList && suf.isSuffixOf toolName.toList
  else pattern == toolName

/-! ## The tracker -/

def maxCallTimestamps : Nat := 10000

/-- Nanoseconds of a `Duration::from_secs`. -/
def fromSecs (secs : Nat) : Nat := secs * 1000000000

/-- `Instant::checked_sub`. -/
def checkedSub (now duration : Nat) : Option Nat :=
  if duration ≤ now then some (now - duration) else none

/-- The call times of each tool. -/
abbrev Calls := AList fun _ : String => List Nat

/-- `entry(tool).or_default()`. -/
def callsOf (calls : Calls) (tool : String) : List Nat := (calls.lookup tool).getD []

/-- `QuotaExceeded`. -/
structure QuotaExceeded where
  tool : String
  pattern : String
  maxCalls : Nat
  windowSecs : Nat
  onExceed : String
deriving DecidableEq, Repr

/-- The instant before which a quota forgets calls. -/
def cutoff (now : Nat) (q : Quota) : Nat := (checkedSub now (fromSecs q.windowSecs)).getD now

/-- The loop of `check_quota` over the quotas. -/
def checkLoop (tool : String) (now : Nat) :
    List Quota → Calls → Calls × Except QuotaExceeded Unit
  | [], calls => (calls, .ok ())
  | q :: qs, calls =>
    if !toolMatchesPattern tool q.toolPattern then checkLoop tool now qs calls
    else
      let kept := (callsOf calls tool).filter fun t => decide (cutoff now q ≤ t)
      if q.maxCalls ≤ kept.length then
        (calls.insert tool kept,
          .error ⟨tool, q.toolPattern, q.maxCalls, q.windowSecs, q.onExceed⟩)
      else checkLoop tool now qs (calls.insert tool kept)

/-- `ToolQuotaTracker`. -/
structure Tracker where
  quotas : List Quota
  calls : Calls

/-- `ToolQuotaTracker::new`. -/
def Tracker.new (quotas : List Quota) : Tracker := ⟨quotas, ∅⟩

/-- `ToolQuotaTracker::check_quota` at the time `now`. -/
def Tracker.checkQuota (t : Tracker) (now : Nat) (tool : String) :
    Tracker × Except QuotaExceeded Unit :=
  let result := checkLoop tool now t.quotas t.calls
  (⟨t.quotas, result.1⟩, result.2)

/-- `ToolQuotaTracker::record_call` at the time `now`. -/
def Tracker.recordCall (t : Tracker) (now : Nat) (tool : String) : Tracker :=
  let calls := callsOf t.calls tool
  ⟨t.quotas, t.calls.insert tool (if calls.length < maxCallTimestamps then calls ++ [now] else calls)⟩

/-! ## Runs -/

/-- A tool call: the quota is checked at one time, the call recorded at a later one. -/
structure Call where
  tool : String
  checkedAt : Nat
  recordedAt : Nat
deriving DecidableEq, Repr

/-- A tracker with the calls that were recorded, oldest first, and the last clock reading. -/
structure Session where
  tracker : Tracker
  recorded : List (String × Nat)
  now : Nat

def Session.start (quotas : List Quota) : Session := ⟨Tracker.new quotas, [], 0⟩

/-- A call is recorded exactly if its check returns `Ok`; a clock that goes back is no run. -/
def handleCall (s : Session) (c : Call) : Option Session :=
  if s.now ≤ c.checkedAt ∧ c.checkedAt ≤ c.recordedAt then
    match s.tracker.checkQuota c.checkedAt c.tool with
    | (tracker, .ok ()) =>
      some ⟨tracker.recordCall c.recordedAt c.tool, s.recorded ++ [(c.tool, c.recordedAt)],
        c.recordedAt⟩
    | (tracker, .error _) => some ⟨tracker, s.recorded, c.checkedAt⟩
  else none

/-- The times at which calls of the tool were recorded. -/
def timesOf (recorded : List (String × Nat)) (tool : String) : List Nat :=
  (recorded.filter fun e => e.1 == tool).map Prod.snd

/-- How many of the times lie in the interval from `start` to `start + length`. -/
def countWithin (times : List Nat) (start length : Nat) : Nat :=
  (times.filter fun t => decide (start ≤ t ∧ t ≤ start + length)).length

/-! ## The list of a tool -/

@[simp] theorem callsOf_insert_self (calls : Calls) (tool : String) (times : List Nat) :
    callsOf (calls.insert tool times) tool = times := by
  rw [callsOf, AList.lookup_insert, Option.getD_some]

theorem callsOf_insert_ne {calls : Calls} {tool other : String} (h : other ≠ tool)
    (times : List Nat) : callsOf (calls.insert tool times) other = callsOf calls other := by
  rw [callsOf, AList.lookup_insert_ne h, callsOf]

/-- A check of one tool leaves the lists of the others alone. -/
theorem callsOf_checkLoop_ne {tool other : String} (h : other ≠ tool) (now : Nat) (qs : List Quota)
    (calls : Calls) : callsOf (checkLoop tool now qs calls).1 other = callsOf calls other := by
  induction qs generalizing calls with
  | nil => rfl
  | cons q qs ih =>
    rw [checkLoop]
    split
    · exact ih calls
    · dsimp only
      split
      · exact callsOf_insert_ne h _
      · rw [ih, callsOf_insert_ne h]

/-! ## What pruning keeps -/

/-- The two lists agree on every time that a window of length `w` can see at `now` or later. -/
def Agree (now w : Nat) (kept times : List Nat) : Prop :=
  ∀ c, now ≤ c + w →
    kept.filter (fun t => decide (c ≤ t)) = times.filter (fun t => decide (c ≤ t))

theorem Agree.later {now later w : Nat} {kept times : List Nat} (h : Agree now w kept times)
    (hlater : now ≤ later) : Agree later w kept times := fun c hc => h c (by omega)

/-- Forgetting what lies before `c` does not matter to a window that does not reach before `c`. -/
theorem Agree.prune {now w c : Nat} {kept times : List Nat} (h : Agree now w kept times)
    (hc : c + w ≤ now) : Agree now w (kept.filter fun t => decide (c ≤ t)) times := by
  intro d hd
  rw [List.filter_filter, ← h d hd]
  refine List.filter_congr fun t _ => ?_
  by_cases hdt : d ≤ t
  · have hct : c ≤ t := by omega
    simp [hdt, hct]
  · simp [hdt]

theorem Agree.push {now w t : Nat} {kept times : List Nat} (h : Agree now w kept times) :
    Agree now w (kept ++ [t]) (times ++ [t]) := by
  intro c hc
  rw [List.filter_append, List.filter_append, h c hc]

/-- The quotas that apply to a tool. -/
def Applies (quotas : List Quota) (tool : String) (q : Quota) : Prop :=
  q ∈ quotas ∧ toolMatchesPattern tool q.toolPattern = true

/-- **The check.**  When no matching quota has a window smaller than `w`, and all of them fit before
    `now`, the list keeps what a window of length `w` can see; and after an `Ok` every matching quota
    has found fewer calls than it allows. -/
theorem checkLoop_spec {tool : String} {now w : Nat} {times : List Nat} (qs : List Quota)
    (hsmallest : ∀ q, Applies qs tool q → w ≤ fromSecs q.windowSecs ∧ fromSecs q.windowSecs ≤ now)
    (calls : Calls) (hagree : Agree now w (callsOf calls tool) times) :
    Agree now w (callsOf (checkLoop tool now qs calls).1 tool) times ∧
      ((checkLoop tool now qs calls).2 = .ok () → ∀ q, Applies qs tool q →
        (callsOf (checkLoop tool now qs calls).1 tool).length < q.maxCalls ∧
        (fromSecs q.windowSecs = w →
          (times.filter fun t => decide (now - w ≤ t)).length < q.maxCalls)) ∧
      (callsOf (checkLoop tool now qs calls).1 tool).length ≤ (callsOf calls tool).length := by
  induction qs generalizing calls with
  | nil =>
    refine ⟨hagree, ?_, Nat.le_refl _⟩
    rintro - q ⟨hq, -⟩
    cases hq
  | cons q qs ih =>
    have hrest : ∀ q', Applies qs tool q' →
        w ≤ fromSecs q'.windowSecs ∧ fromSecs q'.windowSecs ≤ now := fun q' hq' =>
      hsmallest q' ⟨List.mem_cons_of_mem q hq'.1, hq'.2⟩
    rw [checkLoop]
    split
    · rename_i hno
      have hno' : toolMatchesPattern tool q.toolPattern = false := by simpa using hno
      obtain ⟨hkeep, hok, hlen⟩ := ih hrest calls hagree
      refine ⟨hkeep, fun h q' hq' => ?_, hlen⟩
      rcases List.mem_cons.mp hq'.1 with rfl | hmem
      · have hcontra := hq'.2
        rw [hno'] at hcontra
        cases hcontra
      · exact hok h q' ⟨hmem, hq'.2⟩
    · rename_i hyes
      have hyes' : toolMatchesPattern tool q.toolPattern = true := by simpa using hyes
      obtain ⟨hw, hfits⟩ := hsmallest q ⟨List.mem_cons_self, hyes'⟩
      have hcutoff : cutoff now q = now - fromSecs q.windowSecs := by
        rw [cutoff, checkedSub, if_pos hfits, Option.getD_some]
      -- pruning for a window of at least `w` keeps the agreement
      have hpruned := hagree.prune (c := cutoff now q) (by rw [hcutoff]; omega)
      dsimp only
      split
      · rw [callsOf_insert_self]
        refine ⟨hpruned, ?_, List.length_filter_le _ _⟩
        intro h
        cases h
      · rename_i hroom
        obtain ⟨hkeep, hok, hlen⟩ := ih hrest
          (calls.insert tool ((callsOf calls tool).filter fun t => decide (cutoff now q ≤ t)))
          (by rw [callsOf_insert_self]; exact hpruned)
        rw [callsOf_insert_self] at hlen
        refine ⟨hkeep, fun h q' hq' => ?_, le_trans hlen (List.length_filter_le _ _)⟩
        rcases List.mem_cons.mp hq'.1 with rfl | hmem
        · refine ⟨by omega, fun hwindow => ?_⟩
          have hsee := hagree (now - w) (by omega)
          rw [← hsee, ← hwindow, ← hcutoff]
          omega
        · exact hok h q' ⟨hmem, hq'.2⟩

/-! ## The bound -/

/-- What holds of a tool and one of its quotas all along: the list agrees with the recorded calls,
    and no interval holds too many of them. -/
structure Tracks (q : Quota) (tool : String) (s : Session) : Prop where
  agree : Agree s.now (fromSecs q.windowSecs) (callsOf s.tracker.calls tool)
    (timesOf s.recorded tool)
  bounded : ∀ start, countWithin (timesOf s.recorded tool) start (fromSecs q.windowSecs) ≤ q.maxCalls

/-- What a call may ask of the quotas of its tool, for the quota `q` to be counted right: none of
    them has a smaller window, one of them stays below the limit of the list, and the clock can be
    set back by each of their windows. -/
structure CountsFor (quotas : List Quota) (q : Quota) (tool : String) (now : Nat) : Prop where
  smallest : ∀ q', Applies quotas tool q' → q.windowSecs ≤ q'.windowSecs
  room : ∃ q', Applies quotas tool q' ∧ q'.maxCalls ≤ maxCallTimestamps
  fits : ∀ q', Applies quotas tool q' → fromSecs q'.windowSecs ≤ now

theorem timesOf_append (recorded : List (String × Nat)) (tool other : String) (t : Nat) :
    timesOf (recorded ++ [(other, t)]) tool =
      timesOf recorded tool ++ (if other = tool then [t] else []) := by
  unfold timesOf
  rw [List.filter_append, List.map_append]
  by_cases h : other = tool <;> simp [h]

theorem countWithin_append (times : List Nat) (t start length : Nat) :
    countWithin (times ++ [t]) start length =
      countWithin times start length + (if start ≤ t ∧ t ≤ start + length then 1 else 0) := by
  unfold countWithin
  rw [List.filter_append, List.length_append]
  by_cases h : start ≤ t ∧ t ≤ start + length <;> simp [h]

/-- Fewer calls since `now - w` than allowed leave room for one more in every interval around it. -/
theorem countWithin_push_le {times : List Nat} {now t w max : Nat}
    (hbounded : ∀ start, countWithin times start w ≤ max) (hnow : now ≤ t) (hw : w ≤ now)
    (hroom : (times.filter fun u => decide (now - w ≤ u)).length < max) (start : Nat) :
    countWithin (times ++ [t]) start w ≤ max := by
  rw [countWithin_append]
  split
  · rename_i hin
    have hsub : countWithin times start w ≤
        (times.filter fun u => decide (now - w ≤ u)).length := by
      unfold countWithin
      refine List.Sublist.length_le (List.monotone_filter_right times fun u hu => ?_)
      have hu' : start ≤ u ∧ u ≤ start + w := by simpa using hu
      have hle : now - w ≤ u := by omega
      simpa using hle
    omega
  · have := hbounded start
    omega

/-- A call of another tool does not concern this one. -/
theorem handleCall_other {q : Quota} {tool : String} {s s' : Session} {c : Call}
    (hne : c.tool ≠ tool) (htracks : Tracks q tool s) (h : handleCall s c = some s') :
    Tracks q tool s' := by
  have hne' : tool ≠ c.tool := fun heq => hne heq.symm
  unfold handleCall at h
  split at h
  · rename_i hclock
    have hlist : callsOf (s.tracker.checkQuota c.checkedAt c.tool).1.calls tool =
        callsOf s.tracker.calls tool := callsOf_checkLoop_ne hne' _ _ _
    split at h
    · rename_i tracker hcheck
      rw [hcheck] at hlist
      cases h
      have htimes : timesOf (s.recorded ++ [(c.tool, c.recordedAt)]) tool =
          timesOf s.recorded tool := by
        rw [timesOf_append, if_neg hne, List.append_nil]
      have hcalls : callsOf (tracker.recordCall c.recordedAt c.tool).calls tool =
          callsOf s.tracker.calls tool := (callsOf_insert_ne hne' _).trans hlist
      refine ⟨?_, ?_⟩
      · show Agree c.recordedAt _ (callsOf (tracker.recordCall c.recordedAt c.tool).calls tool)
          (timesOf (s.recorded ++ [(c.tool, c.recordedAt)]) tool)
        rw [htimes, hcalls]
        exact htracks.agree.later (by omega)
      · show ∀ start, countWithin (timesOf (s.recorded ++ [(c.tool, c.recordedAt)]) tool) start _ ≤ _
        rw [htimes]
        exact htracks.bounded
    · rename_i tracker e hcheck
      rw [hcheck] at hlist
      cases h
      refine ⟨?_, htracks.bounded⟩
      show Agree c.checkedAt _ (callsOf tracker.calls tool) _
      rw [hlist]
      exact htracks.agree.later hclock.1
  · cases h

/-- **Step lemma.**  A call that meets the condition keeps the bound. -/
theorem handleCall_keeps {q : Quota} {tool : String} {s s' : Session} {c : Call}
    (hq : Applies s.tracker.quotas tool q)
    (hcounts : c.tool = tool → CountsFor s.tracker.quotas q tool c.checkedAt)
    (htracks : Tracks q tool s) (h : handleCall s c = some s') : Tracks q tool s' := by
  by_cases htool : c.tool = tool
  swap
  · exact handleCall_other htool htracks h
  obtain ⟨hsmallest, ⟨q₀, hq₀, hq₀max⟩, hfits⟩ := hcounts htool
  subst htool
  unfold handleCall at h
  split at h
  swap
  · cases h
  rename_i hclock
  have hspec := checkLoop_spec (w := fromSecs q.windowSecs) s.tracker.quotas
    (fun q' hq' => ⟨Nat.mul_le_mul_right _ (hsmallest q' hq'), hfits q' hq'⟩) s.tracker.calls
    (htracks.agree.later hclock.1)
  obtain ⟨hkeep, hok, -⟩ := hspec
  split at h
  · rename_i tracker hcheck
    obtain ⟨rfl, hresult⟩ := Prod.mk.inj hcheck
    have hroom := (hok hresult q hq).2 rfl
    have hlen := (hok hresult q₀ hq₀).1
    cases h
    have htimes : timesOf (s.recorded ++ [(c.tool, c.recordedAt)]) c.tool =
        timesOf s.recorded c.tool ++ [c.recordedAt] := by
      rw [timesOf_append, if_pos rfl]
    have hcalls : callsOf (Tracker.recordCall ⟨s.tracker.quotas,
          (checkLoop c.tool c.checkedAt s.tracker.quotas s.tracker.calls).1⟩
          c.recordedAt c.tool).calls c.tool =
        callsOf (checkLoop c.tool c.checkedAt s.tracker.quotas s.tracker.calls).1 c.tool ++
          [c.recordedAt] := by
      show callsOf (AList.insert _ _ _) _ = _
      rw [callsOf_insert_self, if_pos (lt_of_lt_of_le hlen hq₀max)]
    refine ⟨?_, ?_⟩
    · show Agree c.recordedAt _ (callsOf (Tracker.recordCall _ c.recordedAt c.tool).calls c.tool)
        (timesOf (s.recorded ++ [(c.tool, c.recordedAt)]) c.tool)
      rw [htimes, hcalls]
      exact (hkeep.later hclock.2).push
    · show ∀ start, countWithin (timesOf (s.recorded ++ [(c.tool, c.recordedAt)]) c.tool) start _ ≤ _
      rw [htimes]
      exact countWithin_push_le htracks.bounded hclock.2 (hfits q hq) hroom
  · rename_i tracker e hcheck
    obtain ⟨rfl, -⟩ := Prod.mk.inj hcheck
    cases h
    exact ⟨hkeep, htracks.bounded⟩

theorem quotas_handleCall {s s' : Session} {c : Call} (h : handleCall s c = some s') :
    s'.tracker.quotas = s.tracker.quotas := by
  unfold handleCall at h
  split at h
  · split at h
    · rename_i tracker hcheck
      obtain ⟨rfl, -⟩ := Prod.mk.inj hcheck
      cases h
      rfl
    · rename_i tracker e hcheck
      obtain ⟨rfl, -⟩ := Prod.mk.inj hcheck
      cases h
      rfl
  · cases h

/-- **Quotas hold.**  In every run with a clock that does not go back, a quota whose window is the
    smallest of the tool's quotas bounds the recorded calls of the tool in every interval of its
    length. -/
theorem quota_holds (quotas : List Quota) (q : Quota) (tool : String)
    (hq : Applies quotas tool q) (calls : List Call) (s : Session)
    (hrun : run handleCall (Session.start quotas) calls = some s)
    (hcounts : ∀ c ∈ calls, c.tool = tool → CountsFor quotas q tool c.checkedAt) (start : Nat) :
    countWithin (timesOf s.recorded tool) start (fromSecs q.windowSecs) ≤ q.maxCalls := by
  have hstart : (Session.start quotas).tracker.quotas = quotas ∧
      Tracks q tool (Session.start quotas) := by
    refine ⟨rfl, ?_, ?_⟩
    · intro c _
      rfl
    · intro start
      exact Nat.zero_le _
  have hinv := run_invariant_mem (I := fun s => s.tracker.quotas = quotas ∧ Tracks q tool s) ?_
    hstart hrun
  · exact hinv.2.bounded start
  · rintro s c s' hc ⟨hquotas, htracks⟩ hs'
    refine ⟨(quotas_handleCall hs').trans hquotas, ?_⟩
    exact handleCall_keeps (hquotas ▸ hq) (hquotas ▸ hcounts c hc) htracks hs'

/-! ## Two configurations

    Calls of one tool, two seconds apart. -/

/-- Ask for a call of `search` at each of these seconds. -/
def searches (seconds : List Nat) : List Call :=
  seconds.map fun t => ⟨"search", fromSecs t, fromSecs t⟩

def searchQuota (maxCalls windowSecs : Nat) : Quota := ⟨"search", maxCalls, windowSecs, "deny"⟩

theorem quota_holds_search :
    ∃ s, run handleCall (Session.start [searchQuota 2 60, searchQuota 9 60])
        (searches [100, 102, 104]) = some s ∧ timesOf s.recorded "search" ≠ [] ∧
      countWithin (timesOf s.recorded "search") (fromSecs 100) (fromSecs 60) ≤ 2 := by
  have happlies : ∀ q', Applies [searchQuota 2 60, searchQuota 9 60] "search" q' →
      q' = searchQuota 2 60 ∨ q' = searchQuota 9 60 := by
    rintro q' ⟨hq', -⟩
    simpa using hq'
  have hfirst : Applies [searchQuota 2 60, searchQuota 9 60] "search" (searchQuota 2 60) :=
    ⟨List.mem_cons_self, by decide +kernel⟩
  have hsome : (run handleCall (Session.start [searchQuota 2 60, searchQuota 9 60])
      (searches [100, 102, 104])).map (fun s => timesOf s.recorded "search") =
        some [fromSecs 100, fromSecs 102] := by decide +kernel
  obtain ⟨s, hrun, htimes⟩ := Option.map_eq_some_iff.mp hsome
  refine ⟨s, hrun, by rw [htimes]; simp, ?_⟩
  refine quota_holds [searchQuota 2 60, searchQuota 9 60] (searchQuota 2 60) "search" hfirst
    (searches [100, 102, 104]) s hrun ?_ (fromSecs 100)
  intro c hc _
  have hlate : fromSecs 60 ≤ c.checkedAt := by
    have hall : ∀ c ∈ searches [100, 102, 104], fromSecs 60 ≤ c.checkedAt := by decide +kernel
    exact hall c hc
  refine ⟨?_, ⟨searchQuota 2 60, hfirst, by decide⟩, ?_⟩
  · intro q' hq'
    rcases happlies q' hq' with rfl | rfl
    · exact Nat.le_refl _
    · exact Nat.le_refl _
  · intro q' hq'
    rcases happlies q' hq' with rfl | rfl
    · exact hlate
    · exact hlate

/-- With a second quota of one second, two calls a minute become any number: the calls of the last
    minute were pruned away for the other quota. -/
theorem quota_exceeded_behind_smaller_window :
    (∀ q ∈ [searchQuota 2 60, searchQuota 9 1], q.validate = .ok ()) ∧
      ∃ s, run handleCall (Session.start [searchQuota 2 60, searchQuota 9 1])
          (searches [100, 102, 104]) = some s ∧
        countWithin (timesOf s.recorded "search") (fromSecs 100) (fromSecs 60) = 3 := by
  refine ⟨by decide +kernel, ?_⟩
  have hsome : (run handleCall (Session.start [searchQuota 2 60, searchQuota 9 1])
      (searches [100, 102, 104])).map (fun s => timesOf s.recorded "search") =
        some [fromSecs 100, fromSecs 102, fromSecs 104] := by decide +kernel
  obtain ⟨s, hrun, htimes⟩ := Option.map_eq_some_iff.mp hsome
  refine ⟨s, hrun, ?_⟩
  rw [htimes]
  decide +kernel

end Vellaveto.ToolQuota
