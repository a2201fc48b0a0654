/-
  BEHAVIORAL SEQUENCE ANALYSIS (`vellaveto-engine/src/sequence.rs`).

  The tracker logs the calls of a session and runs five detectors at every call.  The log takes the
  first `MAX_CALL_LOG` calls and nothing after them, and each detector takes the LAST entry of the
  log for the current call.

  `ReadThenExfil` looks back over the log from its last entry, so it is a function of the log alone
  (`mem_report_readThenExfil`); entries before the ones it needs do not matter
  (`detectReadThenExfil_append`).
-/
import Mathlib.Data.List.ReduceOption
import Vellaveto.Types.Provenance
import Vellaveto.Lib.Report
import Vellaveto.Lib.Slice
import Vellaveto.Lib.Window

namespace Vellaveto.Sequence

open Vellaveto.Lib

/-- `MAX_CALL_LOG`. -/
def maxCallLog : Nat := 1000

/-- `MAX_ANOMALIES`. -/
def maxAnomalies : Nat := 10000

/-- `SequenceEntry`. -/
structure SequenceEntry where
  toolName : String
  sinkClass : SinkClass
  timestampMs : Nat
  sourceTainted : Bool
  isNovel : Bool
deriving DecidableEq

/-- `SequenceConfig`; what to do on an anomaly is decided by others. -/
structure SequenceConfig where
  warmupCalls : Nat
  readToActWindowMs : Nat
  maxNewToolsAfterTaint : Nat

/-- `AnomalyType`. -/
inductive AnomalyType where
  | readThenExfil
  | privilegeEscalationAfterTaint
  | toolDiversitySpike
  | novelToolAfterUntrustedContent
  | privilegedActionCluster
deriving DecidableEq

/-- `SequenceAnomaly`. -/
structure SequenceAnomaly where
  anomalyType : AnomalyType
  confidence : Nat
  description : String
deriving DecidableEq

/-- `SequenceTracker`. -/
structure SequenceTracker where
  callLog : List SequenceEntry
  distinctTools : List String
  config : SequenceConfig
  firstTaintIdx : Option Nat
  toolsBeforeTaint : Nat
  anomalies : List SequenceAnomaly

/-- `SequenceTracker::new`. -/
def SequenceTracker.new (config : SequenceConfig) : SequenceTracker :=
  ⟨[], [], config, none, 0, []⟩

/-- The `Debug` text of a sink class. -/
def sinkText : SinkClass → String
  | .readOnly => "ReadOnly"
  | .lowRiskWrite => "LowRiskWrite"
  | .filesystemWrite => "FilesystemWrite"
  | .networkEgress => "NetworkEgress"
  | .codeExecution => "CodeExecution"
  | .memoryWrite => "MemoryWrite"
  | .approvalUi => "ApprovalUi"
  | .credentialAccess => "CredentialAccess"
  | .policyMutation => "PolicyMutation"

/-! ## The detectors -/

/-- The finding of `detect_read_then_exfil`, for the read and the egress it names. -/
def exfilAnomaly (read egress : String) : SequenceAnomaly where
  anomalyType := .readThenExfil
  confidence := 80
  description := "tainted read '" ++ read ++ "' followed by network egress '" ++ egress ++ "'"

/-- The loop of `detect_read_then_exfil`: from the entry before the current one backwards, until an
    entry is older than the window. -/
def lookBack (window : Nat) (current : SequenceEntry) : List SequenceEntry → Option SequenceAnomaly
  | [] => none
  | prev :: earlier =>
    if window < current.timestampMs - prev.timestampMs then none
    else if prev.sourceTainted ∧ prev.sinkClass = .readOnly then
      some (exfilAnomaly prev.toolName current.toolName)
    else lookBack window current earlier

/-- `detect_read_then_exfil`. -/
def detectReadThenExfil (window : Nat) (log : List SequenceEntry) : Option SequenceAnomaly :=
  match log.reverse with
  | current :: prev :: earlier =>
    if current.sinkClass = .networkEgress then lookBack window current (prev :: earlier) else none
  | _ => none

/-- `detect_privilege_escalation_after_taint`. -/
def detectPrivilegeEscalationAfterTaint (t : SequenceTracker) : Option SequenceAnomaly := do
  let taintIdx ← t.firstTaintIdx
  let current ← t.callLog.getLast?
  let maxPreTaintSink := ((t.callLog.take taintIdx).map (·.sinkClass.rank)).foldl max 0
  if maxPreTaintSink ≤ SinkClass.lowRiskWrite.rank ∧
      SinkClass.codeExecution.rank ≤ current.sinkClass.rank then
    some {
      anomalyType := .privilegeEscalationAfterTaint
      confidence := 90
      description := "privilege escalation to " ++ sinkText current.sinkClass ++
        " after source taint (pre-taint max: LowRiskWrite)" }
  else none

/-- `detect_tool_diversity_spike`. -/
def detectToolDiversitySpike (t : SequenceTracker) : Option SequenceAnomaly := do
  let _taintIdx ← t.firstTaintIdx
  let newToolsAfterTaint := t.distinctTools.length - t.toolsBeforeTaint
  if t.config.maxNewToolsAfterTaint < newToolsAfterTaint then
    some {
      anomalyType := .toolDiversitySpike
      confidence := 60
      description := toString newToolsAfterTaint ++ " new tools after taint (max: " ++
        toString t.config.maxNewToolsAfterTaint ++ ")" }
  else none

/-- `detect_novel_tool_after_untrusted`. -/
def detectNovelToolAfterUntrusted (log : List SequenceEntry) : Option SequenceAnomaly :=
  match log.reverse with
  | current :: prev :: _ =>
    if !current.isNovel ∨ current.sinkClass.rank < SinkClass.codeExecution.rank then none
    else if prev.sourceTainted then
      some {
        anomalyType := .novelToolAfterUntrustedContent
        confidence := 85
        description := "novel tool '" ++ current.toolName ++ "' (" ++ sinkText current.sinkClass ++
          ") immediately after untrusted '" ++ prev.toolName ++ "'" }
    else none
  | _ => none

/-- `detect_privileged_action_cluster`, which reports once in a session. -/
def detectPrivilegedActionCluster (t : SequenceTracker) : Option SequenceAnomaly :=
  if t.anomalies.any (·.anomalyType = .privilegedActionCluster) then none
  else if t.callLog.length < 3 then none
  else do
    let _taintIdx ← t.firstTaintIdx
    let current ← t.callLog.getLast?
    let privileged := (t.callLog.reverse.takeWhile fun e =>
      current.timestampMs - e.timestampMs ≤ t.config.readToActWindowMs).countP fun e =>
        SinkClass.filesystemWrite.rank ≤ e.sinkClass.rank
    if 3 ≤ privileged then
      some {
        anomalyType := .privilegedActionCluster
        confidence := 70
        description := toString privileged ++ " privileged calls within " ++
          toString t.config.readToActWindowMs ++ "ms window" }
    else none

/-- The five detectors, in the order in which they push their findings. -/
def detectAll (t : SequenceTracker) : List SequenceAnomaly :=
  [detectReadThenExfil t.config.readToActWindowMs t.callLog,
    detectPrivilegeEscalationAfterTaint t, detectToolDiversitySpike t,
    detectNovelToolAfterUntrusted t.callLog, detectPrivilegedActionCluster t].reduceOption

/-! ## Recording a call -/

/-- The arguments of `record_and_analyze`. -/
structure SequenceCall where
  toolName : String
  sinkClass : SinkClass
  sourceTainted : Bool
  nowMs : Nat
deriving DecidableEq

/-- The tool is remembered among the distinct ones, up to `MAX_CALL_LOG` of them. -/
def noteTool (t : SequenceTracker) (toolName : String) : SequenceTracker :=
  if toolName ∈ t.distinctTools then t
  else { t with distinctTools := pushUnlessFull maxCallLog t.distinctTools toolName }

/-- The first tainted call is remembered by its place in the log. -/
def noteTaint (t : SequenceTracker) (sourceTainted : Bool) : SequenceTracker :=
  if sourceTainted ∧ t.firstTaintIdx = none then
    { t with
      firstTaintIdx := some t.callLog.length
      toolsBeforeTaint := t.distinctTools.length - 1 }
  else t

/-- The findings are kept, up to `MAX_ANOMALIES` of them. -/
def keepAnomalies (t : SequenceTracker) (found : List SequenceAnomaly) : SequenceTracker :=
  { t with anomalies := t.anomalies ++ found.take (maxAnomalies - t.anomalies.length) }

/-- The tracker with the call in its log. -/
def logCall (t : SequenceTracker) (call : SequenceCall) (shortName : String) : SequenceTracker :=
  let isNovel := !decide (call.toolName ∈ t.distinctTools)
  let noted := noteTaint (noteTool t call.toolName) call.sourceTainted
  { noted with
    callLog := pushUnlessFull maxCallLog noted.callLog
      ⟨shortName, call.sinkClass, call.nowMs, call.sourceTainted, isNovel⟩ }

/-- `record_and_analyze`; it panics when byte 256 of the name is inside a character. -/
def recordAndAnalyze (t : SequenceTracker) (call : SequenceCall) :
    Option (SequenceTracker × List SequenceAnomaly) :=
  (clipBytes 256 call.toolName).map fun shortName =>
    let logged := logCall t call shortName
    if logged.callLog.length < logged.config.warmupCalls then (logged, [])
    else (keepAnomalies logged (detectAll logged), detectAll logged)

/-! ## What a call reports -/

/-- An entry as far as `detect_read_then_exfil` reads it. -/
def core (e : SequenceEntry) : SequenceEntry := { e with isNovel := false }

theorem lookBack_core (window : Nat) (current : SequenceEntry) (log : List SequenceEntry) :
    lookBack window (core current) (log.map core) = lookBack window current log := by
  induction log with
  | nil => rfl
  | cons prev earlier ih =>
    rw [List.map_cons, lookBack, lookBack, ih]
    rfl

theorem detectReadThenExfil_core (window : Nat) (log : List SequenceEntry) :
    detectReadThenExfil window (log.map core) = detectReadThenExfil window log := by
  unfold detectReadThenExfil
  rw [← List.map_reverse]
  rcases log.reverse with _ | ⟨current, _ | ⟨prev, earlier⟩⟩
  · rfl
  · rfl
  · show (if _ then lookBack window (core current) ((prev :: earlier).map core) else none) = _
    rw [lookBack_core]
    rfl

/-- Among the findings of a call, `ReadThenExfil` comes from its own detector. -/
theorem mem_detectAll {t : SequenceTracker} {f : SequenceAnomaly}
    (hf : f.anomalyType = .readThenExfil) :
    f ∈ detectAll t ↔ detectReadThenExfil t.config.readToActWindowMs t.callLog = some f := by
  have hescalation : detectPrivilegeEscalationAfterTaint t ≠ some f := by
    intro h
    simp only [detectPrivilegeEscalationAfterTaint, Option.bind_eq_bind, Option.bind_eq_some_iff,
      Option.ite_none_right_eq_some, Option.some.injEq] at h
    obtain ⟨_, _, _, _, _, rfl⟩ := h
    cases hf
  have hdiversity : detectToolDiversitySpike t ≠ some f := by
    intro h
    simp only [detectToolDiversitySpike, Option.bind_eq_bind, Option.bind_eq_some_iff,
      Option.ite_none_right_eq_some, Option.some.injEq] at h
    obtain ⟨_, _, _, rfl⟩ := h
    cases hf
  have hnovel : detectNovelToolAfterUntrusted t.callLog ≠ some f := by
    intro h
    unfold detectNovelToolAfterUntrusted at h
    split at h
    · simp only [Option.ite_none_left_eq_some, Option.ite_none_right_eq_some,
        Option.some.injEq] at h
      obtain ⟨_, _, rfl⟩ := h
      cases hf
    · cases h
  have hcluster : detectPrivilegedActionCluster t ≠ some f := by
    intro h
    simp only [detectPrivilegedActionCluster, Option.bind_eq_bind, Option.bind_eq_some_iff,
      Option.ite_none_left_eq_some, Option.ite_none_right_eq_some, Option.some.injEq] at h
    obtain ⟨_, _, _, _, _, _, _, rfl⟩ := h
    cases hf
  simp only [detectAll, List.reduceOption_mem_iff, List.mem_cons, List.not_mem_nil, or_false,
    hescalation.symm, hdiversity.symm, hnovel.symm, hcluster.symm]
  exact eq_comm

/-- The entry of a call in the log, its novelty apart. -/
def callEntry (call : SequenceCall) : SequenceEntry :=
  ⟨(clipBytes 256 call.toolName).getD "", call.sinkClass, call.nowMs, call.sourceTainted, false⟩

theorem callLog_logCall (t : SequenceTracker) (call : SequenceCall) {shortName : String}
    (hname : clipBytes 256 call.toolName = some shortName) :
    (logCall t call shortName).callLog.map core =
      pushUnlessFull maxCallLog (t.callLog.map core) (callEntry call) := by
  have hnote : (noteTaint (noteTool t call.toolName) call.sourceTainted).callLog = t.callLog := by
    unfold noteTaint noteTool
    split <;> split <;> rfl
  rw [logCall, map_pushUnlessFull, hnote, callEntry, hname]
  rfl

theorem config_logCall (t : SequenceTracker) (call : SequenceCall) (shortName : String) :
    (logCall t call shortName).config = t.config := by
  show (noteTaint (noteTool t call.toolName) call.sourceTainted).config = t.config
  unfold noteTaint noteTool
  split <;> split <;> rfl

/-- What one call does: the settings stay, the log takes the call unless it is full, and
    `ReadThenExfil` is read off the log. -/
theorem recordAndAnalyze_spec {t t' : SequenceTracker} {call : SequenceCall}
    {fs : List SequenceAnomaly} (h : recordAndAnalyze t call = some (t', fs)) :
    t'.config = t.config ∧
      t'.callLog.map core = pushUnlessFull maxCallLog (t.callLog.map core) (callEntry call) ∧
      ∀ f : SequenceAnomaly, f.anomalyType = .readThenExfil → (f ∈ fs ↔
        t.config.warmupCalls ≤ t'.callLog.length ∧
          detectReadThenExfil t.config.readToActWindowMs t'.callLog = some f) := by
  obtain ⟨shortName, hname, hresult⟩ := Option.map_eq_some_iff.mp h
  have hconfig := config_logCall t call shortName
  have hlog := callLog_logCall t call hname
  by_cases hcold : (logCall t call shortName).callLog.length <
      (logCall t call shortName).config.warmupCalls
  · rw [if_pos hcold] at hresult
    cases hresult
    refine ⟨hconfig, hlog, fun f _ => ?_⟩
    rw [hconfig] at hcold
    simp [Nat.not_le.mpr hcold]
  · rw [if_neg hcold] at hresult
    cases hresult
    refine ⟨hconfig, hlog, fun f hf => ?_⟩
    rw [mem_detectAll hf, hconfig]
    rw [hconfig, Nat.not_lt] at hcold
    exact ⟨fun hmem => ⟨hcold, hmem⟩, fun hmem => hmem.2⟩

/-- The log of a tracker that was fed these calls. -/
def logOf (calls : List SequenceCall) : List SequenceEntry := (calls.map callEntry).take maxCallLog

theorem run_log {config : SequenceConfig} {calls : List SequenceCall}
    {r : SequenceTracker × List SequenceAnomaly}
    (hrun : run (feed recordAndAnalyze) (.new config, []) calls = some r) :
    r.1.callLog.map core = logOf calls ∧ r.1.config = config := by
  refine ⟨?_, ?_⟩
  · have hempty : (SequenceTracker.new config).callLog.map core = [].take maxCallLog := rfl
    refine log_run (fun t : SequenceTracker => t.callLog.map core) callEntry
      (List.take maxCallLog) ?_ hempty hrun
    intro t call t' fs hcall xs hxs
    show t'.callLog.map core = _
    rw [(recordAndAnalyze_spec hcall).2.1, ← pushUnlessFull_take, ← hxs]
  · refine run_invariant (I := fun r : SequenceTracker × List SequenceAnomaly =>
      r.1.config = config) ?_ rfl hrun
    intro s call s' hs hcall
    obtain ⟨t', fs⟩ := s'
    exact (recordAndAnalyze_spec hcall).1.trans hs

theorem recordAndAnalyze_isSome (t : SequenceTracker) (call : SequenceCall) :
    (recordAndAnalyze t call).isSome ↔ (clipBytes 256 call.toolName).isSome := by
  rw [recordAndAnalyze, Option.isSome_map]

/-- **`ReadThenExfil` is a function of the log.**  The last of the calls reports it exactly if no
    call panicked, the log has the warm-up length, and the detector finds it in the log. -/
theorem mem_reported_readThenExfil {config : SequenceConfig} {calls : List SequenceCall}
    {f : SequenceAnomaly} (hf : f.anomalyType = .readThenExfil) :
    f ∈ reported recordAndAnalyze (.new config) calls ↔
      (∀ call ∈ calls, (clipBytes 256 call.toolName).isSome) ∧
        config.warmupCalls ≤ (logOf calls).length ∧
        detectReadThenExfil config.readToActWindowMs (logOf calls) = some f := by
  rw [← run_feed_isSome recordAndAnalyze_isSome (r := (.new config, []))]
  rcases calls.eq_nil_or_concat' with rfl | ⟨calls, call, rfl⟩
  · simp [reported, logOf, detectReadThenExfil]
  · rw [mem_reported]
    constructor
    · rintro ⟨t, fs, hrun, hmem⟩
      obtain ⟨r, hr, hcall⟩ := exists_last_call hrun
      have hlog := (run_log hrun).1
      have hfound := ((recordAndAnalyze_spec hcall).2.2 f hf).mp hmem
      rw [(run_log hr).2] at hfound
      refine ⟨by rw [hrun]; rfl, ?_, ?_⟩
      · rw [← hlog, List.length_map]; exact hfound.1
      · rw [← hlog, detectReadThenExfil_core]; exact hfound.2
    · rintro ⟨hsome, hwarm, hdetect⟩
      obtain ⟨⟨t, fs⟩, hrun⟩ := Option.isSome_iff_exists.mp hsome
      obtain ⟨r, hr, hcall⟩ := exists_last_call hrun
      have hlog := (run_log hrun).1
      refine ⟨t, fs, hrun, ((recordAndAnalyze_spec hcall).2.2 f hf).mpr ?_⟩
      rw [(run_log hr).2]
      rw [← hlog] at hwarm hdetect
      rw [List.length_map] at hwarm
      rw [detectReadThenExfil_core] at hdetect
      exact ⟨hwarm, hdetect⟩

/-! ## Looking back past the start of an attack -/

theorem lookBack_append {window : Nat} {current : SequenceEntry} {log : List SequenceEntry}
    {f : SequenceAnomaly} (h : lookBack window current log = some f)
    (earlier : List SequenceEntry) : lookBack window current (log ++ earlier) = some f := by
  induction log with
  | nil => cases h
  | cons prev log ih =>
    rw [List.cons_append, lookBack]
    rw [lookBack] at h
    split_ifs at h ⊢ with hold hread
    · exact h
    · exact ih h

/-- What the detector finds in a log it finds after any earlier entries. -/
theorem detectReadThenExfil_append {window : Nat} {log : List SequenceEntry} {f : SequenceAnomaly}
    (h : detectReadThenExfil window log = some f) (earlier : List SequenceEntry) :
    detectReadThenExfil window (earlier ++ log) = some f := by
  unfold detectReadThenExfil at h ⊢
  rw [List.reverse_append]
  rcases hlog : log.reverse with _ | ⟨current, _ | ⟨prev, rest⟩⟩ <;> rw [hlog] at h
  · cases h
  · cases h
  · show (if current.sinkClass = .networkEgress then
      lookBack window current ((prev :: rest) ++ earlier.reverse) else none) = some f
    obtain ⟨hegress, hback⟩ := Option.ite_none_right_eq_some.mp h
    rw [if_pos hegress]
    exact lookBack_append hback earlier.reverse

end Vellaveto.Sequence
