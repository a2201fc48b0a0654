/-
  THE SIZE OF THE ACTIVE LOG (`maybe_rotate` of `vellaveto-audit/src/rotation.rs` with `load_entries` of
  `verification.rs`).

  PROGRAM.      A log that has reached `max_file_size` is rotated before the next line is written.  The
                rotation first loads the log, and gives up if that fails; and a log longer than
                `MAX_AUDIT_LOG_SIZE` is not loaded.  By default the two limits are the same.

  SPEC.         The active log is never longer than the limit and one line.

  CORRECTNESS.
    1. `bounded_logStep_iff`        one call keeps the bound exactly if it writes nothing or finds a log that
                                    can be loaded;
    2. `rotation_not_starved_iff`   along a run, the bound holds in every state exactly if that is so at every
                                    call;
    3. `rotation_starved`           a line that carries the log past the limit stops all rotation: the next
                                    line breaks the bound.
-/
import Vellaveto.Audit.PartialFailure
import Vellaveto.Audit.CleanRun

namespace Vellaveto.Audit

open Vellaveto.Lib

variable {H T : Type}

/-- `DEFAULT_MAX_FILE_SIZE`. -/
def defaultMaxFileSize : Nat := 100 * 1024 * 1024

/-- The active log has at most `max_file_size` bytes and its last line. -/
def AuditLogger.Bounded (env : Env H T) (cfg : Config) (s : AuditLogger H T) : Prop :=
  env.texts.fileLen s.lines ≤ cfg.maxFileSize + env.texts.fileLen s.lines.getLast?.toList

/-- **The condition**: the active log can be loaded, or the call writes no line. -/
def FindsLoadable (env : Env H T) (s : AuditLogger H T) (call : LogCall) : Prop :=
  env.texts.fileLen s.lines ≤ maxAuditLogSize ∨
    ¬ (call.io.rotation.metadata = none ∧ ∃ hash, WritesLine env s call hash)

section Step

variable {env : Env H T} {cfg : Config} {io : EntryIo} {req : LogRequest} {s s' : AuditLogger H T}
  {call : LogCall}

/-- A log that is at its limit with one more line: the bound says that it was within the limit before. -/
theorem bounded_concat_iff {lines : List T} {line : T} (hlines : s'.lines = lines ++ [line]) :
    s'.Bounded env cfg ↔ env.texts.fileLen lines ≤ cfg.maxFileSize := by
  have hlast : (lines ++ [line]).getLast?.toList = [line] := by
    rw [List.getLast?_concat]
    rfl
  rw [AuditLogger.Bounded, hlines, hlast, fileLen_append]
  omega

theorem bounded_of_lines_eq_nil (hlines : s'.lines = []) : s'.Bounded env cfg := by
  rw [AuditLogger.Bounded, hlines]
  exact Nat.zero_le _

/-- What an append does to the lines. -/
theorem lines_appendEntry {r : Except AuditError Unit} (h : appendEntry env cfg io req s = (r, s')) :
    s' = s ∨ ∃ line, s'.lines = s.lines ++ [line] := by
  obtain ⟨hs', -⟩ | ⟨hash, -, -, ⟨e, -, rfl, -⟩ | ⟨t, ht, rfl, -⟩⟩ := appendEntry_cases h
  · exact .inl hs'
  · exact .inr ⟨_, rfl⟩
  · obtain ⟨tree, leaves, rfl⟩ := appendLeaf_eq_ok ht
    exact .inr ⟨_, rfl⟩

/-- An append to a log within the limit. -/
theorem bounded_appendEntry {r : Except AuditError Unit} (hb : s.Bounded env cfg)
    (hlen : env.texts.fileLen s.lines ≤ cfg.maxFileSize)
    (h : appendEntry env cfg io req s = (r, s')) : s'.Bounded env cfg := by
  obtain rfl | ⟨line, hlines⟩ := lines_appendEntry h
  · exact hb
  · exact (bounded_concat_iff hlines).mpr hlen

/-- Where no rotation is due, a call that writes adds its line to the log as it is. -/
theorem lines_logEntry {hash : String}
    (hskip : checkRotation env cfg call.io.rotation s.disk.log = .skip) (hw : WritesLine env s call hash) :
    (logEntry env cfg call.io call.req s).2.lines = s.lines ++ [callLine env s call hash] := by
  have hrotate : maybeRotate env cfg call.io.rotation s = (.ok false, s) := by rw [maybeRotate, hskip]
  cases happend : appendEntry env cfg call.io call.req s with
  | mk r t =>
    have hlog : logEntry env cfg call.io call.req s = (r, t) := by
      simp only [logEntry, hw.valid, hrotate, happend]
    rw [hlog]
    obtain ⟨-, -, hnot⟩ | ⟨hash', hhash', -, hrest⟩ := appendEntry_cases happend
    · exact absurd hw.append (hnot hash hw.hash)
    · obtain rfl : hash = hash' := Except.ok.inj (hw.hash.symm.trans hhash')
      obtain ⟨e, -, rfl, -⟩ | ⟨u, hu, rfl, -⟩ := hrest
      · rfl
      · obtain ⟨tree, leaves, rfl⟩ := appendLeaf_eq_ok hu
        rfl

/-- A log that is too long to be loaded is not rotated. -/
theorem checkRotation_of_long (hlong : maxAuditLogSize < env.texts.fileLen s.lines)
    (hmeta : call.io.rotation.metadata = none) :
    checkRotation env cfg call.io.rotation s.disk.log = .skip := by
  cases hcheck : checkRotation env cfg call.io.rotation s.disk.log with
  | skip => rfl
  | fail e =>
    have hrotate : maybeRotate env cfg call.io.rotation s = (.error e, s) := by rw [maybeRotate, hcheck]
    obtain ⟨-, h | ⟨_, -, h | h⟩⟩ | ⟨_, _, h, -⟩ := maybeRotate_cases hrotate
    · cases h
    · rw [hmeta] at h
      cases h
    · -- the renaming comes after the check
      unfold checkRotation at hcheck
      rw [hmeta] at hcheck
      dsimp only at hcheck
      repeat' split at hcheck
      all_goals cases hcheck
    · rw [hcheck] at h
      cases h
  | rotate entries tailHash =>
    obtain ⟨-, lines, hlog, -, -, -, hsize, -⟩ := checkRotation_eq_rotate hcheck
    rw [AuditLogger.lines, hlog] at hlong
    exact absurd hlong (Nat.not_lt.mpr hsize)

/-- Every call on a log within the limit keeps the bound, with or without a rotation. -/
theorem bounded_of_loadable (hb : s.Bounded env cfg)
    (hlen : env.texts.fileLen s.lines ≤ cfg.maxFileSize) (hstep : logStep env cfg s call = some s') :
    s'.Bounded env cfg := by
  cases hcall : logEntry env cfg call.io call.req s with
  | mk r t =>
    obtain rfl : t = s' := by
      rw [logStep, hcall] at hstep
      exact Option.some.inj hstep
    obtain ⟨rfl, -⟩ | ⟨e, hrotate, -⟩ | ⟨u, hrotate, happend⟩ | ⟨-, happend⟩ := logEntry_cases hcall
    · exact hb
    · obtain ⟨rfl, -⟩ | ⟨entries, tailHash, hcheck, -, ⟨-, -, rfl⟩ | ⟨_, -, h, -⟩⟩ :=
        maybeRotate_cases hrotate
      · exact hb
      · obtain ⟨-, lines, hlog, -⟩ := checkRotation_eq_rotate hcheck
        refine bounded_of_lines_eq_nil ?_
        rw [AuditLogger.lines, log_renameAway hlog]
        rfl
      · cases h
    · obtain ⟨-, h | ⟨_, h, -⟩⟩ | ⟨entries, tailHash, hcheck, -, ⟨_, h, -⟩ | ⟨line, -, -, rfl⟩⟩ :=
        maybeRotate_cases hrotate
      · cases h
      · cases h
      · cases h
      · obtain ⟨-, lines, hlog, -⟩ := checkRotation_eq_rotate hcheck
        have hnew : (s.rotated cfg call.io.rotation line).startFile.lines = [] :=
          lines_rotated hlog call.io.rotation line
        refine bounded_appendEntry (bounded_of_lines_eq_nil hnew) ?_ happend
        rw [hnew]
        exact Nat.zero_le _
    · exact bounded_appendEntry hb hlen happend

/-- A call that writes nothing to a log that is too long leaves all as it is. -/
theorem logStep_of_long (hcfg : cfg.maxFileSize ≠ 0) (hlong : maxAuditLogSize < env.texts.fileLen s.lines)
    (hnot : ¬ (call.io.rotation.metadata = none ∧ ∃ hash, WritesLine env s call hash))
    (hstep : logStep env cfg s call = some s') : s' = s := by
  cases hcall : logEntry env cfg call.io call.req s with
  | mk r t =>
    obtain rfl : t = s' := by
      rw [logStep, hcall] at hstep
      exact Option.some.inj hstep
    cases hmeta : call.io.rotation.metadata with
    | some message =>
      have hcheck : checkRotation env cfg call.io.rotation s.disk.log = .fail (.io message) := by
        unfold checkRotation
        rw [if_neg hcfg, hmeta]
      have hrotate : maybeRotate env cfg call.io.rotation s = (.error (.io message), s) := by
        rw [maybeRotate, hcheck]
      obtain ⟨h, -⟩ | ⟨_, h, -⟩ | ⟨_, h, -⟩ | ⟨h, -⟩ := logEntry_cases hcall
      · exact h
      · rw [hrotate] at h
        exact (Prod.mk.inj h).2.symm
      · rw [hrotate] at h
        cases (Prod.mk.inj h).1
      · rw [hrotate] at h
        cases (Prod.mk.inj h).1
    | none =>
      have hrotate : maybeRotate env cfg call.io.rotation s = (.ok false, s) := by
        rw [maybeRotate, checkRotation_of_long hlong hmeta]
      cases hvalid : validateRequest env call.req with
      | error e =>
        rw [logEntry, hvalid] at hcall
        exact (Prod.mk.inj hcall).2.symm
      | ok u =>
        simp only [logEntry, hvalid, hrotate] at hcall
        obtain ⟨h, -⟩ | ⟨hash, hhash, happend, -⟩ := appendEntry_cases hcall
        · exact h
        · exact absurd ⟨hmeta, hash, hvalid, hhash, happend⟩ hnot

/-- **One call.**  With equal limits the bound is kept exactly if the log can be loaded or nothing is
    written. -/
theorem bounded_logStep_iff (hcfg : cfg.maxFileSize = defaultMaxFileSize) (hb : s.Bounded env cfg)
    (hstep : logStep env cfg s call = some s') : s'.Bounded env cfg ↔ FindsLoadable env s call := by
  have hlimits : cfg.maxFileSize = maxAuditLogSize := hcfg
  by_cases hlen : env.texts.fileLen s.lines ≤ maxAuditLogSize
  · exact iff_of_true (bounded_of_loadable hb (hlimits ▸ hlen) hstep) (.inl hlen)
  by_cases hwrites : call.io.rotation.metadata = none ∧ ∃ hash, WritesLine env s call hash
  · obtain ⟨hmeta, hash, hw⟩ := hwrites
    have hskip : checkRotation env cfg call.io.rotation s.disk.log = .skip :=
      checkRotation_of_long (Nat.not_le.mp hlen) hmeta
    have hlines := lines_logEntry hskip hw
    rw [show (logEntry env cfg call.io call.req s).2 = s' from Option.some.inj hstep] at hlines
    refine iff_of_false ?_ ?_
    · rw [bounded_concat_iff hlines, hlimits]
      exact hlen
    · rintro (h | h)
      · exact hlen h
      · exact h ⟨hmeta, hash, hw⟩
  · have hzero : cfg.maxFileSize ≠ 0 := by
      rw [hcfg]
      decide
    rw [logStep_of_long hzero (Nat.not_le.mp hlen) hwrites hstep]
    exact iff_of_true hb (.inr hwrites)

end Step

/-- **Rotation keeps up exactly as long as the log can be loaded.**  With the default limit, the active log
    stays within the limit and one line in every state of a run exactly if every call that writes finds a
    log of at most `MAX_AUDIT_LOG_SIZE`. -/
theorem rotation_not_starved_iff (env : Env H T) (cfg : Config)
    (hcfg : cfg.maxFileSize = defaultMaxFileSize) (s : AuditLogger H T) (hs : s.Bounded env cfg)
    (calls : List LogCall) :
    EachStep (logStep env cfg) (fun _ _ s' => s'.Bounded env cfg) s calls ↔
      EachStep (logStep env cfg) (fun s call _ => FindsLoadable env s call) s calls := by
  refine eachStep_iff (I := fun _ => True) (fun _ _ _ _ _ => trivial) ?_ trivial hs
  intro s call s' _ hb hstep
  exact bounded_logStep_iff hcfg hb hstep

/-! ### A log that is never rotated again -/

/-- An object is at least as long as each of its members. -/
theorem utf8ByteSize_le_object {k : String} {v : Json} {ms : List (String × Json)} (h : (k, v) ∈ ms) :
    (plainJsonText v).utf8ByteSize ≤ (plainJsonText (.object ms)).utf8ByteSize := by
  have hmembers : (plainJsonText v).utf8ByteSize ≤ (plainMembers ms).utf8ByteSize := by
    induction ms with
    | nil => cases h
    | cons m rest ih =>
      obtain ⟨l, w⟩ := m
      cases rest with
      | nil =>
        obtain ⟨rfl, rfl⟩ := Prod.mk.inj (List.mem_singleton.mp h)
        simp only [plainMembers, String.utf8ByteSize_append]
        omega
      | cons m' rest =>
        simp only [plainMembers, String.utf8ByteSize_append]
        rcases List.mem_cons.mp h with heq | hrest
        · obtain ⟨rfl, rfl⟩ := Prod.mk.inj heq
          omega
        · have := ih hrest
          omega
  simp only [plainJsonText, String.utf8ByteSize_append]
  omega

theorem utf8ByteSize_replicate (n : Nat) : (String.ofList (List.replicate n 'a')).utf8ByteSize = n := by
  induction n with
  | zero => rfl
  | succ n ih =>
    rw [List.replicate_succ, String.ofList_cons, String.utf8ByteSize_append, ih, Nat.add_comm]
    rfl

/-- The line of an entry is longer than its tool's name. -/
theorem len_plain_entryLine (e : AuditEntry) :
    e.action.tool.utf8ByteSize ≤ plainTexts.len (plainTexts.entryLine e) := by
  have htool : (plainJsonText (.string e.action.tool)).utf8ByteSize ≤
      (plainJsonText (actionJson e.action)).utf8ByteSize :=
    utf8ByteSize_le_object (k := "tool") (by simp)
  have haction : (plainJsonText (actionJson e.action)).utf8ByteSize ≤
      (plainJsonText (entryJson e)).utf8ByteSize :=
    utf8ByteSize_le_object (k := "action") (by simp)
  simp only [plainJsonText, String.utf8ByteSize_append] at htool
  show _ ≤ (plainJsonText (entryJson e)).utf8ByteSize
  omega

/-- The default configuration. -/
def defaultConfig : Config := { plainConfig with maxFileSize := defaultMaxFileSize }

def freshLogger : AuditLogger (List UInt8) PlainLine := .new defaultConfig .empty

theorem freshLogger_bounded : freshLogger.Bounded (plainEnv shortDigests) defaultConfig :=
  bounded_of_lines_eq_nil rfl

theorem rotation_not_starved_plain :
    EachStep (logStep (plainEnv shortDigests) defaultConfig)
      (fun _ _ s' => s'.Bounded (plainEnv shortDigests) defaultConfig) freshLogger
      [plainCall "a" "01" none] :=
  (rotation_not_starved_iff (plainEnv shortDigests) defaultConfig rfl freshLogger freshLogger_bounded
    [plainCall "a" "01" none]).mpr fun _ _ => ⟨.inl (Nat.zero_le _), trivial⟩

/-- A tool whose name is as long as the limit: the names of an action have no bound of their own. -/
def longTool : String := String.ofList (List.replicate maxAuditLogSize 'a')

/-- A call with that tool. -/
def longNameCall : LogCall :=
  { plainCall "a" "01" none with req := ⟨.new longTool "f" .null, .allow, .object [], none⟩ }

theorem hasDangerousChars_replicate (n : Nat) :
    hasDangerousChars (String.ofList (List.replicate n 'a')) = false := by
  rw [hasDangerousChars, String.toList_ofList, List.any_eq_false]
  intro c hc
  rw [List.eq_of_mem_replicate hc]
  decide

/-- An action that has only a name passes the checks. -/
theorem validateRequest_name (d : Digests H) {tool : String} (htool : hasDangerousChars tool = false) :
    validateRequest (plainEnv d) ⟨.new tool "f" .null, .allow, .object [], none⟩ = .ok () := by
  have hfunction : hasDangerousChars "f" = false := by decide
  have hsize : (plainEnv d).jsonTextLen .null = 4 := rfl
  have hdepth : jsonDepth .null ≤ 20 := by decide
  have haction : validateAction (plainEnv d) (.new tool "f" .null) = .ok () := by
    simp [validateAction, Action.new, htool, hfunction, hsize, checkTargets, hdepth, pure, Except.pure, bind,
      Except.bind]
  rw [validateRequest, haction]
  rfl

theorem longNameCall_writes : ∃ hash, WritesLine (plainEnv shortDigests) freshLogger longNameCall hash :=
  ⟨_, validateRequest_name shortDigests (hasDangerousChars_replicate _), rfl, rfl⟩

/-- The action of an entry is that of the request, redacted. -/
theorem action_hashedEntry (env : Env H T) (io : EntryIo) (req : LogRequest) (s : AuditLogger H T)
    (hash : String) : (hashedEntry env io req s hash).action = env.redactAction req.action := by
  rw [hashedEntry, nextEntry, clampTimestamp]
  split
  · rfl
  · rfl

theorem len_longNameCall (hash : String) :
    maxAuditLogSize ≤ plainTexts.len (callLine (plainEnv shortDigests) freshLogger longNameCall hash) := by
  have htool : (hashedEntry (plainEnv shortDigests) longNameCall.io longNameCall.req freshLogger hash).action.tool =
      longTool := by
    rw [action_hashedEntry]
    rfl
  have hline := len_plain_entryLine
    (hashedEntry (plainEnv shortDigests) longNameCall.io longNameCall.req freshLogger hash)
  rw [htool, longTool, utf8ByteSize_replicate] at hline
  exact hline

/-- **Rotation is starved.**  The first line carries the log past the limit, and the second is written to the
    same file. -/
theorem rotation_starved :
    ¬ EachStep (logStep (plainEnv shortDigests) defaultConfig)
      (fun _ _ s' => s'.Bounded (plainEnv shortDigests) defaultConfig) freshLogger
      [longNameCall, plainCall "b" "02" none] := by
  intro h
  obtain ⟨hash, hw⟩ := longNameCall_writes
  obtain ⟨hb, hrest⟩ := h _ rfl
  obtain ⟨hb', -⟩ := hrest _ rfl
  have hskip : checkRotation (plainEnv shortDigests) defaultConfig longNameCall.io.rotation
      freshLogger.disk.log = .skip := rfl
  -- the log has one line now, longer than the limit
  have hlong : maxAuditLogSize < (plainEnv shortDigests).texts.fileLen
      (logEntry (plainEnv shortDigests) defaultConfig longNameCall.io longNameCall.req freshLogger).2.lines := by
    have hline := len_longNameCall hash
    rw [lines_logEntry hskip hw, fileLen_append]
    have hone : (plainEnv shortDigests).texts.fileLen
        [callLine (plainEnv shortDigests) freshLogger longNameCall hash] =
        plainTexts.len (callLine (plainEnv shortDigests) freshLogger longNameCall hash) + 1 := by
      simp [Texts.fileLen, plainEnv]
    omega
  rcases (bounded_logStep_iff rfl hb rfl).mp hb' with hload | hnot
  · exact absurd hload (Nat.not_le.mpr hlong)
  · exact hnot ⟨rfl, _, by decide +kernel, rfl, rfl⟩

end Vellaveto.Audit
