/-
  A ROTATION THAT FAILS.

  PROGRAM.      `maybe_rotate` renames the log before it writes about it in the manifest, and its caller
                resets the chain head only after it has returned `Ok(true)`.

  SPEC.         All or nothing: after an error every later run of calls that succeed leaves a log that
                `verify_chain` accepts, and every file that was renamed is named in the manifest.

  CORRECTNESS.  On every log of a clean run:
    1. `sound_okStep`                    calls that succeed keep the chain and the manifest complete;
    2. `not_namesAll_renameAway`         after the renaming the manifest is not complete;
    3. `rotation_all_or_nothing`         so it is all or nothing exactly if the error came before the
                                         renaming;
    4. `manifestFailure_breaks_chain`    the manifest cannot be written, and the next log is rejected.
-/
import Vellaveto.Audit.CleanRun

namespace Vellaveto.Audit

open Vellaveto.Lib

variable {H T : Type}

/-! ## The manifest names the rotated files -/

/-- The line of the manifest is about this file. -/
def NamesFile (texts : Texts T) (line : T) (name : String) : Prop :=
  ∃ v, texts.parseJson line = .ok v ∧ v.get "rotated_file" = some (.string name)

instance (texts : Texts T) (line : T) (name : String) : Decidable (NamesFile texts line name) :=
  match h : texts.parseJson line with
  | .error _ => isFalse fun ⟨v, hv, _⟩ => by rw [h] at hv; cases hv
  | .ok v =>
    decidable_of_iff (v.get "rotated_file" = some (.string name))
      ⟨fun hget => ⟨v, h, hget⟩, fun ⟨_, hv, hget⟩ => Except.ok.inj (h.symm.trans hv) ▸ hget⟩

/-- Every file that was renamed is named by some line of the manifest. -/
def NamesAll (texts : Texts T) (disk : Disk T) : Prop :=
  ∀ f ∈ disk.rotated, ∃ line ∈ disk.manifest.getD [], NamesFile texts line f.1

instance (texts : Texts T) (disk : Disk T) : Decidable (NamesAll texts disk) :=
  inferInstanceAs (Decidable (∀ f ∈ disk.rotated, _))

theorem ManifestEntry.get_rotatedFile (m : ManifestEntry) (signed : Option (String × String)) :
    (m.toJson signed).get "rotated_file" = some (.string m.rotatedFile) := rfl

section Named

variable {env : Env H T} {cfg : Config} {s s' : AuditLogger H T}

/-- The line of a rotation names the file it made. -/
theorem namesFile_rotationLine {io : RotationIo} {entries : List AuditEntry} {tailHash : String}
    {line : T} (hline : s.rotationLine env cfg io entries tailHash = .ok line) :
    NamesFile env.texts line (s.rotatedName cfg io) := by
  rw [AuditLogger.rotationLine, manifestLine] at hline
  split at hline
  · cases hline
  · cases hline
    exact ⟨_, env.texts.parseJson_jsonLine _ _, ManifestEntry.get_rotatedFile _ _⟩

theorem namesAll_rotated (h : NamesAll env.texts s.disk) {io : RotationIo} {entries : List AuditEntry}
    {tailHash : String} {line : T} (hline : s.rotationLine env cfg io entries tailHash = .ok line) :
    NamesAll env.texts (s.rotated cfg io line).disk := by
  intro f hf
  rw [manifest_rotated, Option.getD_some]
  rcases mem_rotated_rotated hf with hold | hnew
  · obtain ⟨l, hl, hnames⟩ := h f hold
    exact ⟨l, List.mem_append_left _ hl, hnames⟩
  · refine ⟨line, List.mem_append_right _ (List.mem_singleton.mpr rfl), ?_⟩
    rw [hnew]
    exact namesFile_rotationLine hline

/-- Without a line about it, the renamed file has no name in the manifest. -/
theorem not_namesAll_renameAway {io : RotationIo} {lines : List T} (hlog : s.disk.log = some lines)
    (hfresh : ∀ line ∈ s.disk.manifest.getD [], ¬NamesFile env.texts line (s.rotatedName cfg io)) :
    ¬NamesAll env.texts (s.renameAway cfg io (s.rotatedName cfg io)).disk := by
  intro h
  have hmem : (s.rotatedName cfg io, lines) ∈
      (s.renameAway cfg io (s.rotatedName cfg io)).disk.rotated := by
    rw [rotated_renameAway, Disk.renameLog, hlog]
    exact List.mem_append_right _ (List.mem_singleton.mpr rfl)
  obtain ⟨line, hline, hnames⟩ := h _ hmem
  rw [manifest_renameAway] at hline
  exact hfresh line hline hnames

/-! ## Sound states -/

/-- The log is a chain and the manifest is complete. -/
def Sound (env : Env H T) (s : AuditLogger H T) : Prop :=
  (∃ entries st, Chained env s entries st) ∧ NamesAll env.texts s.disk

theorem namesAll_congr (h : NamesAll env.texts s.disk) (hmanifest : s'.disk.manifest = s.disk.manifest)
    (hrotated : s'.disk.rotated = s.disk.rotated) : NamesAll env.texts s'.disk := by
  intro f hf
  rw [hmanifest]
  exact h f (hrotated ▸ hf)

/-- **Calls that succeed keep the state sound.** -/
theorem sound_okStep {call : LogCall} (h : Sound env s) (hin : Within env cfg s call)
    (hstep : okStep env cfg s call = some s') : Sound env s' := by
  obtain ⟨⟨entries, st, hchain⟩, hnames⟩ := h
  refine ⟨chained_okStep hchain hin hstep, ?_⟩
  obtain ⟨hash, -, -, -, -, -, hmanifest, hrotated, -⟩ := okStep_fields hstep
  have hbase : NamesAll env.texts (entryBase env cfg s call).disk := by
    obtain heq | ⟨_, _, line, -, hline, heq⟩ := entryBase_cases hstep
    · rw [heq]
      exact hnames
    · rw [heq]
      exact namesAll_rotated hnames hline
  exact namesAll_congr hbase hmanifest hrotated

theorem sound_cleanStep {op : CleanOp} (h : Sound env s) (hin : WithinOp env cfg s op)
    (hstep : cleanStep env cfg s op = some s') : Sound env s' := by
  cases op with
  | log call => exact sound_okStep h hin hstep
  | rotate io =>
    refine ⟨chained_cleanStep h.1 hin hstep, ?_⟩
    obtain rfl | ⟨_, _, line, -, hline, rfl⟩ := cleanStep_rotate hstep
    · exact h.2
    · exact namesAll_rotated h.2 hline
  | restart =>
    refine ⟨chained_cleanStep h.1 hin hstep, ?_⟩
    obtain ⟨leaves, hdisk⟩ := restart_disk (cleanStep_restart hstep)
    exact namesAll_congr h.2 (hdisk ▸ rfl) (hdisk ▸ rfl)

end Named

/-! ## All or nothing -/

/-- What the error must leave behind: any later run of calls that succeed ends with a log that is
    accepted, unless it is too large to be read, and with a complete manifest. -/
def AllOrNothing (env : Env H T) (cfg : Config) (s : AuditLogger H T) : Prop :=
  ∀ calls t, run (okStep env cfg) s calls = some t →
    EachStep (okStep env cfg) (fun s call _ => Within env cfg s call) s calls →
    (env.texts.fileLen t.lines ≤ maxAuditLogSize → ReportsValid (t.verifyChain env)) ∧
      NamesAll env.texts t.disk

theorem Sound.allOrNothing {env : Env H T} {cfg : Config} {s : AuditLogger H T} (h : Sound env s) :
    AllOrNothing env cfg s := by
  intro calls t hrun hin
  have ht : Sound env t := by
    refine run_invariant_of_eachStep (I := Sound env) ?_ hin h hrun
    intro s call s' _ hs hw hstep
    exact sound_okStep hs hw hstep
  obtain ⟨⟨entries, st, hchain⟩, hnames⟩ := ht
  exact ⟨hchain.valid, hnames⟩

/-- **All or nothing.**  A clean run starts in an empty directory; then a call fails in its rotation.
    If the lookup of the metadata or the renaming of the log failed, it is all or nothing.  Otherwise
    it is not, if the name of the file is new to the manifest. -/
theorem rotation_all_or_nothing (env : Env H T) (cfg : Config) {ops : List CleanOp}
    {s s' : AuditLogger H T} {call : LogCall} {e : AuditError}
    (hrun : run (cleanStep env cfg) (AuditLogger.new cfg Disk.empty) ops = some s)
    (hin : EachStep (cleanStep env cfg) (fun s op _ => WithinOp env cfg s op)
      (AuditLogger.new cfg Disk.empty) ops)
    (hcall : logEntry env cfg call.io call.req s = (.error e, s'))
    (hvalid : validateRequest env call.req = .ok ())
    (hrotation : (maybeRotate env cfg call.io.rotation s).1 = .error e) :
    (call.io.rotation.metadata.isSome ∨ call.io.rotation.rename.isSome → AllOrNothing env cfg s') ∧
    ((∀ line ∈ s.disk.manifest.getD [],
        ¬NamesFile env.texts line (s.rotatedName cfg call.io.rotation)) →
      AllOrNothing env cfg s' →
        call.io.rotation.metadata.isSome ∨ call.io.rotation.rename.isSome) := by
  have hsound : Sound env s := by
    refine run_invariant_of_eachStep (I := Sound env) ?_ hin ⟨⟨[], .start, chained_new cfg⟩, ?_⟩ hrun
    · intro s op s' _ hs hw hstep
      exact sound_cleanStep hs hw hstep
    · intro f hf
      cases hf
  have herror : maybeRotate env cfg call.io.rotation s = (.error e, s') := by
    rw [logEntry, hvalid] at hcall
    cases hrot : maybeRotate env cfg call.io.rotation s with
    | mk r t =>
      rw [hrot] at hrotation hcall
      obtain rfl : r = .error e := hrotation
      cases hcall
      rfl
  obtain ⟨rfl, hres⟩ | ⟨entries, tailHash, hcheck, hrename, hres⟩ := maybeRotate_cases herror
  · -- nothing has changed
    obtain he | ⟨_, -, hfault⟩ := hres
    · cases he
    · exact ⟨fun _ => hsound.allOrNothing, fun _ _ => hfault⟩
  · obtain ⟨hmeta, lines, hlog, -⟩ := checkRotation_eq_rotate hcheck
    obtain ⟨_, -, rfl⟩ | ⟨_, -, he, -⟩ := hres
    · constructor
      · rintro (hfault | hfault)
        · rw [hmeta] at hfault
          cases hfault
        · rw [hrename] at hfault
          cases hfault
      · intro hfresh hall
        exact absurd (hall [] _ rfl trivial).2 (not_namesAll_renameAway hlog hfresh)
    · cases he

/-! ### A manifest that cannot be written -/

/-- A log that is rotated at every call. -/
def rotatingConfig : Config := { plainConfig with maxFileSize := 1 }

/-- A call whose rotation meets these faults. -/
def plainCallWith (io : RotationIo) (id now : String) : LogCall :=
  { plainCall id now none with io := { (plainCall id now none).io with rotation := io } }

/-- The log after one call. -/
def oneEntry : AuditLogger (List UInt8) PlainLine :=
  (logEntry (plainEnv shortDigests) rotatingConfig (plainCall "1" "30" none).io
    (plainCall "1" "30" none).req (AuditLogger.new rotatingConfig Disk.empty)).2

/-- The log cannot be renamed: nothing is lost. -/
theorem rotation_all_or_nothing_rename :
    let env := plainEnv shortDigests
    let call := plainCallWith { plainRotationIo with rename := some "Permission denied" } "2" "31"
    AllOrNothing env rotatingConfig (logEntry env rotatingConfig call.io call.req oneEntry).2 := by
  intro env call
  have hrun : run (cleanStep env rotatingConfig) (AuditLogger.new rotatingConfig Disk.empty)
      [.log (plainCall "1" "30" none)] = some oneEntry := by decide +kernel
  have hcall : logEntry env rotatingConfig call.io call.req oneEntry =
      (.error (.io "Permission denied"), (logEntry env rotatingConfig call.io call.req oneEntry).2) := by
    decide +kernel
  refine (rotation_all_or_nothing env rotatingConfig hrun ?_ hcall ?_ ?_).1 (.inr rfl)
  · decide +kernel
  · decide +kernel
  · decide +kernel

/-- **A manifest that cannot be written.**  The log has been renamed; the next log starts with the hash
    of the old one and is rejected, and no line of the manifest names the old one. -/
theorem manifestFailure_breaks_chain :
    let env := plainEnv shortDigests
    let failing := plainCallWith
      { plainRotationIo with manifestAppend := some "No space left on device" } "2" "31"
    let next := plainCall "3" "32" none
    let s' := (logEntry env rotatingConfig failing.io failing.req oneEntry).2
    let t := (logEntry env rotatingConfig next.io next.req s').2
    (logEntry env rotatingConfig failing.io failing.req oneEntry).1 =
      .error (.io "No space left on device") ∧
    (maybeRotate env rotatingConfig failing.io.rotation oneEntry).1 =
      .error (.io "No space left on device") ∧
    ¬NamesAll env.texts s'.disk ∧
    (logEntry env rotatingConfig next.io next.req s').1 = .ok () ∧
    ¬ReportsValid (t.verifyChain env) := by
  decide +kernel

end Vellaveto.Audit
