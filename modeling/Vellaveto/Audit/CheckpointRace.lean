/-
  CHECKPOINTS AND CONCURRENT APPENDS (`create_checkpoint` of `vellaveto-audit/src/checkpoints.rs`, `log_entry` of
  `logger.rs`).

  PROGRAM.      `log_entry` holds the lock of the chain head, so one call runs at a time; it writes the line of
                its entry and then the leaf, and a rotation renames the log and then resets the tree.
                `create_checkpoint` takes no lock: a task reads the entries, and later the root of the
                tree.  The two reads fall anywhere among the writes of the calls.

  SPEC.         The `merkle_root` of a checkpoint is the root over the entries that it counts.

  CORRECTNESS.
    1. `RaceSystem.Sound`           log and tree are aligned between the calls; and a reader whose tree has
                                    not changed since holds the entries that the tree is over;
    2. `checkpoints_consistent`     the specification, along every run where the entries are not read
                                    inside a pair of writes, and the tree does not change before the root is read;
    3. `checkpoint_race`            one append between the two reads.
-/
import Vellaveto.Audit.Checkpoints
import Vellaveto.Audit.Crash

namespace Vellaveto.Audit

open Vellaveto.Lib
open Vellaveto.Lib.Merkle (levelRoot)

variable {H T : Type}

/-! ### The specification -/

/-- The leaf of an entry. -/
def entryLeaf (d : Digests H) (entry : AuditEntry) : Option H :=
  entry.entryHash.bind fun hash => (leafOfHash d hash).toOption

/-- The Merkle root over some entries, in hex. -/
def merkleRootOf (d : Digests H) (entries : List AuditEntry) : Option String :=
  (entries.mapM (entryLeaf d)).bind fun leaves => (levelRoot d.hashInternal leaves).map d.encodeHashHex

/-! ### The system -/

/-- A task in `create_checkpoint` that has read the entries.  `treeChanged` is set once the tree changes. -/
structure Reader where
  entries : List AuditEntry
  treeChanged : Bool
deriving DecidableEq

/-- The logger as it was before the call that is running, the entries of the active log then, that call with
    the number of its writes so far, the tasks that create checkpoints, and the checkpoint file. -/
structure RaceSystem (H T : Type) where
  logger : AuditLogger H T
  active : List AuditEntry
  running : Option (LogCall × Nat)
  readers : Nat → Option Reader
  checkpoints : List Checkpoint

inductive RaceStep where
  | lock (call : LogCall)
  | write
  | unlock
  | readEntries (task : Nat)
  | readRoot (task : Nat) (io : CheckpointIo)

/-- Does the write change the tree? -/
def FileWrite.changesTree : FileWrite H T → Bool
  | .renameLeaves _ | .keepLeaves | .appendLeaf _ => true
  | _ => false

namespace RaceSystem

variable (env : Env H T) (cfg : Config) (s : RaceSystem H T)

def initial : RaceSystem H T := ⟨.new cfg .empty, [], none, fun _ => none, []⟩

/-- The writes of the running call so far. -/
def done : List (FileWrite H T) :=
  match s.running with
  | none => []
  | some (call, k) => (writesOf env cfg s.logger call).take k

/-- Disk and tree as they are now. -/
def trail : Trail H T := s.logger.trail.writeAll env cfg (s.done env cfg)

/-- The entries whose lines are in the log now. -/
def activeNow : List AuditEntry := activeAfter s.active (s.done env cfg)

/-- The running call is between the two writes of a pair. -/
def torn : Prop :=
  match s.running with
  | none => False
  | some (call, k) => TornAt (writesOf env cfg s.logger call) k

instance : Decidable (s.torn env cfg) :=
  match h : s.running with
  | none => isFalse (by simp [torn, h])
  | some (call, k) =>
    decidable_of_iff (TornAt (writesOf env cfg s.logger call) k) (by simp [torn, h])

/-- The readers after a write. -/
def markReaders (w : FileWrite H T) : Nat → Option Reader :=
  if w.changesTree then fun task => (s.readers task).map fun r => { r with treeChanged := true }
  else s.readers

end RaceSystem

/-- The checkpoint of a task that has read its entries, from the tree of now. -/
def raceCheckpoint (env : Env H T) (cfg : Config) (s : RaceSystem H T) (key : Signer) (io : CheckpointIo)
    (r : Reader) : Checkpoint :=
  signedCheckpoint env key (unsignedCheckpoint env key io (s.trail env cfg).tree r.entries)

/-- One step; `none` when it cannot be taken. -/
def raceStep (env : Env H T) (cfg : Config) (s : RaceSystem H T) : RaceStep → Option (RaceSystem H T)
  | .lock call =>
    match s.running with
    | none => some { s with running := some (call, 0) }
    | some _ => none
  | .write =>
    match s.running with
    | none => none
    | some (call, k) =>
      match (writesOf env cfg s.logger call)[k]? with
      | none => none
      | some w => some { s with running := some (call, k + 1), readers := s.markReaders w }
  | .unlock =>
    match s.running with
    | none => none
    | some (call, k) =>
      if k = (writesOf env cfg s.logger call).length then
        some { s with
          logger := (logEntry env cfg call.io call.req s.logger).2
          active := s.activeNow env cfg
          running := none }
      else none
  | .readEntries task =>
    match cfg.signingKey, s.readers task with
    | some _, none =>
      match env.texts.loadEntries (s.trail env cfg).disk.log with
      | .error _ => some s
      | .ok entries => some { s with readers := Function.update s.readers task (some ⟨entries, false⟩) }
    | _, _ => none
  | .readRoot task io =>
    match cfg.signingKey, s.readers task with
    | some key, some r =>
      let cp := raceCheckpoint env cfg s key io r
      some { s with
        readers := Function.update s.readers task none
        checkpoints := if io.append.isSome then s.checkpoints else s.checkpoints ++ [cp] }
    | _, _ => none

/-- **The property**: the checkpoint that is made has the root over the entries that it counts. -/
def Consistent (env : Env H T) (cfg : Config) (s : RaceSystem H T) : RaceStep → Prop
  | .readRoot task io => ∀ key ∈ cfg.signingKey, ∀ r ∈ s.readers task,
      (raceCheckpoint env cfg s key io r).entryCount = r.entries.length ∧
        (raceCheckpoint env cfg s key io r).merkleRoot = merkleRootOf env.digests r.entries
  | _ => True

/-- **The condition.**  A call does not fail at the leaf file.  When the entries are read, no pair of writes is
    half done, the lines can be read, and there are no more of them than the tree holds; and the tree
    does not change before the root is read. -/
def Undisturbed (env : Env H T) (cfg : Config) (max : Nat) (s : RaceSystem H T) : RaceStep → Prop
  | .lock call => LeavesFollow env cfg s.logger call
  | .readEntries _ => ¬ s.torn env cfg ∧ (∀ e ∈ s.activeNow env cfg, env.texts.Readable e) ∧
      (s.activeNow env cfg).length ≤ max
  | .readRoot task _ => ∀ r ∈ s.readers task, r.treeChanged = false
  | _ => True

instance (env : Env H T) (cfg : Config) (s : RaceSystem H T) (a : RaceStep) :
    Decidable (Consistent env cfg s a) :=
  match a with
  | .readRoot task io => inferInstanceAs (Decidable (∀ key ∈ cfg.signingKey, ∀ r ∈ s.readers task,
      (raceCheckpoint env cfg s key io r).entryCount = r.entries.length ∧
        (raceCheckpoint env cfg s key io r).merkleRoot = merkleRootOf env.digests r.entries))
  | .lock _ | .write | .unlock | .readEntries _ => isTrue trivial

instance (env : Env H T) (cfg : Config) (max : Nat) (s : RaceSystem H T) (a : RaceStep) :
    Decidable (Undisturbed env cfg max s a) :=
  match a with
  | .lock call => inferInstanceAs (Decidable (LeavesFollow env cfg s.logger call))
  | .readEntries _ => inferInstanceAs (Decidable (¬ s.torn env cfg ∧
      (∀ e ∈ s.activeNow env cfg, env.texts.Readable e) ∧ (s.activeNow env cfg).length ≤ max))
  | .readRoot task _ => inferInstanceAs (Decidable (∀ r ∈ s.readers task, r.treeChanged = false))
  | .write | .unlock => isTrue trivial

/-! ### The invariant -/

section Roots

variable {d : Digests H} {entries : List AuditEntry} {leaves : List H}

theorem mapM_entryLeaf (h : List.Forall₂ (LeafOf d) entries leaves) :
    entries.mapM (entryLeaf d) = some leaves := by
  induction h with
  | nil => rfl
  | @cons entry leaf _ _ hleaf _ ih =>
    have hentry : entryLeaf d entry = some leaf := by
      obtain ⟨digest, hhash, rfl⟩ := hleaf
      rw [entryLeaf, hhash, Option.bind_some, leafOfHash_encodeHashHex]
      rfl
    rw [List.mapM_cons, hentry, ih]
    rfl

/-- The root of the tree over the leaves of some entries. -/
theorem rootHex_ofLeaves (max : Nat) (h : List.Forall₂ (LeafOf d) entries leaves) :
    (MerkleTree.ofLeaves d max leaves).rootHex d = merkleRootOf d entries := by
  rw [MerkleTree.rootHex, root_ofLeaves, merkleRootOf, mapM_entryLeaf h]
  rfl

end Roots

/-- The tree is over the leaves of these entries. -/
def TreeOver (env : Env H T) (max : Nat) (t : Trail H T) (entries : List AuditEntry) : Prop :=
  ∃ leaves, List.Forall₂ (LeafOf env.digests) entries leaves ∧
    t.tree = some (MerkleTree.ofLeaves env.digests max leaves)

/-- **The invariant.** -/
structure RaceSystem.Sound (env : Env H T) (cfg : Config) (max : Nat) (s : RaceSystem H T) : Prop where
  aligned : ∃ leaves, s.logger.trail.Aligned env max s.active leaves
  follows : ∀ call k, s.running = some (call, k) → LeavesFollow env cfg s.logger call
  readers : ∀ task r, s.readers task = some r → r.treeChanged = false →
    TreeOver env max (s.trail env cfg) r.entries

section Steps

variable {env : Env H T} {cfg : Config} {max : Nat} {s s' : RaceSystem H T}

/-- Where no pair of writes is half done, log and tree are aligned now. -/
theorem RaceSystem.Sound.alignedNow (h : s.Sound env cfg max) (hmax : max ≤ u64Max)
    (hwhole : ¬ s.torn env cfg) :
    ∃ leaves, (s.trail env cfg).Aligned env max (s.activeNow env cfg) leaves := by
  obtain ⟨leaves, haligned⟩ := h.aligned
  rw [RaceSystem.trail, RaceSystem.activeNow, RaceSystem.done]
  cases hrun : s.running with
  | none => exact ⟨leaves, haligned⟩
  | some p =>
    obtain ⟨call, k⟩ := p
    rw [RaceSystem.torn, hrun] at hwhole
    exact safe_writesOf hmax haligned (h.follows call k hrun) k hwhole

/-- The entries that are read from an aligned log whose lines can be read. -/
theorem readEntries_of_aligned {t : Trail H T} {active : List AuditEntry} {leaves : List H}
    (h : t.Aligned env max active leaves) (hread : ∀ e ∈ active, env.texts.Readable e)
    {entries : List AuditEntry} (hload : env.texts.loadEntries t.disk.log = .ok entries) :
    entries = active := by
  have hlines : LinesOf env.texts (t.disk.log.getD []) active := ⟨h.lines, hread⟩
  rw [← hlines.readEntries]
  cases hlog : t.disk.log with
  | none =>
    rw [hlog] at hload
    cases hload
    rfl
  | some lines =>
    rw [hlog, Texts.loadEntries] at hload
    split at hload
    · cases hload
    · exact (Except.ok.inj hload).symm

/-- A write that does not change the tree leaves it. -/
theorem tree_write (t : Trail H T) {w : FileWrite H T} (h : w.changesTree = false) :
    (t.write env cfg w).tree = t.tree := by
  cases w with
  | renameLeaves name => cases h
  | keepLeaves => cases h
  | appendLeaf leaf => cases h
  | renameLog name => rfl
  | appendManifest line => rfl
  | prune io => rfl
  | appendLine entry => rfl

/-- The entries of an aligned log with room in the tree are those that the tree is over. -/
theorem treeOver_of_aligned {t : Trail H T} {active : List AuditEntry} {leaves : List H}
    (h : t.Aligned env max active leaves) (hroom : active.length ≤ max) : TreeOver env max t active := by
  refine ⟨leaves, h.leafOf, ?_⟩
  have hlen : leaves.length ≤ max := h.leafOf.length_eq ▸ hroom
  rw [h.tree, List.take_of_length_le hlen]

/-- What the next write of the running call does to disk and tree. -/
theorem trail_succ {call : LogCall} {k : Nat} {w : FileWrite H T} (hrun : s.running = some (call, k))
    (hw : (writesOf env cfg s.logger call)[k]? = some w) (readers : Nat → Option Reader) :
    RaceSystem.trail env cfg { s with running := some (call, k + 1), readers := readers } =
      (s.trail env cfg).write env cfg w := by
  have hdone : s.done env cfg = (writesOf env cfg s.logger call).take k := by rw [RaceSystem.done, hrun]
  have htake : (writesOf env cfg s.logger call).take (k + 1) =
      (writesOf env cfg s.logger call).take k ++ [w] := by
    rw [List.take_add_one, hw]
    rfl
  show s.logger.trail.writeAll env cfg ((writesOf env cfg s.logger call).take (k + 1)) = _
  rw [htake, writeAll_append, RaceSystem.trail, hdone]
  rfl

/-- A write keeps the invariant: a reader is marked when the tree changes. -/
theorem sound_write {call : LogCall} {k : Nat} {w : FileWrite H T} (h : s.Sound env cfg max)
    (hrun : s.running = some (call, k)) (hw : (writesOf env cfg s.logger call)[k]? = some w) :
    RaceSystem.Sound env cfg max
      { s with running := some (call, k + 1), readers := s.markReaders w } where
  aligned := h.aligned
  follows call' k' hrun' := by
    obtain ⟨rfl, rfl⟩ := Prod.mk.inj (Option.some.inj hrun')
    exact h.follows call k hrun
  readers task r hr hsame := by
    rw [trail_succ hrun hw]
    cases hchanges : w.changesTree with
    | true =>
      have hmarked : s.markReaders w task = some r := hr
      rw [RaceSystem.markReaders, if_pos hchanges] at hmarked
      obtain ⟨r', -, rfl⟩ := Option.map_eq_some_iff.mp hmarked
      cases hsame
    | false =>
      have hkept : s.markReaders w task = some r := hr
      rw [RaceSystem.markReaders, if_neg (by rw [hchanges]; decide)] at hkept
      obtain ⟨leaves, hleaves, htree⟩ := h.readers task r hkept hsame
      exact ⟨leaves, hleaves, (tree_write _ hchanges).trans htree⟩

/-- The end of a call: it has performed its writes. -/
theorem sound_unlock {call : LogCall} {k : Nat} (h : s.Sound env cfg max) (hmax : max ≤ u64Max)
    (hrun : s.running = some (call, k)) (hk : k = (writesOf env cfg s.logger call).length) :
    RaceSystem.Sound env cfg max
      { s with
        logger := (logEntry env cfg call.io call.req s.logger).2
        active := s.activeNow env cfg
        running := none } := by
  have hdone : s.done env cfg = writesOf env cfg s.logger call := by
    rw [RaceSystem.done, hrun, hk]
    exact List.take_length
  have htrail : (logEntry env cfg call.io call.req s.logger).2.trail = s.trail env cfg := by
    rw [logEntry_trail, RaceSystem.trail, hdone]
  refine ⟨?_, fun _ _ hnone => (by cases hnone), fun task r hr hsame => ?_⟩
  · have hwhole : ¬ s.torn env cfg := by
      rw [RaceSystem.torn, hrun, hk]
      simp [TornAt]
    show ∃ leaves, (logEntry env cfg call.io call.req s.logger).2.trail.Aligned env max _ leaves
    rw [htrail]
    exact h.alignedNow hmax hwhole
  · show TreeOver env max (logEntry env cfg call.io call.req s.logger).2.trail r.entries
    rw [htrail]
    exact h.readers task r hr hsame

/-- A task that has read the entries of an aligned log. -/
theorem sound_readEntries {task : Nat} {entries : List AuditEntry} (h : s.Sound env cfg max)
    (hmax : max ≤ u64Max) (hquiet : Undisturbed env cfg max s (.readEntries task))
    (hload : env.texts.loadEntries (s.trail env cfg).disk.log = .ok entries) :
    RaceSystem.Sound env cfg max
      { s with readers := Function.update s.readers task (some ⟨entries, false⟩) } where
  aligned := h.aligned
  follows := h.follows
  readers t r hr hsame := by
    have hr : Function.update s.readers task (some ⟨entries, false⟩) t = some r := hr
    by_cases ht : t = task
    · subst ht
      rw [Function.update_self] at hr
      cases hr
      obtain ⟨hwhole, hread, hroom⟩ := hquiet
      obtain ⟨leaves, haligned⟩ := h.alignedNow hmax hwhole
      rw [readEntries_of_aligned haligned hread hload]
      exact treeOver_of_aligned haligned hroom
    · rw [Function.update_of_ne ht] at hr
      exact h.readers t r hr hsame

/-- The step lemma. -/
theorem raceStep_sound {a : RaceStep} (hmax : max ≤ u64Max) (h : s.Sound env cfg max)
    (hquiet : Undisturbed env cfg max s a) (hstep : raceStep env cfg s a = some s') :
    s'.Sound env cfg max := by
  cases a with
  | lock call =>
    simp only [raceStep] at hstep
    split at hstep
    · rename_i hrun
      cases hstep
      refine ⟨h.aligned, ?_, fun task r hr hsame => ?_⟩
      · intro call' k' hrun'
        obtain ⟨rfl, rfl⟩ := Prod.mk.inj (Option.some.inj hrun')
        exact hquiet
      · have hover := h.readers task r hr hsame
        rw [RaceSystem.trail, RaceSystem.done, hrun] at hover
        exact hover
    · cases hstep
  | write =>
    simp only [raceStep] at hstep
    split at hstep
    · cases hstep
    rename_i call k hrun
    split at hstep
    · cases hstep
    rename_i w hw
    cases hstep
    exact sound_write h hrun hw
  | unlock =>
    simp only [raceStep] at hstep
    split at hstep
    · cases hstep
    rename_i call k hrun
    split at hstep
    · rename_i hk
      cases hstep
      exact sound_unlock h hmax hrun hk
    · cases hstep
  | readEntries task =>
    simp only [raceStep] at hstep
    split at hstep
    · split at hstep
      · cases hstep
        exact h
      · rename_i entries hload
        cases hstep
        exact sound_readEntries h hmax hquiet hload
    · cases hstep
  | readRoot task io =>
    simp only [raceStep] at hstep
    split at hstep
    · cases hstep
      refine ⟨h.aligned, h.follows, fun t r hr hsame => ?_⟩
      have hr : Function.update s.readers task none t = some r := hr
      by_cases ht : t = task
      · subst ht
        rw [Function.update_self] at hr
        cases hr
      · rw [Function.update_of_ne ht] at hr
        exact h.readers t r hr hsame
    · cases hstep

/-- The root that an undisturbed task reads. -/
theorem consistent_of_sound {a : RaceStep} (h : s.Sound env cfg max)
    (hquiet : Undisturbed env cfg max s a) : Consistent env cfg s a := by
  cases a with
  | readRoot task io =>
    intro key _ r hr
    obtain ⟨leaves, hleaves, htree⟩ := h.readers task r hr (hquiet r hr)
    refine ⟨rfl, ?_⟩
    show (s.trail env cfg).tree.bind (fun t => t.rootHex env.digests) = _
    rw [htree]
    exact rootHex_ofLeaves max hleaves
  | _ => trivial

end Steps

/-- **Checkpoints are consistent** in every run whose steps are undisturbed: with any interleaving of the
    writes of the calls and of the two reads of each checkpoint. -/
theorem checkpoints_consistent (env : Env H T) (cfg : Config) (max : Nat)
    (hcfg : cfg.merkle = some max) (hmax : max ≤ u64Max) (steps : List RaceStep)
    (hquiet : EachStep (raceStep env cfg) (fun s a _ => Undisturbed env cfg max s a)
      (RaceSystem.initial cfg) steps) :
    EachStep (raceStep env cfg) (fun s a _ => Consistent env cfg s a) (RaceSystem.initial cfg) steps := by
  have hstart : (RaceSystem.initial cfg : RaceSystem H T).Sound env cfg max := by
    refine ⟨⟨[], rfl, .nil, ?_, ?_⟩, fun _ _ h => (by cases h), fun _ _ h => (by cases h)⟩
    · rw [List.take_nil]
      rfl
    · show cfg.merkle.map MerkleTree.new = _
      rw [hcfg, List.take_nil]
      rfl
  refine EachStep.of_invariant ?_ hquiet hstart
  intro s a s' _ hsound hq hstep
  exact ⟨raceStep_sound hmax hsound hq hstep, consistent_of_sound hsound hq⟩

/-! ### An append between the two reads -/

/-- One entry is logged; while the line of the next one is written a task finishes its checkpoint. -/
theorem checkpoints_consistent_line :
    let env := plainEnv (Digests.ofSha256 firstBytes)
    let cfg := signedConfig 0
    EachStep (raceStep env cfg) (fun s a _ => Consistent env cfg s a) (RaceSystem.initial cfg)
      [.lock (plainCall "1" "30" none), .write, .write, .readEntries 0, .unlock,
        .lock (plainCall "2" "31" none), .write, .readRoot 0 (plainCheckpoint "c")] := by
  intro env cfg
  refine checkpoints_consistent env cfg defaultMaxLeafCount rfl (by decide) _ ?_
  decide +kernel

/-- **An append between the two reads.**  The entries are read from an empty log, then a call writes its
    line and its leaf: the checkpoint counts no entry, and has the root over one. -/
theorem checkpoint_race :
    let env := plainEnv (Digests.ofSha256 firstBytes)
    let cfg := signedConfig 0
    ¬EachStep (raceStep env cfg) (fun s a _ => Consistent env cfg s a) (RaceSystem.initial cfg)
      [.readEntries 0, .lock (plainCall "1" "30" none), .write, .write, .unlock,
        .readRoot 0 (plainCheckpoint "c")] := by
  decide +kernel

end Vellaveto.Audit
