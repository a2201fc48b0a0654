/-
  CRASHES: log and Merkle tree after a stop between two writes.

  PROGRAM.      A call of `log_entry` is a list of WRITES to files (`writesOf`, which `logEntry_trail` ties
                to `log_entry`); an access that fails ends the list.  The process may stop after any
                number of writes; it is then restarted on what is on disk, with `initialize_chain`.

  SPEC.         Whenever `log_entry` returns `Ok`, leaf `k` of the tree belongs to entry `k` of the log.

  CORRECTNESS.  A line and its leaf, and the renamings of the two files, are pairs of writes.
    1. `logEntry_trail`            a call performs its writes;
    2. `safe_writesOf`             wherever they are cut, the writes of a call keep log and leaves
                                   aligned, unless the cut is inside a pair;
    3. `aligned_restart`           a restart restores the tree;
    4. `aligned_across_crashes`    so every run is aligned whose stops fall between the pairs;
    5. `stop_before_leaf_misaligns`   a stop after a line: its leaf is never written.
-/
import Mathlib.Data.List.Forall2
import Vellaveto.Audit.CleanRun

namespace Vellaveto.Audit

open Vellaveto.Lib

variable {H T : Type}

/-! ## Writes -/

/-- A write to a file, or a renaming or removal. -/
inductive FileWrite (H T : Type) where
  | renameLog (name : String)
  | renameLeaves (name : String)
  /-- the leaf file could not be renamed; the tree is reset all the same -/
  | keepLeaves
  | appendManifest (line : T)
  | prune (io : RotationIo)
  | appendLine (entry : AuditEntry)
  | appendLeaf (leaf : H)

/-- The disk, and the tree of the process as long as it lives. -/
structure Trail (H T : Type) where
  disk : Disk T
  tree : Option (MerkleTree H)

/-- One write.  A stop in the middle of the pruning is a stop after a pruning in which the later files
    could not be removed. -/
def Trail.write (env : Env H T) (cfg : Config) (t : Trail H T) : FileWrite H T → Trail H T
  | .renameLog name => { t with disk := t.disk.renameLog name }
  | .renameLeaves name => ⟨t.disk.renameLeaves cfg name, t.tree.map MerkleTree.reset⟩
  | .keepLeaves => { t with tree := t.tree.map MerkleTree.reset }
  | .appendManifest line => { t with disk := t.disk.appendManifest line }
  | .prune io => { t with disk := t.disk.prune cfg io }
  | .appendLine entry =>
    { t with disk := { t.disk with log := some (t.disk.log.getD [] ++ [env.texts.entryLine entry]) } }
  | .appendLeaf leaf =>
    { disk := { t.disk with leaves := some (t.disk.leaves.getD [] ++ env.digests.bytes leaf) }
      tree := t.tree.map fun tree => tree.replayLeaf env.digests leaf }

def Trail.writeAll (env : Env H T) (cfg : Config) (t : Trail H T) (ws : List (FileWrite H T)) :
    Trail H T :=
  ws.foldl (fun t w => t.write env cfg w) t

/-- The entries of the active log after some writes. -/
def activeAfter (active : List AuditEntry) (ws : List (FileWrite H T)) : List AuditEntry :=
  ws.foldl (fun active w =>
    match w with
    | .renameLog _ => []
    | .appendLine entry => active ++ [entry]
    | _ => active) active

def AuditLogger.trail (s : AuditLogger H T) : Trail H T := ⟨s.disk, s.merkleTree⟩

/-! ### The writes of a call -/

/-- The leaf of an entry with this hash, if the tree has room for it and it can be written. -/
def leafWrites (env : Env H T) (fault : Option String) (tree : Option (MerkleTree H)) (hash : String) :
    List (FileWrite H T) :=
  match tree with
  | none => []
  | some tree =>
    match leafOfHash env.digests hash with
    | .error _ => []
    | .ok leaf =>
      if appendAllowed tree.leafCount tree.maxLeafCount && fault.isNone then [.appendLeaf leaf] else []

/-- The writes of `log_entry` after the rotation. -/
def entryWrites (env : Env H T) (call : LogCall) (s : AuditLogger H T) : List (FileWrite H T) :=
  match computeEntryHash env.digests env.canonical (nextEntry env call.io call.req s) with
  | .error _ => []
  | .ok hash =>
    if call.io.append.isSome then []
    else
      .appendLine (hashedEntry env call.io call.req s hash) ::
        leafWrites env call.io.leafAppend s.merkleTree hash

/-- The renamings of a rotation. -/
def renameWrites (io : RotationIo) (s : AuditLogger H T) (name : String) : List (FileWrite H T) :=
  .renameLog name ::
    (if s.merkleTree.isNone then []
      else if io.leafRename.isSome then [.keepLeaves]
      else [.renameLeaves name])

/-- The writes of a rotation after the renamings, and those of the entry after it. -/
def manifestWrites (env : Env H T) (cfg : Config) (s : AuditLogger H T) (call : LogCall)
    (entries : List AuditEntry) (tailHash : String) : List (FileWrite H T) :=
  if call.io.rotation.manifestRead.isSome then []
  else
    match s.rotationLine env cfg call.io.rotation entries tailHash with
    | .error _ => []
    | .ok line =>
      if call.io.rotation.manifestAppend.isSome then []
      else
        .appendManifest line :: .prune call.io.rotation ::
          entryWrites env call (s.rotated cfg call.io.rotation line).startFile

/-- The writes of a call. -/
def writesOf (env : Env H T) (cfg : Config) (s : AuditLogger H T) (call : LogCall) :
    List (FileWrite H T) :=
  match validateRequest env call.req with
  | .error _ => []
  | .ok () =>
    match checkRotation env cfg call.io.rotation s.disk.log with
    | .fail _ => []
    | .skip => entryWrites env call s
    | .rotate entries tailHash =>
      if call.io.rotation.rename.isSome then []
      else
        renameWrites call.io.rotation s (s.rotatedName cfg call.io.rotation) ++
          manifestWrites env cfg s call entries tailHash

section Writes

variable {env : Env H T} {cfg : Config} {s : AuditLogger H T} {call : LogCall}

theorem writeAll_append (t : Trail H T) (xs ys : List (FileWrite H T)) :
    t.writeAll env cfg (xs ++ ys) = (t.writeAll env cfg xs).writeAll env cfg ys :=
  List.foldl_append

/-- The leaf is written, or it is not. -/
theorem appendLeaf_writes (cfg : Config) (fault : Option String) (hash : String) :
    (∀ t, s.appendLeaf env fault hash = .ok t →
      t.trail = s.trail.writeAll env cfg (leafWrites env fault s.merkleTree hash)) ∧
    (∀ e, s.appendLeaf env fault hash = .error e →
      leafWrites env fault s.merkleTree hash = []) := by
  unfold AuditLogger.appendLeaf leafWrites
  cases htree : s.merkleTree with
  | none =>
    refine ⟨fun t ht => ?_, fun e _ => rfl⟩
    cases ht
    rfl
  | some tree =>
    dsimp only
    cases hleaf : leafOfHash env.digests hash with
    | error e =>
      refine ⟨fun t ht => ?_, fun e _ => rfl⟩
      cases ht
    | ok leaf =>
      dsimp only
      unfold MerkleTree.append
      by_cases hroom : appendAllowed tree.leafCount tree.maxLeafCount = true
      · rw [if_neg (by simp [hroom]), hroom]
        cases fault with
        | none =>
          refine ⟨fun t ht => ?_, fun e he => ?_⟩
          · cases ht
            show Trail.mk _ _ = Trail.mk _ (Option.map _ s.merkleTree)
            rw [htree]
            rfl
          · cases he
        | some message =>
          refine ⟨fun t ht => ?_, fun e _ => rfl⟩
          cases ht
      · rw [if_pos (by simpa using hroom), if_neg (by simp [hroom])]
        refine ⟨fun t ht => ?_, fun e _ => rfl⟩
        cases ht

theorem appendEntry_trail :
    (appendEntry env cfg call.io call.req s).2.trail =
      s.trail.writeAll env cfg (entryWrites env call s) := by
  cases hout : appendEntry env cfg call.io call.req s with
  | mk r s' =>
    rw [entryWrites]
    obtain ⟨rfl, -, hnot⟩ | ⟨hash, hhash, happend, hrest⟩ := appendEntry_cases hout
    · cases hhash : computeEntryHash env.digests env.canonical (nextEntry env call.io call.req s') with
      | error e => rfl
      | ok hash =>
        dsimp only
        rw [if_pos (Option.isSome_iff_ne_none.mpr (hnot hash hhash))]
        rfl
    · rw [hhash, happend]
      -- the line is written in any case
      have hcons : ∀ ws, s.trail.writeAll env cfg
          (.appendLine (hashedEntry env call.io call.req s hash) :: ws) =
            (s.writeLine env (hashedEntry env call.io call.req s hash)).trail.writeAll env cfg ws :=
        fun ws => rfl
      have htree : (s.writeLine env (hashedEntry env call.io call.req s hash)).merkleTree =
          s.merkleTree := rfl
      dsimp only [Option.isSome_none]
      rw [if_neg Bool.false_ne_true, hcons]
      obtain ⟨e, -, rfl, he⟩ | ⟨t, ht, rfl, -⟩ := hrest
      · have hnone := (appendLeaf_writes cfg call.io.leafAppend hash).2 e he
        rw [htree] at hnone
        rw [hnone]
        rfl
      · have hsome := (appendLeaf_writes cfg call.io.leafAppend hash).1 t ht
        rw [htree] at hsome
        exact hsome

theorem renameAway_trail (env : Env H T) (cfg : Config) (io : RotationIo) (s : AuditLogger H T)
    (name : String) :
    (s.renameAway cfg io name).trail = s.trail.writeAll env cfg (renameWrites io s name) := by
  obtain ⟨lastHash, lastTimestamp, entryCount, globalSequence, tree, disk⟩ := s
  cases tree with
  | none => rfl
  | some tree =>
    simp only [AuditLogger.renameAway, renameWrites]
    cases io.leafRename <;> rfl

/-- **A call performs its writes.** -/
theorem logEntry_trail (env : Env H T) (cfg : Config) (s : AuditLogger H T) (call : LogCall) :
    (logEntry env cfg call.io call.req s).2.trail =
      s.trail.writeAll env cfg (writesOf env cfg s call) := by
  rw [logEntry, writesOf]
  cases hvalid : validateRequest env call.req with
  | error e => rfl
  | ok u =>
    rw [maybeRotate]
    cases hcheck : checkRotation env cfg call.io.rotation s.disk.log with
    | fail e => rfl
    | skip => exact appendEntry_trail
    | rotate entries tailHash =>
      have hrename := renameAway_trail env cfg call.io.rotation s (s.rotatedName cfg call.io.rotation)
      simp only [performRotation, manifest_renameAway]
      cases call.io.rotation.rename with
      | some message => rfl
      | none =>
        dsimp only [Option.isSome_none]
        rw [if_neg Bool.false_ne_true, writeAll_append, ← hrename, manifestWrites]
        cases call.io.rotation.manifestRead with
        | some message => rfl
        | none =>
          cases hline : s.rotationLine env cfg call.io.rotation entries tailHash with
          | error e =>
            rw [AuditLogger.rotationLine, AuditLogger.rotatedName] at hline
            rw [hline]
            rfl
          | ok line =>
            rw [AuditLogger.rotationLine, AuditLogger.rotatedName] at hline
            rw [hline]
            cases call.io.rotation.manifestAppend with
            | some message => rfl
            | none => exact appendEntry_trail (s := (s.rotated cfg call.io.rotation line).startFile)

end Writes

/-! ## Alignment -/

/-- The leaf belongs to the entry: it is `hash_leaf` of the entry's hash. -/
def LeafOf (d : Digests H) (entry : AuditEntry) (leaf : H) : Prop :=
  ∃ digest, entry.entryHash = some (d.encodeHashHex digest) ∧ leaf = d.hashLeaf (d.bytes digest)

/-- The log holds the lines of these entries; each has its leaf; the first `max` leaves are in the file
    and in the tree.  Beyond the limit of the tree `log_entry` writes lines only, and fails. -/
structure Trail.Aligned (env : Env H T) (max : Nat) (t : Trail H T) (active : List AuditEntry)
    (leaves : List H) : Prop where
  lines : t.disk.log.getD [] = active.map env.texts.entryLine
  leafOf : List.Forall₂ (LeafOf env.digests) active leaves
  file : t.disk.leaves.getD [] = (leaves.take max).flatMap env.digests.bytes
  tree : t.tree = some (MerkleTree.ofLeaves env.digests max (leaves.take max))

/-- The second write of a pair. -/
def FileWrite.follows : FileWrite H T → Bool
  | .renameLeaves _ => true
  | .appendLeaf _ => true
  | _ => false

/-- A cut after `k` writes is inside a pair: a line without its leaf, or a renamed log whose leaf file
    still has the old name. -/
def TornAt (ws : List (FileWrite H T)) (k : Nat) : Prop := (ws[k]?.map FileWrite.follows) = some true

instance (ws : List (FileWrite H T)) (k : Nat) : Decidable (TornAt ws k) :=
  inferInstanceAs (Decidable (_ = _))

/-- Wherever the writes are cut, but not inside a pair, log and leaves are aligned. -/
def Safe (env : Env H T) (cfg : Config) (max : Nat) (t : Trail H T) (active : List AuditEntry)
    (ws : List (FileWrite H T)) : Prop :=
  ∀ k, ¬TornAt ws k → ∃ leaves,
    (t.writeAll env cfg (ws.take k)).Aligned env max (activeAfter active (ws.take k)) leaves

section Safe

variable {env : Env H T} {cfg : Config} {max : Nat} {t : Trail H T} {active : List AuditEntry}
  {leaves : List H}

theorem safe_nil (h : t.Aligned env max active leaves) : Safe env cfg max t active [] := by
  intro k _
  rw [List.take_nil]
  exact ⟨leaves, h⟩

/-- A write that stands alone. -/
theorem safe_single (h : t.Aligned env max active leaves) (w : FileWrite H T)
    {ws : List (FileWrite H T)}
    (hrest : Safe env cfg max (t.write env cfg w) (activeAfter active [w]) ws) :
    Safe env cfg max t active (w :: ws) := by
  intro k hk
  cases k with
  | zero => exact ⟨leaves, h⟩
  | succ k => exact hrest k hk

/-- A pair is never cut. -/
theorem safe_pair (h : t.Aligned env max active leaves) (w w' : FileWrite H T)
    (hfollows : w'.follows = true) {ws : List (FileWrite H T)}
    (hrest : Safe env cfg max ((t.write env cfg w).write env cfg w') (activeAfter active [w, w']) ws) :
    Safe env cfg max t active (w :: w' :: ws) := by
  intro k hk
  match k with
  | 0 => exact ⟨leaves, h⟩
  | 1 => exact absurd (congrArg some hfollows) hk
  | k + 2 => exact hrest k hk

/-- All writes. -/
theorem Safe.all {ws : List (FileWrite H T)} (h : Safe env cfg max t active ws) :
    ∃ leaves, (t.writeAll env cfg ws).Aligned env max (activeAfter active ws) leaves := by
  have hend : ¬TornAt ws ws.length := by simp [TornAt]
  obtain ⟨leaves, hall⟩ := h ws.length hend
  rw [List.take_length] at hall
  exact ⟨leaves, hall⟩

theorem lines_concat (h : t.Aligned env max active leaves) (e : AuditEntry) :
    (some (t.disk.log.getD [] ++ [env.texts.entryLine e])).getD [] =
      (active ++ [e]).map env.texts.entryLine := by
  rw [Option.getD_some, h.lines, List.map_append]
  rfl

theorem leafOf_concat (h : t.Aligned env max active leaves) {e : AuditEntry} {leaf : H}
    (hleaf : LeafOf env.digests e leaf) :
    List.Forall₂ (LeafOf env.digests) (active ++ [e]) (leaves ++ [leaf]) :=
  List.rel_append h.leafOf (.cons hleaf .nil)

/-- The number of leaves in the tree. -/
theorem leafCount_ofLeaves_take (hmax : max ≤ u64Max) (d : Digests H) (leaves : List H) :
    (MerkleTree.ofLeaves d max (leaves.take max)).leafCount = min leaves.length max := by
  rw [ofLeaves_eq]
  show min (leaves.take max).length u64Max = min leaves.length max
  rw [List.length_take]
  omega

/-- **A line and its leaf**, or a line alone when the tree is full. -/
theorem safe_entryWrites (cfg : Config) {s : AuditLogger H T} {call : LogCall} (hmax : max ≤ u64Max)
    (h : s.trail.Aligned env max active leaves) (hio : call.io.leafAppend = none) :
    Safe env cfg max s.trail active (entryWrites env call s) := by
  rw [entryWrites]
  cases hhash : computeEntryHash env.digests env.canonical (nextEntry env call.io call.req s) with
  | error e => exact safe_nil h
  | ok hash =>
    dsimp only
    split
    · exact safe_nil h
    obtain ⟨bs, -, rfl⟩ := computeEntryHash_eq_ok.mp hhash
    have htree : s.merkleTree = some (MerkleTree.ofLeaves env.digests max (leaves.take max)) := h.tree
    have hleaf : LeafOf env.digests
        (hashedEntry env call.io call.req s (env.digests.encodeHashHex (env.digests.sha256 bs)))
        (env.digests.hashLeaf (env.digests.bytes (env.digests.sha256 bs))) := ⟨_, rfl, rfl⟩
    have hcount := leafCount_ofLeaves_take hmax env.digests leaves
    simp only [leafWrites, htree, leafOfHash_encodeHashHex, hio]
    have hlimit : (MerkleTree.ofLeaves env.digests max (leaves.take max)).maxLeafCount = max := by
      rw [ofLeaves_eq]
    rw [appendAllowed, hcount, hlimit]
    split
    · -- the tree has room for the leaf
      rename_i hroom
      have hroom : leaves.length < max := by
        simp only [Option.isNone_none, Bool.and_true, decide_eq_true_eq] at hroom
        omega
      have htake : (leaves ++ [env.digests.hashLeaf (env.digests.bytes (env.digests.sha256 bs))]).take
          max = leaves.take max ++ [env.digests.hashLeaf (env.digests.bytes (env.digests.sha256 bs))] := by
        rw [List.take_of_length_le (by simp; omega), List.take_of_length_le (by omega)]
      refine safe_pair h _ _ rfl (safe_nil ⟨lines_concat h _, leafOf_concat h hleaf, ?_, ?_⟩)
      · rw [htake, List.flatMap_append, List.flatMap_singleton, ← h.file]
        rfl
      · rw [htake, MerkleTree.ofLeaves, List.foldl_append]
        show Option.map _ s.trail.tree = _
        rw [h.tree]
        rfl
    · rename_i hfull
      have hfull : max ≤ leaves.length := by
        simp only [Option.isNone_none, Bool.and_true, decide_eq_true_eq] at hfull
        omega
      have htake : (leaves ++ [env.digests.hashLeaf (env.digests.bytes (env.digests.sha256 bs))]).take
          max = leaves.take max := List.take_append_of_le_length hfull
      refine safe_single h _ (safe_nil ⟨lines_concat h _, leafOf_concat h hleaf, ?_, ?_⟩)
      · rw [htake]
        exact h.file
      · rw [htake]
        exact h.tree

/-! ### Rotation -/

theorem leaves_renameLeaves (hext : cfg.extension ≠ "") (disk : Disk T) (name : String) :
    (disk.renameLeaves cfg name).leaves = none := by
  rw [Disk.renameLeaves, if_neg hext]
  cases hleaves : disk.leaves with
  | none => exact hleaves
  | some bytes => rfl

theorem leaves_prune (hext : cfg.extension ≠ "") (io : RotationIo) (disk : Disk T) :
    (disk.prune cfg io).leaves = disk.leaves := by
  rw [Disk.prune]
  split
  · rfl
  · exact if_neg fun h => hext h.1

/-- After both renamings there is nothing left. -/
theorem aligned_renamed (h : t.Aligned env max active leaves) (hext : cfg.extension ≠ "")
    {lines : List T} (hlog : t.disk.log = some lines) (name : String) :
    ((t.write env cfg (.renameLog name)).write env cfg (.renameLeaves name)).Aligned env max [] [] := by
  refine ⟨?_, .nil, ?_, ?_⟩
  · show ((t.disk.renameLog name).renameLeaves cfg name).log.getD [] = []
    rw [log_renameLeaves, log_renameLog hlog]
    rfl
  · show ((t.disk.renameLog name).renameLeaves cfg name).leaves.getD [] = _
    rw [leaves_renameLeaves hext, List.take_nil]
    rfl
  · show t.tree.map MerkleTree.reset = _
    rw [h.tree, ofLeaves_eq, List.take_nil]
    rfl

theorem Trail.Aligned.appendManifest (h : t.Aligned env max active leaves) (line : T) :
    (t.write env cfg (.appendManifest line)).Aligned env max active leaves :=
  ⟨h.lines, h.leafOf, h.file, h.tree⟩

theorem Trail.Aligned.prune (h : t.Aligned env max active leaves) (hext : cfg.extension ≠ "")
    (io : RotationIo) : (t.write env cfg (.prune io)).Aligned env max active leaves := by
  refine ⟨?_, h.leafOf, ?_, h.tree⟩
  · show (t.disk.prune cfg io).log.getD [] = _
    rw [log_prune]
    exact h.lines
  · show (t.disk.prune cfg io).leaves.getD [] = _
    rw [leaves_prune hext]
    exact h.file

/-- The writes of a rotation. -/
def rotationWrites (cfg : Config) (s : AuditLogger H T) (io : RotationIo) (line : T) :
    List (FileWrite H T) :=
  [.renameLog (s.rotatedName cfg io), .renameLeaves (s.rotatedName cfg io), .appendManifest line,
    .prune io]

/-- The renamings of a logger whose tree can be renamed. -/
theorem renameWrites_eq {s : AuditLogger H T} {io : RotationIo}
    (h : s.trail.Aligned env max active leaves) (hio : io.leafRename = none) (name : String) :
    renameWrites io s name = [.renameLog name, .renameLeaves name] := by
  have htree : s.merkleTree = some _ := h.tree
  simp [renameWrites, htree, hio]

theorem trail_rotated {s : AuditLogger H T} {io : RotationIo}
    (h : s.trail.Aligned env max active leaves) (hio : io.leafRename = none) (line : T) :
    (s.rotated cfg io line).startFile.trail =
      s.trail.writeAll env cfg (rotationWrites cfg s io line) := by
  have hrename := renameAway_trail env cfg io s (s.rotatedName cfg io)
  rw [renameWrites_eq h hio] at hrename
  have hsplit : rotationWrites cfg s io line =
      ([.renameLog (s.rotatedName cfg io), .renameLeaves (s.rotatedName cfg io)] :
        List (FileWrite H T)) ++ [.appendManifest line, .prune io] := rfl
  rw [hsplit, writeAll_append, ← hrename]
  rfl

theorem aligned_rotated {s : AuditLogger H T} {io : RotationIo}
    (h : s.trail.Aligned env max active leaves) (hio : io.leafRename = none)
    (hext : cfg.extension ≠ "") {lines : List T} (hlog : s.disk.log = some lines) (line : T) :
    (s.rotated cfg io line).startFile.trail.Aligned env max [] [] := by
  rw [trail_rotated h hio]
  exact ((aligned_renamed (t := s.trail) h hext hlog _).appendManifest line).prune hext io

end Safe

/-! ## The condition -/

/-- The accesses to the leaf file do not fail, and a log is rotated only if its name has an extension:
    without one the leaf file keeps its name. -/
structure LeavesFollow (env : Env H T) (cfg : Config) (s : AuditLogger H T) (call : LogCall) : Prop where
  leafRename : call.io.rotation.leafRename = none
  leafAppend : call.io.leafAppend = none
  extension : cfg.extension ≠ "" ∨
    (checkRotation env cfg call.io.rotation s.disk.log).rotates = false

instance (env : Env H T) (cfg : Config) (s : AuditLogger H T) (call : LogCall) :
    Decidable (LeavesFollow env cfg s call) :=
  decidable_of_iff (call.io.rotation.leafRename = none ∧ call.io.leafAppend = none ∧
      (cfg.extension ≠ "" ∨ (checkRotation env cfg call.io.rotation s.disk.log).rotates = false))
    ⟨fun h => ⟨h.1, h.2.1, h.2.2⟩, fun h => ⟨h.leafRename, h.leafAppend, h.extension⟩⟩

/-- The log can be read at a restart: it is not too large, its walk computes every hash, and if it has
    lines, one of them is read as an entry.  The length of the leaf file is a `u64`. -/
def recoverable (env : Env H T) (disk : Disk T) : Bool :=
  (match env.texts.loadEntries disk.log with
    | .error _ => false
    | .ok entries =>
      (!entries.isEmpty || (disk.log.getD []).isEmpty) &&
        (verifyEntries env.digests env.canonical entries).isOk) &&
    decide ((disk.leaves.getD []).length ≤ u64Max)

section Steps

variable {env : Env H T} {cfg : Config} {max : Nat} {s s' : AuditLogger H T}
  {active : List AuditEntry} {leaves : List H} {call : LogCall}

theorem LeavesFollow.extension_ne (hfollow : LeavesFollow env cfg s call)
    {entries : List AuditEntry} {tailHash : String}
    (hcheck : checkRotation env cfg call.io.rotation s.disk.log = .rotate entries tailHash) :
    cfg.extension ≠ "" := by
  rcases hfollow.extension with hext | hnot
  · exact hext
  · rw [hcheck] at hnot
    cases hnot

/-- **The writes of a call**, cut anywhere but inside a pair, keep log and leaves aligned. -/
theorem safe_writesOf (hmax : max ≤ u64Max) (h : s.trail.Aligned env max active leaves)
    (hfollow : LeavesFollow env cfg s call) :
    Safe env cfg max s.trail active (writesOf env cfg s call) := by
  rw [writesOf]
  cases hvalid : validateRequest env call.req with
  | error e => exact safe_nil h
  | ok u =>
    cases hcheck : checkRotation env cfg call.io.rotation s.disk.log with
    | fail e => exact safe_nil h
    | skip => exact safe_entryWrites cfg hmax h hfollow.leafAppend
    | rotate entries tailHash =>
      obtain ⟨-, lines, hlog, -⟩ := checkRotation_eq_rotate hcheck
      have hext := hfollow.extension_ne hcheck
      dsimp only
      split
      · exact safe_nil h
      rw [renameWrites_eq h hfollow.leafRename, manifestWrites]
      have hrenamed := aligned_renamed (t := s.trail) h hext hlog (s.rotatedName cfg call.io.rotation)
      refine safe_pair h _ _ rfl ?_
      split
      · exact safe_nil hrenamed
      split
      · exact safe_nil hrenamed
      rename_i line hline
      split
      · exact safe_nil hrenamed
      refine safe_single hrenamed _ (safe_single (hrenamed.appendManifest line) _ ?_)
      have hrotated := aligned_rotated h hfollow.leafRename hext hlog line
      have hentry := safe_entryWrites cfg hmax hrotated hfollow.leafAppend
      rw [trail_rotated h hfollow.leafRename] at hentry
      exact hentry

/-- A leaf that is appended had room in the tree. -/
theorem room_of_appendLeaf (hmax : max ≤ u64Max) (h : s.trail.Aligned env max active leaves)
    {e : AuditEntry} {fault : Option String} {hash : String}
    (hleaf : (s.writeLine env e).appendLeaf env fault hash = .ok s') : leaves.length < max := by
  have htree : (s.writeLine env e).merkleTree = some _ := h.tree
  have hcount := leafCount_ofLeaves_take hmax env.digests leaves
  have hlimit : (MerkleTree.ofLeaves env.digests max (leaves.take max)).maxLeafCount = max := by
    rw [ofLeaves_eq]
  unfold AuditLogger.appendLeaf MerkleTree.append at hleaf
  rw [htree] at hleaf
  dsimp only at hleaf
  split at hleaf
  · cases hleaf
  · rw [appendAllowed, hcount, hlimit] at hleaf
    by_cases hlt : min leaves.length max < max
    · omega
    · rw [if_pos (by simpa using hlt)] at hleaf
      cases hleaf

/-- The entry of a call is made in an aligned state. -/
theorem aligned_entryBase (h : s.trail.Aligned env max active leaves)
    (hfollow : LeavesFollow env cfg s call) (hstep : okStep env cfg s call = some s') :
    ∃ active' leaves', (entryBase env cfg s call).trail.Aligned env max active' leaves' := by
  obtain hbase | ⟨_, _, line, hcheck, -, hbase⟩ := entryBase_cases hstep
  · rw [hbase]
    exact ⟨active, leaves, h⟩
  · obtain ⟨-, lines, hlog, -⟩ := checkRotation_eq_rotate hcheck
    rw [hbase]
    exact ⟨[], [], aligned_rotated h hfollow.leafRename (hfollow.extension_ne hcheck) hlog line⟩

/-- After a call that returns `Ok` the log has no more lines than the tree has room for. -/
theorem length_lines_okStep (hmax : max ≤ u64Max) (h : s.trail.Aligned env max active leaves)
    (hfollow : LeavesFollow env cfg s call) (hstep : okStep env cfg s call = some s') :
    s'.lines.length ≤ max := by
  obtain ⟨active', leaves', hbase⟩ := aligned_entryBase h hfollow hstep
  obtain ⟨hash, t, -, hleaf, -⟩ := okStep_eq_some hstep
  have hroom := room_of_appendLeaf hmax hbase hleaf
  have hlines : (entryBase env cfg s call).lines = active'.map env.texts.entryLine := hbase.lines
  obtain ⟨hash', -, hadd, -⟩ := okStep_fields hstep
  rw [hadd, List.length_append, hlines, List.length_map, hbase.leafOf.length_eq]
  exact hroom

/-- `initialize` reads the leaves of an aligned file, whether there is a file or not. -/
theorem initializeFrom_leaves {d : Digests H} (hsize : d.FixedSize) {file : LeafFile}
    (hfile : file.getD [] = (leaves.take max).flatMap d.bytes)
    (hlen : (file.getD []).length ≤ u64Max) :
    ∃ file', (MerkleTree.new max).initializeFrom d file =
        .ok (.ofLeaves d max (leaves.take max), file') ∧
      file'.getD [] = (leaves.take max).flatMap d.bytes := by
  have hcount := length_flatMap_bytes hsize (leaves.take max)
  cases file with
  | none =>
    have hnone : (leaves.take max).length = 0 := by
      rw [← hfile] at hcount
      simpa [hashSize] using hcount.symm
    refine ⟨none, ?_, hfile⟩
    rw [List.length_eq_zero_iff.mp hnone]
    rfl
  | some bytes =>
    obtain rfl : bytes = (leaves.take max).flatMap d.bytes := hfile
    refine ⟨_, initialize_flatMap_bytes hsize (.new max) (List.length_take_le _ _) ?_, rfl⟩
    rw [← hcount]
    exact hlen

/-- **A restart restores the tree** of an aligned disk. -/
theorem aligned_restart {t : Trail H T} (hsize : env.digests.FixedSize) (hcfg : cfg.merkle = some max)
    (h : t.Aligned env max active leaves) (hrec : recoverable env t.disk = true) :
    (restart env cfg t.disk).2.trail.Aligned env max active leaves := by
  rw [recoverable, Bool.and_eq_true, decide_eq_true_eq] at hrec
  obtain ⟨hread, hfile⟩ := hrec
  have hnew : (AuditLogger.new cfg t.disk : AuditLogger H T).merkleTree = some (.new max) := by
    rw [AuditLogger.new, hcfg]
    rfl
  cases hload : env.texts.loadEntries t.disk.log with
  | error e =>
    rw [hload] at hread
    cases hread
  | ok entries =>
    rw [hload] at hread
    simp only [Bool.and_eq_true, Bool.or_eq_true, Bool.not_eq_true', List.isEmpty_iff] at hread
    obtain ⟨hlines, hverify⟩ := hread
    by_cases hne : entries = []
    · -- no entries: the log has no lines, so there are no leaves, and the tree stays new
      subst hne
      have hnil : t.disk.log.getD [] = [] := hlines.resolve_left (by simp)
      have hactive : active = [] := by
        rw [h.lines] at hnil
        exact List.map_eq_nil_iff.mp hnil
      subst hactive
      have hleaves : leaves = [] := List.forall₂_nil_left_iff.mp h.leafOf
      subst hleaves
      rw [restart_nil hload]
      exact ⟨h.lines, h.leafOf, h.file, by rw [List.take_nil]; exact hnew⟩
    · cases hwalk : verifyEntries env.digests env.canonical entries with
      | error e =>
        rw [hwalk] at hverify
        cases hverify
      | ok verification =>
        obtain ⟨file', hinit, hbytes⟩ := initializeFrom_leaves hsize h.file hfile
        rw [restart_cons hload hne hwalk, AuditLogger.restoreTree]
        simp only [merkleTree_restoreHead, disk_restoreHead, hnew]
        have hdisk : (AuditLogger.new cfg t.disk : AuditLogger H T).disk = t.disk := rfl
        rw [hdisk, hinit]
        exact ⟨h.lines, h.leafOf, hbytes, rfl⟩

end Steps

/-! ## Runs -/

/-- A call, or a call during which the process stops after some of its writes and is restarted. -/
inductive CrashOp where
  | log (call : LogCall)
  | stop (call : LogCall) (writes : Nat)

/-- The logger and, beside it, the entries whose lines are in the active log. -/
structure Watched (H T : Type) where
  logger : AuditLogger H T
  active : List AuditEntry

/-- The disk of a process that has stopped in a call. -/
def diskAtStop (env : Env H T) (cfg : Config) (s : AuditLogger H T) (call : LogCall) (writes : Nat) :
    Disk T :=
  (s.trail.writeAll env cfg ((writesOf env cfg s call).take writes)).disk

def crashStep (env : Env H T) (cfg : Config) (w : Watched H T) : CrashOp → Option (Watched H T)
  | .log call =>
    some ⟨(logEntry env cfg call.io call.req w.logger).2,
      activeAfter w.active (writesOf env cfg w.logger call)⟩
  | .stop call writes =>
    some ⟨(restart env cfg (diskAtStop env cfg w.logger call writes)).2,
      activeAfter w.active ((writesOf env cfg w.logger call).take writes)⟩

/-- **The condition.**  The leaf file follows the log; a stop is not between a line and its leaf, nor
    between the two renamings; and the log can then be read. -/
def CrashSafe (env : Env H T) (cfg : Config) (w : Watched H T) : CrashOp → Prop
  | .log call => LeavesFollow env cfg w.logger call
  | .stop call writes =>
    LeavesFollow env cfg w.logger call ∧ ¬TornAt (writesOf env cfg w.logger call) writes ∧
      recoverable env (diskAtStop env cfg w.logger call writes) = true

instance (env : Env H T) (cfg : Config) (w : Watched H T) (op : CrashOp) :
    Decidable (CrashSafe env cfg w op) :=
  match op with
  | .log call => inferInstanceAs (Decidable (LeavesFollow env cfg w.logger call))
  | .stop _ _ => inferInstanceAs (Decidable (_ ∧ _ ∧ _))

/-- Leaf number `k` of the tree and of its file belongs to entry number `k` of the active log. -/
structure Watched.Aligned (env : Env H T) (max : Nat) (w : Watched H T) : Prop where
  lines : w.logger.lines = w.active.map env.texts.entryLine
  leaves : ∃ leaves, List.Forall₂ (LeafOf env.digests) w.active leaves ∧
    w.logger.disk.leaves.getD [] = leaves.flatMap env.digests.bytes ∧
    w.logger.merkleTree = some (MerkleTree.ofLeaves env.digests max leaves)

/-- **The property** of a step: if it is a call that returns `Ok`, log and tree are aligned. -/
def AlignedIfOk (env : Env H T) (cfg : Config) (max : Nat) (w : Watched H T) (op : CrashOp)
    (w' : Watched H T) : Prop :=
  ∀ call, op = .log call → (logEntry env cfg call.io call.req w.logger).1 = .ok () →
    w'.Aligned env max

/-- **Aligned across crashes.**  In every run of calls and of stops, each followed by a restart, in
    which every step meets the condition, log and tree are aligned whenever `log_entry` returns `Ok`. -/
theorem aligned_across_crashes (env : Env H T) (cfg : Config) {max : Nat}
    (hsize : env.digests.FixedSize) (hcfg : cfg.merkle = some max) (hmax : max ≤ u64Max)
    {ops : List CrashOp}
    (hsafe : EachStep (crashStep env cfg) (fun w op _ => CrashSafe env cfg w op)
      ⟨AuditLogger.new cfg Disk.empty, []⟩ ops) :
    EachStep (crashStep env cfg) (AlignedIfOk env cfg max) ⟨AuditLogger.new cfg Disk.empty, []⟩ ops := by
  refine EachStep.of_invariant (I := fun w => ∃ leaves, w.logger.trail.Aligned env max w.active leaves)
    ?_ hsafe ?_
  · rintro w op w' - ⟨leaves, h⟩ hC hstep
    cases op with
    | log call =>
      obtain rfl := Option.some.inj hstep
      obtain ⟨leaves', hall⟩ := (safe_writesOf hmax h hC).all
      rw [← logEntry_trail] at hall
      refine ⟨⟨leaves', hall⟩, ?_⟩
      intro call' heq hok
      cases heq
      have hok' : okStep env cfg w.logger call =
          some (logEntry env cfg call.io call.req w.logger).2 := by
        rw [okStep]
        split
        · rename_i s' heq'
          rw [heq']
        · rename_i e s' heq'
          rw [heq'] at hok
          cases hok
      have hlines := hall.lines
      have hlen := length_lines_okStep hmax h hC hok'
      have htake : leaves'.take max = leaves' := by
        refine List.take_of_length_le ?_
        rw [AuditLogger.lines] at hlen
        have hsame : Option.getD (logEntry env cfg call.io call.req w.logger).2.disk.log [] = _ := hlines
        rw [hsame, List.length_map, hall.leafOf.length_eq] at hlen
        exact hlen
      refine ⟨hlines, leaves', hall.leafOf, ?_, ?_⟩
      · rw [← htake]
        exact hall.file
      · rw [← htake]
        exact hall.tree
    | stop call writes =>
      obtain rfl := Option.some.inj hstep
      obtain ⟨hfollow, hwhole, hrec⟩ := hC
      obtain ⟨leaves', hcut⟩ := safe_writesOf hmax h hfollow writes hwhole
      refine ⟨⟨leaves', aligned_restart hsize hcfg hcut hrec⟩, ?_⟩
      intro call' heq
      cases heq
  · refine ⟨[], rfl, .nil, ?_, ?_⟩
    · rw [List.take_nil]
      rfl
    · show cfg.merkle.map MerkleTree.new = _
      rw [hcfg, List.take_nil]
      rfl

/-! ### A stop after a line -/

/-- A stop between two calls. -/
theorem aligned_across_crashes_whole :
    let env := plainEnv (Digests.ofSha256 firstBytes)
    let ops := [.log (plainCall "1" "30" none), .stop (plainCall "2" "31" none) 0,
      .log (plainCall "3" "32" none)]
    EachStep (crashStep env plainConfig) (AlignedIfOk env plainConfig defaultMaxLeafCount)
      ⟨AuditLogger.new plainConfig Disk.empty, []⟩ ops := by
  intro env ops
  refine aligned_across_crashes env plainConfig (fixedSize_ofSha256 _) rfl (by decide) ?_
  decide +kernel

/-- **A stop after the line of an entry.**  The leaf of that entry is never written; the next call
    returns `Ok` with two entries in the log and one leaf in the tree. -/
theorem stop_before_leaf_misaligns :
    let env := plainEnv (Digests.ofSha256 firstBytes)
    let ops := [.stop (plainCall "1" "30" none) 1, .log (plainCall "2" "31" none)]
    ¬EachStep (crashStep env plainConfig) (AlignedIfOk env plainConfig defaultMaxLeafCount)
      ⟨AuditLogger.new plainConfig Disk.empty, []⟩ ops := by
  intro env ops h
  obtain ⟨-, h⟩ := h _ rfl
  obtain ⟨haligned, -⟩ := h _ rfl
  obtain ⟨-, leaves, hof, -, htree⟩ := haligned _ rfl (by decide +kernel)
  have htwo : leaves.length = 2 := hof.length_eq.symm.trans (by decide +kernel)
  rw [ofLeaves_eq, htwo] at htree
  have hcount := congrArg (Option.map MerkleTree.leafCount) htree
  rw [Option.map_some] at hcount
  dsimp only at hcount
  revert hcount
  decide +kernel

end Vellaveto.Audit
