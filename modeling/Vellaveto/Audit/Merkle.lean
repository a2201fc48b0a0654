/-
  THE MERKLE TREE of the audit log (`vellaveto-audit/src/merkle.rs`, `trusted_merkle_hash.rs`,
  `verified_merkle.rs`, `verified_merkle_fold.rs`, `verified_merkle_path.rs`).

  PROGRAM.      Leaves are appended one by one: the 32 bytes go to the leaf file and the peaks are
                carried on.  The root is folded from the peaks; a proof is built from the leaf file,
                level by level; the verifier folds the siblings of a proof by their direction flags.
                `initialize` rebuilds the peaks from the file.

  SPEC.         Completeness: every proof the tree gives verifies against its root.  Position: a proof
                that verifies for index `i` is about leaf `i`.

  CORRECTNESS.  The trees of `Lib/Merkle`, at the node function `hash_internal`.
    1. `appendAll_eq`              what appending leaves behind, in memory and on disk;
    2. `merkle_complete`           proofs verify, the two roots agree, `initialize` restores the tree;
    3. `climb_of_foldSiblings`     the verifier climbs;
    4. `position_bound_iff`        it binds the position for the directions of that position's path (and
                                   for directions that lead nowhere), and for no others;
    5. `forgedIndex_verifies`      it never looks at `leaf_index` beyond its range.
-/
import Vellaveto.Audit.Types
import Vellaveto.Lib.Counters
import Vellaveto.Lib.Merkle

namespace Vellaveto.Audit

open Vellaveto.Lib
open Vellaveto.Lib.Merkle (nextLevel levels levelRoot carry foldPeaks climb climbStep path pathFlags)

variable {H : Type}

/-! ## Hashes and guards -/

def hashSize : Nat := 32
def defaultMaxLeafCount : Nat := 1000000
def maxProofSiblings : Nat := 64

/-- `hash_leaf`: SHA-256 of `0x00` and the data. -/
def Digests.hashLeaf (d : Digests H) (data : List UInt8) : H := d.sha256 (0x00 :: data)

/-- `hash_internal`: SHA-256 of `0x01` and the two children. -/
def Digests.hashInternal (d : Digests H) (left right : H) : H :=
  d.sha256 (0x01 :: (d.bytes left ++ d.bytes right))

def appendAllowed (leafCount maxLeafCount : Nat) : Bool := leafCount < maxLeafCount
def storedLeafCountValid (leafCount maxLeafCount : Nat) : Bool := leafCount ≤ maxLeafCount
def proofTreeSizeValid (treeSize : Nat) : Bool := 0 < treeSize
def proofLeafIndexValid (leafIndex treeSize : Nat) : Bool := leafIndex < treeSize
def proofSiblingCountValid (siblingCount : Nat) : Bool := siblingCount ≤ maxProofSiblings

/-- The next level of the tree: `next_level_hashes`. -/
def Digests.nextLevelHashes (d : Digests H) (current : List H) : List H :=
  nextLevel d.hashInternal current

/-- `proof_sibling_index`. -/
def proofSiblingIndex (nodeIndex : Nat) : Nat :=
  if nodeIndex % 2 = 0 then nodeIndex + 1 else nodeIndex - 1

def proofStepIsLeft (nodeIndex : Nat) : Bool := nodeIndex % 2 == 1

def proofLevelHasSibling (nodeIndex levelLen : Nat) : Bool := proofSiblingIndex nodeIndex < levelLen

def proofParentIndex (nodeIndex : Nat) : Nat := nodeIndex / 2

/-- `fold_proof_step`. -/
def Digests.foldProofStep (d : Digests H) (current sibling : H) (siblingOnLeft : Bool) : H :=
  if siblingOnLeft then d.hashInternal sibling current else d.hashInternal current sibling

/-! ## The tree -/

/-- `MerkleTree`, without the path of its leaf file. -/
structure MerkleTree (H : Type) where
  leafCount : Nat
  /-- `peaks[i]` is the root of a sub-tree of `2 ^ i` leaves -/
  peaks : List (Option H)
  maxLeafCount : Nat
deriving DecidableEq, Repr

/-- The bytes of the leaf file; `none` when there is no file. -/
abbrev LeafFile := Option (List UInt8)

/-- `ProofStep`. -/
structure ProofStep where
  hash : String
  isLeft : Bool
deriving DecidableEq, Repr

/-- `MerkleProof`. -/
structure MerkleProof where
  leafIndex : Nat
  treeSize : Nat
  siblings : List ProofStep
  rootHash : String
deriving DecidableEq, Repr

/-- `MerkleVerification`. -/
structure MerkleVerification where
  valid : Bool
  failureReason : Option String
deriving DecidableEq, Repr

namespace MerkleTree

/-- `MerkleTree::new`, with its limit set. -/
def new (maxLeafCount : Nat) : MerkleTree H := ⟨0, [], maxLeafCount⟩

/-- Add a leaf to the peaks: `replay_leaf`, and the second half of `append`. -/
def replayLeaf (d : Digests H) (t : MerkleTree H) (leafHash : H) : MerkleTree H :=
  { t with
    peaks := carry d.hashInternal leafHash t.peaks
    leafCount := saturatingAdd u64Max t.leafCount 1 }

/-- `MerkleTree::append`; `fault` is the error of the write to the leaf file, if it fails. -/
def append (d : Digests H) (t : MerkleTree H) (file : LeafFile) (leafHash : H)
    (fault : Option String) : Except AuditError (MerkleTree H × LeafFile) :=
  if !appendAllowed t.leafCount t.maxLeafCount then
    .error (.validation ("Merkle tree leaf count limit reached (" ++ toString t.leafCount ++ " >= " ++
      toString t.maxLeafCount ++ ")"))
  else
    match fault with
    | some message => .error (.io message)
    | none => .ok (t.replayLeaf d leafHash, some (file.getD [] ++ d.bytes leafHash))

/-- `MerkleTree::root`. -/
def root (d : Digests H) (t : MerkleTree H) : Option H :=
  if t.leafCount = 0 then none else foldPeaks d.hashInternal none t.peaks

/-- `MerkleTree::root_hex`. -/
def rootHex (d : Digests H) (t : MerkleTree H) : Option String := (t.root d).map d.encodeHashHex

/-- `MerkleTree::reset`. -/
def reset (t : MerkleTree H) : MerkleTree H := { t with leafCount := 0, peaks := [] }

/-- The largest leaf file that is read: `max_leaf_count.saturating_mul(HASH_SIZE)`. -/
def maxFileSize (t : MerkleTree H) : Nat := min (t.maxLeafCount * hashSize) u64Max

end MerkleTree

/-- The first `count` chunks of `HASH_SIZE` bytes. -/
def chunksExact : Nat → List UInt8 → List (List UInt8)
  | 0, _ => []
  | count + 1, data => data.take hashSize :: chunksExact count (data.drop hashSize)

/-- The digests in the first `count` chunks. -/
def Digests.readLeaves (d : Digests H) (count : Nat) (data : List UInt8) : List H :=
  (chunksExact count data).filterMap d.ofBytes

/-- `MerkleTree::initialize`: the tree and the leaf file, cut after its last complete hash. -/
def MerkleTree.initializeFrom (d : Digests H) (t : MerkleTree H) (file : LeafFile) :
    Except AuditError (MerkleTree H × LeafFile) :=
  match file with
  | none => .ok (t.reset, none)
  | some data =>
    if t.maxFileSize < data.length then
      .error (.validation ("Merkle leaf file too large (" ++ toString data.length ++ " bytes, max " ++
        toString t.maxFileSize ++ " bytes for " ++ toString t.maxLeafCount ++ " leaves)"))
    else
      let leafCount := data.length / hashSize
      let validLen := leafCount * hashSize
      if !storedLeafCountValid leafCount t.maxLeafCount then
        .error (.validation ("Merkle leaf file contains too many leaves (" ++ toString leafCount ++
          " > " ++ toString t.maxLeafCount ++ ")"))
      else
        .ok ((d.readLeaves leafCount data).foldl (fun t leaf => t.replayLeaf d leaf) t.reset,
          some (data.take validLen))

/-! ## Proofs -/

/-- The loop of `compute_siblings` over the levels below the root. -/
def Digests.collectSiblings (d : Digests H) : List (List H) → Nat → List ProofStep
  | [], _ => []
  | level :: rest, idx =>
    (if proofLevelHasSibling idx level.length then
      ((level[proofSiblingIndex idx]?).map fun h =>
        (⟨d.encodeHashHex h, proofStepIsLeft idx⟩ : ProofStep)).toList
    else []) ++ d.collectSiblings rest (proofParentIndex idx)

/-- `compute_siblings`. -/
def Digests.computeSiblings (d : Digests H) (leaves : List H) (index : Nat) : List ProofStep :=
  if leaves.length = 0 ∨ leaves.length = 1 then []
  else d.collectSiblings (levels d.hashInternal leaves.length leaves).dropLast index

/-- `MerkleTree::generate_proof`. -/
def MerkleTree.generateProof (d : Digests H) (t : MerkleTree H) (file : LeafFile) (index : Nat) :
    Except AuditError MerkleProof :=
  if t.leafCount ≤ index then
    .error (.validation ("Leaf index " ++ toString index ++ " out of range (tree has " ++
      toString t.leafCount ++ " leaves)"))
  else
    match t.root d with
    | none => .error (.validation "Cannot generate proof for empty tree")
    | some root =>
      match file with
      | none => .error (.io "No such file or directory (os error 2)")
      | some data =>
        if t.maxFileSize < data.length then
          .error (.validation ("Merkle leaf file too large for proof generation (" ++
            toString data.length ++ " bytes, max " ++ toString t.maxFileSize ++ " bytes)"))
        else if data.length < t.leafCount * hashSize then
          .error (.validation "Leaf file is shorter than expected")
        else
          .ok
            { leafIndex := index
              treeSize := t.leafCount
              siblings := d.computeSiblings (d.readLeaves t.leafCount data) index
              rootHash := d.encodeHashHex root }

/-- The loop of `verify_proof`; an error or a sibling of the wrong length ends it. -/
def Digests.foldSiblings (d : Digests H) (current : H) :
    List ProofStep → Except AuditError (Except String H)
  | [] => .ok (.ok current)
  | step :: rest =>
    match hexDecode step.hash with
    | .error e => .error (.validation ("Invalid sibling hash hex: " ++ e.display))
    | .ok sibling =>
      match d.ofBytes sibling with
      | none =>
        .ok (.error ("Sibling hash has wrong length: " ++ toString sibling.length ++ " (expected " ++
          toString hashSize ++ ")"))
      | some h => d.foldSiblings (d.foldProofStep current h step.isLeft) rest

/-- `MerkleTree::verify_proof`. -/
def Digests.verifyProof (d : Digests H) (leafHash : H) (proof : MerkleProof) (trustedRoot : String) :
    Except AuditError MerkleVerification :=
  if !proofSiblingCountValid proof.siblings.length then
    .error (.validation ("Proof has too many siblings (" ++ toString proof.siblings.length ++
      ", max " ++ toString maxProofSiblings ++ ")"))
  else if !proofTreeSizeValid proof.treeSize then
    .ok ⟨false, some "Proof has zero tree size"⟩
  else if !proofLeafIndexValid proof.leafIndex proof.treeSize then
    .ok ⟨false, some ("Leaf index " ++ toString proof.leafIndex ++ " >= tree size " ++
      toString proof.treeSize)⟩
  else
    match d.foldSiblings leafHash proof.siblings with
    | .error e => .error e
    | .ok (.error reason) => .ok ⟨false, some reason⟩
    | .ok (.ok current) =>
      if d.encodeHashHex current = trustedRoot then .ok ⟨true, none⟩
      else
        .ok ⟨false, some ("Root mismatch: computed " ++ d.encodeHashHex current ++
          " but trusted root is " ++ trustedRoot)⟩

/-! ## What appending leaves behind -/

/-- Append the leaves one by one; no write fails. -/
def MerkleTree.appendAll (d : Digests H) :
    MerkleTree H × LeafFile → List H → Except AuditError (MerkleTree H × LeafFile)
  | st, [] => .ok st
  | (t, file), leaf :: rest => (t.append d file leaf none).bind fun st => appendAll d st rest

/-- The tree of a list of leaves. -/
def MerkleTree.ofLeaves (d : Digests H) (maxLeafCount : Nat) (leaves : List H) : MerkleTree H :=
  leaves.foldl (fun t leaf => t.replayLeaf d leaf) (.new maxLeafCount)

/-- The digests all have the size that the leaf file is cut into. -/
def Digests.FixedSize (d : Digests H) : Prop := ∀ h, (d.bytes h).length = hashSize

theorem fixedSize_ofSha256 (sha256 : List UInt8 → Hash32) : (Digests.ofSha256 sha256).FixedSize :=
  fun h => h.2

section Append

variable (d : Digests H)

theorem foldl_replayLeaf (t : MerkleTree H) (leaves : List H) (hcount : t.leafCount ≤ u64Max) :
    leaves.foldl (fun t leaf => t.replayLeaf d leaf) t =
      { t with
        peaks := leaves.foldl (fun ps leaf => carry d.hashInternal leaf ps) t.peaks
        leafCount := min (t.leafCount + leaves.length) u64Max } := by
  induction leaves generalizing t with
  | nil => simp [Nat.min_eq_left hcount]
  | cons leaf leaves ih =>
    have hnext : (t.replayLeaf d leaf).leafCount ≤ u64Max := Nat.min_le_right _ _
    rw [List.foldl_cons, ih _ hnext]
    simp only [MerkleTree.replayLeaf, saturatingAdd, List.foldl_cons, List.length_cons]
    congr 1
    omega

theorem ofLeaves_eq (maxLeafCount : Nat) (leaves : List H) :
    MerkleTree.ofLeaves d maxLeafCount leaves =
      ⟨min leaves.length u64Max, Merkle.peaks d.hashInternal leaves, maxLeafCount⟩ := by
  rw [MerkleTree.ofLeaves, foldl_replayLeaf d _ _ (Nat.zero_le _)]
  simp [MerkleTree.new, Merkle.peaks]

/-- **The root of the peaks is the root of the levels.** -/
theorem root_ofLeaves (maxLeafCount : Nat) (leaves : List H) :
    (MerkleTree.ofLeaves d maxLeafCount leaves).root d = levelRoot d.hashInternal leaves := by
  rw [ofLeaves_eq, MerkleTree.root, Merkle.foldPeaks_peaks]
  split
  · rename_i hzero
    have hu : 0 < u64Max := by decide
    have hnil : leaves = [] := by
      apply List.length_eq_zero_iff.mp
      simp only at hzero
      omega
    subst hnil
    rfl
  · rfl

theorem append_eq_ok {t : MerkleTree H} (hcap : t.leafCount < t.maxLeafCount) (file : LeafFile)
    (leaf : H) :
    t.append d file leaf none = .ok (t.replayLeaf d leaf, some (file.getD [] ++ d.bytes leaf)) := by
  rw [MerkleTree.append, if_neg (by simpa [appendAllowed] using hcap)]

theorem appendAll_cons {t : MerkleTree H} {file : LeafFile} {leaf : H} {leaves : List H}
    (hcap : t.leafCount + (leaf :: leaves).length ≤ t.maxLeafCount) :
    MerkleTree.appendAll d (t, file) (leaf :: leaves) =
      .ok ((leaf :: leaves).foldl (fun t leaf => t.replayLeaf d leaf) t,
        some (file.getD [] ++ (leaf :: leaves).flatMap d.bytes)) := by
  induction leaves generalizing t file leaf with
  | nil =>
    simp only [List.length_cons, List.length_nil] at hcap
    rw [MerkleTree.appendAll, append_eq_ok d (by omega)]
    simp [Except.bind, MerkleTree.appendAll]
  | cons next leaves ih =>
    simp only [List.length_cons] at hcap
    have hcount : (t.replayLeaf d leaf).leafCount ≤ t.leafCount + 1 := Nat.min_le_left _ _
    have hmax : (t.replayLeaf d leaf).maxLeafCount = t.maxLeafCount := rfl
    rw [MerkleTree.appendAll, append_eq_ok d (by omega)]
    show MerkleTree.appendAll d (_, _) (next :: leaves) = _
    rw [ih (by simp only [List.length_cons]; omega)]
    simp [List.append_assoc]

/-- **What appending leaves behind**: the peaks of the leaves and a file of their bytes. -/
theorem appendAll_eq {maxLeafCount : Nat} {leaves : List H} (hne : leaves ≠ [])
    (hmax : leaves.length ≤ maxLeafCount) :
    MerkleTree.appendAll d (.new maxLeafCount, none) leaves =
      .ok (.ofLeaves d maxLeafCount leaves, some (leaves.flatMap d.bytes)) := by
  obtain ⟨leaf, rest, rfl⟩ := List.exists_cons_of_ne_nil hne
  rw [appendAll_cons d (by simpa [MerkleTree.new] using hmax)]
  rfl

end Append

/-! ## Reading the leaf file -/

section LeafFile

variable {d : Digests H} (hsize : d.FixedSize)
include hsize

theorem length_flatMap_bytes (leaves : List H) :
    (leaves.flatMap d.bytes).length = leaves.length * hashSize := by
  induction leaves with
  | nil => simp
  | cons leaf leaves ih =>
    rw [List.flatMap_cons, List.length_append, ih, hsize leaf, List.length_cons, Nat.succ_mul]
    omega

theorem chunksExact_flatMap_bytes (leaves : List H) (rest : List UInt8) :
    chunksExact leaves.length (leaves.flatMap d.bytes ++ rest) = leaves.map d.bytes := by
  induction leaves with
  | nil => rfl
  | cons leaf leaves ih =>
    have hleaf := hsize leaf
    rw [List.length_cons, List.flatMap_cons, chunksExact, List.append_assoc,
      List.take_left' hleaf, List.drop_left' hleaf, ih]
    rfl

/-- What the leaf file holds is read back, whatever follows it. -/
theorem readLeaves_flatMap_bytes (leaves : List H) (rest : List UInt8) :
    d.readLeaves leaves.length (leaves.flatMap d.bytes ++ rest) = leaves := by
  rw [Digests.readLeaves, chunksExact_flatMap_bytes hsize, List.filterMap_map]
  have hback : (d.ofBytes ∘ d.bytes) = some := by
    funext h
    exact d.ofBytes_bytes h
  rw [hback, List.filterMap_some]

/-- The leaf file of a tree within its limits is read in full. -/
theorem maxFileSize_ok {t : MerkleTree H} {leaves : List H} (hmax : leaves.length ≤ t.maxLeafCount)
    (hfile : leaves.length * hashSize ≤ u64Max) :
    (leaves.flatMap d.bytes).length ≤ t.maxFileSize := by
  rw [length_flatMap_bytes hsize]
  exact Nat.le_min.mpr ⟨Nat.mul_le_mul_right _ hmax, hfile⟩

/-- **`initialize` restores the tree** of the leaves in the file. -/
theorem initialize_flatMap_bytes (t : MerkleTree H) {leaves : List H}
    (hmax : leaves.length ≤ t.maxLeafCount) (hfile : leaves.length * hashSize ≤ u64Max) :
    t.initializeFrom d (some (leaves.flatMap d.bytes)) =
      .ok (.ofLeaves d t.maxLeafCount leaves, some (leaves.flatMap d.bytes)) := by
  have hlen := length_flatMap_bytes hsize leaves
  have hok := maxFileSize_ok hsize hmax hfile
  have hcount : (leaves.flatMap d.bytes).length / hashSize = leaves.length := by
    rw [hlen]
    exact Nat.mul_div_cancel _ (by decide)
  have hread := readLeaves_flatMap_bytes hsize leaves []
  rw [List.append_nil] at hread
  simp only [MerkleTree.initializeFrom, hcount]
  rw [if_neg (by omega), if_neg (by simpa [storedLeafCountValid] using hmax), hread, ← hlen,
    List.take_length]
  rfl

end LeafFile

/-! ## Completeness -/

section Verify

variable (d : Digests H)

/-- A step of a path, as a proof spells it. -/
def Digests.toStep (step : Merkle.PathStep H) : ProofStep := ⟨d.encodeHashHex step.2, step.1⟩

/-- The siblings of a proof are those of the path. -/
theorem collectSiblings_eq (lvls : List (List H)) (idx : Nat) :
    d.collectSiblings lvls idx = (Merkle.collect lvls idx).map d.toStep := by
  induction lvls generalizing idx with
  | nil => rfl
  | cons level rest ih =>
    rw [Digests.collectSiblings, Merkle.collect, List.map_append, ih]
    congr 1
    by_cases hsib : proofSiblingIndex idx < level.length
    · have hget : level[Merkle.siblingIndex idx]? = some level[proofSiblingIndex idx] :=
        List.getElem?_eq_getElem hsib
      rw [if_pos (by simpa [proofLevelHasSibling] using hsib), List.getElem?_eq_getElem hsib, hget]
      rfl
    · have hget : level[Merkle.siblingIndex idx]? = none :=
        List.getElem?_eq_none (Nat.le_of_not_lt hsib)
      rw [if_neg (by simpa [proofLevelHasSibling] using hsib), hget]
      rfl

theorem computeSiblings_eq (leaves : List H) (index : Nat) :
    d.computeSiblings leaves index = (path d.hashInternal leaves index).map d.toStep := by
  rw [Digests.computeSiblings]
  split
  · rename_i hsmall
    -- an empty or a single-leaf tree has no level below the root
    rcases hsmall with hzero | hone
    · rw [List.length_eq_zero_iff.mp hzero]
      rfl
    · obtain ⟨a, rfl⟩ := List.length_eq_one_iff.mp hone
      rfl
  · exact collectSiblings_eq d _ _

/-- The verifier climbs a path that is spelled as a proof. -/
theorem foldSiblings_map_toStep (current : H) (steps : List (Merkle.PathStep H)) :
    d.foldSiblings current (steps.map d.toStep) = .ok (.ok (climb d.hashInternal current steps)) := by
  induction steps generalizing current with
  | nil => rfl
  | cons step steps ih =>
    simp only [List.map_cons, Digests.foldSiblings, Digests.toStep, Digests.encodeHashHex,
      hexDecode_hexEncode, d.ofBytes_bytes]
    rw [show d.foldProofStep current step.2 step.1 = climbStep d.hashInternal current step from rfl]
    exact ih _

/-- What the verifier folds to the end is a path with the directions of the proof. -/
theorem climb_of_foldSiblings {current y : H} {siblings : List ProofStep}
    (h : d.foldSiblings current siblings = .ok (.ok y)) :
    ∃ steps : List (Merkle.PathStep H), steps.map Prod.fst = siblings.map (·.isLeft) ∧
      y = climb d.hashInternal current steps := by
  induction siblings generalizing current with
  | nil =>
    cases h
    exact ⟨[], rfl, rfl⟩
  | cons step siblings ih =>
    rw [Digests.foldSiblings] at h
    split at h
    · cases h
    · split at h
      · cases h
      · rename_i sibling _ hdigest _
        obtain ⟨steps, hflags, hy⟩ := ih h
        exact ⟨(step.isLeft, hdigest) :: steps, by simp [hflags], hy⟩

theorem verifyProof_valid_of_fold {leafHash y : H} {proof : MerkleProof}
    (hcount : proof.siblings.length ≤ maxProofSiblings) (hindex : proof.leafIndex < proof.treeSize)
    (hfold : d.foldSiblings leafHash proof.siblings = .ok (.ok y)) :
    d.verifyProof leafHash proof (d.encodeHashHex y) = .ok ⟨true, none⟩ := by
  rw [Digests.verifyProof, if_neg (by simpa [proofSiblingCountValid] using hcount),
    if_neg (by simp only [proofTreeSizeValid, Bool.not_eq_true', decide_eq_false_iff_not]; omega),
    if_neg (by simpa [proofLeafIndexValid] using hindex), hfold]
  simp

/-- **A valid proof climbs from the leaf to the root.** -/
theorem fold_of_verifyProof_valid {leafHash root : H} {proof : MerkleProof}
    (h : d.verifyProof leafHash proof (d.encodeHashHex root) = .ok ⟨true, none⟩) :
    proof.siblings.length ≤ maxProofSiblings ∧ proof.leafIndex < proof.treeSize ∧
      d.foldSiblings leafHash proof.siblings = .ok (.ok root) := by
  rw [Digests.verifyProof] at h
  split at h
  · cases h
  rename_i hcount
  split at h
  · cases h
  split at h
  · cases h
  rename_i hindex
  split at h
  · cases h
  · cases h
  · rename_i current hfold
    split at h
    · rename_i hroot
      obtain rfl := d.encodeHashHex_injective hroot
      exact ⟨by simpa [proofSiblingCountValid] using hcount,
        by simpa [proofLeafIndexValid] using hindex, hfold⟩
    · cases h

end Verify

/-- The proof that the tree of some leaves gives for leaf `i`: the path of that leaf. -/
theorem generateProof_ofLeaves {d : Digests H} (hsize : d.FixedSize) {maxLeafCount : Nat}
    {leaves : List H} (hmax : leaves.length ≤ maxLeafCount)
    (hfile : leaves.length * hashSize ≤ u64Max) {i : Nat} {leaf : H} (hleaf : leaves[i]? = some leaf) :
    let t := MerkleTree.ofLeaves d maxLeafCount leaves
    let steps := path d.hashInternal leaves i
    let root := d.encodeHashHex (climb d.hashInternal leaf steps)
    t.generateProof d (some (leaves.flatMap d.bytes)) i =
        .ok ⟨i, leaves.length, steps.map d.toStep, root⟩ ∧
      t.rootHex d = some root := by
  intro t steps root
  have hi := (List.getElem?_eq_some_iff.mp hleaf).1
  have hroot : t.root d = some (climb d.hashInternal leaf steps) := by
    rw [root_ofLeaves]
    exact Merkle.climb_path hleaf
  have hcount : t.leafCount = leaves.length := by
    have hle : leaves.length ≤ leaves.length * hashSize := Nat.le_mul_of_pos_right _ (by decide)
    rw [show t = _ from ofLeaves_eq d _ _]
    exact Nat.min_eq_left (hle.trans hfile)
  have hlimit : t.maxLeafCount = maxLeafCount := by rw [show t = _ from ofLeaves_eq d _ _]
  have hok := maxFileSize_ok hsize (t := t) (hlimit.symm ▸ hmax) hfile
  have hlen := length_flatMap_bytes hsize leaves
  have hread := readLeaves_flatMap_bytes hsize leaves []
  rw [List.append_nil] at hread
  constructor
  · rw [MerkleTree.generateProof, if_neg (by omega), hroot]
    simp only [hcount]
    rw [if_neg (by omega), if_neg (by omega), hread, computeSiblings_eq]
  · rw [MerkleTree.rootHex, hroot]
    rfl

/-- **Completeness.**  After the leaves have been appended, every leaf has a proof that verifies
    against the root of the tree; the root of the peaks is the root of the levels; and `initialize`
    on the leaf file gives the same peaks and count back, whatever tree it starts from.  The length of
    the leaf file is a `u64`. -/
theorem merkle_complete (sha256 : List UInt8 → Hash32) (maxLeafCount : Nat) (leaves : List Hash32)
    (hne : leaves ≠ []) (hmax : leaves.length ≤ maxLeafCount)
    (hfile : leaves.length * hashSize ≤ u64Max) :
    let d := Digests.ofSha256 sha256
    ∃ t file, MerkleTree.appendAll d (.new maxLeafCount, none) leaves = .ok (t, file) ∧
      (∀ i leaf, leaves[i]? = some leaf → ∃ proof root, t.generateProof d file i = .ok proof ∧
        t.rootHex d = some root ∧ d.verifyProof leaf proof root = .ok ⟨true, none⟩) ∧
      t.root d = levelRoot d.hashInternal leaves ∧
      ∀ old : MerkleTree Hash32, old.maxLeafCount = maxLeafCount →
        old.initializeFrom d file = .ok (t, file) := by
  intro d
  have hsize : d.FixedSize := fixedSize_ofSha256 sha256
  refine ⟨_, _, appendAll_eq d hne hmax, ?_, root_ofLeaves d _ _, ?_⟩
  · intro i leaf hleaf
    have hi := (List.getElem?_eq_some_iff.mp hleaf).1
    obtain ⟨hproof, hroot⟩ := generateProof_ofLeaves hsize hmax hfile hleaf
    refine ⟨_, _, hproof, hroot, ?_⟩
    have hfold := foldSiblings_map_toStep d leaf (path d.hashInternal leaves i)
    refine verifyProof_valid_of_fold d ?_ hi hfold
    -- a path among fewer than `2 ^ 64` leaves has at most 64 steps
    have hpow : leaves.length ≤ 2 ^ 64 := by
      have hle : leaves.length ≤ leaves.length * hashSize := Nat.le_mul_of_pos_right _ (by decide)
      have hu : u64Max ≤ 2 ^ 64 := Nat.sub_le _ _
      omega
    rw [List.length_map]
    exact Merkle.length_path_le hpow i
  · intro old hold
    have h := initialize_flatMap_bytes hsize old (hold ▸ hmax) hfile
    rw [hold] at h
    exact h

/-- The first 32 bytes of the input, filled up with zeros. -/
def firstBytes (bs : List UInt8) : Hash32 :=
  ⟨(bs ++ List.replicate 32 0).take 32, by simp⟩

theorem merkle_complete_three :
    let leaves := [[1], [2], [3]].map fun data => (Digests.ofSha256 firstBytes).hashLeaf data
    ∃ t file, MerkleTree.appendAll (.ofSha256 firstBytes) (.new 3, none) leaves = .ok (t, file) ∧
      (∀ i leaf, leaves[i]? = some leaf → ∃ proof root,
        t.generateProof (.ofSha256 firstBytes) file i = .ok proof ∧
        t.rootHex (.ofSha256 firstBytes) = some root ∧
        (Digests.ofSha256 firstBytes).verifyProof leaf proof root = .ok ⟨true, none⟩) ∧
      t.root (.ofSha256 firstBytes) =
        levelRoot (Digests.ofSha256 firstBytes).hashInternal leaves ∧
      ∀ old : MerkleTree Hash32, old.maxLeafCount = 3 →
        old.initializeFrom (.ofSha256 firstBytes) file = .ok (t, file) :=
  merkle_complete firstBytes 3 _ (by simp) (by simp) (by decide)

/-! ## Position -/

/-- The hashes of leaves and of nodes are injective and never equal. -/
structure Digests.CollisionFree (d : Digests H) : Prop where
  leaf : ∀ a b, d.hashLeaf a = d.hashLeaf b → a = b
  node : ∀ a b c e, d.hashInternal a b = d.hashInternal c e → a = c ∧ b = e
  disjoint : ∀ data a b, d.hashLeaf data ≠ d.hashInternal a b

/-- **The property**, for one tree size, one index and one list of directions: whatever the leaves,
    the value, the sibling hashes and the rest of the proof are, if the proof verifies against the
    root of the leaves, the value is the leaf at that index. -/
def Digests.BindsPosition (d : Digests H) (n i : Nat) (flags : List Bool) : Prop :=
  ∀ (data : List (List UInt8)) (maxLeafCount : Nat) (x : H) (proof : MerkleProof) (root : String),
    data.length = n → proof.treeSize = n → proof.leafIndex = i →
    proof.siblings.map (·.isLeft) = flags →
    (MerkleTree.ofLeaves d maxLeafCount (data.map d.hashLeaf)).rootHex d = some root →
    d.verifyProof x proof root = .ok ⟨true, none⟩ →
    (data.map d.hashLeaf)[i]? = some x

/-- Directions that lead from the root to leaf `i` or to no node at all: wherever they are the upper
    end of a leaf's path, they are the whole path of leaf `i`. -/
def PathOf (n i : Nat) (flags : List Bool) : Prop :=
  ∀ j < n, flags <:+ pathFlags n j → j = i ∧ flags = pathFlags n i

instance (n i : Nat) (flags : List Bool) : Decidable (PathOf n i flags) :=
  inferInstanceAs (Decidable (∀ j < n, flags <:+ pathFlags n j → j = i ∧ flags = pathFlags n i))

section Position

variable {d : Digests H} (hfree : d.CollisionFree)
include hfree

/-- What verifies against the root of some leaves is a leaf with its path, or an inner node with the
    upper end of one. -/
theorem leaf_or_inner_of_valid {data : List (List UInt8)} {maxLeafCount : Nat} {x : H}
    {proof : MerkleProof} {root : String}
    (hroot : (MerkleTree.ofLeaves d maxLeafCount (data.map d.hashLeaf)).rootHex d = some root)
    (hvalid : d.verifyProof x proof root = .ok ⟨true, none⟩) :
    ∃ j < data.length, proof.siblings.map (·.isLeft) <:+ pathFlags data.length j ∧
      ((data.map d.hashLeaf)[j]? = some x ∨
        proof.siblings.length < (pathFlags data.length j).length) := by
  obtain ⟨r, hr, rfl⟩ := Option.map_eq_some_iff.mp hroot
  rw [root_ofLeaves] at hr
  obtain ⟨-, -, hfold⟩ := fold_of_verifyProof_valid d hvalid
  obtain ⟨steps, hflags, rfl⟩ := climb_of_foldSiblings d hfold
  have hpath : ∀ j, (path d.hashInternal (data.map d.hashLeaf) j).map Prod.fst =
      pathFlags data.length j := by
    intro j
    rw [Merkle.map_fst_path, List.length_map]
  have hlen : steps.length = proof.siblings.length := by
    simpa using congrArg List.length hflags
  rcases Merkle.climb_eq_root hfree.node hr with ⟨j, pre, y, hy, rfl, hpre⟩ | ⟨j, hj, hsuf, hlt, -⟩
  · have hj := (List.getElem?_eq_some_iff.mp hy).1
    rw [List.length_map] at hj
    -- nothing climbs to a leaf but the leaf itself
    have hnil : pre = [] := by
      rcases Merkle.climb_eq_self_or_node x pre with hnil | ⟨a, b, hnode⟩
      · exact hnil
      · rw [List.getElem?_map, Option.map_eq_some_iff] at hy
        obtain ⟨bytes, -, hleaf⟩ := hy
        exact absurd (hleaf.trans (hpre.symm.trans hnode)) (hfree.disjoint bytes a b)
    subst hnil
    refine ⟨j, hj, ?_, .inl (hy.trans (congrArg some hpre.symm))⟩
    rw [← hflags, List.nil_append, hpath]
  · rw [List.length_map] at hj
    refine ⟨j, hj, ?_, .inr ?_⟩
    · rw [← hflags, ← hpath]
      exact hsuf.map Prod.fst
    · rw [← hpath, List.length_map, ← hlen]
      exact hlt

/-- Any directions that lead to a node other than leaf `i` carry a proof of that node, for leaves that
    are all different. -/
theorem exists_proof_of_suffix {n i j : Nat} {flags : List Bool} (hi : i < n) (hn : n ≤ 2 ^ 64)
    (hj : j < n) (hsuf : flags <:+ pathFlags n j) (hother : ¬(j = i ∧ flags = pathFlags n i)) :
    ¬d.BindsPosition n i flags := by
  let data : List (List UInt8) := (List.range n).map fun k => List.replicate k 0
  have hdata : data.length = n := by simp [data]
  have hleaf : ∀ k < n, (data.map d.hashLeaf)[k]? = some (d.hashLeaf (List.replicate k 0)) := by
    intro k hk
    simp [data, hk]
  have hroot : levelRoot d.hashInternal (data.map d.hashLeaf) =
      some (climb d.hashInternal (d.hashLeaf (List.replicate j 0))
        (path d.hashInternal (data.map d.hashLeaf) j)) := Merkle.climb_path (hleaf j hj)
  have hpath : (path d.hashInternal (data.map d.hashLeaf) j).map Prod.fst = pathFlags n j := by
    rw [Merkle.map_fst_path, List.length_map, hdata]
  generalize hsteps : path d.hashInternal (data.map d.hashLeaf) j = steps at hroot hpath
  have hshort : steps.length ≤ maxProofSiblings := by
    rw [← hsteps]
    exact Merkle.length_path_le (by rw [List.length_map, hdata]; exact hn) j
  -- the proof is the upper end of the path, and its value the node where that end begins
  let k := steps.length - flags.length
  have hflags : (steps.drop k).map Prod.fst = flags := by
    rw [List.map_drop, hpath]
    have hlen : (pathFlags n j).length = steps.length := by rw [← hpath, List.length_map]
    have h := List.suffix_iff_eq_drop.mp hsuf
    rw [hlen] at h
    exact h.symm
  intro hbinds
  have hx := hbinds data n (climb d.hashInternal (d.hashLeaf (List.replicate j 0)) (steps.take k))
    ⟨i, n, (steps.drop k).map d.toStep, ""⟩ _ hdata rfl rfl
    (by rw [List.map_map]; exact hflags)
    (by rw [MerkleTree.rootHex, root_ofLeaves, hroot]; rfl)
    (by
      refine verifyProof_valid_of_fold d ?_ hi ?_
      · rw [List.length_map, List.length_drop]
        omega
      · rw [foldSiblings_map_toStep, ← Merkle.climb_append, List.take_append_drop])
  rw [hleaf i hi, Option.some.injEq] at hx
  have hcases : steps.take k = [] ∨ ∃ a b, climb d.hashInternal (d.hashLeaf (List.replicate j 0))
      (steps.take k) = d.hashInternal a b := Merkle.climb_eq_self_or_node _ _
  rcases hcases with hnil | ⟨a, b, hnode⟩
  · -- the proof is the whole path of leaf `j`
    rw [hnil] at hx
    have hij : i = j := by simpa using congrArg List.length (hfree.leaf _ _ hx)
    refine hother ⟨hij.symm, ?_⟩
    have hall : steps.drop k = steps := by
      have h := List.take_append_drop k steps
      rwa [hnil, List.nil_append] at h
    rw [← hflags, hall, hpath, hij]
  · exact hfree.disjoint _ _ _ (hx.trans hnode)

/-- **When the verifier binds the position.**  For the directions of the path of leaf `i`, and for
    directions that lead to no node of a tree of `n` leaves, a proof that verifies with index `i` is
    about leaf `i`; for any other directions there are leaves and a proof of something else that
    verifies with index `i`. -/
theorem position_bound_iff {n i : Nat} (hi : i < n) (hn : n ≤ u64Max) (flags : List Bool) :
    d.BindsPosition n i flags ↔ PathOf n i flags := by
  constructor
  · intro hbinds j hj hsuf
    by_contra hother
    have hu : u64Max ≤ 2 ^ 64 := Nat.sub_le _ _
    exact exists_proof_of_suffix hfree hi (hn.trans hu) hj hsuf hother hbinds
  · intro hof data maxLeafCount x proof root hdata _ _ hflags hroot hvalid
    obtain ⟨j, hj, hsuf, hat⟩ := leaf_or_inner_of_valid hfree hroot hvalid
    rw [hdata, hflags] at hsuf
    rw [hdata] at hj hat
    obtain ⟨rfl, hall⟩ := hof j hj hsuf
    rcases hat with hleaf | hshort
    · exact hleaf
    · rw [← hall, ← hflags, List.length_map] at hshort
      omega

end Position

/-! ### A forged index -/

theorem plainDigests_collisionFree : plainDigests.CollisionFree where
  leaf _ _ h := (List.cons.inj h).2
  node a b c e h := by
    obtain ⟨hac, hbe⟩ := selfDelimited_append_inj (List.cons.inj h).2
    rw [← List.append_nil (plainDigests.bytes b), ← List.append_nil (plainDigests.bytes e)] at hbe
    exact ⟨hac, (selfDelimited_append_inj hbe).1⟩
  disjoint _ _ _ h := by cases (List.cons.inj h).1

/-- The verifier with the path of leaf 0 of three leaves. -/
theorem position_bound_three :
    0 < 3 ∧ PathOf 3 0 [false, false] ∧ plainDigests.BindsPosition 3 0 [false, false] :=
  ⟨by decide, by decide,
    (position_bound_iff plainDigests_collisionFree (by decide) (by decide) _).mpr (by decide)⟩

/-- **A forged index.**  With two leaves, the path of leaf 1 under the index 0 verifies for leaf 1. -/
theorem forgedIndex_verifies :
    let leaves := [[10], [20]].map plainDigests.hashLeaf
    let sibling := plainDigests.encodeHashHex (plainDigests.hashLeaf [10])
    let proof : MerkleProof := ⟨0, 2, [⟨sibling, true⟩], ""⟩
    plainDigests.CollisionFree ∧
    (∃ root, (MerkleTree.ofLeaves plainDigests 2 leaves).rootHex plainDigests = some root ∧
      plainDigests.verifyProof (plainDigests.hashLeaf [20]) proof root = .ok ⟨true, none⟩) ∧
    leaves[0]? ≠ some (plainDigests.hashLeaf [20]) := by
  refine ⟨plainDigests_collisionFree, ⟨_, rfl, ?_⟩, ?_⟩
  · decide +kernel
  · decide

end Vellaveto.Audit
