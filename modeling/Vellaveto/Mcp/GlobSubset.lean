/-
  CONTAINMENT OF GLOBS, as the code decides it (`verified_capability_glob_subset.rs`).

  The positions of a pattern that are possible after some bytes are the BITS of a list of 64-bit
  words.  The search walks over pairs of such sets, one for each pattern, and compares them as words.
  `Lib.Glob` has the same search over lists of flags; here the two are brought together.

  REFINEMENT.
    1. `holds_start`, `holds_transition`   the loops over the words do to the bits what `Lib.Glob`
                                           does to the flags;
    2. `biUnique_holds`                    words and flags determine each other, so that the visited
                                           set sees the same repetitions;
    3. `globPatternSubsetSearch_eq`        the search over words IS the search over flags.

  SPEC.  `globPatternSubsetSearch_exact`: the search ends, and decides containment of the two sets of
  byte strings.
-/
import Mathlib.Data.List.Forall2
import Mathlib.Data.List.GetD
import Mathlib.Logic.Relator
import Vellaveto.Lib.BitSet
import Vellaveto.Mcp.CapabilityPattern

namespace Vellaveto.Capability

open Vellaveto.Lib Vellaveto.Lib.Glob

/-- The positions of a pattern that are still possible, as bits of 64-bit words. -/
structure PatternStateSet where
  bits : List (BitVec 64)
deriving DecidableEq

namespace PatternStateSet

/-- `PatternStateSet::new`: as many words as the states need. -/
def new (stateCount : Nat) : PatternStateSet := ⟨List.replicate ((stateCount + 63) / 64) 0⟩

/-- `PatternStateSet::set`. -/
def set (s : PatternStateSet) (index : Nat) : PatternStateSet := ⟨BitSet.set s.bits index⟩

/-- `PatternStateSet::contains`. -/
def contains (s : PatternStateSet) (index : Nat) : Bool := BitSet.contains s.bits index

/-- One round of the loop of `apply_star_epsilon_closure`. -/
def skipStar (s : PatternStateSet) (token : UInt8 × Nat) : PatternStateSet :=
  if s.contains token.2 && token.1 == starByte then s.set (token.2 + 1) else s

/-- `apply_star_epsilon_closure`. -/
def applyStarEpsilonClosure (s : PatternStateSet) (pattern : List UInt8) : PatternStateSet :=
  pattern.zipIdx.foldl skipStar s

/-- `PatternStateSet::start`. -/
def start (pattern : List UInt8) : PatternStateSet :=
  ((new (pattern.length + 1)).set 0).applyStarEpsilonClosure pattern

/-- One round of the loop of `transition`. -/
def readToken (s : PatternStateSet) (input : UInt8) (next : PatternStateSet) (token : UInt8 × Nat) :
    PatternStateSet :=
  if !s.contains token.2 then next
  else if token.1 = starByte then next.set token.2
  else if token.1 == questionByte || byteEqIgnoreAsciiCase token.1 input then next.set (token.2 + 1)
  else next

/-- `PatternStateSet::transition`. -/
def transition (s : PatternStateSet) (pattern : List UInt8) (input : UInt8) : PatternStateSet :=
  (pattern.zipIdx.foldl (s.readToken input) (new (pattern.length + 1))).applyStarEpsilonClosure pattern

/-- `PatternStateSet::accepts`. -/
def accepts (s : PatternStateSet) (pattern : List UInt8) : Bool := s.contains pattern.length

end PatternStateSet

/-- The loop of `glob_pattern_subset`, with fuel for every pair of state sets; `none` would mean that
    it is still running. -/
def globPatternSubsetSearch (parent child : List UInt8) : Option Bool :=
  let start := (PatternStateSet.start parent, PatternStateSet.start child)
  explore (fun s => s.2.accepts child && !s.1.accepts parent)
    (fun s => (collectRepresentativeBytes parent child).map fun input =>
      (s.1.transition parent input, s.2.transition child input))
    (2 ^ (parent.length + 1) * 2 ^ (child.length + 1) + 1) [start] [start]

/-! ## One state set -/

/-- `s` holds the positions that are flagged in `S`, and no others. -/
structure Holds (pattern : List UInt8) (s : PatternStateSet) (S : List Bool) : Prop where
  words : s.bits.length = (pattern.length + 1 + 63) / 64
  flags : S.length = pattern.length + 1
  agree : ∀ i, s.contains i = S.getD i false

namespace PatternStateSet

theorem contains_new (stateCount i : Nat) : (new stateCount).contains i = false :=
  BitSet.contains_replicate (by decide) _ i

@[simp] theorem length_set (s : PatternStateSet) (index : Nat) :
    (s.set index).bits.length = s.bits.length :=
  BitSet.length_set ..

theorem contains_set {s : PatternStateSet} {index : Nat} (h : index / 64 < s.bits.length) (i : Nat) :
    (s.set index).contains i = (decide (i = index) || s.contains i) :=
  BitSet.contains_set (by decide) h i

/-! ## Skipping stars -/

@[simp] theorem length_skipStar (s : PatternStateSet) (token : UInt8 × Nat) :
    (s.skipStar token).bits.length = s.bits.length := by
  unfold skipStar
  split
  · rw [length_set]
  · rfl

theorem contains_skipStar {s : PatternStateSet} {token : UInt8} {k : Nat}
    (h : (k + 1) / 64 < s.bits.length) (i : Nat) :
    (s.skipStar (token, k)).contains i =
      (s.contains i || (decide (i = k + 1) && (s.contains k && (globToken token).isStar))) := by
  have hstar : (globToken token).isStar = (token == starByte) := by
    unfold globToken
    split
    · rename_i htoken
      rw [htoken]
      rfl
    · rename_i htoken
      rw [beq_false_of_ne htoken]
      split <;> rfl
  unfold skipStar
  rw [hstar]
  dsimp only
  split
  · rename_i hskip
    rw [hskip, contains_set h, Bool.and_true, Bool.or_comm]
  · rename_i hskip
    rw [Bool.eq_false_iff.mpr hskip, Bool.and_false, Bool.or_false]

/-- The loop from position `k` on: what stands before `k` stays, the rest is the closure of the flags
    from there. -/
theorem foldl_skipStar {s : PatternStateSet} {pattern : List UInt8} {k : Nat} {S : List Bool}
    (hbits : (k + pattern.length) / 64 < s.bits.length) (hS : S.length = pattern.length + 1)
    (hagree : ∀ i, s.contains (k + i) = S.getD i false) :
    ((pattern.zipIdx k).foldl skipStar s).bits.length = s.bits.length ∧
      (∀ i < k, ((pattern.zipIdx k).foldl skipStar s).contains i = s.contains i) ∧
      ∀ i, ((pattern.zipIdx k).foldl skipStar s).contains (k + i) =
        (closure (tokens pattern) S).getD i false := by
  induction pattern generalizing s k S with
  | nil =>
    refine ⟨rfl, fun i _ => rfl, fun i => ?_⟩
    obtain ⟨b, rfl⟩ := List.length_eq_one_iff.mp hS
    exact hagree i
  | cons token pattern ih =>
    obtain ⟨b, b', S, rfl⟩ : ∃ b b' S', S = b :: b' :: S' := by
      rcases S with _ | ⟨b, _ | ⟨b', S⟩⟩
      · cases hS
      · cases hS
      · exact ⟨b, b', S, rfl⟩
    rw [List.length_cons] at hbits hS
    have hk : (k + 1) / 64 < s.bits.length := by omega
    have hb : s.contains k = b := hagree 0
    have hb' : s.contains (k + 1) = b' := hagree 1
    have hnext : ∀ i, (s.skipStar (token, k)).contains (k + 1 + i) =
        ((b' || (b && (globToken token).isStar)) :: S).getD i false := by
      intro i
      rw [contains_skipStar hk, hb]
      cases i with
      | zero => simp [hb']
      | succ i =>
        have hrest : s.contains (k + 1 + (i + 1)) = S.getD i false := by
          have hi := hagree (i + 2)
          rw [show k + (i + 2) = k + 1 + (i + 1) by omega] at hi
          exact hi
        simp [hrest]
    obtain ⟨hlen, hbefore, hafter⟩ := ih (by rw [length_skipStar]; omega) (by simpa using hS) hnext
    rw [List.zipIdx_cons, List.foldl_cons]
    refine ⟨hlen.trans (length_skipStar ..), ?_, ?_⟩
    · intro i hi
      rw [hbefore i (by omega), contains_skipStar hk]
      have hne : i ≠ k + 1 := by omega
      simp [hne]
    · intro i
      cases i with
      | zero =>
        have hhead := hbefore k (by omega)
        rw [contains_skipStar hk, hb] at hhead
        simpa [tokens, Glob.closure] using hhead
      | succ i =>
        rw [show k + (i + 1) = k + 1 + i by omega, hafter i]
        rfl

/-- `apply_star_epsilon_closure` is the closure of the flags. -/
theorem holds_applyStarEpsilonClosure {pattern : List UInt8} {s : PatternStateSet} {S : List Bool}
    (h : Holds pattern s S) :
    Holds pattern (s.applyStarEpsilonClosure pattern) (closure (tokens pattern) S) := by
  have hbits : (0 + pattern.length) / 64 < s.bits.length := by
    have := h.words
    omega
  obtain ⟨hlen, -, hagree⟩ := foldl_skipStar hbits h.flags
    (fun i => by rw [Nat.zero_add]; exact h.agree i)
  refine ⟨hlen.trans h.words, by rw [length_closure, h.flags], fun i => ?_⟩
  rw [← hagree i, Nat.zero_add]
  rfl

theorem holds_start (pattern : List UInt8) :
    Holds pattern (start pattern) (Glob.start (tokens pattern)) := by
  have hlen : (tokens pattern).length = pattern.length := List.length_map ..
  refine holds_applyStarEpsilonClosure ⟨?_, by simp [hlen], fun i => ?_⟩
  · rw [length_set]
    exact List.length_replicate
  · have hbits : 0 / 64 < (new (pattern.length + 1)).bits.length := by
      rw [new, List.length_replicate]
      omega
    rw [contains_set hbits, contains_new, Bool.or_false]
    cases i with
    | zero => rfl
    | succ i =>
      rw [List.getD_eq_getElem?_getD, List.getElem?_cons_succ, List.getElem?_replicate]
      split <;> rfl

/-! ## Reading a byte -/

@[simp] theorem length_readToken (s next : PatternStateSet) (input : UInt8) (token : UInt8 × Nat) :
    (s.readToken input next token).bits.length = next.bits.length := by
  unfold readToken
  split
  · rfl
  · split
    · rw [length_set]
    · split
      · rw [length_set]
      · rfl

theorem contains_readToken {s next : PatternStateSet} {input token : UInt8} {k : Nat}
    (h : (k + 1) / 64 < next.bits.length) (i : Nat) :
    (s.readToken input next (token, k)).contains i =
      (next.contains i || (decide (i = k) && (s.contains k && (globToken token).isStar)) ||
        (decide (i = k + 1) && (s.contains k && (globToken token).takes input))) := by
  have hk : k / 64 < next.bits.length := by omega
  unfold readToken globToken
  dsimp only
  cases s.contains k with
  | false => simp
  | true =>
    rw [if_neg (by simp)]
    split
    · rw [contains_set hk]
      simp [Token.isStar, Token.takes, Bool.or_comm]
    · split
      · rename_i hread
        rw [contains_set h]
        split
        · simp [Token.isStar, Token.takes, Bool.or_comm]
        · rename_i hquestion
          have htest : byteEqIgnoreAsciiCase token input = true := by simpa [hquestion] using hread
          simp [Token.isStar, Token.takes, Bool.or_comm, htest]
      · rename_i hread
        obtain ⟨hquestion, htest⟩ := not_or.mp (fun h => hread (Bool.or_eq_true_iff.mpr h))
        rw [if_neg (fun h => hquestion (beq_iff_eq.mpr h))]
        simp [Token.isStar, Token.takes, Bool.eq_false_iff.mpr htest]

/-- The loop from position `k` on: what stands before `k` stays, and from there the flags are those of
    `stepFrom`, with the flag of `k` itself as what the token before handed on. -/
theorem foldl_readToken {s next : PatternStateSet} {pattern : List UInt8} {input : UInt8} {k : Nat}
    {S : List Bool} {carry : Bool} (hbits : (k + pattern.length) / 64 < next.bits.length)
    (hS : S.length = pattern.length + 1) (hs : ∀ i, s.contains (k + i) = S.getD i false)
    (hnext : ∀ i, next.contains (k + i) = [carry].getD i false) :
    ((pattern.zipIdx k).foldl (s.readToken input) next).bits.length = next.bits.length ∧
      (∀ i < k, ((pattern.zipIdx k).foldl (s.readToken input) next).contains i = next.contains i) ∧
      ∀ i, ((pattern.zipIdx k).foldl (s.readToken input) next).contains (k + i) =
        (stepFrom input carry (tokens pattern) S).getD i false := by
  induction pattern generalizing next k S carry with
  | nil => exact ⟨rfl, fun i _ => rfl, hnext⟩
  | cons token pattern ih =>
    obtain ⟨b, S, rfl⟩ : ∃ b S', S = b :: S' := by
      cases S with
      | nil => cases hS
      | cons b S => exact ⟨b, S, rfl⟩
    rw [List.length_cons] at hbits
    have hk : (k + 1) / 64 < next.bits.length := by omega
    have hb : s.contains k = b := hs 0
    have hcarry : next.contains k = carry := hnext 0
    have hs' : ∀ i, s.contains (k + 1 + i) = S.getD i false := by
      intro i
      have hi := hs (i + 1)
      rw [show k + (i + 1) = k + 1 + i by omega] at hi
      exact hi
    have hnext' : ∀ i, (s.readToken input next (token, k)).contains (k + 1 + i) =
        [b && (globToken token).takes input].getD i false := by
      intro i
      have hempty : next.contains (k + 1 + i) = false := by
        have hi := hnext (i + 1)
        rw [show k + (i + 1) = k + 1 + i by omega] at hi
        exact hi
      have hne : k + 1 + i ≠ k := by omega
      rw [contains_readToken hk, hb, hempty]
      cases i with
      | zero => simp
      | succ i => simp [hne]
    obtain ⟨hlen, hbefore, hafter⟩ :=
      ih (by rw [length_readToken]; omega) (by simpa using hS) hs' hnext'
    rw [List.zipIdx_cons, List.foldl_cons]
    refine ⟨hlen.trans (length_readToken ..), ?_, ?_⟩
    · intro i hi
      rw [hbefore i (by omega), contains_readToken hk]
      have hne : i ≠ k := by omega
      have hne' : i ≠ k + 1 := by omega
      simp [hne, hne']
    · intro i
      cases i with
      | zero =>
        have hhead := hbefore k (by omega)
        rw [contains_readToken hk, hb, hcarry] at hhead
        simpa [tokens, stepFrom] using hhead
      | succ i =>
        rw [show k + (i + 1) = k + 1 + i by omega, hafter i]
        rfl

theorem holds_transition {pattern : List UInt8} {s : PatternStateSet} {S : List Bool}
    (h : Holds pattern s S) (input : UInt8) :
    Holds pattern (s.transition pattern input) (Glob.transition (tokens pattern) S input) := by
  have hempty : (new (pattern.length + 1)).bits.length = (pattern.length + 1 + 63) / 64 :=
    List.length_replicate
  have hlen : (tokens pattern).length = pattern.length := List.length_map ..
  have hs : ∀ i, s.contains (0 + i) = S.getD i false := by
    intro i
    rw [Nat.zero_add, h.agree]
  have hnext : ∀ i, (new (pattern.length + 1)).contains (0 + i) = [false].getD i false := by
    intro i
    rw [contains_new]
    cases i <;> rfl
  obtain ⟨hwords, -, hagree⟩ :=
    @foldl_readToken s _ pattern input 0 S false (by omega) h.flags hs hnext
  refine holds_applyStarEpsilonClosure ⟨hwords.trans hempty, ?_, fun i => ?_⟩
  · rw [length_stepFrom input false _ S (by rw [hlen, h.flags]), hlen]
  · rw [← hagree i, Nat.zero_add]

theorem accepts_eq {pattern : List UInt8} {s : PatternStateSet} {S : List Bool}
    (h : Holds pattern s S) : s.accepts pattern = Glob.accepts S := by
  rw [accepts, h.agree, Glob.accepts, List.getD_eq_getElem?_getD, List.getLastD_eq_getLast?,
    List.getLast?_eq_getElem?, h.flags, Nat.add_sub_cancel]

end PatternStateSet

/-- Words and flags determine each other. -/
theorem biUnique_holds (pattern : List UInt8) : Relator.BiUnique (Holds pattern) := by
  constructor
  · intro s s' S hs hs'
    have hbits : s.bits = s'.bits := by
      refine BitSet.eq_of_contains_eq (by decide) (hs.words.trans hs'.words.symm) fun i => ?_
      exact (hs.agree i).trans (hs'.agree i).symm
    cases s
    cases s'
    exact congrArg PatternStateSet.mk hbits
  · intro s S S' hS hS'
    refine List.ext_getElem (hS.flags.trans hS'.flags.symm) fun i hi hi' => ?_
    have hflag := (hS.agree i).symm.trans (hS'.agree i)
    rwa [List.getD_eq_getElem _ _ hi, List.getD_eq_getElem _ _ hi'] at hflag

/-! ## The search -/

/-- A pair of state sets holds a pair of flag lists. -/
def PairHolds (parent child : List UInt8) (s : PatternStateSet × PatternStateSet)
    (S : List Bool × List Bool) : Prop :=
  Holds parent s.1 S.1 ∧ Holds child s.2 S.2

theorem biUnique_pairHolds (parent child : List UInt8) :
    Relator.BiUnique (PairHolds parent child) := by
  constructor
  · intro s s' S hs hs'
    exact Prod.ext ((biUnique_holds parent).1 hs.1 hs'.1) ((biUnique_holds child).1 hs.2 hs'.2)
  · intro s S S' hS hS'
    exact Prod.ext ((biUnique_holds parent).2 hS.1 hS'.1) ((biUnique_holds child).2 hS.2 hS'.2)

/-- The search over words is the search over flags. -/
theorem globPatternSubsetSearch_eq (parent child : List UInt8) :
    globPatternSubsetSearch parent child =
      globSubset (tokens parent) (tokens child) (collectRepresentativeBytes parent child) := by
  have hstart : PairHolds parent child (PatternStateSet.start parent, PatternStateSet.start child)
      (Glob.start (tokens parent), Glob.start (tokens child)) :=
    ⟨PatternStateSet.holds_start parent, PatternStateSet.holds_start child⟩
  have hfuel : pairFuel (tokens parent) (tokens child) =
      2 ^ (parent.length + 1) * 2 ^ (child.length + 1) + 1 := by
    simp [pairFuel, tokens]
  rw [globPatternSubsetSearch, globSubset, hfuel]
  refine explore_eq_of_rel (biUnique_pairHolds parent child) ?_ ?_ (.cons hstart .nil)
    (.cons hstart .nil)
  · intro s S hs
    rw [refutes, PatternStateSet.accepts_eq hs.1, PatternStateSet.accepts_eq hs.2]
  · intro s S hs
    rw [successors, List.forall₂_map_left_iff, List.forall₂_map_right_iff]
    refine List.forall₂_same.mpr fun input _ => ?_
    exact ⟨PatternStateSet.holds_transition hs.1 input, PatternStateSet.holds_transition hs.2 input⟩

/-- **Glob containment is decided exactly.**  For every two patterns the search ends, and its answer
    is `true` exactly if every byte string that the child matches is matched by the parent. -/
theorem globPatternSubsetSearch_exact (parentPattern childPattern : String) :
    ∃ answer, globPatternSubsetSearch (asBytes parentPattern) (asBytes childPattern) = some answer ∧
      globPatternSubset parentPattern childPattern = answer ∧
      (answer = true ↔ ∀ w : List UInt8,
        literalChildMatchesParentGlobFrom (asBytes childPattern) w = true →
          literalChildMatchesParentGlobFrom (asBytes parentPattern) w = true) := by
  obtain ⟨answer, hanswer, hexact⟩ :=
    globSubset_exact (represent_collect (asBytes parentPattern) (asBytes childPattern))
  refine ⟨answer, ?_, ?_, hexact⟩
  · rw [globPatternSubsetSearch_eq, hanswer]
  · rw [globPatternSubset]
    rw [hanswer, Option.getD_some]

end Vellaveto.Capability
