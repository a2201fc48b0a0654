/-
  MERKLE TREES over a list of leaves, for an arbitrary node function.

  The leaves are paired level by level; a node without a partner is PROMOTED unchanged, so a tree need
  not be full.  Three computations are related here:

    `levelRoot`    the root, level by level;
    `peaks`        the incremental form: the roots of the complete sub-trees, one for each binary digit
                   of the number of leaves, kept up by carrying as in a binary counter; `foldPeaks`
                   makes the root of them, from the lowest up;
    `climb`        the root again, from one leaf and the siblings on its path (`path`).

    1. `foldPeaks_peaks`     the peaks make the root;
    2. `climb_path`          every leaf climbs to the root along its own path;
    3. `climb_eq_root`       when the node function is injective, WHATEVER climbs to the root sits on a
                             path of the tree: below a leaf, at it, or above it.
-/
import Mathlib.Algebra.Ring.Nat
import Mathlib.Data.List.Induction

namespace Vellaveto.Lib.Merkle

variable {H : Type*} (node : H → H → H)

/-! ## The levels of the tree -/

/-- Pair the nodes of a level; the last one of an odd number goes up as it is. -/
def nextLevel : List H → List H
  | a :: b :: rest => node a b :: nextLevel rest
  | xs => xs

/-- The levels from the leaves to the root; `fuel` bounds their number. -/
def levels : Nat → List H → List (List H)
  | 0, xs => [xs]
  | fuel + 1, xs => if 1 < xs.length then xs :: levels fuel (nextLevel node xs) else [xs]

/-- The root of the tree, level by level. -/
def levelRoot (xs : List H) : Option H := (levels node xs.length xs).getLast?.bind List.head?

variable {node}

@[simp] theorem nextLevel_nil : nextLevel node [] = [] := rfl
@[simp] theorem nextLevel_singleton (a : H) : nextLevel node [a] = [a] := rfl
@[simp] theorem nextLevel_cons_cons (a b : H) (xs : List H) :
    nextLevel node (a :: b :: xs) = node a b :: nextLevel node xs := rfl

theorem length_nextLevel (xs : List H) :
    (nextLevel node xs).length = xs.length / 2 + xs.length % 2 := by
  induction xs using List.twoStepInduction with
  | nil => simp
  | singleton a => simp
  | cons_cons a b rest ih _ => simp only [nextLevel_cons_cons, List.length_cons, ih]; omega

theorem length_nextLevel_lt (node : H → H → H) {xs : List H} (hxs : 1 < xs.length) :
    (nextLevel node xs).length < xs.length := by
  rw [length_nextLevel]; omega

theorem nextLevel_append {xs : List H} (ys : List H) (hxs : xs.length % 2 = 0) :
    nextLevel node (xs ++ ys) = nextLevel node xs ++ nextLevel node ys := by
  induction xs using List.twoStepInduction with
  | nil => rfl
  | singleton a => simp at hxs
  | cons_cons a b rest ih _ =>
    have hrest : rest.length % 2 = 0 := by simp only [List.length_cons] at hxs; omega
    simp [ih hrest]

/-- Two neighbours make their parent. -/
theorem nextLevel_pair {xs : List H} {k : Nat} {a b : H} (ha : xs[2 * k]? = some a)
    (hb : xs[2 * k + 1]? = some b) : (nextLevel node xs)[k]? = some (node a b) := by
  induction xs using List.twoStepInduction generalizing k with
  | nil => simp at ha
  | singleton x => simp at hb
  | cons_cons x y rest ih _ =>
    cases k with
    | zero =>
      cases ha
      cases hb
      rfl
    | succ k =>
      rw [nextLevel_cons_cons, List.getElem?_cons_succ]
      exact ih (by simpa [Nat.mul_succ] using ha) (by simpa [Nat.mul_succ] using hb)

/-- A last node without a partner is promoted. -/
theorem nextLevel_promoted {xs : List H} {k : Nat} {a : H} (ha : xs[2 * k]? = some a)
    (hb : xs[2 * k + 1]? = none) : (nextLevel node xs)[k]? = some a := by
  induction xs using List.twoStepInduction generalizing k with
  | nil => simp at ha
  | singleton x =>
    have hk : k = 0 := by
      have hlt := (List.getElem?_eq_some_iff.mp ha).1
      simp only [List.length_cons, List.length_nil] at hlt
      omega
    subst hk
    exact ha
  | cons_cons x y rest ih _ =>
    cases k with
    | zero => simp at hb
    | succ k =>
      rw [nextLevel_cons_cons, List.getElem?_cons_succ]
      refine ih (by simpa [Nat.mul_succ] using ha) ?_
      rw [List.getElem?_eq_none_iff] at hb ⊢
      simp only [List.length_cons] at hb
      omega

/-- More fuel than there are nodes changes nothing. -/
theorem levels_fuel {fuel : Nat} {xs : List H} (hfuel : xs.length ≤ fuel) :
    levels node fuel xs = levels node xs.length xs := by
  induction fuel using Nat.strongRecOn generalizing xs with
  | ind fuel ih =>
    by_cases hlen : 1 < xs.length
    · obtain ⟨f, rfl⟩ := Nat.exists_eq_add_of_lt (show 0 < fuel by omega)
      obtain ⟨n, hn⟩ := Nat.exists_eq_add_of_lt (show 0 < xs.length by omega)
      have hshort := length_nextLevel_lt node hlen
      have hone : levels node (0 + f + 1) xs = xs :: levels node (0 + f) (nextLevel node xs) :=
        if_pos hlen
      have htwo : levels node (0 + n + 1) xs = xs :: levels node (0 + n) (nextLevel node xs) :=
        if_pos hlen
      rw [hone, hn, htwo, ih (0 + f) (by omega) (by omega)]
      by_cases hlt : 0 + n < 0 + f + 1
      · rw [ih (0 + n) hlt (by omega)]
      · omega
    · have hany : ∀ g, levels node g xs = [xs] := by
        intro g
        cases g with
        | zero => rfl
        | succ g => exact if_neg hlen
      rw [hany, hany]

theorem levels_of_one_lt {xs : List H} (hxs : 1 < xs.length) :
    levels node xs.length xs = xs :: levels node (nextLevel node xs).length (nextLevel node xs) := by
  obtain ⟨n, hn⟩ := Nat.exists_eq_add_of_lt (show 0 < xs.length by omega)
  have hshort := length_nextLevel_lt node hxs
  have hone : levels node (0 + n + 1) xs = xs :: levels node (0 + n) (nextLevel node xs) :=
    if_pos hxs
  rw [hn, hone, levels_fuel (by omega)]

theorem levels_ne_nil (fuel : Nat) (xs : List H) : levels node fuel xs ≠ [] := by
  cases fuel with
  | zero => exact List.cons_ne_nil _ _
  | succ fuel => unfold levels; split <;> exact List.cons_ne_nil _ _

@[simp] theorem levelRoot_nil : levelRoot node [] = none := rfl
@[simp] theorem levelRoot_singleton (a : H) : levelRoot node [a] = some a := rfl

/-- Going up one level keeps the root. -/
theorem levelRoot_nextLevel {xs : List H} (hxs : 1 < xs.length) :
    levelRoot node (nextLevel node xs) = levelRoot node xs := by
  unfold levelRoot
  rw [levels_of_one_lt hxs, List.getLast?_cons_of_ne_nil (levels_ne_nil _ _)]

/-- Induction from the root down: what holds of an empty level, of a single node, and of a level
    when it holds of the next one, holds of every level. -/
theorem levelInduction (node : H → H → H) {motive : List H → Prop} (nil : motive [])
    (singleton : ∀ a, motive [a])
    (next : ∀ xs, 1 < xs.length → motive (nextLevel node xs) → motive xs) (xs : List H) :
    motive xs := by
  generalize hn : xs.length = n
  induction n using Nat.strongRecOn generalizing xs with
  | ind n ih =>
    match xs with
    | [] => exact nil
    | [a] => exact singleton a
    | a :: b :: rest =>
      have hlen : 1 < (a :: b :: rest).length := by simp
      refine next _ hlen (ih _ ?_ _ rfl)
      rw [← hn]
      exact length_nextLevel_lt node hlen

/-! ## Peaks -/

variable (node)

/-- Add a sub-tree at the lowest level, carrying like a binary counter: an existing peak is the LEFT
    child of what is carried up. -/
def carry (c : H) : List (Option H) → List (Option H)
  | [] => [some c]
  | none :: ps => some c :: ps
  | some existing :: ps => none :: carry (node existing c) ps

/-- The peaks after the leaves have been added one by one. -/
def peaks (xs : List H) : List (Option H) := xs.foldl (fun ps x => carry node x ps) []

/-- Fold the peaks from the lowest up; each higher peak goes to the left of what there is so far. -/
def foldPeaks : Option H → List (Option H) → Option H
  | acc, [] => acc
  | acc, none :: ps => foldPeaks acc ps
  | none, some p :: ps => foldPeaks (some p) ps
  | some r, some p :: ps => foldPeaks (some (node p r)) ps

variable {node}

/-- An even number of leaves on top of an empty lowest place goes up as its next level. -/
theorem foldl_carry_none {xs : List H} (hxs : xs.length % 2 = 0) (ps : List (Option H)) :
    xs.foldl (fun ps x => carry node x ps) (none :: ps) =
      none :: (nextLevel node xs).foldl (fun ps x => carry node x ps) ps := by
  induction xs using List.twoStepInduction generalizing ps with
  | nil => rfl
  | singleton a => simp at hxs
  | cons_cons a b rest ih _ =>
    have hrest : rest.length % 2 = 0 := by simp only [List.length_cons] at hxs; omega
    simp [carry, ih hrest]

theorem peaks_even {xs : List H} (hxs : xs.length % 2 = 0) (hne : xs ≠ []) :
    peaks node xs = none :: peaks node (nextLevel node xs) := by
  match xs, hne with
  | [a], _ => simp at hxs
  | a :: b :: rest, _ =>
    have hrest : rest.length % 2 = 0 := by simp only [List.length_cons] at hxs; omega
    simp [peaks, carry, foldl_carry_none hrest]

theorem peaks_odd {xs : List H} (hxs : xs.length % 2 = 0) (x : H) :
    peaks node (xs ++ [x]) = some x :: peaks node (nextLevel node xs) := by
  have happ : peaks node (xs ++ [x]) = carry node x (peaks node xs) := by
    simp [peaks, List.foldl_append]
  rw [happ]
  by_cases hne : xs = []
  · subst hne; rfl
  · rw [peaks_even hxs hne]; rfl

theorem nextLevel_concat_even {xs : List H} (hxs : xs.length % 2 = 0) (a : H) :
    nextLevel node (xs ++ [a]) = nextLevel node xs ++ [a] := nextLevel_append [a] hxs

theorem nextLevel_concat_odd {xs : List H} (hxs : xs.length % 2 = 0) (b a : H) :
    nextLevel node (xs ++ [b] ++ [a]) = nextLevel node xs ++ [node b a] := by
  rw [List.append_assoc]; exact nextLevel_append [b, a] hxs

/-- A list is even, or it is an even list with one more element. -/
theorem even_or_concat (xs : List H) :
    xs.length % 2 = 0 ∨ ∃ ys y, xs = ys ++ [y] ∧ ys.length % 2 = 0 := by
  rcases List.eq_nil_or_concat xs with rfl | ⟨ys, y, hcat⟩
  · exact .inl rfl
  · rw [List.concat_eq_append] at hcat
    rcases Nat.mod_two_eq_zero_or_one ys.length with hys | hys
    · exact .inr ⟨ys, y, hcat, hys⟩
    · refine .inl ?_
      rw [hcat, List.length_append, List.length_singleton]
      omega

/-- A node to the right of the peaks of some leaves makes the root that it makes as their last
    sibling: this is the induction behind `foldPeaks_peaks`. -/
theorem foldPeaks_some_peaks (xs : List H) (a : H) :
    foldPeaks node (some a) (peaks node xs) = levelRoot node (xs ++ [a]) := by
  generalize hn : xs.length = n
  induction n using Nat.strongRecOn generalizing xs a with
  | ind n ih =>
    rcases even_or_concat xs with heven | ⟨ys, y, rfl, hys⟩
    · by_cases hne : xs = []
      · subst hne; rfl
      have hpos : 0 < xs.length := List.length_pos_iff.mpr hne
      have hlen : 1 < (xs ++ [a]).length := by simp [hpos]
      rw [peaks_even heven hne, foldPeaks]
      rw [ih _ (by rw [length_nextLevel]; omega) _ a rfl]
      rw [← nextLevel_concat_even heven, levelRoot_nextLevel hlen]
    · have hlen : 1 < (ys ++ [y] ++ [a]).length := by simp
      rw [List.length_append, List.length_singleton] at hn
      rw [peaks_odd hys, foldPeaks]
      rw [ih _ (by rw [length_nextLevel]; omega) _ _ rfl]
      rw [← nextLevel_concat_odd hys, levelRoot_nextLevel hlen]

/-- **The peaks make the root.** -/
theorem foldPeaks_peaks (xs : List H) : foldPeaks node none (peaks node xs) = levelRoot node xs := by
  generalize hn : xs.length = n
  induction n using Nat.strongRecOn generalizing xs with
  | ind n ih =>
    rcases even_or_concat xs with heven | ⟨ys, y, rfl, hys⟩
    · by_cases hne : xs = []
      · subst hne; rfl
      have hpos : 0 < xs.length := List.length_pos_iff.mpr hne
      have hlen : 1 < xs.length := by omega
      rw [peaks_even heven hne, foldPeaks]
      rw [ih _ (by rw [length_nextLevel]; omega) _ rfl, levelRoot_nextLevel hlen]
    · rw [peaks_odd hys, foldPeaks, foldPeaks_some_peaks]
      by_cases hne : ys = []
      · subst hne; rfl
      have hpos : 0 < ys.length := List.length_pos_iff.mpr hne
      have hlen : 1 < (ys ++ [y]).length := by simp [hpos]
      rw [← nextLevel_concat_even hys, levelRoot_nextLevel hlen]

/-! ## Paths -/

/-- One step of a path: is the sibling on the left, and which it is. -/
abbrev PathStep (H : Type*) := Bool × H

/-- The index of the other node of a pair. -/
def siblingIndex (i : Nat) : Nat := if i % 2 = 0 then i + 1 else i - 1

/-- The siblings that the node at index `i` of the lowest level meets on its way up; a promoted node
    meets none. -/
def collect : List (List H) → Nat → List (PathStep H)
  | [], _ => []
  | level :: rest, i =>
    ((level[siblingIndex i]?).map fun h => (i % 2 == 1, h)).toList ++ collect rest (i / 2)

variable (node)

/-- The path of leaf `i` below the root. -/
def path (xs : List H) (i : Nat) : List (PathStep H) := collect (levels node xs.length xs).dropLast i

/-- One step up. -/
def climbStep (current : H) (step : PathStep H) : H :=
  if step.1 then node step.2 current else node current step.2

/-- Go up along a path. -/
def climb (current : H) (steps : List (PathStep H)) : H := steps.foldl (climbStep node) current

variable {node}

@[simp] theorem path_singleton (a : H) (i : Nat) : path node [a] i = [] := rfl

theorem path_of_one_lt {xs : List H} (hxs : 1 < xs.length) (i : Nat) :
    path node xs i =
      ((xs[siblingIndex i]?).map fun h => (i % 2 == 1, h)).toList ++
        path node (nextLevel node xs) (i / 2) := by
  unfold path
  rw [levels_of_one_lt hxs, List.dropLast_cons_of_ne_nil (levels_ne_nil _ _), collect]

/-- The left node of a pair. -/
theorem path_left {xs : List H} {k : Nat} {b : H} (hb : xs[2 * k + 1]? = some b) :
    path node xs (2 * k) = (false, b) :: path node (nextLevel node xs) k := by
  have hlt := (List.getElem?_eq_some_iff.mp hb).1
  have hsib : siblingIndex (2 * k) = 2 * k + 1 := if_pos (by omega)
  have hflag : (2 * k % 2 == 1) = false := by simp
  have hhalf : 2 * k / 2 = k := by omega
  rw [path_of_one_lt (by omega), hsib, hb, hflag, hhalf]
  rfl

/-- The right node of a pair. -/
theorem path_right {xs : List H} {k : Nat} {a b : H} (ha : xs[2 * k]? = some a)
    (hb : xs[2 * k + 1]? = some b) :
    path node xs (2 * k + 1) = (true, a) :: path node (nextLevel node xs) k := by
  have hlt := (List.getElem?_eq_some_iff.mp hb).1
  have hsib : siblingIndex (2 * k + 1) = 2 * k := if_neg (by omega)
  have hflag : ((2 * k + 1) % 2 == 1) = true := by
    rw [beq_iff_eq]
    omega
  have hhalf : (2 * k + 1) / 2 = k := by omega
  rw [path_of_one_lt (by omega), hsib, ha, hflag, hhalf]
  rfl

/-- A promoted node. -/
theorem path_promoted {xs : List H} {k : Nat} (hxs : 1 < xs.length)
    (hb : xs[2 * k + 1]? = none) : path node xs (2 * k) = path node (nextLevel node xs) k := by
  have hsib : siblingIndex (2 * k) = 2 * k + 1 := if_pos (by omega)
  have hhalf : 2 * k / 2 = k := by omega
  rw [path_of_one_lt hxs, hsib, hb, hhalf]
  rfl

/-- The three places a node of a level can have. -/
theorem place_cases (xs : List H) {i : Nat} (hi : i < xs.length) :
    (∃ k a b, i = 2 * k ∧ xs[2 * k]? = some a ∧ xs[2 * k + 1]? = some b) ∨
    (∃ k a b, i = 2 * k + 1 ∧ xs[2 * k]? = some a ∧ xs[2 * k + 1]? = some b) ∨
    (∃ k a, i = 2 * k ∧ xs[2 * k]? = some a ∧ xs[2 * k + 1]? = none) := by
  rcases Nat.mod_two_eq_zero_or_one i with heven | hodd
  · obtain ⟨k, rfl⟩ : ∃ k, i = 2 * k := ⟨i / 2, by omega⟩
    have ha : xs[2 * k]? = some xs[2 * k] := List.getElem?_eq_getElem hi
    cases hb : xs[2 * k + 1]? with
    | some b => exact .inl ⟨k, _, b, rfl, ha, hb⟩
    | none => exact .inr (.inr ⟨k, _, rfl, ha, hb⟩)
  · obtain ⟨k, rfl⟩ : ∃ k, i = 2 * k + 1 := ⟨i / 2, by omega⟩
    exact .inr (.inl ⟨k, xs[2 * k], _, rfl, List.getElem?_eq_getElem (by omega),
      List.getElem?_eq_getElem hi⟩)

/-- **Every leaf climbs to the root along its own path.** -/
theorem climb_path {xs : List H} {i : Nat} {x : H} (hx : xs[i]? = some x) :
    levelRoot node xs = some (climb node x (path node xs i)) := by
  induction xs using levelInduction node generalizing i x with
  | nil => simp at hx
  | singleton a =>
    have hi : i = 0 := by
      have hlt := (List.getElem?_eq_some_iff.mp hx).1
      simp only [List.length_cons, List.length_nil] at hlt
      omega
    subst hi
    cases hx
    rfl
  | next xs hxs ih =>
    rw [← levelRoot_nextLevel hxs]
    rcases place_cases xs (List.getElem?_eq_some_iff.mp hx).1 with
      ⟨k, a, b, rfl, ha, hb⟩ | ⟨k, a, b, rfl, ha, hb⟩ | ⟨k, a, rfl, ha, hb⟩
    · cases hx.symm.trans ha
      rw [path_left hb, ih (nextLevel_pair ha hb)]
      rfl
    · cases hx.symm.trans hb
      rw [path_right ha hb, ih (nextLevel_pair ha hb)]
      rfl
    · cases hx.symm.trans ha
      rw [path_promoted hxs hb, ih (nextLevel_promoted ha hb)]

/-- A tree of at most `2 ^ k` leaves has paths of at most `k` steps. -/
theorem length_path_le {xs : List H} {k : Nat} (hk : xs.length ≤ 2 ^ k) (i : Nat) :
    (path node xs i).length ≤ k := by
  induction xs using levelInduction node generalizing i k with
  | nil => exact Nat.zero_le k
  | singleton a => exact Nat.zero_le k
  | next xs hxs ih =>
    obtain ⟨k, rfl⟩ : ∃ j, k = j + 1 := by
      cases k with
      | zero => simp at hk; omega
      | succ k => exact ⟨k, rfl⟩
    have hhalf : (nextLevel node xs).length ≤ 2 ^ k := by
      rw [length_nextLevel]
      rw [Nat.pow_succ] at hk
      omega
    have hrest := ih hhalf (i / 2)
    have hstep : ∀ o : Option (PathStep H), o.toList.length ≤ 1 := by
      intro o
      cases o <;> simp
    rw [path_of_one_lt hxs, List.length_append]
    have := hstep ((xs[siblingIndex i]?).map fun h => (i % 2 == 1, h))
    omega

/-- The directions of the path of leaf `i` among `n` leaves: they do not depend on what the leaves
    are, so they are those of a tree of units. -/
def pathFlags (n i : Nat) : List Bool :=
  (path (fun _ _ => ()) (List.replicate n ()) i).map Prod.fst

theorem map_fst_path_congr {G : Type*} {other : G → G → G} {xs : List H} {ys : List G}
    (hlen : xs.length = ys.length) (i : Nat) :
    (path node xs i).map Prod.fst = (path other ys i).map Prod.fst := by
  induction xs using levelInduction node generalizing ys i with
  | nil =>
    obtain rfl : ys = [] := List.length_eq_zero_iff.mp hlen.symm
    rfl
  | singleton a =>
    obtain ⟨b, rfl⟩ : ∃ b, ys = [b] := List.length_eq_one_iff.mp hlen.symm
    rfl
  | next xs hxs ih =>
    have hnext : (nextLevel node xs).length = (nextLevel other ys).length := by
      rw [length_nextLevel, length_nextLevel, hlen]
    have hys : 1 < ys.length := hlen ▸ hxs
    rw [path_of_one_lt hxs, path_of_one_lt hys, List.map_append, List.map_append, ih hnext]
    congr 1
    -- both levels have a sibling at that index, or neither has
    by_cases hsib : siblingIndex i < xs.length
    · rw [List.getElem?_eq_getElem hsib, List.getElem?_eq_getElem (by omega)]
      rfl
    · rw [List.getElem?_eq_none (by omega), List.getElem?_eq_none (by omega)]
      rfl

theorem map_fst_path (xs : List H) (i : Nat) :
    (path node xs i).map Prod.fst = pathFlags xs.length i :=
  map_fst_path_congr (by simp) i

theorem climb_append (x : H) (lower upper : List (PathStep H)) :
    climb node x (lower ++ upper) = climb node (climb node x lower) upper :=
  List.foldl_append

/-- After at least one step there is a node. -/
theorem climb_eq_self_or_node (x : H) (steps : List (PathStep H)) :
    steps = [] ∨ ∃ a b, climb node x steps = node a b := by
  rcases List.eq_nil_or_concat steps with hnil | ⟨lower, step, hcat⟩
  · exact .inl hnil
  · refine .inr ?_
    rw [hcat, List.concat_eq_append, climb_append]
    obtain ⟨isLeft, sibling⟩ := step
    cases isLeft with
    | true => exact ⟨_, _, rfl⟩
    | false => exact ⟨_, _, rfl⟩

/-- **Whatever climbs to the root sits on a path of the tree.**  Either the last steps are the path of
    a leaf and the steps before lead to that leaf, or they are only the upper part of a path, and then
    it is an inner node that climbs. -/
theorem climb_eq_root (hinj : ∀ a b c d, node a b = node c d → a = c ∧ b = d) {xs : List H} {x : H}
    {steps : List (PathStep H)} (h : levelRoot node xs = some (climb node x steps)) :
    (∃ j pre y, xs[j]? = some y ∧ steps = pre ++ path node xs j ∧ climb node x pre = y) ∨
    (∃ j, j < xs.length ∧ steps <:+ path node xs j ∧ steps.length < (path node xs j).length ∧
      ∃ a b, x = node a b) := by
  induction xs using levelInduction node with
  | nil => simp at h
  | singleton a =>
    rw [levelRoot_singleton, Option.some.injEq] at h
    exact .inl ⟨0, steps, a, rfl, by simp, h.symm⟩
  | next xs hxs ih =>
    rw [← levelRoot_nextLevel hxs] at h
    rcases ih h with ⟨k, pre, y, hy, hsteps, hpre⟩ | ⟨k, hk, hsuf, hlen, hx⟩
    · -- the steps lead to node `k` of the next level: it was promoted, or it is the parent of two
      have hk := (List.getElem?_eq_some_iff.mp hy).1
      rw [length_nextLevel] at hk
      rcases place_cases xs (show 2 * k < xs.length by omega) with
        ⟨k', a, b, hk', ha, hb⟩ | ⟨k', a, b, hk', -, -⟩ | ⟨k', a, hk', ha, hb⟩
      · obtain rfl : k' = k := by omega
        cases hy.symm.trans (nextLevel_pair ha hb)
        rcases List.eq_nil_or_concat pre with rfl | ⟨pre, step, rfl⟩
        · refine .inr ⟨2 * k', by omega, ?_, ?_, a, b, hpre⟩
          · rw [path_left hb, hsteps]
            exact List.suffix_cons _ _
          · rw [path_left hb, hsteps]
            simp
        · rw [List.concat_eq_append] at hsteps hpre
          rw [climb, List.foldl_append] at hpre
          obtain ⟨isLeft, sibling⟩ := step
          cases isLeft with
          | true =>
            obtain ⟨rfl, hcur⟩ := hinj _ _ _ _ hpre
            refine .inl ⟨2 * k' + 1, pre, b, hb, ?_, hcur⟩
            rw [hsteps, path_right ha hb, List.append_assoc]
            rfl
          | false =>
            obtain ⟨hcur, rfl⟩ := hinj _ _ _ _ hpre
            refine .inl ⟨2 * k', pre, a, ha, ?_, hcur⟩
            rw [hsteps, path_left hb, List.append_assoc]
            rfl
      · omega
      · obtain rfl : k' = k := by omega
        obtain rfl := Option.some.inj (hy.symm.trans (nextLevel_promoted ha hb))
        refine .inl ⟨2 * k', pre, y, ha, ?_, hpre⟩
        rw [hsteps, path_promoted hxs hb]
    · rw [length_nextLevel] at hk
      have hup : path node (nextLevel node xs) k <:+ path node xs (2 * k) := by
        rw [path_of_one_lt hxs, Nat.mul_div_cancel_left k (by omega)]
        exact List.suffix_append _ _
      refine .inr ⟨2 * k, by omega, hsuf.trans hup, ?_, hx⟩
      have := hup.length_le
      omega

end Vellaveto.Lib.Merkle
