/-
  HOW DEEP A JSON VALUE IS SAID TO BE (`json_depth` of `vellaveto-engine/src/traced.rs`).

  PROGRAM.      A walk with a stack.  It visits a container before its children and the LAST child first,
                and gives up after 10,000 nodes, with the depth it has seen so far.

  SPEC.         `trueDepth`: the nesting depth, by recursion over the value.

  CORRECTNESS.
    1. `nodeDepths`               the depths of all nodes, in the order of the visits;
    2. `jsonDepth_eq`             the walk reads this list up to its budget;
    3. `lt_jsonDepth_iff`         a value deeper than 10 is reported as such exactly if at most 10,000 nodes
                                  are visited before the first one that is;
    4. `wide_sibling_hides_depth` ten thousand nulls behind a deep value hide it.
-/
import Vellaveto.Engine.Compile

namespace Vellaveto

/-! ### The depth of a value -/

mutual

/-- The nesting depth. -/
def trueDepth : Json → Nat
  | .array items => itemsDepth items
  | .object members => membersDepth members
  | .null | .bool _ | .number _ | .string _ => 0

def itemsDepth : List Json → Nat
  | [] => 0
  | x :: xs => max (trueDepth x + 1) (itemsDepth xs)

def membersDepth : List (String × Json) → Nat
  | [] => 0
  | (_, x) :: ms => max (trueDepth x + 1) (membersDepth ms)

end

mutual

/-- The depths of the nodes of a value at depth `d`, a node before its children and the last child first. -/
def nodeDepths (d : Nat) : Json → List Nat
  | .array items => d :: itemDepths (d + 1) items
  | .object members => d :: memberDepths (d + 1) members
  | .null | .bool _ | .number _ | .string _ => [d]

def itemDepths (d : Nat) : List Json → List Nat
  | [] => []
  | x :: xs => itemDepths d xs ++ nodeDepths d x

def memberDepths (d : Nat) : List (String × Json) → List Nat
  | [] => []
  | (_, x) :: ms => memberDepths d ms ++ nodeDepths d x

end

mutual

/-- Some node is deeper than `limit` exactly if the value is. -/
theorem exists_nodeDepths {limit : Nat} : (value : Json) → (d : Nat) →
    ((∃ e ∈ nodeDepths d value, limit < e) ↔ limit < d + trueDepth value)
  | .array items, d => by
    rw [nodeDepths, trueDepth, List.exists_mem_cons_iff, exists_itemDepths items]
    omega
  | .object members, d => by
    rw [nodeDepths, trueDepth, List.exists_mem_cons_iff, exists_memberDepths members]
    omega
  | .null, d => by simp [nodeDepths, trueDepth]
  | .bool _, d => by simp [nodeDepths, trueDepth]
  | .number _, d => by simp [nodeDepths, trueDepth]
  | .string _, d => by simp [nodeDepths, trueDepth]

theorem exists_itemDepths {limit : Nat} : (items : List Json) → (d : Nat) →
    ((∃ e ∈ itemDepths (d + 1) items, limit < e) ↔ 0 < itemsDepth items ∧ limit < d + itemsDepth items)
  | [], d => by simp [itemDepths, itemsDepth]
  | x :: xs, d => by
    have hx := @exists_nodeDepths limit x (d + 1)
    have hxs := @exists_itemDepths limit xs d
    simp only [itemDepths, List.mem_append, or_and_right, exists_or, itemsDepth, hx, hxs]
    omega

theorem exists_memberDepths {limit : Nat} : (members : List (String × Json)) → (d : Nat) →
    ((∃ e ∈ memberDepths (d + 1) members, limit < e) ↔
      0 < membersDepth members ∧ limit < d + membersDepth members)
  | [], d => by simp [memberDepths, membersDepth]
  | (_, x) :: ms, d => by
    have hx := @exists_nodeDepths limit x (d + 1)
    have hms := @exists_memberDepths limit ms d
    simp only [memberDepths, List.mem_append, or_and_right, exists_or, membersDepth, hx, hms]
    omega

end

/-! ### The walk -/

/-- What the walk makes of the depths of the nodes it visits. -/
def readDepths : List Nat → Nat → Nat → Nat
  | [], maxDepth, _ => maxDepth
  | d :: ds, maxDepth, nodesVisited =>
    let maxDepth := if maxDepth < d then d else maxDepth
    if maxJsonDepthLimit < maxDepth ∨ maxJsonDepthNodes < nodesVisited + 1 then maxDepth
    else readDepths ds maxDepth (nodesVisited + 1)

/-- The depths that are still to be read from a stack. -/
def stackDepths (stack : List (Json × Nat)) : List Nat := stack.flatMap fun e => nodeDepths e.2 e.1

theorem itemDepths_eq (d : Nat) (items : List Json) :
    itemDepths d items = items.reverse.flatMap (nodeDepths d) := by
  induction items with
  | nil => rfl
  | cons x xs ih => simp [itemDepths, ih]

theorem memberDepths_eq (d : Nat) (members : List (String × Json)) :
    memberDepths d members = (members.map Prod.snd).reverse.flatMap (nodeDepths d) := by
  induction members with
  | nil => rfl
  | cons m ms ih =>
    obtain ⟨key, x⟩ := m
    simp [memberDepths, ih]

/-- A node is followed by its children, from the last to the first. -/
theorem nodeDepths_eq (d : Nat) (value : Json) :
    nodeDepths d value = d :: stackDepths ((Params.children "" value).map fun c => (c.2, d + 1)).reverse := by
  have hstack : ∀ values : List Json, stackDepths (values.map fun v => (v, d + 1)).reverse =
      values.reverse.flatMap (nodeDepths (d + 1)) := by
    intro values
    rw [stackDepths, ← List.map_reverse, List.flatMap_map]
  cases value with
  | array items =>
    have hchildren : (Params.children "" (.array items)).map (fun c => (c.2, d + 1)) =
        items.map fun v => (v, d + 1) := by
      rw [Params.children, List.map_map]
      show items.zipIdx.map ((fun v => (v, d + 1)) ∘ Prod.fst) = _
      rw [← List.map_map, List.zipIdx_map_fst]
    rw [nodeDepths, itemDepths_eq, hchildren, hstack]
  | object members =>
    have hchildren : (Params.children "" (.object members)).map (fun c => (c.2, d + 1)) =
        (members.map Prod.snd).map fun v => (v, d + 1) := by
      rw [Params.children, List.map_map, List.map_map]
      rfl
    rw [nodeDepths, memberDepths_eq, hchildren, hstack]
  | null => rfl
  | bool _ => rfl
  | number _ => rfl
  | string _ => rfl

/-- The nodes on a stack. -/
def stackNodes (stack : List (Json × Nat)) : Nat := (stack.map fun e => Params.nodeCount e.1).sum

/-- **The walk reads the depths in order**, when it has a step for each node. -/
theorem jsonDepthLoop_eq {fuel : Nat} {stack : List (Json × Nat)} (hfuel : stackNodes stack < fuel)
    (maxDepth nodesVisited : Nat) :
    jsonDepthLoop fuel stack maxDepth nodesVisited = readDepths (stackDepths stack) maxDepth nodesVisited := by
  induction fuel generalizing stack maxDepth nodesVisited with
  | zero => omega
  | succ fuel ih =>
    cases stack with
    | nil => rfl
    | cons e rest =>
      obtain ⟨val, depth⟩ := e
      have hread : stackDepths ((val, depth) :: rest) =
          depth :: stackDepths (((Params.children "" val).map fun c => (c.2, depth + 1)).reverse ++ rest) := by
        rw [stackDepths, List.flatMap_cons, nodeDepths_eq, stackDepths, stackDepths, List.flatMap_append]
        rfl
      rw [hread, jsonDepthLoop, readDepths]
      generalize (if maxDepth < depth then depth else maxDepth) = seen
      dsimp only
      split
      · rfl
      · apply ih
        -- a node is replaced by its children, which are one node less
        have hchildren : stackNodes ((Params.children "" val).map fun c => (c.2, depth + 1)).reverse =
            ((Params.children "" val).map fun c => Params.nodeCount c.2).sum := by
          rw [stackNodes, List.map_reverse, List.sum_reverse, List.map_map]
          rfl
        have happend : ∀ top : List (Json × Nat), stackNodes (top ++ rest) = stackNodes top + stackNodes rest := by
          intro top
          rw [stackNodes, List.map_append, List.sum_append]
          rfl
        have hcount := Params.nodeCount_eq_children "" val
        have hcons : stackNodes ((val, depth) :: rest) = Params.nodeCount val + stackNodes rest := List.sum_cons
        rw [happend, hchildren]
        omega

theorem jsonDepth_eq (value : Json) : jsonDepth value = readDepths (nodeDepths 0 value) 0 0 := by
  have hfuel : stackNodes [(value, 0)] < Params.nodeCount value + 1 := by
    simp [stackNodes]
  rw [jsonDepth, jsonDepthLoop_eq hfuel]
  simp [stackDepths]

/-- What is read within the budget decides, as long as the limit is not above that of the walk. -/
theorem lt_readDepths_iff {limit : Nat} (hlimit : limit ≤ maxJsonDepthLimit) (ds : List Nat)
    (maxDepth nodesVisited : Nat) (hn : nodesVisited ≤ maxJsonDepthNodes) :
    limit < readDepths ds maxDepth nodesVisited ↔
      limit < maxDepth ∨ ∃ d ∈ ds.take (maxJsonDepthNodes + 1 - nodesVisited), limit < d := by
  induction ds generalizing maxDepth nodesVisited with
  | nil => simp [readDepths]
  | cons d ds ih =>
    have hmax : limit < (if maxDepth < d then d else maxDepth) ↔ limit < maxDepth ∨ limit < d := by
      split
      · omega
      · omega
    have htake : maxJsonDepthNodes + 1 - nodesVisited = (maxJsonDepthNodes - nodesVisited) + 1 := by omega
    rw [readDepths, htake, List.take_succ_cons, List.exists_mem_cons_iff, ← or_assoc, ← hmax]
    generalize (if maxDepth < d then d else maxDepth) = seen
    by_cases hstop : maxJsonDepthLimit < seen ∨ maxJsonDepthNodes < nodesVisited + 1
    · rw [if_pos hstop]
      rcases hstop with hseen | hbudget
      · exact iff_of_true (by omega) (.inl (by omega))
      · have hnone : maxJsonDepthNodes - nodesVisited = 0 := by omega
        simp [hnone]
    · rw [not_or, Nat.not_lt, Nat.not_lt] at hstop
      have hrest : maxJsonDepthNodes + 1 - (nodesVisited + 1) = maxJsonDepthNodes - nodesVisited := by omega
      rw [if_neg (by omega), ih seen (nodesVisited + 1) hstop.2, hrest]

/-- The first of the elements is within `k + 1` exactly if at most `k` come before it. -/
theorem exists_mem_take_iff {p : Nat → Bool} {l : List Nat} (k : Nat) (h : ∃ d ∈ l, p d = false) :
    (∃ d ∈ l.take (k + 1), p d = false) ↔ (l.takeWhile p).length ≤ k := by
  induction l generalizing k with
  | nil =>
    obtain ⟨d, hd, -⟩ := h
    cases hd
  | cons a l ih =>
    rw [List.take_succ_cons, List.exists_mem_cons_iff, List.takeWhile_cons]
    cases ha : p a with
    | false => simp
    | true =>
      have hrest : ∃ d ∈ l, p d = false := by
        obtain ⟨d, hd, hpd⟩ := h
        rcases List.mem_cons.mp hd with rfl | hd
        · rw [ha] at hpd
          cases hpd
        · exact ⟨d, hd, hpd⟩
      cases k with
      | zero => simp
      | succ k =>
        have hiff := ih k hrest
        simp only [Bool.true_eq_false, false_or, if_true, List.length_cons, hiff]
        omega

/-- How many nodes are visited before the first one deeper than 10. -/
def nodesBeforeDeep (value : Json) : Nat := ((nodeDepths 0 value).takeWhile (· ≤ 10)).length

/-- **Which deep values are seen to be deep.** -/
theorem lt_jsonDepth_iff (value : Json) (hdeep : 10 < trueDepth value) :
    10 < jsonDepth value ↔ nodesBeforeDeep value ≤ 10000 := by
  have hnode : ∃ d ∈ nodeDepths 0 value, decide (d ≤ 10) = false := by
    simpa using (exists_nodeDepths value 0).mpr (by omega)
  have hwithin := exists_mem_take_iff 10000 hnode
  have hread := lt_readDepths_iff (show 10 ≤ maxJsonDepthLimit by decide) (nodeDepths 0 value) 0 0
    (Nat.zero_le _)
  rw [jsonDepth_eq, hread, nodesBeforeDeep, ← hwithin]
  simp [maxJsonDepthNodes]

/-- Arrays in arrays. -/
def nested : Nat → Json
  | 0 => .null
  | n + 1 => .array [nested n]

theorem trueDepth_nested (n : Nat) : trueDepth (nested n) = n := by
  induction n with
  | zero => rfl
  | succ n ih =>
    rw [nested, trueDepth, itemsDepth, ih, itemsDepth]
    omega

theorem lt_jsonDepth_iff_nested :
    10 < trueDepth (nested 11) ∧ 10 < jsonDepth (nested 11) ∧ nodesBeforeDeep (nested 11) ≤ 10000 := by
  have hdeep : 10 < trueDepth (nested 11) := by
    rw [trueDepth_nested]
    omega
  have hseen : 10 < jsonDepth (nested 11) := by decide
  exact ⟨hdeep, hseen, (lt_jsonDepth_iff (nested 11) hdeep).mp hseen⟩

/-- A value with nulls behind it. -/
def wide (value : Json) (n : Nat) : Json := .array (value :: List.replicate n .null)

theorem nodeDepths_wide (value : Json) (n : Nat) :
    nodeDepths 0 (wide value n) = 0 :: (List.replicate n 1 ++ nodeDepths 1 value) := by
  have hnulls : itemDepths 1 (List.replicate n .null) = List.replicate n 1 := by
    induction n with
    | zero => rfl
    | succ n ih => rw [List.replicate_succ, itemDepths, ih, nodeDepths, ← List.replicate_succ']
  rw [wide, nodeDepths, itemDepths, hnulls]

/-- **A wide sibling hides a deep one**: the value is nested 12 deep, and the walk answers 10 at most. -/
theorem wide_sibling_hides_depth :
    10 < trueDepth (wide (nested 11) 10000) ∧ ¬10 < jsonDepth (wide (nested 11) 10000) := by
  have hdeep : 10 < trueDepth (wide (nested 11) 10000) := by
    rw [wide, trueDepth, itemsDepth, trueDepth_nested]
    omega
  refine ⟨hdeep, ?_⟩
  have hread := lt_readDepths_iff (show 10 ≤ maxJsonDepthLimit by decide)
    (nodeDepths 0 (wide (nested 11) 10000)) 0 0 (Nat.zero_le _)
  rw [jsonDepth_eq, hread, nodeDepths_wide]
  rintro (hzero | ⟨d, hd, hlt⟩)
  · omega
  · have htake : (0 :: (List.replicate 10000 1 ++ nodeDepths 1 (nested 11))).take (maxJsonDepthNodes + 1 - 0) =
        0 :: List.replicate 10000 1 := by
      show (0 :: (List.replicate 10000 1 ++ nodeDepths 1 (nested 11))).take (10000 + 1) = _
      rw [List.take_succ_cons, List.take_left' List.length_replicate]
    rw [htake] at hd
    rcases List.mem_cons.mp hd with rfl | hd
    · omega
    · rw [List.eq_of_mem_replicate hd] at hlt
      omega

end Vellaveto
