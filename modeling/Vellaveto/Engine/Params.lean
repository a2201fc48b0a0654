/-
  PARAMETERS: how the engine finds values in a request's parameters
  (`vellaveto-engine/src/lib.rs`: `get_param_by_path`, `traverse_path`,
  `collect_all_string_values`).

  PROGRAM.  A constraint names its parameter by a path (`config.items[0].path`) or by `*`, which
  means every string in the parameters.  The scan for `*` is an ITERATIVE depth-first walk with a
  work stack and four cut-offs:
    1. it stops, and says so, when `maxScanValues` strings are collected;
    2. it does not enter containers at depth `maxJsonDepth`;
    3. it pushes no further children when the stack holds `maxStackSize` entries;
    4. it does not collect a string whose path text is empty.

  SPEC.  `StringAt v path is q s`: following the child positions `is` from `v` leads to the string
  `s`, whose path text is then `q`.  The stack under a node at positions `is` holds exactly
  `is.sum` entries, which turns cut-off 3 into a condition on the tree alone.

  CORRECTNESS.  `mem_collectAllStringValues`: an untruncated scan collects every string at depth at
  most `maxJsonDepth`, at positions summing to less than `maxStackSize`, with a non-empty path.
-/
import Mathlib.Algebra.Ring.Nat
import Mathlib.Data.List.Basic
import Vellaveto.Json

namespace Vellaveto.Params

/-! ## Access by path -/

/-- `str::parse::<usize>`: an optional `+`, then decimal digits, below `2 ^ 64`. -/
def parseUsize (cs : List Char) : Option Nat :=
  let digits := if cs.head? = some '+' then cs.tail else cs
  if digits.isEmpty || !digits.all Char.isDigit then none
  else
    let n := digits.foldl (fun acc c => 10 * acc + (c.toNat - '0'.toNat)) 0
    if n < 2 ^ 64 then some n else none

/-- The bracket part of a path segment, `[0][1]…`.  `inside` holds what was read since the last
    unclosed `[`, newest character first; text outside brackets makes the segment malformed. -/
def traverseBrackets (current : Json) (inside : Option (List Char)) :
    List Char → Option Json
  | [] => if inside.isSome then none else some current
  | c :: cs =>
    match inside with
    | none => if c = '[' then traverseBrackets current (some []) cs else none
    | some acc =>
      if c = ']' then do
        let index ← parseUsize acc.reverse
        let next ← current.getIdx index
        traverseBrackets next none cs
      else traverseBrackets current (some (c :: acc)) cs

/-- One dot-separated segment of a path. -/
def traverseSegment (current : Json) (segment : List Char) : Option Json :=
  if segment.isEmpty then some current
  else if segment.contains '[' then do
    let fieldName := segment.takeWhile (· ≠ '[')
    let inField ←
      if fieldName.isEmpty then some current else current.get (String.ofList fieldName)
    traverseBrackets inField none (segment.dropWhile (· ≠ '['))
  else current.get (String.ofList segment)

/-- `traverse_path`. -/
def traversePath (params : Json) (path : String) : Option Json :=
  (path.toList.splitOn '.').foldlM traverseSegment params

/-- `get_param_by_path`: two readings of a dotted path that disagree resolve to nothing. -/
def getParamByPath (params : Json) (path : String) : Option Json :=
  let exactMatch := params.get path
  if !path.toList.contains '.' && !path.toList.contains '[' then exactMatch
  else
    match exactMatch, traversePath params path with
    | some exact, some traversal => if exact ≠ traversal then none else some exact
    | some exact, none => some exact
    | none, some traversal => some traversal
    | none, none => none

/-! ## Collecting every string -/

def maxScanValues : Nat := 500
def maxJsonDepth : Nat := 32
def maxStackSize : Nat := 10000

/-- The path text of a member. -/
def memberPath (path key : String) : String := if path.isEmpty then key else path ++ "." ++ key

/-- The path text of an array item. -/
def itemPath (path : String) (i : Nat) : String := path ++ "[" ++ toString i ++ "]"

/-- The children of a container with their path texts, in the order the source visits them. -/
def children (path : String) : Json → List (String × Json)
  | .object ms => ms.map fun m => (memberPath path m.1, m.2)
  | .array xs => xs.zipIdx.map fun x => (itemPath path x.2, x.1)
  | _ => []

/-- A work item: a value, its path text and its depth. -/
abbrev WorkItem := Json × String × Nat

/-- The push loop.  The stack is listed from its top. -/
def pushChildren (depth : Nat) : List (String × Json) → List WorkItem → List WorkItem
  | [], stack => stack
  | (path, child) :: cs, stack =>
    if maxStackSize ≤ stack.length then stack
    else pushChildren depth cs ((child, path, depth) :: stack)

/-- One iteration of the walk: what popping an item does to the rest of the stack and to the
    results. -/
def visit (rest : List WorkItem) (results : List (String × String)) :
    WorkItem → List WorkItem × List (String × String)
  | (.string s, path, _) => (rest, if path.isEmpty then results else results ++ [(path, s)])
  | (.object ms, path, depth) =>
    if maxJsonDepth ≤ depth then (rest, results)
    else (pushChildren (depth + 1) (children path (.object ms)) rest, results)
  | (.array xs, path, depth) =>
    if maxJsonDepth ≤ depth then (rest, results)
    else (pushChildren (depth + 1) (children path (.array xs)) rest, results)
  | _ => (rest, results)

/-- The walk.  `fuel` bounds the number of iterations; the number of nodes on the stack is always
    enough (`collectLoop_fuel`). -/
def collectLoop : Nat → List WorkItem → List (String × String) → List (String × String) × Bool
  | 0, _, results => (results, false)
  | _ + 1, [], results => (results, false)
  | fuel + 1, w :: rest, results =>
    if maxScanValues ≤ results.length then (results, true)
    else collectLoop fuel (visit rest results w).1 (visit rest results w).2

mutual

/-- Number of nodes of a value. -/
def nodeCount : Json → Nat
  | .array xs => 1 + itemsCount xs
  | .object ms => 1 + membersCount ms
  | _ => 1

def itemsCount : List Json → Nat
  | [] => 0
  | x :: xs => nodeCount x + itemsCount xs

def membersCount : List (String × Json) → Nat
  | [] => 0
  | (_, v) :: ms => nodeCount v + membersCount ms

end

/-- `collect_all_string_values`: the strings with their paths, and whether the scan was cut short
    at `maxScanValues`. -/
def collectAllStringValues (params : Json) : List (String × String) × Bool :=
  collectLoop (nodeCount params + 1) [(params, "", 0)] []

/-! ## Where the strings are -/

/-- Following the child positions `is` from a value whose path text is `path` leads to the string
    `s`, whose path text is `q`. -/
inductive StringAt : Json → String → List Nat → String → String → Prop
  | leaf {path s : String} : StringAt (.string s) path [] path s
  | child {v c : Json} {path p q s : String} {i : Nat} {is : List Nat}
      (hchild : (children path v)[i]? = some (p, c)) (hrest : StringAt c p is q s) :
      StringAt v path (i :: is) q s

/-- The string is in reach of the walk: not too deep, not too far to the right for the stack, and
    with a path text.  `depth` and `below` are the depth of the value and the height of the stack
    under it. -/
structure InReach (depth below : Nat) (is : List Nat) (q : String) : Prop where
  depthLe : depth + is.length ≤ maxJsonDepth
  stackLt : below + is.sum < maxStackSize
  pathNe : q ≠ ""

/-- Some item of the stack leads to the string `s` at path `q`, in reach of the walk. -/
def Scheduled (stack : List WorkItem) (q s : String) : Prop :=
  ∃ above v path depth below is, stack = above ++ (v, path, depth) :: below ∧
    StringAt v path is q s ∧ InReach depth below.length is q

/-- Nodes on the stack. -/
def stackCount (stack : List WorkItem) : Nat := (stack.map fun w => nodeCount w.1).sum

/-! ## The push loop -/

/-- What the push loop leaves under its children is the stack it started from. -/
theorem pushChildren_suffix (depth : Nat) (cs : List (String × Json)) (stack : List WorkItem) :
    stack <:+ pushChildren depth cs stack := by
  induction cs generalizing stack with
  | nil => exact List.suffix_refl stack
  | cons c cs ih =>
    obtain ⟨path, child⟩ := c
    rw [pushChildren]
    split
    · exact List.suffix_refl stack
    · exact (List.suffix_cons _ stack).trans (ih _)

/-- Child `i` is pushed, onto a stack of `i` more entries, whenever that many fit. -/
theorem pushChildren_getElem (depth : Nat) (cs : List (String × Json)) (stack : List WorkItem)
    {i : Nat} {path : String} {child : Json} (hi : cs[i]? = some (path, child))
    (hfits : stack.length + i < maxStackSize) :
    ∃ above below, pushChildren depth cs stack = above ++ (child, path, depth) :: below ∧
      below.length = stack.length + i := by
  induction cs generalizing stack i with
  | nil => cases hi
  | cons c cs ih =>
    obtain ⟨p, v⟩ := c
    have hroom : ¬ maxStackSize ≤ stack.length := by omega
    rw [pushChildren, if_neg hroom]
    cases i with
    | zero =>
      -- the first child lies directly on the old stack
      cases hi
      obtain ⟨above, habove⟩ := pushChildren_suffix depth cs ((child, path, depth) :: stack)
      exact ⟨above, stack, habove.symm, rfl⟩
    | succ i =>
      obtain ⟨above, below, heq, hlen⟩ := ih ((v, p, depth) :: stack) hi
        (by rw [List.length_cons]; omega)
      exact ⟨above, below, heq, by rw [hlen, List.length_cons]; omega⟩

theorem stackCount_pushChildren (depth : Nat) (cs : List (String × Json))
    (stack : List WorkItem) :
    stackCount (pushChildren depth cs stack) ≤
      stackCount stack + (cs.map fun c => nodeCount c.2).sum := by
  induction cs generalizing stack with
  | nil => exact Nat.le_add_right _ _
  | cons c cs ih =>
    obtain ⟨path, child⟩ := c
    rw [pushChildren]
    split
    · exact Nat.le_add_right _ _
    · have hrest := ih ((child, path, depth) :: stack)
      simp only [stackCount, List.map_cons, List.sum_cons] at hrest ⊢
      omega

/-! ## Node counts -/

theorem itemsCount_eq_sum (xs : List Json) : itemsCount xs = (xs.map nodeCount).sum := by
  induction xs with
  | nil => rfl
  | cons x xs ih => rw [itemsCount, ih, List.map_cons, List.sum_cons]

theorem membersCount_eq_sum (ms : List (String × Json)) :
    membersCount ms = (ms.map fun m => nodeCount m.2).sum := by
  induction ms with
  | nil => rfl
  | cons m ms ih => rw [membersCount, ih, List.map_cons, List.sum_cons]

/-- A value has one node more than its children together. -/
theorem nodeCount_eq_children (path : String) (v : Json) :
    nodeCount v = 1 + ((children path v).map fun c => nodeCount c.2).sum := by
  cases v with
  | array xs =>
    have hmap : (children path (.array xs)).map (fun c => nodeCount c.2) = xs.map nodeCount := by
      rw [children, List.map_map]
      show xs.zipIdx.map (nodeCount ∘ Prod.fst) = _
      rw [← List.map_map, List.zipIdx_map_fst]
    rw [nodeCount, itemsCount_eq_sum, hmap]
  | object ms =>
    have hmap : (children path (.object ms)).map (fun c => nodeCount c.2) =
        ms.map fun m => nodeCount m.2 := by
      rw [children, List.map_map]; rfl
    rw [nodeCount, membersCount_eq_sum, hmap]
  | null => rfl
  | bool b => rfl
  | number n => rfl
  | string s => rfl

theorem nodeCount_pos (v : Json) : 0 < nodeCount v := by
  rw [nodeCount_eq_children "" v]
  omega

/-- Replacing a popped container by its children makes the stack smaller. -/
theorem stackCount_pushChildren_children (depth : Nat) (path : String) (v : Json)
    (rest : List WorkItem) :
    stackCount (pushChildren depth (children path v) rest) < nodeCount v + stackCount rest := by
  have hpush := stackCount_pushChildren depth (children path v) rest
  have hcount := nodeCount_eq_children path v
  omega

/-! ## One iteration of the walk -/

theorem stringAt_string_iff {s' path q s : String} {is : List Nat} :
    StringAt (.string s') path is q s ↔ is = [] ∧ q = path ∧ s = s' := by
  constructor
  · intro h
    cases h with
    | leaf => exact ⟨rfl, rfl, rfl⟩
    | child hchild _ => cases hchild
  · rintro ⟨rfl, rfl, rfl⟩
    exact .leaf

/-- What a stack leads to, by its top item and the rest. -/
theorem scheduled_cons {v : Json} {path : String} {depth : Nat} {rest : List WorkItem}
    {q s : String} :
    Scheduled ((v, path, depth) :: rest) q s ↔
      (∃ is, StringAt v path is q s ∧ InReach depth rest.length is q) ∨ Scheduled rest q s := by
  constructor
  · rintro ⟨above, v', path', depth', below, is, heq, hat, hreach⟩
    cases above with
    | nil =>
      cases heq
      exact Or.inl ⟨is, hat, hreach⟩
    | cons w above =>
      cases heq
      exact Or.inr ⟨above, v', path', depth', below, is, rfl, hat, hreach⟩
  · rintro (⟨is, hat, hreach⟩ | ⟨above, v', path', depth', below, is, heq, hat, hreach⟩)
    · exact ⟨[], v, path, depth, rest, is, rfl, hat, hreach⟩
    · exact ⟨(v, path, depth) :: above, v', path', depth', below, is, by rw [heq]; rfl, hat, hreach⟩

theorem Scheduled.of_suffix {stack stack' : List WorkItem} {q s : String}
    (h : Scheduled stack q s) (hsuffix : stack <:+ stack') : Scheduled stack' q s := by
  obtain ⟨above, v, path, depth, below, is, rfl, hat, hreach⟩ := h
  obtain ⟨more, rfl⟩ := hsuffix
  exact ⟨more ++ above, v, path, depth, below, is, by rw [List.append_assoc], hat, hreach⟩

/-- Replacing a container by its children loses nothing that is in reach. -/
theorem scheduled_pushChildren {v : Json} {path : String} {depth : Nat} {rest : List WorkItem}
    {q s : String} (hv : ∀ s', v ≠ .string s')
    (h : Scheduled ((v, path, depth) :: rest) q s) :
    Scheduled (pushChildren (depth + 1) (children path v) rest) q s := by
  rcases scheduled_cons.mp h with ⟨is, hat, hreach⟩ | hrest
  · cases hat with
    | leaf => exact absurd rfl (hv s)
    | @child _ c _ p _ _ i is hchild hat =>
      have hstack : rest.length + (i + is.sum) < maxStackSize := by
        simpa only [List.sum_cons] using hreach.stackLt
      have hdepth : depth + (is.length + 1) ≤ maxJsonDepth := by
        simpa only [List.length_cons] using hreach.depthLe
      obtain ⟨above, below, heq, hlen⟩ :=
        pushChildren_getElem (depth + 1) (children path v) rest hchild (by omega)
      refine ⟨above, c, p, depth + 1, below, is, heq, hat, ?_, ?_, hreach.pathNe⟩
      · omega
      · omega
  · exact hrest.of_suffix (pushChildren_suffix _ _ _)

/-- A container at the depth limit has nothing in reach below it. -/
theorem scheduled_of_depth_limit {v : Json} {path : String} {depth : Nat} {rest : List WorkItem}
    {q s : String} (hv : ∀ s', v ≠ .string s') (hdepth : maxJsonDepth ≤ depth)
    (h : Scheduled ((v, path, depth) :: rest) q s) : Scheduled rest q s := by
  rcases scheduled_cons.mp h with ⟨is, hat, hreach⟩ | hrest
  · cases hat with
    | leaf => exact absurd rfl (hv s)
    | child hchild hat =>
      have hle := hreach.depthLe
      rw [List.length_cons] at hle
      omega
  · exact hrest

/-- An iteration uses up at least one node. -/
theorem stackCount_visit (w : WorkItem) (rest : List WorkItem)
    (results : List (String × String)) :
    stackCount (visit rest results w).1 < stackCount (w :: rest) := by
  obtain ⟨v, path, depth⟩ := w
  have hpos := nodeCount_pos v
  have hpush := stackCount_pushChildren_children (depth + 1) path v rest
  have hcons : stackCount ((v, path, depth) :: rest) = nodeCount v + stackCount rest := by
    rw [stackCount, List.map_cons, List.sum_cons]; rfl
  have hrest : stackCount rest < stackCount ((v, path, depth) :: rest) := by omega
  rw [← hcons] at hpush
  cases v with
  | object ms => simp only [visit]; split <;> assumption
  | array xs => simp only [visit]; split <;> assumption
  | string s => exact hrest
  | null => exact hrest
  | bool b => exact hrest
  | number n => exact hrest

/-- An iteration keeps the results and loses no string in reach: it collects it, or the new stack
    still leads to it. -/
theorem visit_spec (w : WorkItem) (rest : List WorkItem) (results : List (String × String)) :
    results ⊆ (visit rest results w).2 ∧
      ∀ q s, Scheduled (w :: rest) q s →
        (q, s) ∈ (visit rest results w).2 ∨ Scheduled (visit rest results w).1 q s := by
  obtain ⟨v, path, depth⟩ := w
  -- a leaf that is no string leads nowhere
  have hleaf : children path v = [] → (∀ s, v ≠ .string s) →
      ∀ q s, Scheduled ((v, path, depth) :: rest) q s → Scheduled rest q s := by
    intro hnil hv q s hsched
    have hchildren := scheduled_pushChildren hv hsched
    rw [hnil] at hchildren
    exact hchildren
  -- a container is replaced by its children, or lies at the depth limit
  have hcontainer : (∀ s, v ≠ .string s) → ∀ q s, Scheduled ((v, path, depth) :: rest) q s →
      Scheduled (if maxJsonDepth ≤ depth then (rest, results)
        else (pushChildren (depth + 1) (children path v) rest, results)).1 q s := by
    intro hv q s hsched
    split
    · rename_i hlimit
      exact scheduled_of_depth_limit hv hlimit hsched
    · exact scheduled_pushChildren hv hsched
  have hsame : ∀ stack : List WorkItem, results ⊆ (if maxJsonDepth ≤ depth then (rest, results)
      else (stack, results)).2 := by
    intro stack
    split <;> exact List.Subset.refl _
  cases v with
  | string s' =>
    refine ⟨?_, fun q s hsched => ?_⟩
    · simp only [visit]
      split
      · exact List.Subset.refl _
      · exact List.subset_append_left _ _
    · rcases scheduled_cons.mp hsched with ⟨is, hat, hreach⟩ | hrest
      · obtain ⟨-, rfl, rfl⟩ := stringAt_string_iff.mp hat
        left
        simp only [visit]
        rw [if_neg (by simpa using hreach.pathNe)]
        exact List.mem_append_right _ List.mem_cons_self
      · exact Or.inr hrest
  | object ms => exact ⟨hsame _, fun q s h => Or.inr (hcontainer (by simp) q s h)⟩
  | array xs => exact ⟨hsame _, fun q s h => Or.inr (hcontainer (by simp) q s h)⟩
  | null => exact ⟨List.Subset.refl _, fun q s h => Or.inr (hleaf rfl (by simp) q s h)⟩
  | bool b => exact ⟨List.Subset.refl _, fun q s h => Or.inr (hleaf rfl (by simp) q s h)⟩
  | number n => exact ⟨List.Subset.refl _, fun q s h => Or.inr (hleaf rfl (by simp) q s h)⟩

/-! ## The whole walk -/

/-- More fuel than there are nodes on the stack changes nothing. -/
theorem collectLoop_fuel (fuel k : Nat) (stack : List WorkItem) (results : List (String × String))
    (hfuel : stackCount stack ≤ fuel) :
    collectLoop (fuel + k) stack results = collectLoop fuel stack results := by
  induction fuel generalizing stack results with
  | zero =>
    cases stack with
    | nil => cases k <;> rfl
    | cons w rest =>
      have hvisit := stackCount_visit w rest results
      omega
  | succ fuel ih =>
    rw [Nat.add_right_comm]
    cases stack with
    | nil => rfl
    | cons w rest =>
      have hvisit := stackCount_visit w rest results
      rw [collectLoop, collectLoop]
      split
      · rfl
      · exact ih _ _ (by omega)

/-- **The walk loses nothing that is in reach.**  If it is not cut short, it keeps what it has
    collected and collects every string the stack leads to. -/
theorem collectLoop_complete (fuel : Nat) (stack : List WorkItem)
    (results out : List (String × String)) (hfuel : stackCount stack ≤ fuel)
    (hout : collectLoop fuel stack results = (out, false)) :
    results ⊆ out ∧ ∀ q s, Scheduled stack q s → (q, s) ∈ out := by
  have hnil : ∀ q s, ¬ Scheduled [] q s := by
    rintro q s ⟨above, v, path, depth, below, is, heq, -, -⟩
    exact absurd heq.symm (by simp)
  induction fuel generalizing stack results with
  | zero =>
    cases hout
    cases stack with
    | nil => exact ⟨List.Subset.refl _, fun q s h => absurd h (hnil q s)⟩
    | cons w rest =>
      have hvisit := stackCount_visit w rest out
      omega
  | succ fuel ih =>
    cases stack with
    | nil =>
      cases hout
      exact ⟨List.Subset.refl _, fun q s h => absurd h (hnil q s)⟩
    | cons w rest =>
      have hvisit := stackCount_visit w rest results
      rw [collectLoop] at hout
      split at hout
      · cases hout
      · obtain ⟨hkeep, hlead⟩ := visit_spec w rest results
        obtain ⟨hsub, hall⟩ := ih _ _ (by omega) hout
        refine ⟨fun r hr => hsub (hkeep hr), fun q s hsched => ?_⟩
        rcases hlead q s hsched with hcollected | hlater
        · exact hsub hcollected
        · exact hall q s hlater

/-- A scan that reports truncation has collected `maxScanValues` strings. -/
theorem collectLoop_truncated (fuel : Nat) (stack : List WorkItem)
    (results out : List (String × String)) (hout : collectLoop fuel stack results = (out, true)) :
    maxScanValues ≤ out.length := by
  induction fuel generalizing stack results with
  | zero => cases hout
  | succ fuel ih =>
    cases stack with
    | nil => cases hout
    | cons w rest =>
      rw [collectLoop] at hout
      split at hout
      · rename_i hfull
        cases hout
        exact hfull
      · exact ih _ _ hout

/-- **An untruncated scan sees every string in reach**: at depth at most `maxJsonDepth`, at child
    positions that sum to less than `maxStackSize`, and with a non-empty path text. -/
theorem mem_collectAllStringValues {params : Json} {is : List Nat} {q s : String}
    (htrunc : (collectAllStringValues params).2 = false) (hat : StringAt params "" is q s)
    (hreach : InReach 0 0 is q) : (q, s) ∈ (collectAllStringValues params).1 := by
  have hout : collectLoop (nodeCount params + 1) [(params, "", 0)] [] =
      ((collectAllStringValues params).1, false) := by
    rw [← htrunc]; rfl
  have hfuel : stackCount [(params, "", 0)] ≤ nodeCount params + 1 := by
    simp [stackCount]
  refine (collectLoop_complete _ _ _ _ hfuel hout).2 q s ?_
  exact scheduled_cons.mpr (Or.inl ⟨is, hat, hreach⟩)

theorem truncated_ne_nil {params : Json} (htrunc : (collectAllStringValues params).2 = true) :
    (collectAllStringValues params).1 ≠ [] := by
  have hlen := collectLoop_truncated (nodeCount params + 1) [(params, "", 0)] []
    (collectAllStringValues params).1 (by rw [← htrunc]; rfl)
  intro hnil
  rw [hnil] at hlen
  exact absurd hlen (by decide)

/-! ## What the scan does not see -/

/-- An untruncated scan collects every string of the parameters. -/
def SeesEveryString (params : Json) : Prop :=
  (collectAllStringValues params).2 = false →
    ∀ is q s, StringAt params "" is q s → (q, s) ∈ (collectAllStringValues params).1

/-- A scan without results and without truncation misses every string there is. -/
theorem not_seesEveryString {params : Json} (hscan : collectAllStringValues params = ([], false))
    {is : List Nat} {q s : String} (hat : StringAt params "" is q s) :
    ¬ SeesEveryString params := by
  intro hsees
  have hmem := hsees (by rw [hscan]) is q s hat
  rw [hscan] at hmem
  exact absurd hmem List.not_mem_nil

/-- What the push loop adds are children at positions that still fit. -/
theorem mem_pushChildren {depth : Nat} {cs : List (String × Json)} {stack : List WorkItem}
    {w : WorkItem} (hw : w ∈ pushChildren depth cs stack) :
    w ∈ stack ∨ ∃ i path child, cs[i]? = some (path, child) ∧ stack.length + i < maxStackSize ∧
      w = (child, path, depth) := by
  induction cs generalizing stack with
  | nil => exact Or.inl hw
  | cons c cs ih =>
    obtain ⟨p, v⟩ := c
    rw [pushChildren] at hw
    split at hw
    · exact Or.inl hw
    · rename_i hroom
      rcases ih hw with hmem | ⟨i, path, child, hi, hfits, rfl⟩
      · rcases List.mem_cons.mp hmem with rfl | hmem
        · exact Or.inr ⟨0, p, v, rfl, by omega, rfl⟩
        · exact Or.inl hmem
      · refine Or.inr ⟨i + 1, path, child, hi, ?_, rfl⟩
        rw [List.length_cons] at hfits
        omega

/-- A stack of nulls adds nothing to the results. -/
theorem collectLoop_nulls (fuel : Nat) (stack : List WorkItem) (results : List (String × String))
    (hnull : ∀ w ∈ stack, w.1 = .null) (hroom : results.length < maxScanValues) :
    collectLoop fuel stack results = (results, false) := by
  induction fuel generalizing stack with
  | zero => rfl
  | succ fuel ih =>
    cases stack with
    | nil => rfl
    | cons w rest =>
      obtain ⟨v, path, depth⟩ := w
      have hv : v = .null := hnull _ List.mem_cons_self
      subst hv
      rw [collectLoop, if_neg (by omega)]
      exact ih rest fun w hw => hnull w (List.mem_cons_of_mem _ hw)

/-- An array of nulls that fills the stack, and a string after them. -/
def beyondStack (s : String) : Json :=
  .array (List.replicate maxStackSize .null ++ [.string s])

theorem getElem?_children_beyondStack {s path p : String} {i : Nat} {c : Json}
    (hi : (children path (beyondStack s))[i]? = some (p, c)) (hfits : i < maxStackSize) :
    c = .null := by
  have hlen : i < (List.replicate maxStackSize Json.null).length := by
    rw [List.length_replicate]; exact hfits
  have hitem : (List.replicate maxStackSize Json.null ++ [Json.string s])[i]? = some .null := by
    rw [List.getElem?_append_left hlen, List.getElem?_replicate, if_pos hfits]
  rw [beyondStack, children, List.getElem?_map, List.getElem?_zipIdx, hitem] at hi
  simp only [Option.map_some, Option.some.injEq, Prod.mk.injEq] at hi
  exact hi.2.symm

/-- The first iteration of the scan of an array. -/
theorem collect_array (xs : List Json) :
    collectAllStringValues (.array xs) =
      collectLoop (nodeCount (.array xs)) (pushChildren 1 (children "" (.array xs)) []) [] := rfl

/-- The scan of such an array stops pushing before it gets to the string, and says nothing. -/
theorem collect_beyondStack (s : String) :
    collectAllStringValues (beyondStack s) = ([], false) := by
  rw [beyondStack, collect_array]
  refine collectLoop_nulls _ _ _ (fun w hw => ?_) (by decide)
  rcases mem_pushChildren hw with hmem | ⟨i, path, child, hi, hfits, rfl⟩
  · exact absurd hmem List.not_mem_nil
  · exact getElem?_children_beyondStack hi (by simpa using hfits)

/-- The string that scan does not get to. -/
theorem stringAt_beyondStack (s : String) :
    StringAt (beyondStack s) "" [maxStackSize] (itemPath "" maxStackSize) s := by
  refine .child ?_ .leaf
  have hitem : (List.replicate maxStackSize Json.null ++ [Json.string s])[maxStackSize]? =
      some (.string s) := by
    rw [List.getElem?_append_right (by rw [List.length_replicate]), List.length_replicate,
      Nat.sub_self]
    rfl
  rw [beyondStack, children, List.getElem?_map, List.getElem?_zipIdx, hitem, Nat.zero_add]
  rfl

/-- A string under `n` objects, each with the one key `a`. -/
def nested (s : String) : Nat → Json
  | 0 => .string s
  | n + 1 => .object [("a", nested s n)]

theorem stringAt_nested (s path : String) (n : Nat) :
    ∃ is q, StringAt (nested s n) path is q s := by
  induction n generalizing path with
  | zero => exact ⟨[], path, .leaf⟩
  | succ n ih =>
    obtain ⟨is, q, hat⟩ := ih (memberPath path "a")
    exact ⟨0 :: is, q, .child rfl hat⟩

end Vellaveto.Params
