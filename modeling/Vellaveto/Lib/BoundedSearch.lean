/-
  DEPTH-BOUNDED SEARCH with one set of visited nodes.

      fn search(k, depth, visited) -> bool {
          if depth >= LIMIT || !visited.insert(k) { return false; }
          for p in parents(k) { if p == goal || search(p, depth + 1, visited) { return true; } }
          false
      }

  The set is there so that no node is looked at twice.  But a node that is entered at the last level is
  looked at without its parents being entered, and then never again, also if there is a shorter way to it.

  1. **Program** — `search`, with the levels that are left instead of the depth.

  2. **Soundness** (`search_sound`) — what is found is at the end of a chain of so many links at most,
     which avoids the nodes visited before.

  3. **Completeness** (`search_complete`) — the search fails only if every chain to the goal goes through
     a node that is CUT OFF (`CutOff`): one at the end of a line of nodes that reaches down to the last
     level.  Invariant of a search that fails (`Extends`): each node visited has all its parents visited,
     or is cut off.

  4. **The defect** (`exists_order_search_false`) — if ONE such node is on every chain, then with the
     parents listed in a suitable order (`reorder`: down the line first) nothing is found.
-/
import Mathlib.Data.List.Chain
import Mathlib.Data.List.Nodup
import Mathlib.Data.List.Perm.Basic

namespace Vellaveto.Lib

variable {α : Type*} [DecidableEq α]

/-! ### The program -/

/-- Try one parent more, unless the goal was found. -/
def tryNext (goal : α) (next : α → List α → Bool × List α) (found : Bool × List α) (p : α) :
    Bool × List α :=
  if found.1 then found else if p = goal then (true, found.2) else next p found.2

/-- The search, with `left` levels to go: is the goal found, and which nodes are visited? -/
def search (parents : α → List α) (goal : α) : Nat → α → List α → Bool × List α
  | 0, _, visited => (false, visited)
  | left + 1, k, visited =>
    if k ∈ visited then (false, visited)
    else (parents k).foldl (tryNext goal fun p w => search parents goal left p w) (false, k :: visited)

section Fold

variable {goal : α} {next : α → List α → Bool × List α}

theorem foldl_tryNext_true (ps visited : List α) :
    ps.foldl (tryNext goal next) (true, visited) = (true, visited) := by
  induction ps with
  | nil => rfl
  | cons p ps ih => exact ih

theorem subset_foldl_tryNext (hnext : ∀ p w, w ⊆ (next p w).2) (ps : List α) (found : Bool × List α) :
    found.2 ⊆ (ps.foldl (tryNext goal next) found).2 := by
  induction ps generalizing found with
  | nil => exact List.Subset.refl _
  | cons p ps ih =>
    have hone : found.2 ⊆ (tryNext goal next found p).2 := by
      rw [tryNext]
      split
      · exact List.Subset.refl _
      · split
        · exact List.Subset.refl _
        · exact hnext p found.2
    exact List.Subset.trans hone (ih _)

/-- If the goal is found, it is a parent, or is found behind one. -/
theorem exists_of_foldl_tryNext (hnext : ∀ p w, w ⊆ (next p w).2) {ps visited : List α}
    (h : (ps.foldl (tryNext goal next) (false, visited)).1 = true) :
    ∃ p ∈ ps, p = goal ∨ ∃ w, visited ⊆ w ∧ (next p w).1 = true := by
  induction ps generalizing visited with
  | nil => cases h
  | cons p ps ih =>
    rw [List.foldl_cons, tryNext, if_neg Bool.false_ne_true] at h
    by_cases hp : p = goal
    · exact ⟨p, List.mem_cons_self, .inl hp⟩
    · rw [if_neg hp] at h
      cases hfound : (next p visited).1 with
      | true => exact ⟨p, List.mem_cons_self, .inr ⟨visited, List.Subset.refl _, hfound⟩⟩
      | false =>
        have hpair : next p visited = (false, (next p visited).2) := Prod.ext hfound rfl
        rw [hpair] at h
        obtain ⟨q, hq, hcase⟩ := ih h
        refine ⟨q, List.mem_cons_of_mem p hq, ?_⟩
        rcases hcase with hgoal | ⟨w, hw, hfound⟩
        · exact .inl hgoal
        · exact .inr ⟨w, List.Subset.trans (hnext p visited) hw, hfound⟩

/-- **Rule for a search that fails**: what holds across the failure of each parent and is transitive
    holds across all. -/
theorem foldl_tryNext_false {R : List α → List α → Prop} (hrefl : ∀ w, R w w)
    (htrans : ∀ u v w, R u v → R v w → R u w) {ps visited visited' : List α}
    (hnext : ∀ p ∈ ps, p ≠ goal → ∀ w w', R visited w → next p w = (false, w') → R w w')
    (h : ps.foldl (tryNext goal next) (false, visited) = (false, visited')) :
    goal ∉ ps ∧ R visited visited' ∧
      ∀ p ∈ ps, ∃ w w', R visited w ∧ next p w = (false, w') ∧ R w' visited' := by
  induction ps generalizing visited with
  | nil =>
    cases h
    exact ⟨List.not_mem_nil, hrefl _, fun p hp => absurd hp List.not_mem_nil⟩
  | cons p ps ih =>
    rw [List.foldl_cons, tryNext, if_neg Bool.false_ne_true] at h
    by_cases hp : p = goal
    · rw [if_pos hp, foldl_tryNext_true] at h
      cases h
    · rw [if_neg hp] at h
      cases hfound : (next p visited).1 with
      | true =>
        have hpair : next p visited = (true, (next p visited).2) := Prod.ext hfound rfl
        rw [hpair, foldl_tryNext_true] at h
        cases h
      | false =>
        have hpair : next p visited = (false, (next p visited).2) := Prod.ext hfound rfl
        have hfirst := hnext p List.mem_cons_self hp visited _ (hrefl _) hpair
        rw [hpair] at h
        obtain ⟨hgoal, hrest, hall⟩ := ih (fun q hq hne w w' hw => hnext q (List.mem_cons_of_mem p hq) hne
          w w' (htrans _ _ _ hfirst hw)) h
        refine ⟨?_, htrans _ _ _ hfirst hrest, fun q hq => ?_⟩
        · rintro (_ | ⟨_, hmem⟩)
          · exact hp rfl
          · exact hgoal hmem
        · rcases List.mem_cons.mp hq with rfl | hq
          · exact ⟨visited, _, hrefl _, hpair, hrest⟩
          · obtain ⟨w, w', hw, hpair', hw'⟩ := hall q hq
            exact ⟨w, w', htrans _ _ _ hfirst hw, hpair', hw'⟩

end Fold

variable (parents : α → List α) (goal : α)

/-- The nodes of a list are linked, each to a parent of it. -/
def Linked (line : List α) : Prop := line.IsChain fun a b => b ∈ parents a

variable {parents goal}

theorem subset_search (left : Nat) (k : α) (visited : List α) :
    visited ⊆ (search parents goal left k visited).2 := by
  induction left generalizing k visited with
  | zero => exact List.Subset.refl _
  | succ left ih =>
    rw [search]
    split
    · exact List.Subset.refl _
    · exact List.Subset.trans (List.subset_cons_self k visited)
        (subset_foldl_tryNext ih (parents k) (false, k :: visited))

/-! ### Soundness -/

/-- **What is found** is at the end of a chain of new nodes that is not too long. -/
theorem search_sound {left : Nat} {k : α} {visited : List α}
    (h : (search parents goal left k visited).1 = true) :
    ∃ path, Linked parents (k :: path ++ [goal]) ∧ path.length + 1 ≤ left ∧
      ∀ d ∈ k :: path, d ∉ visited := by
  induction left generalizing k visited with
  | zero => cases h
  | succ left ih =>
    rw [search] at h
    split at h
    · cases h
    · rename_i hk
      obtain ⟨p, hp, hcase⟩ := exists_of_foldl_tryNext (fun p w => subset_search left p w) h
      rcases hcase with rfl | ⟨w, hw, hfound⟩
      · refine ⟨[], List.isChain_pair.mpr hp, by simp, fun d hd => ?_⟩
        rw [List.mem_singleton.mp hd]
        exact hk
      · obtain ⟨path, hlinked, hlen, hnew⟩ := ih hfound
        refine ⟨p :: path, List.isChain_cons_cons.mpr ⟨hp, hlinked⟩, by simp; omega, fun d hd => ?_⟩
        rcases List.mem_cons.mp hd with rfl | hd
        · exact hk
        · intro hvisited
          exact hnew d hd (hw (List.mem_cons_of_mem k hvisited))

/-! ### Completeness -/

/-- A line of different nodes from the root on, each linked to the next; the goal is not reached. -/
structure Line (parents : α → List α) (goal root : α) (line : List α) : Prop where
  head : line.head? = some root
  linked : Linked parents line
  nodup : line.Nodup
  goal_notMem : goal ∉ line.tail

/-- A node that is cut off: a line leads down to it at this depth, and the goal is not next to it. -/
def CutOff (parents : α → List α) (goal root : α) (depth : Nat) (v : α) : Prop :=
  goal ∉ parents v ∧
    ∃ line, Line parents goal root line ∧ line.getLast? = some v ∧ line.length = depth + 1

omit [DecidableEq α] in
/-- A line goes on to a parent of its last node that is new and not the goal. -/
theorem Line.snoc {root k p : α} {front : List α} (h : Line parents goal root (front ++ [k]))
    (hp : p ∈ parents k) (hne : p ≠ goal) (hnew : p ∉ front ++ [k]) :
    Line parents goal root (front ++ [k] ++ [p]) := by
  have htail : (front ++ [k] ++ [p]).tail = (front ++ [k]).tail ++ [p] :=
    List.tail_append_of_ne_nil (by simp)
  constructor
  · rw [List.head?_append, h.head]
    rfl
  · refine h.linked.append (List.isChain_singleton p) fun a ha b hb => ?_
    rw [List.getLast?_concat] at ha
    cases ha
    cases hb
    exact hp
  · rw [List.nodup_append']
    exact ⟨h.nodup, List.nodup_singleton p, by simpa using hnew⟩
  · rw [htail, List.mem_append, List.mem_singleton]
    rintro (hmem | rfl)
    · exact h.goal_notMem hmem
    · exact hne rfl

/-- A visited node is settled: the goal is not next to it, and its parents are visited as well, or it is
    cut off. -/
def SettledIn (parents : α → List α) (goal root : α) (depth : Nat) (visited : List α) (v : α) : Prop :=
  goal ∉ parents v ∧ (parents v ⊆ visited ∨ CutOff parents goal root depth v)

/-- What a search that fails adds is settled. -/
def Extends (parents : α → List α) (goal root : α) (depth : Nat) (visited visited' : List α) : Prop :=
  visited ⊆ visited' ∧ ∀ v ∈ visited', v ∈ visited ∨ SettledIn parents goal root depth visited' v

variable {root : α} {depth : Nat}

omit [DecidableEq α] in
theorem Extends.refl (visited : List α) : Extends parents goal root depth visited visited :=
  ⟨List.Subset.refl _, fun _ hv => .inl hv⟩

omit [DecidableEq α] in
theorem Extends.trans (u v w : List α) (huv : Extends parents goal root depth u v)
    (hvw : Extends parents goal root depth v w) : Extends parents goal root depth u w := by
  refine ⟨List.Subset.trans huv.1 hvw.1, fun x hx => ?_⟩
  rcases hvw.2 x hx with hx | hx
  · rcases huv.2 x hx with hx | ⟨hgoal, hx⟩
    · exact .inl hx
    · exact .inr ⟨hgoal, hx.imp_left fun hsub => List.Subset.trans hsub hvw.1⟩
  · exact .inr hx

/-- **A search that fails** has settled what it visited.  `front` are the nodes on the way to `k`. -/
theorem extends_of_search_false {left : Nat} {k : α} {front visited visited' : List α}
    (hline : k ∉ visited → Line parents goal root (front ++ [k])) (hfront : front ⊆ visited)
    (hlen : front.length + left = depth + 1)
    (h : search parents goal left k visited = (false, visited')) :
    Extends parents goal root depth visited visited' ∧ (0 < left → k ∈ visited') := by
  induction left generalizing k front visited visited' with
  | zero =>
    cases h
    exact ⟨.refl _, fun hpos => absurd hpos (Nat.lt_irrefl 0)⟩
  | succ left ih =>
    rw [search] at h
    split at h
    · rename_i hk
      cases h
      exact ⟨.refl _, fun _ => hk⟩
    · rename_i hk
      have hline := hline hk
      have hfront' : ∀ {w}, k :: visited ⊆ w → front ++ [k] ⊆ w := by
        intro w hw x hx
        rcases List.mem_append.mp hx with hx | hx
        · exact hw (List.mem_cons_of_mem k (hfront hx))
        · rw [List.mem_singleton.mp hx]
          exact hw List.mem_cons_self
      have hlen' : (front ++ [k]).length + left = depth + 1 := by
        rw [List.length_append, List.length_singleton]
        omega
      -- each parent is searched with the line prolonged by `k`
      have hparent : ∀ p ∈ parents k, p ≠ goal → ∀ w w', k :: visited ⊆ w →
          search parents goal left p w = (false, w') →
          Extends parents goal root depth w w' ∧ (0 < left → p ∈ w') := by
        intro p hp hne w w' hw hsearch
        refine ih (fun hnew => hline.snoc hp hne fun hmem => ?_) (hfront' hw) hlen' hsearch
        exact hnew (hfront' hw hmem)
      obtain ⟨hgoal, hext, hall⟩ := foldl_tryNext_false Extends.refl Extends.trans
        (fun p hp hne w w' hw hsearch => (hparent p hp hne w w' hw.1 hsearch).1) h
      have hsettled : SettledIn parents goal root depth visited' k := by
        refine ⟨hgoal, ?_⟩
        by_cases hleft : left = 0
        · refine .inr ⟨hgoal, front ++ [k], hline, List.getLast?_concat, ?_⟩
          rw [← hlen', hleft, Nat.add_zero]
        · refine .inl fun p hp => ?_
          obtain ⟨w, w', hw, hsearch, hw'⟩ := hall p hp
          have hne : p ≠ goal := fun heq => hgoal (heq ▸ hp)
          exact hw'.1 ((hparent p hp hne w w' hw.1 hsearch).2 (Nat.pos_of_ne_zero hleft))
      refine ⟨⟨fun x hx => hext.1 (List.mem_cons_of_mem k hx), fun v hv => ?_⟩,
        fun _ => hext.1 List.mem_cons_self⟩
      rcases hext.2 v hv with hold | hnew
      · rcases List.mem_cons.mp hold with rfl | hold
        · exact .inr hsettled
        · exact .inl hold
      · exact .inr hnew

/-- **A chain without a node that is cut off** is followed to the goal. -/
theorem search_complete {path : List α} (hchain : Linked parents (root :: path ++ [goal]))
    (havoid : ∀ v ∈ root :: path, ¬ CutOff parents goal root depth v) :
    (search parents goal (depth + 1) root []).1 = true := by
  by_contra hfound
  rw [Bool.not_eq_true] at hfound
  have hpair : search parents goal (depth + 1) root [] =
      (false, (search parents goal (depth + 1) root []).2) := Prod.ext hfound rfl
  have hroot : Line parents goal root ([] ++ [root]) :=
    ⟨rfl, List.isChain_singleton root, List.nodup_singleton root, List.not_mem_nil⟩
  obtain ⟨hext, hmem⟩ := extends_of_search_false (fun _ => hroot) (List.nil_subset _)
    (Nat.zero_add _) hpair
  generalize (search parents goal (depth + 1) root []).2 = visited at hext hmem
  replace hmem := hmem (Nat.succ_pos depth)
  -- one node after the other is visited, until the goal is next
  suffices hwalk : ∀ (path : List α) (k : α), k ∈ visited → Linked parents (k :: path ++ [goal]) →
      (∀ v ∈ k :: path, ¬ CutOff parents goal root depth v) → False from
    hwalk path root hmem hchain havoid
  intro path
  induction path with
  | nil =>
    intro k hk hchain havoid
    obtain ⟨hgoal, -⟩ := (hext.2 k hk).resolve_left List.not_mem_nil
    exact hgoal (List.isChain_pair.mp hchain)
  | cons p path ih =>
    intro k hk hchain havoid
    obtain ⟨-, hparents⟩ := (hext.2 k hk).resolve_left List.not_mem_nil
    obtain ⟨hp, hrest⟩ := List.isChain_cons_cons.mp hchain
    have hsub := hparents.resolve_right (havoid k List.mem_cons_self)
    exact ih p (hsub hp) hrest fun v hv => havoid v (List.mem_cons_of_mem k hv)

/-! ### The defect -/

/-- Every chain from `k` to the goal goes through `v`. -/
def Behind (parents : α → List α) (goal v k : α) : Prop :=
  ∀ path, Linked parents (k :: path ++ [goal]) → v ∈ k :: path

omit [DecidableEq α] in
/-- What a node other than `v` links to is behind `v` as well, and is not the goal. -/
theorem Behind.parent {v k p : α} (h : Behind parents goal v k) (hk : k ≠ v) (hp : p ∈ parents k) :
    p ≠ goal ∧ Behind parents goal v p := by
  constructor
  · rintro rfl
    have hv := h [] (List.isChain_pair.mpr hp)
    exact hk (List.mem_singleton.mp hv).symm
  · intro path hlinked
    rcases List.mem_cons.mp (h (p :: path) (List.isChain_cons_cons.mpr ⟨hp, hlinked⟩)) with heq | hv
    · exact absurd heq.symm hk
    · exact hv

/-- Once `v` is visited, nothing behind it is found. -/
theorem search_behind {v p : α} {left : Nat} {visited : List α} (h : Behind parents goal v p)
    (hv : v ∈ visited) : (search parents goal left p visited).1 = false := by
  by_contra hfound
  rw [Bool.not_eq_false] at hfound
  obtain ⟨path, hlinked, -, hnew⟩ := search_sound hfound
  exact hnew v (h path hlinked) hv

theorem foldl_tryNext_eq_false {v : α} {left : Nat} {ps visited : List α} (hv : v ∈ visited)
    (hps : ∀ p ∈ ps, p ≠ goal ∧ ∀ w, v ∈ w → (search parents goal left p w).1 = false) :
    ∃ visited', ps.foldl (tryNext goal (search parents goal left)) (false, visited) =
      (false, visited') ∧ v ∈ visited' := by
  refine ⟨_, Prod.ext ?_ rfl, subset_foldl_tryNext (subset_search left) ps (false, visited) hv⟩
  by_contra hfound
  rw [Bool.not_eq_false] at hfound
  obtain ⟨p, hp, hcase⟩ := exists_of_foldl_tryNext (subset_search left) hfound
  obtain ⟨hne, hfalse⟩ := hps p hp
  rcases hcase with hgoal | ⟨w, hw, hfound⟩
  · exact hne hgoal
  · rw [hfalse w (hw hv)] at hfound
    cases hfound

/-- A search that goes down a line first visits its last node at the last level, and finds nothing. -/
theorem search_down_line {v : α} (hgoal : goal ∉ parents v) (rest : List α) (k : α) (visited : List α)
    (hfirst : (k :: rest).IsChain fun a b => ∃ others, parents a = b :: others)
    (hnodup : (k :: rest).Nodup) (hnew : ∀ x ∈ k :: rest, x ∉ visited)
    (hlast : (k :: rest).getLast? = some v) (hbehind : Behind parents goal v k) :
    ∃ visited', search parents goal (rest.length + 1) k visited = (false, visited') ∧
      v ∈ visited' := by
  induction rest generalizing k visited with
  | nil =>
    cases hlast
    rw [List.length_nil, search, if_neg (hnew k List.mem_cons_self)]
    exact foldl_tryNext_eq_false List.mem_cons_self fun p hp =>
      ⟨fun heq => hgoal (heq ▸ hp), fun _ _ => rfl⟩
  | cons c rest ih =>
    obtain ⟨⟨others, hothers⟩, hfirst⟩ := List.isChain_cons_cons.mp hfirst
    obtain ⟨hk, hnodup⟩ := List.nodup_cons.mp hnodup
    rw [List.getLast?_cons_cons] at hlast
    have hkv : k ≠ v := fun heq => hk (heq ▸ List.mem_of_getLast? hlast)
    have hparents : ∀ p ∈ c :: others, p ≠ goal ∧ Behind parents goal v p := fun p hp =>
      hbehind.parent hkv (hothers ▸ hp)
    obtain ⟨hne, hc⟩ := hparents c List.mem_cons_self
    obtain ⟨visited₁, hsearch, hv⟩ := ih c (k :: visited) hfirst hnodup
      (fun x hx => by
        rw [List.mem_cons, not_or]
        exact ⟨fun heq => hk (heq ▸ hx), hnew x (List.mem_cons_of_mem k hx)⟩)
      hlast hc
    rw [List.length_cons, search, if_neg (hnew k List.mem_cons_self), hothers, List.foldl_cons, tryNext,
      if_neg Bool.false_ne_true, if_neg hne, hsearch]
    refine foldl_tryNext_eq_false hv fun p hp => ?_
    obtain ⟨hpne, hp⟩ := hparents p (List.mem_cons_of_mem c hp)
    exact ⟨hpne, fun w hw => search_behind hp hw⟩

/-- List the next node of a line first. -/
def reorder (parents : α → List α) (nodes : List α) (k : α) : List α :=
  match nodes[nodes.idxOf k + 1]? with
  | some c => c :: (parents k).erase c
  | none => parents k

theorem reorder_perm {nodes : List α} (h : Linked parents nodes) (k : α) :
    (reorder parents nodes k).Perm (parents k) := by
  rw [reorder]
  split
  · rename_i c hc
    obtain ⟨hlt, hc⟩ := List.getElem?_eq_some_iff.mp hc
    have hk : nodes[nodes.idxOf k] = k := List.getElem_idxOf (by omega)
    have hlink := List.isChain_iff_getElem.mp h (nodes.idxOf k) hlt
    rw [hk, hc] at hlink
    exact (List.perm_cons_erase hlink).symm
  · exact List.Perm.refl _

theorem reorder_first {nodes : List α} (h : nodes.Nodup) :
    nodes.IsChain fun a b => ∃ others, reorder parents nodes a = b :: others := by
  rw [List.isChain_iff_getElem]
  intro i hi
  refine ⟨(parents nodes[i]).erase nodes[i + 1], ?_⟩
  rw [reorder, h.idxOf_getElem i (by omega), List.getElem?_eq_getElem hi]

omit [DecidableEq α] in
theorem Linked.of_perm {parents' : α → List α} (h : ∀ k, (parents' k).Perm (parents k))
    {line : List α} (hline : Linked parents' line) : Linked parents line :=
  List.IsChain.imp (fun a _ hb => (h a).mem_iff.mp hb) hline

/-- **A node that is cut off and on every chain** hides the goal, if the parents are listed in a suitable
    order. -/
theorem exists_order_search_false {v : α} (hcut : CutOff parents goal root depth v)
    (hbehind : Behind parents goal v root) :
    ∃ parents' : α → List α, (∀ k, (parents' k).Perm (parents k)) ∧
      (search parents' goal (depth + 1) root []).1 = false := by
  obtain ⟨hgoal, line, hline, hlast, hlen⟩ := hcut
  have hperm := reorder_perm hline.linked
  refine ⟨reorder parents line, hperm, ?_⟩
  cases line with
  | nil => cases hlast
  | cons k rest =>
    cases hline.head
    obtain ⟨visited', hsearch, -⟩ := search_down_line
      (fun hmem => hgoal ((hperm v).mem_iff.mp hmem)) rest root [] (reorder_first hline.nodup) hline.nodup
      (fun x _ => List.not_mem_nil) hlast
      (fun path hpath => hbehind path (hpath.of_perm hperm))
    rw [← Nat.succ_injective hlen, hsearch]

end Vellaveto.Lib
