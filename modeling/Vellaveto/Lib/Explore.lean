/-
  BREADTH-FIRST EXPLORATION of a finite graph, looking for a bad state.

      let mut queue = VecDeque::from([start]);  let mut visited = HashSet::from([start]);
      while let Some(s) = queue.pop_front() {
          if bad(s) { return false; }
          for t in next(s) { if visited.insert(t) { queue.push_back(t); } }
      }
      true

  PROGRAM.  `explore` is this loop with FUEL; it returns `none` when the fuel runs out.

  CORRECTNESS.
    1. `explore_sound`   if the answer is `true`, no reachable state is bad.  Invariant: a visited state
                         is still in the queue, or it is not bad and its successors are visited;
    2. `exists_bad_of_explore`  if the answer is `false`, a bad state is reachable;
    3. `explore_isSome`  fuel above the number of states is enough.  Every round takes one state from
                         the queue, and a state enters the queue once;
    4. `explore_eq_of_rel`  two graphs whose states correspond one to one are explored alike.

  ACYCLIC GRAPHS stay acyclic when edges are taken away (`Acyclic.mono`), and when one edge is added
  against which no path runs (`Acyclic.add_edge`).
-/
import Mathlib.Data.Finset.Card
import Mathlib.Data.List.Forall2
import Mathlib.Logic.Relation
import Mathlib.Logic.Relator

namespace Vellaveto.Lib

variable {σ : Type*} [DecidableEq σ]

/-- Queue the states that were not visited before. -/
def enqueueNew : List σ → List σ → List σ → List σ × List σ
  | [], queue, visited => (queue, visited)
  | s :: ss, queue, visited =>
    if s ∈ visited then enqueueNew ss queue visited
    else enqueueNew ss (queue ++ [s]) (s :: visited)

/-- The exploration loop. -/
def explore (bad : σ → Bool) (next : σ → List σ) : Nat → List σ → List σ → Option Bool
  | 0, _, _ => none
  | _ + 1, [], _ => some true
  | fuel + 1, s :: queue, visited =>
    if bad s then some false
    else
      let queued := enqueueNew (next s) queue visited
      explore bad next fuel queued.1 queued.2

/-! ## One round -/

/-- What a round adds: new states, once each, to both lists. -/
theorem enqueueNew_spec (ss queue visited : List σ) :
    ∃ new, (enqueueNew ss queue visited).1 = queue ++ new ∧
      (enqueueNew ss queue visited).2 = new.reverse ++ visited ∧ new ⊆ ss ∧
      (visited.Nodup → (new.reverse ++ visited).Nodup) ∧ ∀ s ∈ ss, s ∈ new.reverse ++ visited := by
  induction ss generalizing queue visited with
  | nil => exact ⟨[], by simp [enqueueNew], by simp [enqueueNew], by simp, by simp, by simp⟩
  | cons s ss ih =>
    rw [enqueueNew]
    split
    · rename_i hs
      obtain ⟨new, hqueue, hvisited, hsub, hnodup, hall⟩ := ih queue visited
      refine ⟨new, hqueue, hvisited, fun t ht => List.mem_cons_of_mem s (hsub ht), hnodup, ?_⟩
      intro t ht
      rcases List.mem_cons.mp ht with rfl | ht
      · exact List.mem_append_right _ hs
      · exact hall t ht
    · rename_i hs
      obtain ⟨new, hqueue, hvisited, hsub, hnodup, hall⟩ := ih (queue ++ [s]) (s :: visited)
      have hsplit : (s :: new).reverse ++ visited = new.reverse ++ s :: visited := by simp
      refine ⟨s :: new, by rw [hqueue]; simp, by rw [hvisited, hsplit], ?_, ?_, ?_⟩
      · intro t ht
        rcases List.mem_cons.mp ht with rfl | ht
        · exact List.mem_cons_self
        · exact List.mem_cons_of_mem s (hsub ht)
      · intro hv
        rw [hsplit]
        exact hnodup (List.nodup_cons.mpr ⟨hs, hv⟩)
      · intro t ht
        rw [hsplit]
        rcases List.mem_cons.mp ht with rfl | ht
        · exact List.mem_append_right _ List.mem_cons_self
        · exact hall t ht

/-! ## The answer -/

variable {bad : σ → Bool} {next : σ → List σ}

/-- A visited state waits in the queue or is settled: not bad, with all its successors visited. -/
def Settled (bad : σ → Bool) (next : σ → List σ) (queue visited : List σ) : Prop :=
  ∀ s ∈ visited, s ∈ queue ∨ (bad s = false ∧ ∀ t ∈ next s, t ∈ visited)

/-- One round keeps the invariant. -/
theorem settled_enqueueNew {s : σ} {queue visited : List σ} (hs : bad s = false)
    (h : Settled bad next (s :: queue) visited) :
    Settled bad next (enqueueNew (next s) queue visited).1 (enqueueNew (next s) queue visited).2 ∧
      visited ⊆ (enqueueNew (next s) queue visited).2 := by
  obtain ⟨new, hqueue, hvisited, -, -, hall⟩ := enqueueNew_spec (next s) queue visited
  have hkeep : visited ⊆ new.reverse ++ visited := List.subset_append_right _ _
  rw [hqueue, hvisited]
  refine ⟨fun t ht => ?_, hkeep⟩
  rcases List.mem_append.mp ht with ht | ht
  · exact Or.inl (List.mem_append_right _ (List.mem_reverse.mp ht))
  · rcases h t ht with hqueued | ⟨hbad, hnext⟩
    · rcases List.mem_cons.mp hqueued with rfl | hqueued
      · exact Or.inr ⟨hs, hall⟩
      · exact Or.inl (List.mem_append_left _ hqueued)
    · exact Or.inr ⟨hbad, fun u hu => hkeep (hnext u hu)⟩

/-- The answer `true` comes with a set of good states that the steps do not leave. -/
theorem closed_of_explore {fuel : Nat} {queue visited : List σ} (h : Settled bad next queue visited)
    (hexplore : explore bad next fuel queue visited = some true) :
    ∃ closed : List σ, visited ⊆ closed ∧
      ∀ s ∈ closed, bad s = false ∧ ∀ t ∈ next s, t ∈ closed := by
  induction fuel generalizing queue visited with
  | zero => cases hexplore
  | succ fuel ih =>
    cases queue with
    | nil =>
      refine ⟨visited, List.Subset.refl _, fun s hs => ?_⟩
      rcases h s hs with hqueued | hsettled
      · cases hqueued
      · exact hsettled
    | cons s queue =>
      rw [explore] at hexplore
      split at hexplore
      · cases hexplore
      · rename_i hs
        obtain ⟨hinv, hsub⟩ := settled_enqueueNew (Bool.eq_false_iff.mpr hs) h
        obtain ⟨closed, hclosed, hgood⟩ := ih hinv hexplore
        exact ⟨closed, fun t ht => hclosed (hsub ht), hgood⟩

/-- **Soundness.**  If exploring from `start` answers `true`, every reachable state is good. -/
theorem explore_sound {fuel : Nat} {start s : σ}
    (hexplore : explore bad next fuel [start] [start] = some true)
    (hreach : Relation.ReflTransGen (fun s t => t ∈ next s) start s) : bad s = false := by
  have hstart : Settled bad next [start] [start] := fun s hs => Or.inl hs
  obtain ⟨closed, hclosed, hgood⟩ := closed_of_explore hstart hexplore
  have hmem : s ∈ closed := by
    induction hreach with
    | refl => exact hclosed List.mem_cons_self
    | tail _ hstep ih => exact (hgood _ ih).2 _ hstep
  exact (hgood s hmem).1

/-- **Completeness.**  The answer `false` comes from a bad state that can be reached. -/
theorem exists_bad_of_explore {fuel : Nat} {queue visited : List σ}
    (hexplore : explore bad next fuel queue visited = some false) :
    ∃ s ∈ queue, ∃ t, Relation.ReflTransGen (fun s t => t ∈ next s) s t ∧ bad t = true := by
  induction fuel generalizing queue visited with
  | zero => cases hexplore
  | succ fuel ih =>
    cases queue with
    | nil => cases hexplore
    | cons s queue =>
      rw [explore] at hexplore
      split at hexplore
      · rename_i hs
        exact ⟨s, List.mem_cons_self, s, .refl, hs⟩
      · obtain ⟨u, hu, t, hreach, ht⟩ := ih hexplore
        obtain ⟨new, hqueue, -, hsub, -⟩ := enqueueNew_spec (next s) queue visited
        rw [hqueue] at hu
        rcases List.mem_append.mp hu with hu | hu
        · exact ⟨u, List.mem_cons_of_mem s hu, t, hreach, ht⟩
        · exact ⟨s, List.mem_cons_self, t, .head (hsub hu) hreach, ht⟩

/-! ## Termination -/

/-- **Enough fuel.**  In a finite set of states that the steps do not leave, exploration ends when
    the fuel exceeds the number of states that are queued or not yet visited. -/
theorem explore_isSome (states : Finset σ) (hnext : ∀ s ∈ states, ∀ t ∈ next s, t ∈ states)
    {fuel : Nat} {queue visited : List σ} (hqueue : ∀ s ∈ queue, s ∈ states)
    (hvisited : ∀ s ∈ visited, s ∈ states) (hnodup : visited.Nodup)
    (hfuel : queue.length + (states.card - visited.length) < fuel) :
    (explore bad next fuel queue visited).isSome = true := by
  induction fuel generalizing queue visited with
  | zero => omega
  | succ fuel ih =>
    cases queue with
    | nil => rfl
    | cons s queue =>
      rw [explore]
      split
      · rfl
      · obtain ⟨new, hq, hv, hsub, hnodup', -⟩ := enqueueNew_spec (next s) queue visited
        have hnew : ∀ t ∈ new, t ∈ states := fun t ht =>
          hnext s (hqueue s List.mem_cons_self) t (hsub ht)
        have hstates : ∀ t ∈ new.reverse ++ visited, t ∈ states := by
          intro t ht
          rcases List.mem_append.mp ht with ht | ht
          · exact hnew t (List.mem_reverse.mp ht)
          · exact hvisited t ht
        have hcard : (new.reverse ++ visited).length ≤ states.card := by
          rw [← List.toFinset_card_of_nodup (hnodup' hnodup)]
          exact Finset.card_le_card fun t ht => hstates t (List.mem_toFinset.mp ht)
        dsimp only
        rw [hq, hv]
        refine ih ?_ hstates (hnodup' hnodup) ?_
        · intro t ht
          rcases List.mem_append.mp ht with ht | ht
          · exact hqueue t (List.mem_cons_of_mem s ht)
          · exact hnew t ht
        · simp only [List.length_append, List.length_reverse, List.length_cons] at hcard hfuel ⊢
          omega

/-! ## Two explorations side by side -/

section Simulation

variable {τ : Type*} [DecidableEq τ] {R : σ → τ → Prop} {bad' : τ → Bool} {next' : τ → List τ}

/-- The same states are new on both sides. -/
theorem enqueueNew_rel (hR : Relator.BiUnique R) {ss queue visited : List σ}
    {ts queue' visited' : List τ} (hss : List.Forall₂ R ss ts) (hqueue : List.Forall₂ R queue queue')
    (hvisited : List.Forall₂ R visited visited') :
    List.Forall₂ R (enqueueNew ss queue visited).1 (enqueueNew ts queue' visited').1 ∧
      List.Forall₂ R (enqueueNew ss queue visited).2 (enqueueNew ts queue' visited').2 := by
  induction hss generalizing queue visited queue' visited' with
  | nil => exact ⟨hqueue, hvisited⟩
  | cons hhead _ ih =>
    rw [enqueueNew, enqueueNew]
    simp only [List.rel_mem hR hhead hvisited]
    split
    · exact ih hqueue hvisited
    · exact ih (List.rel_append hqueue (.cons hhead .nil)) (.cons hhead hvisited)

/-- **Simulation.**  Let `R` pair each state of one graph with one state of another, bad states with
    bad ones and successors with successors, in order.  Exploring either graph gives the same answer
    after the same number of rounds. -/
theorem explore_eq_of_rel (hR : Relator.BiUnique R) (hbad : ∀ s t, R s t → bad s = bad' t)
    (hnext : ∀ s t, R s t → List.Forall₂ R (next s) (next' t)) {fuel : Nat} {queue visited : List σ}
    {queue' visited' : List τ} (hqueue : List.Forall₂ R queue queue')
    (hvisited : List.Forall₂ R visited visited') :
    explore bad next fuel queue visited = explore bad' next' fuel queue' visited' := by
  induction fuel generalizing queue visited queue' visited' with
  | zero => rfl
  | succ fuel ih =>
    cases hqueue with
    | nil => rfl
    | cons hhead htail =>
      rw [explore, explore, hbad _ _ hhead]
      split
      · rfl
      · obtain ⟨hq, hv⟩ := enqueueNew_rel hR (hnext _ _ hhead) htail hvisited
        exact ih hq hv

end Simulation

/-! ## Acyclic graphs -/

section Acyclic

variable {α : Type*} {R R' : α → α → Prop} {u v : α}

/-- No node lies on a cycle. -/
def Acyclic (R : α → α → Prop) : Prop := ∀ a, ¬Relation.TransGen R a a

theorem Acyclic.mono (h : Acyclic R) (hsub : ∀ a b, R' a b → R a b) : Acyclic R' := by
  intro a hcycle
  exact h a (Relation.TransGen.mono hsub a a hcycle)

/-- A path in a graph with one edge more avoids that edge, or leads to its start by old edges and goes
    on from its end by old edges. -/
theorem transGen_of_add_edge (hsub : ∀ a b, R' a b → R a b ∨ (a = u ∧ b = v)) {a b : α}
    (h : Relation.TransGen R' a b) :
    Relation.TransGen R a b ∨ (Relation.ReflTransGen R a u ∧ Relation.ReflTransGen R v b) := by
  induction h with
  | single hab =>
    rcases hsub _ _ hab with hold | ⟨rfl, rfl⟩
    · exact Or.inl (.single hold)
    · exact Or.inr ⟨.refl, .refl⟩
  | tail _ hbc ih =>
    rcases hsub _ _ hbc with hold | ⟨rfl, rfl⟩
    · rcases ih with hpath | ⟨hto, hfrom⟩
      · exact Or.inl (hpath.tail hold)
      · exact Or.inr ⟨hto, hfrom.tail hold⟩
    · rcases ih with hpath | ⟨hto, -⟩
      · exact Or.inr ⟨hpath.to_reflTransGen, .refl⟩
      · exact Or.inr ⟨hto, .refl⟩

/-- One edge more makes no cycle if there is no way back. -/
theorem Acyclic.add_edge (h : Acyclic R) (hsub : ∀ a b, R' a b → R a b ∨ (a = u ∧ b = v))
    (hback : ¬Relation.ReflTransGen R v u) : Acyclic R' := by
  intro a hcycle
  rcases transGen_of_add_edge hsub hcycle with hold | ⟨hto, hfrom⟩
  · exact h a hold
  · exact hback (hfrom.trans hto)

end Acyclic

end Vellaveto.Lib
