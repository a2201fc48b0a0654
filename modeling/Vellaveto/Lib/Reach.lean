/-
  COLLECTING what can be reached from a node of a finite graph.

      let mut visited = HashSet::new();  let mut queue = VecDeque::new();  let mut result = Vec::new();
      for t in next(start) { if visited.insert(t) { queue.push_back(t); } }
      while let Some(s) = queue.pop_front() {
          result.push(s);
          for t in next(s) { if visited.insert(t) { queue.push_back(t); } }
      }
      result

  PROGRAM.  `collect` is the loop with FUEL, `reachedFrom` the whole of it; the start is in the result only
  if it can be reached from itself.

  CORRECTNESS.
    1. `explore_of_collect`   the loop collects a state exactly if the exploration that calls this state bad
                              finds it, so what is known of `explore` carries over;
    2. `nodup_collect`        a state is collected once;
    3. `mem_reachedFrom_iff`  with fuel above the number of states, what is collected is what can be reached
                              in ONE STEP OR MORE.
-/
import Vellaveto.Lib.Explore

namespace Vellaveto.Lib.Reach

variable {σ : Type*} [DecidableEq σ] {next : σ → List σ}

/-- The loop: the states in the order in which they leave the queue. -/
def collect (next : σ → List σ) : Nat → List σ → List σ → Option (List σ)
  | 0, _, _ => none
  | _ + 1, [], _ => some []
  | fuel + 1, s :: queue, visited =>
    let queued := enqueueNew (next s) queue visited
    (collect next fuel queued.1 queued.2).map (s :: ·)

/-- The loop from the successors of a state. -/
def reachedFrom (next : σ → List σ) (fuel : Nat) (start : σ) : List σ :=
  let seeds := enqueueNew (next start) [] []
  (collect next fuel seeds.1 seeds.2).getD []

/-- A state is collected exactly if it would be found. -/
theorem explore_of_collect {fuel : Nat} {queue visited collected : List σ}
    (h : collect next fuel queue visited = some collected) (t : σ) :
    explore (fun s => decide (s = t)) next fuel queue visited = some (decide (t ∉ collected)) := by
  induction fuel generalizing queue visited collected with
  | zero => cases h
  | succ fuel ih =>
    cases queue with
    | nil =>
      cases h
      simp [explore]
    | cons s queue =>
      obtain ⟨rest, hrest, rfl⟩ := Option.map_eq_some_iff.mp h
      rw [explore]
      by_cases hs : s = t
      · simp [hs]
      · rw [if_neg (by simpa using hs), ih hrest]
        simp [Ne.symm hs]

/-- The loop ends where an exploration that finds nothing ends. -/
theorem collect_isSome (fuel : Nat) (queue visited : List σ) :
    (collect next fuel queue visited).isSome = (explore (fun _ => false) next fuel queue visited).isSome := by
  induction fuel generalizing queue visited with
  | zero => rfl
  | succ fuel ih =>
    cases queue with
    | nil => rfl
    | cons s queue =>
      rw [collect, explore, Option.isSome_map, ih]
      rfl

/-- **Once each**: what is collected was queued, or had not been visited. -/
theorem nodup_collect {fuel : Nat} {queue visited collected : List σ}
    (h : collect next fuel queue visited = some collected) (hqueue : queue.Nodup) (hsub : queue ⊆ visited)
    (hvisited : visited.Nodup) : collected.Nodup ∧ ∀ t ∈ collected, t ∈ queue ∨ t ∉ visited := by
  induction fuel generalizing queue visited collected with
  | zero => cases h
  | succ fuel ih =>
    cases queue with
    | nil =>
      cases h
      exact ⟨List.nodup_nil, fun t ht => absurd ht List.not_mem_nil⟩
    | cons s queue =>
      obtain ⟨rest, hrest, rfl⟩ := Option.map_eq_some_iff.mp h
      obtain ⟨new, hq, hv, -, hnodup, -⟩ := enqueueNew_spec (next s) queue visited
      rw [hq, hv] at hrest
      obtain ⟨hs, hqueue⟩ := List.nodup_cons.mp hqueue
      obtain ⟨hnew, -, hdisjoint⟩ := List.nodup_append.mp (hnodup hvisited)
      have hfresh : ∀ t ∈ new, t ∉ visited := fun t ht hmem =>
        hdisjoint t (List.mem_reverse.mpr ht) t hmem rfl
      have hold : ∀ t ∈ queue, t ∈ visited := fun t ht => hsub (List.mem_cons_of_mem s ht)
      obtain ⟨hrestNodup, hfrom⟩ := ih hrest
        (List.nodup_append.mpr ⟨hqueue, List.nodup_reverse.mp hnew, fun t ht u hu heq =>
          hfresh u hu (heq ▸ hold t ht)⟩)
        (fun t ht => (List.mem_append.mp ht).elim (fun ht => List.mem_append_right _ (hold t ht))
          fun ht => List.mem_append_left _ (List.mem_reverse.mpr ht))
        (hnodup hvisited)
      refine ⟨List.nodup_cons.mpr ⟨fun hmem => ?_, hrestNodup⟩, fun t ht => ?_⟩
      · rcases hfrom s hmem with hqueued | hunvisited
        · rcases List.mem_append.mp hqueued with hqueued | hnew'
          · exact hs hqueued
          · exact hfresh s hnew' (hsub List.mem_cons_self)
        · exact hunvisited (List.mem_append_right _ (hsub List.mem_cons_self))
      · rcases List.mem_cons.mp ht with rfl | ht
        · exact .inl List.mem_cons_self
        · rcases hfrom t ht with hqueued | hunvisited
          · rcases List.mem_append.mp hqueued with hqueued | hnew'
            · exact .inl (List.mem_cons_of_mem s hqueued)
            · exact .inr (hfresh t hnew')
          · exact .inr fun hmem => hunvisited (List.mem_append_right _ hmem)

section ReachedFrom

variable {states : Finset σ} {fuel : Nat} {start : σ}

/-- With enough fuel the loop from the successors ends. -/
theorem exists_collect (hnext : ∀ s ∈ states, ∀ t ∈ next s, t ∈ states) (hstart : start ∈ states)
    (hfuel : states.card < fuel) :
    ∃ seeds, seeds.Nodup ∧ (∀ t, t ∈ seeds ↔ t ∈ next start) ∧
      ∃ collected, collect next fuel seeds seeds.reverse = some collected ∧
        reachedFrom next fuel start = collected := by
  obtain ⟨seeds, hq, hv, hsub, hnodup, hall⟩ := enqueueNew_spec (next start) [] []
  rw [List.nil_append] at hq
  rw [List.append_nil] at hv hnodup hall
  have hseeds : seeds.Nodup := List.nodup_reverse.mp (hnodup List.nodup_nil)
  have hmem : ∀ t, t ∈ seeds ↔ t ∈ next start := fun t => ⟨fun ht => hsub ht, fun ht => List.mem_reverse.mp (hall t ht)⟩
  have hstates : ∀ t ∈ seeds, t ∈ states := fun t ht => hnext start hstart t (hsub ht)
  have hcard : seeds.length ≤ states.card := by
    rw [← List.toFinset_card_of_nodup hseeds]
    exact Finset.card_le_card fun t ht => hstates t (List.mem_toFinset.mp ht)
  have hsome : (collect next fuel seeds seeds.reverse).isSome = true := by
    rw [collect_isSome]
    refine explore_isSome states hnext hstates (fun t ht => hstates t (List.mem_reverse.mp ht))
      (List.nodup_reverse.mpr hseeds) ?_
    rw [List.length_reverse]
    omega
  obtain ⟨collected, hcollected⟩ := Option.isSome_iff_exists.mp hsome
  refine ⟨seeds, hseeds, hmem, collected, hcollected, ?_⟩
  rw [reachedFrom, hq, hv, hcollected]
  rfl

/-- **What is collected is what can be reached**, in one step or more. -/
theorem mem_reachedFrom_iff (hnext : ∀ s ∈ states, ∀ t ∈ next s, t ∈ states) (hstart : start ∈ states)
    (hfuel : states.card < fuel) (t : σ) :
    t ∈ reachedFrom next fuel start ↔ Relation.TransGen (fun s t => t ∈ next s) start t := by
  obtain ⟨seeds, -, hmem, collected, hcollected, heq⟩ := exists_collect hnext hstart hfuel
  have hexplore := explore_of_collect hcollected t
  rw [heq]
  constructor
  · intro ht
    rw [decide_eq_false (not_not.mpr ht)] at hexplore
    obtain ⟨s, hs, u, hreach, hu⟩ := exists_bad_of_explore hexplore
    rw [of_decide_eq_true hu] at hreach
    exact Relation.TransGen.head' ((hmem s).mp hs) hreach
  · intro hreach
    by_contra ht
    rw [decide_eq_true ht] at hexplore
    have hsettled : Settled (fun s => decide (s = t)) next seeds seeds.reverse :=
      fun s hs => .inl (List.mem_reverse.mp hs)
    obtain ⟨closed, hclosed, hgood⟩ := closed_of_explore hsettled hexplore
    have hin : ∀ u, Relation.TransGen (fun s t => t ∈ next s) start u → u ∈ closed := by
      intro u hu
      induction hu with
      | single hstep => exact hclosed (List.mem_reverse.mpr ((hmem _).mpr hstep))
      | tail _ hstep ih => exact (hgood _ ih).2 _ hstep
    exact absurd rfl (of_decide_eq_false (hgood t (hin t hreach)).1)

theorem nodup_reachedFrom (hnext : ∀ s ∈ states, ∀ t ∈ next s, t ∈ states) (hstart : start ∈ states)
    (hfuel : states.card < fuel) : (reachedFrom next fuel start).Nodup := by
  obtain ⟨seeds, hseeds, -, collected, hcollected, heq⟩ := exists_collect hnext hstart hfuel
  rw [heq]
  exact (nodup_collect hcollected hseeds (fun t ht => List.mem_reverse.mpr ht) (List.nodup_reverse.mpr hseeds)).1

end ReachedFrom

end Vellaveto.Lib.Reach
