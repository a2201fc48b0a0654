/-
  KAHN'S ALGORITHM: does a finite graph have a cycle?

      while let Some(u) = queue.pop_front() {
          visited += 1;
          for t in succ(u) { deg[t] -= 1; if deg[t] == 0 { queue.push_back(t); } }
      }

  1. **Program** — `kahn` is this loop with fuel, and counts the nodes it takes from the queue.  It starts
     with the degrees, which count the edges one by one (`foldl_update_add_one`).

  2. **Invariant** (`Kahn`) — of the nodes `todo` that were not taken yet, none has an edge to a node
     that was taken; `deg` counts the edges that come from them; and the queue holds those to which
     none leads, once each.

  3. **A round** (`Kahn.step`) takes away a node without predecessors, and no cycle goes through such a
     node (`acyclic_erase_iff`).

  4. **Result** (`kahn_spec`) — fuel for all nodes is enough, and all are taken exactly if the graph is
     acyclic: when the queue runs empty, each node left has a predecessor among those left, and then
     there is a cycle (`not_acyclic_of_predecessors`).
-/
import Mathlib.Data.List.Count
import Mathlib.Order.WellFoundedSet
import Vellaveto.Lib.Explore

namespace Vellaveto.Lib

variable {α : Type*} [DecidableEq α]

/-! ### The loop -/

/-- One edge to `t` less; without edges, `t` is queued. -/
def relax (state : (α → Nat) × List α) (t : α) : (α → Nat) × List α :=
  let deg := Function.update state.1 t (state.1 t - 1)
  (deg, if deg t = 0 then state.2 ++ [t] else state.2)

/-- The number of nodes that are taken from the queue. -/
def kahn (succ : α → List α) : Nat → (α → Nat) → List α → Nat → Option Nat
  | _, _, [], visited => some visited
  | 0, _, _ :: _, _ => none
  | fuel + 1, deg, u :: queue, visited =>
    let next := (succ u).foldl relax (deg, queue)
    kahn succ fuel next.1 next.2 (visited + 1)

theorem foldl_relax (ts : List α) (hts : ts.Nodup) (deg : α → Nat) (queue : List α) :
    ts.foldl relax (deg, queue) =
      (fun t => if t ∈ ts then deg t - 1 else deg t,
        queue ++ ts.filter fun t => deg t - 1 = 0) := by
  induction ts generalizing deg queue with
  | nil => simp
  | cons s ts ih =>
    obtain ⟨hs, hts⟩ := List.nodup_cons.mp hts
    have hother : ∀ t ∈ ts, Function.update deg s (deg s - 1) t = deg t := by
      intro t ht
      apply Function.update_of_ne
      rintro rfl
      exact hs ht
    rw [List.foldl_cons, relax, ih hts]
    refine Prod.ext (funext fun t => ?_) ?_
    · show (if t ∈ ts then _ else _) = if t ∈ s :: ts then _ else _
      by_cases ht : t ∈ ts
      · rw [if_pos ht, if_pos (List.mem_cons_of_mem s ht), hother t ht]
      · rw [if_neg ht]
        by_cases hts : t = s
        · subst hts
          simp
        · simp [hts, ht]
    · show (if Function.update deg s (deg s - 1) s = 0 then queue ++ [s] else queue) ++ _ = _
      have hfilter : (ts.filter fun t => Function.update deg s (deg s - 1) t - 1 = 0) =
          ts.filter fun t => deg t - 1 = 0 := by
        apply List.filter_congr
        intro t ht
        rw [hother t ht]
      rw [hfilter, Function.update_self]
      by_cases hzero : deg s - 1 = 0
      · simp [hzero]
      · simp [hzero]

/-! ### Degrees -/

/-- Counting names one by one. -/
theorem foldl_update_add_one (names : List α) (deg : α → Nat) (t : α) :
    names.foldl (fun deg s => Function.update deg s (deg s + 1)) deg t = deg t + names.count t := by
  induction names generalizing deg with
  | nil => rfl
  | cons s names ih =>
    rw [List.foldl_cons, ih, List.count_cons]
    by_cases hs : t = s
    · subst hs
      rw [Function.update_self, if_pos (beq_self_eq_true t)]
      omega
    · have hne : ¬ (s == t) = true := fun heq => hs (beq_iff_eq.mp heq).symm
      rw [Function.update_of_ne hs, if_neg hne, Nat.add_zero]

/-- Lists without repetitions together hold `t` once for each list that has it. -/
theorem count_flatMap_of_nodup {β : Type*} {entries : List β} {succs : β → List α} (t : α)
    (h : ∀ e ∈ entries, (succs e).Nodup) :
    (entries.flatMap succs).count t = entries.countP fun e => t ∈ succs e := by
  induction entries with
  | nil => rfl
  | cons e entries ih =>
    rw [List.flatMap_cons, List.count_append, List.countP_cons,
      ih fun e' he' => h e' (List.mem_cons_of_mem e he'), Nat.add_comm]
    by_cases ht : t ∈ succs e
    · rw [List.count_eq_one_of_mem (h e List.mem_cons_self) ht, if_pos (decide_eq_true ht)]
    · rw [List.count_eq_zero_of_not_mem ht, if_neg (by simpa using ht)]

/-! ### Cycles -/

/-- The edges that come from the nodes of a list. -/
def EdgeFrom (succ : α → List α) (nodes : List α) (u t : α) : Prop := u ∈ nodes ∧ t ∈ succ u

omit [DecidableEq α] in
/-- If each node of a list has a predecessor in the list, there is a cycle. -/
theorem not_acyclic_of_predecessors {R : α → α → Prop} {nodes : List α} (hne : nodes ≠ [])
    (hpred : ∀ t ∈ nodes, ∃ u ∈ nodes, R u t) : ¬ Acyclic R := by
  intro hacyclic
  have horder : IsStrictOrder α (Relation.TransGen R) :=
    { irrefl := hacyclic, trans := fun _ _ _ => Relation.TransGen.trans }
  have hwf : {t | t ∈ nodes}.WellFoundedOn (Relation.TransGen R) :=
    (List.finite_toSet nodes).wellFoundedOn
  obtain ⟨t, ht⟩ := List.exists_mem_of_ne_nil nodes hne
  obtain ⟨⟨least, hleast⟩, -, hmin⟩ := hwf.has_min Set.univ ⟨⟨t, ht⟩, trivial⟩
  obtain ⟨u, hu, hedge⟩ := hpred least hleast
  exact hmin ⟨u, hu⟩ trivial (.single hedge)

variable {succ : α → List α} {todo : List α}

/-- A path that does not begin at a node without predecessors avoids it. -/
theorem transGen_erase {u a b : α} (hu : ∀ v ∈ todo, u ∉ succ v) (ha : a ≠ u)
    (h : Relation.TransGen (EdgeFrom succ todo) a b) :
    b ≠ u ∧ Relation.TransGen (EdgeFrom succ (todo.erase u)) a b := by
  have htarget : ∀ {v t}, EdgeFrom succ todo v t → t ≠ u := by
    rintro v t ⟨hv, ht⟩ rfl
    exact hu v hv ht
  induction h with
  | single hedge =>
    exact ⟨htarget hedge, .single ⟨(List.mem_erase_of_ne ha).mpr hedge.1, hedge.2⟩⟩
  | tail _ hedge ih =>
    obtain ⟨hb, hpath⟩ := ih
    exact ⟨htarget hedge, hpath.tail ⟨(List.mem_erase_of_ne hb).mpr hedge.1, hedge.2⟩⟩

/-- **No cycle goes through a node without predecessors.** -/
theorem acyclic_erase_iff {u : α} (hu : ∀ v ∈ todo, u ∉ succ v) :
    Acyclic (EdgeFrom succ (todo.erase u)) ↔ Acyclic (EdgeFrom succ todo) := by
  constructor
  · intro h a hcycle
    have ha : a ≠ u := by
      rintro rfl
      obtain ⟨v, -, hv, hmem⟩ := Relation.TransGen.tail'_iff.mp hcycle
      exact hu v hv hmem
    exact h a (transGen_erase hu ha hcycle).2
  · intro h
    exact h.mono fun a b hedge => ⟨List.mem_of_mem_erase hedge.1, hedge.2⟩

/-! ### The invariant -/

/-- The nodes `todo` were not taken yet; `deg` counts the edges from them, and `queue` holds those of
    them to which no such edge leads. -/
structure Kahn (succ : α → List α) (todo : List α) (deg : α → Nat) (queue : List α) : Prop where
  nodup : todo.Nodup
  succ_nodup : ∀ u ∈ todo, (succ u).Nodup
  closed : ∀ u ∈ todo, ∀ t ∈ succ u, t ∈ todo
  deg_eq : ∀ t, deg t = todo.countP fun u => t ∈ succ u
  queue_nodup : queue.Nodup
  queue_iff : ∀ t, t ∈ queue ↔ t ∈ todo ∧ deg t = 0

variable {deg : α → Nat} {queue : List α} {u : α}

theorem Kahn.deg_eq_zero_iff (h : Kahn succ todo deg queue) (t : α) :
    deg t = 0 ↔ ∀ v ∈ todo, t ∉ succ v := by
  rw [h.deg_eq, List.countP_eq_zero]
  simp

/-- The head of the queue has no predecessor. -/
theorem Kahn.head_free (h : Kahn succ todo deg (u :: queue)) : u ∈ todo ∧ ∀ v ∈ todo, u ∉ succ v := by
  obtain ⟨hu, hzero⟩ := (h.queue_iff u).mp List.mem_cons_self
  exact ⟨hu, (h.deg_eq_zero_iff u).mp hzero⟩

theorem Kahn.deg_step (h : Kahn succ todo deg (u :: queue)) (t : α) :
    (todo.erase u).countP (fun v => t ∈ succ v) = if t ∈ succ u then deg t - 1 else deg t := by
  rw [List.countP_erase, ← h.deg_eq]
  by_cases ht : t ∈ succ u
  · simp [ht, h.head_free.1]
  · simp [ht]

/-- **A round keeps the invariant.** -/
theorem Kahn.step (h : Kahn succ todo deg (u :: queue)) :
    Kahn succ (todo.erase u) ((succ u).foldl relax (deg, queue)).1
      ((succ u).foldl relax (deg, queue)).2 := by
  obtain ⟨hu, hfree⟩ := h.head_free
  obtain ⟨hqueue, hnodup⟩ := List.nodup_cons.mp h.queue_nodup
  -- an edge from `u` leads to a node that is counted, and is not in the queue
  have hpos : ∀ t ∈ succ u, deg t ≠ 0 := fun t ht hzero => (h.deg_eq_zero_iff t).mp hzero u hu ht
  rw [foldl_relax _ (h.succ_nodup u hu)]
  exact {
    nodup := h.nodup.erase u
    succ_nodup := fun v hv => h.succ_nodup v (List.mem_of_mem_erase hv)
    closed := by
      intro v hv t ht
      have hmem := List.mem_of_mem_erase hv
      have hne : t ≠ u := fun heq => hfree v hmem (heq ▸ ht)
      exact (List.mem_erase_of_ne hne).mpr (h.closed v hmem t ht)
    deg_eq := fun t => (h.deg_step t).symm
    queue_nodup := by
      rw [List.nodup_append']
      refine ⟨hnodup, (h.succ_nodup u hu).filter _, fun t hold hnew => ?_⟩
      have ht := (List.mem_filter.mp hnew).1
      exact hpos t ht ((h.queue_iff t).mp (List.mem_cons_of_mem u hold)).2
    queue_iff := by
      intro t
      show t ∈ queue ++ _ ↔ t ∈ todo.erase u ∧ (if t ∈ succ u then _ else _) = 0
      rw [List.mem_append, List.mem_filter, h.nodup.mem_erase_iff, decide_eq_true_iff]
      have hold := h.queue_iff t
      rw [List.mem_cons] at hold
      by_cases ht : t ∈ succ u
      · have hnot : t ∉ queue := fun hmem => hpos t ht (hold.mp (.inr hmem)).2
        have hne : t ≠ u := fun heq => hfree u hu (heq ▸ ht)
        simp [ht, hnot, hne, h.closed u hu t ht]
      · rw [if_neg ht]
        simp only [ht, false_and, or_false]
        by_cases hne : t = u
        · subst hne
          simp [hqueue]
        · simpa [hne] using hold }

/-! ### The result -/

/-- When the queue is empty, there is a cycle among the nodes that are left. -/
theorem Kahn.acyclic_iff_of_nil (h : Kahn succ todo deg []) :
    Acyclic (EdgeFrom succ todo) ↔ todo = [] := by
  constructor
  · intro hacyclic
    by_contra hne
    refine not_acyclic_of_predecessors hne (fun t ht => ?_) hacyclic
    by_contra hnone
    have hzero : deg t = 0 := (h.deg_eq_zero_iff t).mpr fun v hv hmem => hnone ⟨v, hv, hv, hmem⟩
    exact List.not_mem_nil ((h.queue_iff t).mpr ⟨ht, hzero⟩)
  · rintro rfl a hcycle
    obtain ⟨v, -, hv, -⟩ := Relation.TransGen.tail'_iff.mp hcycle
    exact List.not_mem_nil hv

/-- **Kahn's algorithm is exact**: it ends, and has taken all nodes exactly if there is no cycle. -/
theorem kahn_spec {fuel visited : Nat} (h : Kahn succ todo deg queue) (hfuel : todo.length ≤ fuel) :
    ∃ count, kahn succ fuel deg queue visited = some count ∧ count ≤ visited + todo.length ∧
      (count = visited + todo.length ↔ Acyclic (EdgeFrom succ todo)) := by
  induction fuel generalizing todo deg queue visited with
  | zero =>
    have htodo : todo = [] := List.eq_nil_of_length_eq_zero (by omega)
    subst htodo
    cases queue with
    | nil => exact ⟨visited, rfl, by omega, iff_of_true rfl (h.acyclic_iff_of_nil.mpr rfl)⟩
    | cons u queue => exact absurd h.head_free.1 List.not_mem_nil
  | succ fuel ih =>
    cases queue with
    | nil =>
      refine ⟨visited, rfl, by omega, ?_⟩
      rw [h.acyclic_iff_of_nil, ← List.length_eq_zero_iff]
      omega
    | cons u queue =>
      obtain ⟨hu, hfree⟩ := h.head_free
      have hlen : (todo.erase u).length + 1 = todo.length := List.length_erase_add_one hu
      obtain ⟨count, hcount, hle, hiff⟩ := @ih (todo.erase u) _ _ (visited + 1) h.step (by omega)
      refine ⟨count, hcount, by omega, ?_⟩
      rw [← acyclic_erase_iff hfree, ← hiff]
      omega

end Vellaveto.Lib
