/-
  DATA FLOW (`vellaveto-discovery/src/topology.rs`: `downstream`, `upstream`).

  PROGRAM.  Two breadth-first searches along the `DataFlow` edges, one with them and one against them.

  SPEC.  `FlowsTo`: there is a chain of `DataFlow` edges, of one edge or more.

  CORRECTNESS.  `downstream` and `upstream` list exactly this relation and its converse, each name once and in
  order (`flow_closure_exact`); a graph may have loops.
-/
import Vellaveto.Discovery.Fingerprint
import Vellaveto.Lib.Reach

namespace Vellaveto.Discovery

open Vellaveto.Lib Vellaveto.Json

/-! ## The program -/

def TopologyEdge.isDataFlow : TopologyEdge → Bool
  | .dataFlow _ _ _ _ => true
  | _ => false

namespace TopologyGraph

variable (g : TopologyGraph)

/-- The targets of the `DataFlow` edges from a node, the newest edge first. -/
def dataFlowTargets (i : Nat) : List Nat :=
  ((g.edges.filter fun e => e.source = i && e.weight.isDataFlow).map (·.target)).reverse

/-- The sources of the `DataFlow` edges to a node, in the order of all edges. -/
def dataFlowSources (j : Nat) : List Nat :=
  (g.edges.filter fun e => e.target = j && e.weight.isDataFlow).map (·.source)

/-- The search of `downstream` and `upstream`: the sorted names of what it reaches. -/
def namesReached (next : Nat → List Nat) (qualified : String) : List String :=
  match g.index.lookup qualified with
  | none => []
  | some start => ((Reach.reachedFrom next (g.nodes.length + 1) start).map g.nameAt).insertionSort (· ≤ ·)

/-- `TopologyGraph::downstream`. -/
def downstream (qualified : String) : List String := g.namesReached g.dataFlowTargets qualified

/-- `TopologyGraph::upstream`. -/
def upstream (qualified : String) : List String := g.namesReached g.dataFlowSources qualified

end TopologyGraph

/-! ## Data flow -/

section Flow

variable {g : TopologyGraph}

/-- A `DataFlow` edge between two positions. -/
def Flows (g : TopologyGraph) (i j : Nat) : Prop :=
  ∃ e ∈ g.edges, e.source = i ∧ e.target = j ∧ e.weight.isDataFlow = true

/-- **A chain of data flows** between two names. -/
def FlowsTo (g : TopologyGraph) (x y : String) : Prop :=
  ∃ i j, g.index.lookup x = some i ∧ g.index.lookup y = some j ∧ Relation.TransGen (Flows g) i j

theorem mem_dataFlowTargets {i j : Nat} : j ∈ g.dataFlowTargets i ↔ Flows g i j := by
  simp only [TopologyGraph.dataFlowTargets, List.mem_reverse, List.mem_map, List.mem_filter, Bool.and_eq_true,
    decide_eq_true_eq, Flows]
  constructor
  · rintro ⟨e, ⟨he, hsource, hflow⟩, htarget⟩
    exact ⟨e, he, hsource, htarget, hflow⟩
  · rintro ⟨e, he, hsource, htarget, hflow⟩
    exact ⟨e, ⟨he, hsource, hflow⟩, htarget⟩

theorem mem_dataFlowSources {i j : Nat} : i ∈ g.dataFlowSources j ↔ Flows g i j := by
  simp only [TopologyGraph.dataFlowSources, List.mem_map, List.mem_filter, Bool.and_eq_true, decide_eq_true_eq, Flows]
  constructor
  · rintro ⟨e, ⟨he, htarget, hflow⟩, hsource⟩
    exact ⟨e, he, hsource, htarget, hflow⟩
  · rintro ⟨e, he, hsource, htarget, hflow⟩
    exact ⟨e, ⟨he, htarget, hflow⟩, hsource⟩

theorem lookup_nameAt (hg : g.WellFormed) {i : Nat} (hi : i < g.nodes.length) :
    g.index.lookup (g.nameAt i) = some i := by
  refine (hg.index _ i).mpr ⟨g.nodes[i], List.getElem?_eq_getElem hi, ?_⟩
  rw [TopologyGraph.nameAt, List.getElem?_eq_getElem hi]
  rfl

theorem lt_of_lookup (hg : g.WellFormed) {q : String} {i : Nat} (h : g.index.lookup q = some i) :
    i < g.nodes.length := by
  obtain ⟨n, hn, -⟩ := (hg.index q i).mp h
  exact (List.getElem?_eq_some_iff.mp hn).1

/-- The search along any edges that stay in the graph. -/
theorem namesReached_spec (hg : g.WellFormed) {next : Nat → List Nat}
    (hnext : ∀ i < g.nodes.length, ∀ j ∈ next i, j < g.nodes.length) (x : String) :
    (g.namesReached next x).Nodup ∧ (g.namesReached next x).Pairwise (· ≤ ·) ∧
      ∀ y, y ∈ g.namesReached next x ↔ ∃ i j, g.index.lookup x = some i ∧ g.index.lookup y = some j ∧
        Relation.TransGen (fun i j => j ∈ next i) i j := by
  rw [TopologyGraph.namesReached]
  cases hx : g.index.lookup x with
  | none => simp
  | some start =>
    dsimp only
    have hclosed : ∀ i ∈ Finset.range g.nodes.length, ∀ j ∈ next i, j ∈ Finset.range g.nodes.length :=
      fun i hi j hj => Finset.mem_range.mpr (hnext i (Finset.mem_range.mp hi) j hj)
    have hstart : start ∈ Finset.range g.nodes.length := Finset.mem_range.mpr (lt_of_lookup hg hx)
    have hfuel : (Finset.range g.nodes.length).card < g.nodes.length + 1 := by
      rw [Finset.card_range]
      exact Nat.lt_succ_self _
    have hreach := Reach.mem_reachedFrom_iff hclosed hstart hfuel
    have hrange : ∀ j ∈ Reach.reachedFrom next (g.nodes.length + 1) start, j < g.nodes.length := by
      intro j hj
      obtain ⟨i, hi, hstep⟩ : ∃ i, i < g.nodes.length ∧ j ∈ next i := by
        have hpath := (hreach j).mp hj
        clear hj
        induction hpath with
        | single hstep => exact ⟨start, Finset.mem_range.mp hstart, hstep⟩
        | tail _ hstep ih =>
          obtain ⟨i, hi, hprev⟩ := ih
          exact ⟨_, hnext i hi _ hprev, hstep⟩
      exact hnext i hi j hstep
    refine ⟨?_, List.pairwise_insertionSort _ _, fun y => ?_⟩
    · refine (List.perm_insertionSort _ _).nodup_iff.mpr ((Reach.nodup_reachedFrom hclosed hstart hfuel).map_on ?_)
      intro i hi j hj heq
      have hsame := (lookup_nameAt hg (hrange i hi)).symm.trans (heq ▸ lookup_nameAt hg (hrange j hj))
      exact Option.some.inj hsame
    · rw [List.mem_insertionSort, List.mem_map]
      constructor
      · rintro ⟨j, hj, rfl⟩
        exact ⟨start, j, rfl, lookup_nameAt hg (hrange j hj), (hreach j).mp hj⟩
      · rintro ⟨i, j, hi, hy, hpath⟩
        obtain rfl := Option.some.inj hi
        refine ⟨j, (hreach j).mpr hpath, ?_⟩
        obtain ⟨n, hn, hname⟩ := (hg.index y j).mp hy
        rw [TopologyGraph.nameAt, hn]
        exact hname

/-- **The two searches list the chains of data flow**, forwards and backwards, each name once and in order; so what
is downstream of a tool has the tool upstream. -/
theorem flow_closure_exact {number : JsonNumber → List Char} {g : TopologyGraph} (hg : Loaded number g) (x y : String) :
    (y ∈ g.downstream x ↔ FlowsTo g x y) ∧ (x ∈ g.upstream y ↔ FlowsTo g x y) ∧
      ((g.downstream x).Nodup ∧ (g.downstream x).Pairwise (· ≤ ·)) ∧
      ((g.upstream y).Nodup ∧ (g.upstream y).Pairwise (· ≤ ·)) := by
  have hwf := hg.wellFormed
  have hrange : ∀ i j, Flows g i j → i < g.nodes.length ∧ j < g.nodes.length := by
    rintro i j ⟨e, he, rfl, rfl, -⟩
    exact hwf.range e he
  obtain ⟨hdown, hdownSorted, hmemDown⟩ := namesReached_spec hwf
    (fun i _ j hj => (hrange i j (mem_dataFlowTargets.mp hj)).2) x
  obtain ⟨hup, hupSorted, hmemUp⟩ := namesReached_spec hwf
    (fun j _ i hi => (hrange i j (mem_dataFlowSources.mp hi)).1) y
  have hforward : (fun i j => j ∈ g.dataFlowTargets i) = Flows g := by
    funext i j
    exact propext mem_dataFlowTargets
  have hbackward : (fun j i => i ∈ g.dataFlowSources j) = Function.swap (Flows g) := by
    funext j i
    exact propext mem_dataFlowSources
  rw [hforward] at hmemDown
  rw [hbackward] at hmemUp
  refine ⟨hmemDown y, (hmemUp x).trans ?_, ⟨hdown, hdownSorted⟩, hup, hupSorted⟩
  simp only [Relation.transGen_swap]
  constructor
  · rintro ⟨j, i, hy, hx, hpath⟩
    exact ⟨i, j, hx, hy, hpath⟩
  · rintro ⟨i, j, hx, hy, hpath⟩
    exact ⟨j, i, hy, hx, hpath⟩

/-- What is sent can flow back into what is read. -/
def loopGraph : TopologyGraph :=
  (flowGraph.addEdge ⟨2, 4, .dataFlow "text" "body" 0 "name"⟩).addEdge ⟨4, 1, .dataFlow "reply" "path" 0 "name"⟩

theorem length_exampleGraph : exampleGraph.nodes.length = 5 := by
  rw [nodes_exampleGraph]
  rfl

theorem loaded_loopGraph : Loaded plainNumber loopGraph := by
  have hlength : ∀ i < 5, i < exampleGraph.nodes.length := fun i hi => length_exampleGraph ▸ hi
  have hflow : Loaded plainNumber flowGraph :=
    .addEdge (.fromStatic exampleGraph_ok) (fun h => by cases h) (hlength 1 (by decide)) (hlength 2 (by decide))
  have hsend : Loaded plainNumber (flowGraph.addEdge ⟨2, 4, .dataFlow "text" "body" 0 "name"⟩) :=
    .addEdge hflow (fun h => by cases h) (hlength 2 (by decide)) (hlength 4 (by decide))
  exact .addEdge hsend (fun h => by cases h) (hlength 4 (by decide)) (hlength 1 (by decide))

/-- A tool on a loop is downstream of itself. -/
theorem flow_closure_exact_loop :
    loopGraph.downstream "files::read" = ["files::read", "files::write", "mail::send"] ∧
      ("files::read" ∈ loopGraph.downstream "files::read" ↔ FlowsTo loopGraph "files::read" "files::read") :=
  ⟨by decide +kernel, (flow_closure_exact loaded_loopGraph "files::read" "files::read").1⟩

end Flow

end Vellaveto.Discovery
