/-
  WORKFLOW TEMPLATES: the condition `workflow_template` (`vellaveto-engine/src/policy_compile.rs`,
  `context_check.rs`).

  A template lists steps, each a tool and the tools that may come next.  Compilation reads the steps into
  a graph, whose nodes are the governed tools, and refuses one with a cycle (Kahn's algorithm).  When a
  governed tool is called, the check looks at the last governed tool of the history only: the call must
  be one of its successors, or an entry point if there is none.

    1. **Compilation** — `parseWorkflow` (shape, sizes, names), `compileWorkflowTemplate`.
    2. **The graph of the steps** — `Represents`: what the parsed graph has to do with the steps.
    3. **Cycles** — `workflow_cycles_exact`: compilation ends, accepts exactly the acyclic templates, and
       the entry points are the governed tools without a predecessor.
    4. **Runs** — `workflow_runs_are_paths`: the governed tools of a history are a path of the graph
       that begins at an entry point, though each call is checked against one other only.
-/
import Mathlib.Data.Finset.Sort
import Mathlib.Data.List.Chain
import Mathlib.Data.String.Basic
import Vellaveto.Engine.ActionSequence
import Vellaveto.Lib.Kahn

namespace Vellaveto

open Vellaveto.Lib

/-! ### Compilation -/

/-- `MAX_WORKFLOW_STEPS`. -/
def maxWorkflowSteps : Nat := 50

/-- `MAX_SUCCESSORS_PER_STEP`. -/
def maxSuccessorsPerStep : Nat := 50

/-- The graph of a template. -/
structure WorkflowGraph where
  adjacency : AList fun _ : String => List String
  governedTools : Finset String

/-- A step more. -/
def WorkflowGraph.addStep (graph : WorkflowGraph) (tool : String) (successors : List String) :
    WorkflowGraph :=
  ⟨graph.adjacency.insert tool successors,
    insert tool graph.governedTools ∪ successors.toFinset⟩

/-- `CompiledContextCondition::WorkflowTemplate`. -/
structure WorkflowTemplate extends WorkflowGraph where
  entryPoints : List String
  strict : Bool
  denyReason : String

/-- The order in which a hash set is iterated over: any. -/
structure IterationOrder where
  toList : Finset String → List String
  nodup : ∀ s, (toList s).Nodup
  mem_iff : ∀ s t, t ∈ toList s ↔ t ∈ s

section Parse

variable (ext : Externals) (policy : Policy)

/-- An entry of the `then` array of step `i`. -/
def compileSuccessor (i : Nat) (entry : Json × Nat) : Except PolicyValidationError String :=
  let j := entry.2
  compileToolName ext policy s!"workflow_template steps[{i}].then[{j}]" "is" entry.1

/-- A successor is pushed once. -/
def pushNew (successors : List String) (name : String) : List String :=
  if name ∈ successors then successors else successors ++ [name]

/-- One step.  The tools of the steps before it (`seen_tools`) are the keys of `adjacency`. -/
def compileWorkflowStep (graph : WorkflowGraph) (step : Json × Nat) :
    Except PolicyValidationError WorkflowGraph :=
  let i := step.2
  if step.1.asObject.isNone then
    .error (conditionError policy s!"workflow_template steps[{i}] must be an object")
  else do
    let tool ← requireField policy step.1 Json.asStr "tool"
      s!"workflow_template steps[{i}] requires a 'tool' string"
    checkToolName policy s!"workflow_template steps[{i}].tool" "is" tool
    let toolLower := ext.normalizeFull tool
    if toolLower ∈ graph.adjacency.keys then
      .error (conditionError policy s!"workflow_template has duplicate step tool '{tool}'")
    else do
      let thenArr ← requireField policy step.1 Json.asArray "then"
        s!"workflow_template steps[{i}] requires a 'then' array"
      let count := thenArr.length
      if maxSuccessorsPerStep < count then
        .error (conditionError policy <|
          s!"workflow_template steps[{i}].then has {count} entries, max is {maxSuccessorsPerStep}")
      else do
        let names ← thenArr.zipIdx.mapM (compileSuccessor ext policy i)
        .ok (graph.addStep toolLower (names.foldl pushNew []))

/-- The field `enforce`. -/
def compileEnforce (obj : Json) : Except PolicyValidationError Bool :=
  match ((obj.get "enforce").bind Json.asStr).getD "strict" with
  | "strict" => .ok true
  | "warn" => .ok false
  | other => .error (conditionError policy <|
      s!"workflow_template enforce must be 'strict' or 'warn', got '{other}'")

/-- The part of `compile_workflow_template` that reads the condition: the checks of its shape, sizes and
    names. -/
def parseWorkflow (obj : Json) : Except PolicyValidationError (WorkflowGraph × Bool) := do
  let steps ← requireField policy obj Json.asArray "steps" "workflow_template requires a 'steps' array"
  let count := steps.length
  if steps.isEmpty then .error (conditionError policy "workflow_template steps must not be empty")
  else if maxWorkflowSteps < count then
    .error (conditionError policy s!"workflow_template has {count} steps (max {maxWorkflowSteps})")
  else do
    let strict ← compileEnforce policy obj
    let graph ← steps.zipIdx.foldlM (compileWorkflowStep ext policy) ⟨∅, ∅⟩
    .ok (graph, strict)

end Parse

namespace WorkflowGraph

variable (graph : WorkflowGraph)

/-- The successors of all steps, one list after the other. -/
def allSuccessors : List String := graph.adjacency.entries.flatMap fun e => e.2

/-- The successors of a tool. -/
def successors (tool : String) : List String := (graph.adjacency.lookup tool).getD []

theorem successors_addStep_self (tool : String) (succs : List String) :
    (graph.addStep tool succs).successors tool = succs := by
  rw [successors, addStep, AList.lookup_insert]
  rfl

theorem successors_addStep_of_ne {u tool : String} (succs : List String) (h : u ≠ tool) :
    (graph.addStep tool succs).successors u = graph.successors u := by
  rw [successors, addStep, AList.lookup_insert_ne h]
  rfl

/-- The governed tools without a predecessor, in order. -/
def entryPoints : List String :=
  (graph.governedTools.filter fun t => t ∉ graph.allSuccessors.toFinset).sort

/-- `in_degree`; every successor is governed, so it has an entry. -/
def inDegree : String → Nat :=
  graph.allSuccessors.foldl (fun deg s => Function.update deg s (deg s + 1)) fun _ => 0

/-- `visited_count` at the end of the loop, with one round of it for each tool. -/
def visitedCount (order : IterationOrder) : Option Nat :=
  let queue := (order.toList graph.governedTools).filter fun t => graph.inDegree t = 0
  kahn graph.successors graph.governedTools.card graph.inDegree queue 0

end WorkflowGraph

/-- `compile_workflow_template`; `none` if the loop does not end. -/
def compileWorkflowTemplate (ext : Externals) (order : IterationOrder) (policy : Policy) (obj : Json) :
    Option (Except PolicyValidationError WorkflowTemplate) :=
  match parseWorkflow ext policy obj with
  | .error e => some (.error e)
  | .ok (graph, strict) =>
    if graph.entryPoints.isEmpty then
      some (.error (conditionError policy "workflow_template has no entry points (implies cycle)"))
    else
      (graph.visitedCount order).map fun visitedCount =>
        if visitedCount < graph.governedTools.card then
          .error (conditionError policy "workflow_template contains a cycle")
        else
          let policyName := policy.name
          .ok { toWorkflowGraph := graph, entryPoints := graph.entryPoints, strict := strict,
                denyReason := s!"Workflow template violation for policy '{policyName}'" }

/-! ### Evaluation -/

section Check

variable (ext : Externals) (template : WorkflowTemplate)

/-- The most recent governed tool of the history. -/
def lastGoverned (previousActions : List String) : Option String :=
  (previousActions.reverse.find? fun h => ext.normalizeFull h ∈ template.governedTools).map
    ext.normalizeFull

/-- Does the call leave the workflow? -/
def workflowViolation (previousActions : List String) (tool : String) : Bool :=
  match lastGoverned ext template previousActions with
  | none => !template.entryPoints.any fun ep => ep == tool
  | some prev =>
    match template.adjacency.lookup prev with
    | some successors => !successors.any fun s => s == tool
    | none => true

/-- The arm of `check_context_conditions` for a workflow template; in warn mode a violation is only
    logged. -/
def checkWorkflowTemplate (previousActions : List String) (currentTool : String) : Option Verdict :=
  let tool := ext.normalizeFull currentTool
  if tool ∉ template.governedTools then none
  else if workflowViolation ext template previousActions tool ∧ template.strict then
    some (.deny template.denyReason)
  else none

end Check

/-! ### The graph of the steps -/

section Steps

variable (ext : Externals)

/-- The normalized tool of a step. -/
def stepTool (step : Json) : Option String :=
  ((step.get "tool").bind Json.asStr).map ext.normalizeFull

/-- The normalized tools that may come after it. -/
def stepThen (step : Json) : List String :=
  (((step.get "then").bind Json.asArray).getD []).filterMap fun v => v.asStr.map ext.normalizeFull

/-- An edge of the steps: `t` may come after `u`. -/
def StepEdge (steps : List Json) (u t : String) : Prop :=
  ∃ step ∈ steps, stepTool ext step = some u ∧ t ∈ stepThen ext step

/-- The tools that the steps name. -/
def StepNames (steps : List Json) (t : String) : Prop :=
  ∃ step ∈ steps, stepTool ext step = some t ∨ t ∈ stepThen ext step

end Steps

section Graph

variable {ext : Externals} {policy : Policy}

/-- Pushing keeps the successors apart and forgets none. -/
theorem foldl_pushNew_spec (names successors : List String) (h : successors.Nodup) :
    (names.foldl pushNew successors).Nodup ∧
      ∀ t, t ∈ names.foldl pushNew successors ↔ t ∈ successors ∨ t ∈ names := by
  induction names generalizing successors with
  | nil => exact ⟨h, by simp⟩
  | cons name names ih =>
    rw [List.foldl_cons, pushNew]
    split
    · rename_i hold
      obtain ⟨hnodup, hmem⟩ := ih successors h
      refine ⟨hnodup, fun t => ?_⟩
      rw [hmem, List.mem_cons]
      constructor
      · tauto
      · rintro (ht | rfl | ht)
        · exact .inl ht
        · exact .inl hold
        · exact .inr ht
    · rename_i hnew
      obtain ⟨hnodup, hmem⟩ := ih (successors ++ [name]) (by
        rw [List.nodup_append']
        exact ⟨h, List.nodup_singleton name, by simpa using hnew⟩)
      refine ⟨hnodup, fun t => ?_⟩
      rw [hmem, List.mem_append, List.mem_singleton, List.mem_cons, or_assoc]

/-- **What one step adds**: its tool, which is new, with its successors. -/
theorem compileWorkflowStep_eq_ok {graph graph' : WorkflowGraph} {step : Json × Nat}
    (h : compileWorkflowStep ext policy graph step = .ok graph') :
    ∃ tool successors, stepTool ext step.1 = some tool ∧ tool ∉ graph.adjacency ∧
      successors.Nodup ∧ (∀ t, t ∈ successors ↔ t ∈ stepThen ext step.1) ∧
      graph' = graph.addStep tool successors := by
  rw [compileWorkflowStep] at h
  obtain ⟨-, h⟩ := ite_error_eq_ok_iff.mp h
  obtain ⟨tool, htool, h⟩ := bind_eq_ok_iff.mp h
  obtain ⟨_, -, h⟩ := bind_eq_ok_iff.mp h
  obtain ⟨hnew, h⟩ := ite_error_eq_ok_iff.mp h
  obtain ⟨thenArr, hthen, h⟩ := bind_eq_ok_iff.mp h
  obtain ⟨-, h⟩ := ite_error_eq_ok_iff.mp h
  obtain ⟨names, hnames, h⟩ := bind_eq_ok_iff.mp h
  obtain ⟨tools, rfl, rfl⟩ := names_of_mapM_eq_ok (fun _ _ => compileToolName_eq_ok) hnames
  obtain ⟨hnodup, hmem⟩ := foldl_pushNew_spec (tools.map ext.normalizeFull) [] List.nodup_nil
  refine ⟨ext.normalizeFull tool, _, ?_, hnew, hnodup, fun t => ?_, (Except.ok.inj h).symm⟩
  · rw [stepTool, requireField_eq_ok htool]
    rfl
  · rw [hmem, stepThen, requireField_eq_ok hthen]
    simp

/-- The graph is that of the steps. -/
structure Represents (ext : Externals) (steps : List Json) (graph : WorkflowGraph) : Prop where
  edge_iff : ∀ u t, t ∈ graph.successors u ↔ StepEdge ext steps u t
  governed_iff : ∀ t, t ∈ graph.governedTools ↔ StepNames ext steps t
  keys_subset : ∀ t ∈ graph.adjacency, t ∈ graph.governedTools
  nodup : ∀ u, (graph.successors u).Nodup
  tools : ∀ step ∈ steps, ∃ tool, stepTool ext step = some tool

theorem exists_mem_concat_iff {P : Json → Prop} {steps : List Json} {step : Json} :
    (∃ s ∈ steps ++ [step], P s) ↔ (∃ s ∈ steps, P s) ∨ P step := by
  simp only [List.mem_append, List.mem_singleton]
  constructor
  · rintro ⟨s, hs | rfl, h⟩
    · exact .inl ⟨s, hs, h⟩
    · exact .inr h
  · rintro (⟨s, hs, h⟩ | h)
    · exact ⟨s, .inl hs, h⟩
    · exact ⟨step, .inr rfl, h⟩

theorem Represents.empty : Represents ext [] ⟨∅, ∅⟩ where
  edge_iff _ _ := iff_of_false List.not_mem_nil fun ⟨_, hstep, _⟩ => List.not_mem_nil hstep
  governed_iff t := iff_of_false (Finset.notMem_empty t) fun ⟨_, hstep, _⟩ => List.not_mem_nil hstep
  keys_subset t ht := absurd ht (AList.notMem_empty t)
  nodup _ := List.nodup_nil
  tools _ hstep := absurd hstep List.not_mem_nil

/-- One step keeps the correspondence. -/
theorem Represents.step {steps : List Json} {graph graph' : WorkflowGraph} {step : Json × Nat}
    (h : Represents ext steps graph) (hstep : compileWorkflowStep ext policy graph step = .ok graph') :
    Represents ext (steps ++ [step.1]) graph' := by
  obtain ⟨tool, successors, htool, hnew, hnodup, hmem, rfl⟩ := compileWorkflowStep_eq_ok hstep
  have hold : graph.successors tool = [] := by
    rw [WorkflowGraph.successors, AList.lookup_eq_none.mpr hnew]
    rfl
  constructor
  · intro u t
    rw [StepEdge, exists_mem_concat_iff, ← StepEdge, htool, ← h.edge_iff, ← hmem]
    by_cases hu : u = tool
    · subst hu
      simp [graph.successors_addStep_self, hold]
    · have hne : ¬ tool = u := fun heq => hu heq.symm
      simp [graph.successors_addStep_of_ne _ hu, hne]
  · intro t
    rw [StepNames, exists_mem_concat_iff, ← StepNames, htool, ← h.governed_iff, ← hmem]
    show t ∈ insert tool graph.governedTools ∪ successors.toFinset ↔ _
    rw [Finset.mem_union, Finset.mem_insert, List.mem_toFinset, Option.some_inj, eq_comm]
    tauto
  · intro t ht
    show t ∈ insert tool graph.governedTools ∪ successors.toFinset
    apply Finset.mem_union_left
    rcases (AList.mem_insert _).mp ht with rfl | ht
    · exact Finset.mem_insert_self _ _
    · exact Finset.mem_insert_of_mem (h.keys_subset t ht)
  · intro u
    by_cases hu : u = tool
    · subst hu
      rw [graph.successors_addStep_self]
      exact hnodup
    · rw [graph.successors_addStep_of_ne _ hu]
      exact h.nodup u
  · intro s hs
    rcases List.mem_append.mp hs with hs | hs
    · exact h.tools s hs
    · rw [List.mem_singleton.mp hs]
      exact ⟨tool, htool⟩

/-- **The graph that is read is that of all steps.** -/
theorem Represents.foldlM {done steps : List Json} {graph graph' : WorkflowGraph} {n : Nat}
    (h : Represents ext done graph)
    (hfold : (steps.zipIdx n).foldlM (compileWorkflowStep ext policy) graph = .ok graph') :
    Represents ext (done ++ steps) graph' := by
  induction steps generalizing done graph n with
  | nil =>
    cases hfold
    rw [List.append_nil]
    exact h
  | cons step steps ih =>
    rw [List.zipIdx_cons, List.foldlM_cons] at hfold
    obtain ⟨graph₁, hstep, hrest⟩ := bind_eq_ok_iff.mp hfold
    have := ih (h.step hstep) hrest
    rwa [List.append_assoc] at this

/-- What parsing a template says of its steps. -/
theorem parseWorkflow_eq_ok {obj : Json} {graph : WorkflowGraph} {strict : Bool}
    (h : parseWorkflow ext policy obj = .ok (graph, strict)) :
    ∃ steps, (obj.get "steps").bind Json.asArray = some steps ∧ steps ≠ [] ∧
      Represents ext steps graph := by
  rw [parseWorkflow] at h
  obtain ⟨steps, hsteps, h⟩ := bind_eq_ok_iff.mp h
  obtain ⟨hne, h⟩ := ite_error_eq_ok_iff.mp h
  obtain ⟨-, h⟩ := ite_error_eq_ok_iff.mp h
  obtain ⟨_, -, h⟩ := bind_eq_ok_iff.mp h
  obtain ⟨graph', hgraph, h⟩ := bind_eq_ok_iff.mp h
  cases h
  refine ⟨steps, requireField_eq_ok hsteps, fun hnil => hne (by rw [hnil]; rfl), ?_⟩
  exact Represents.empty.foldlM hgraph

end Graph

/-! ### Cycles -/

section Cycles

variable {ext : Externals} {steps : List Json} {graph : WorkflowGraph}

theorem mem_successors_iff (u t : String) :
    t ∈ graph.successors u ↔ ∃ succs, ⟨u, succs⟩ ∈ graph.adjacency.entries ∧ t ∈ succs := by
  rw [WorkflowGraph.successors]
  constructor
  · intro h
    cases hlookup : graph.adjacency.lookup u with
    | none =>
      rw [hlookup] at h
      cases h
    | some succs =>
      rw [hlookup] at h
      exact ⟨succs, AList.mem_lookup_iff.mp hlookup, h⟩
  · rintro ⟨succs, hentry, h⟩
    rw [AList.mem_lookup_iff.mpr hentry]
    exact h

theorem mem_allSuccessors_iff (t : String) :
    t ∈ graph.allSuccessors ↔ ∃ u, t ∈ graph.successors u := by
  rw [WorkflowGraph.allSuccessors, List.mem_flatMap]
  constructor
  · rintro ⟨⟨u, succs⟩, hentry, ht⟩
    exact ⟨u, (mem_successors_iff u t).mpr ⟨succs, hentry, ht⟩⟩
  · rintro ⟨u, ht⟩
    obtain ⟨succs, hentry, ht⟩ := (mem_successors_iff u t).mp ht
    exact ⟨⟨u, succs⟩, hentry, ht⟩

/-- **The degree of a tool** is the number of its predecessors. -/
theorem inDegree_eq (h : Represents ext steps graph) {nodes : List String} (hnodup : nodes.Nodup)
    (hkeys : ∀ u ∈ graph.adjacency, u ∈ nodes) (t : String) :
    graph.inDegree t = nodes.countP fun u => t ∈ graph.successors u := by
  have hsuccs : ∀ e ∈ graph.adjacency.entries, graph.successors e.1 = e.2 := by
    rintro ⟨u, succs⟩ he
    rw [WorkflowGraph.successors, AList.mem_lookup_iff.mpr he]
    rfl
  have hentries : ∀ e ∈ graph.adjacency.entries, e.2.Nodup := by
    intro e he
    rw [← hsuccs e he]
    exact h.nodup e.1
  have hperm : (graph.adjacency.keys.filter fun u => t ∈ graph.successors u).Perm
      (nodes.filter fun u => t ∈ graph.successors u) := by
    rw [List.perm_ext_iff_of_nodup (graph.adjacency.keys_nodup.filter _) (hnodup.filter _)]
    intro u
    rw [List.mem_filter, List.mem_filter]
    constructor
    · rintro ⟨hu, ht⟩
      exact ⟨hkeys u hu, ht⟩
    · rintro ⟨-, ht⟩
      obtain ⟨succs, hentry, -⟩ := (mem_successors_iff u t).mp (of_decide_eq_true ht)
      exact ⟨List.mem_keys_of_mem hentry, ht⟩
  calc graph.inDegree t
      = graph.adjacency.entries.countP fun e => t ∈ e.2 := by
        rw [WorkflowGraph.inDegree, foldl_update_add_one, Nat.zero_add, WorkflowGraph.allSuccessors,
          count_flatMap_of_nodup t hentries]
    _ = graph.adjacency.entries.countP fun e => t ∈ graph.successors e.1 := by
        apply List.countP_congr
        intro e he
        rw [hsuccs e he]
    _ = graph.adjacency.keys.countP fun u => t ∈ graph.successors u := by
        rw [AList.keys, List.keys, List.countP_map]
        rfl
    _ = nodes.countP fun u => t ∈ graph.successors u := by
        rw [List.countP_eq_length_filter, List.countP_eq_length_filter, hperm.length_eq]

/-- The loop starts in its invariant. -/
theorem Represents.kahn (h : Represents ext steps graph) (order : IterationOrder) :
    Kahn graph.successors (order.toList graph.governedTools) graph.inDegree
      ((order.toList graph.governedTools).filter fun t => graph.inDegree t = 0) where
  nodup := order.nodup _
  succ_nodup u _ := h.nodup u
  closed u _ t ht := by
    obtain ⟨step, hstep, -, hmem⟩ := (h.edge_iff u t).mp ht
    rw [order.mem_iff, h.governed_iff]
    exact ⟨step, hstep, .inr hmem⟩
  deg_eq t := by
    refine inDegree_eq h (order.nodup _) (fun u hu => ?_) t
    rw [order.mem_iff]
    exact h.keys_subset u hu
  queue_nodup := (order.nodup _).filter _
  queue_iff t := by
    rw [List.mem_filter, decide_eq_true_iff]

theorem IterationOrder.length_toList (order : IterationOrder) (s : Finset String) :
    (order.toList s).length = s.card := by
  have hset : (order.toList s).toFinset = s := by
    ext t
    rw [List.mem_toFinset, order.mem_iff]
  rw [← List.toFinset_card_of_nodup (order.nodup s), hset]

theorem acyclic_stepEdge_iff (h : Represents ext steps graph) (order : IterationOrder) :
    Acyclic (EdgeFrom graph.successors (order.toList graph.governedTools)) ↔
      Acyclic (StepEdge ext steps) := by
  constructor
  · intro hacyclic
    refine hacyclic.mono fun u t hedge => ⟨?_, (h.edge_iff u t).mpr hedge⟩
    obtain ⟨step, hstep, htool, -⟩ := hedge
    rw [order.mem_iff, h.governed_iff]
    exact ⟨step, hstep, .inl htool⟩
  · intro hacyclic
    exact hacyclic.mono fun u t hedge => (h.edge_iff u t).mp hedge.2

/-- **The loop ends**, and visits every tool exactly if the steps have no cycle. -/
theorem visitedCount_spec (h : Represents ext steps graph) (order : IterationOrder) :
    ∃ count, graph.visitedCount order = some count ∧
      (¬ count < graph.governedTools.card ↔ Acyclic (StepEdge ext steps)) := by
  have hlen := order.length_toList graph.governedTools
  obtain ⟨count, hcount, hle, hiff⟩ := @kahn_spec _ _ _ _ _ _ graph.governedTools.card 0 (h.kahn order)
    (by omega)
  refine ⟨count, hcount, ?_⟩
  rw [← acyclic_stepEdge_iff h order, ← hiff]
  omega

/-- **The entry points** are the governed tools without a predecessor. -/
theorem mem_entryPoints_iff (h : Represents ext steps graph) (t : String) :
    t ∈ graph.entryPoints ↔ StepNames ext steps t ∧ ∀ u, ¬ StepEdge ext steps u t := by
  rw [WorkflowGraph.entryPoints, Finset.mem_sort, Finset.mem_filter, h.governed_iff,
    List.mem_toFinset, mem_allSuccessors_iff]
  simp only [h.edge_iff, not_exists]

/-- A graph without entry points has a cycle. -/
theorem entryPoints_ne_nil (h : Represents ext steps graph) (hsteps : steps ≠ [])
    (hacyclic : Acyclic (StepEdge ext steps)) : graph.entryPoints ≠ [] := by
  intro hnil
  have hne : graph.governedTools.toList ≠ [] := by
    intro hempty
    obtain ⟨step, hstep⟩ := List.exists_mem_of_ne_nil steps hsteps
    obtain ⟨tool, htool⟩ := h.tools step hstep
    have hgoverned := (h.governed_iff tool).mpr ⟨step, hstep, .inl htool⟩
    rw [← Finset.mem_toList, hempty] at hgoverned
    exact List.not_mem_nil hgoverned
  refine not_acyclic_of_predecessors hne (fun s hs => ?_) hacyclic
  by_contra hnone
  have hentry : s ∈ graph.entryPoints := by
    rw [mem_entryPoints_iff h]
    refine ⟨(h.governed_iff s).mp (Finset.mem_toList.mp hs), fun u hedge => hnone ⟨u, ?_, hedge⟩⟩
    obtain ⟨step, hstep, htool, -⟩ := hedge
    rw [Finset.mem_toList, h.governed_iff]
    exact ⟨step, hstep, .inl htool⟩
  rw [hnil] at hentry
  exact List.not_mem_nil hentry

end Cycles

/-- **Cycle detection is exact.**  If a template passes the checks of its shape, sizes and names, then
    whatever the iteration order, its compilation ends; it is accepted exactly if the graph of its
    normalized steps has no cycle, and then the entry points are the governed tools without an incoming
    edge. -/
theorem workflow_cycles_exact (ext : Externals) (order : IterationOrder) (policy : Policy) (obj : Json)
    (steps : List Json) (graph : WorkflowGraph) (strict : Bool)
    (hsteps : (obj.get "steps").bind Json.asArray = some steps)
    (hchecks : parseWorkflow ext policy obj = .ok (graph, strict)) :
    ∃ result, compileWorkflowTemplate ext order policy obj = some result ∧
      ((∃ template, result = .ok template) ↔ Acyclic (StepEdge ext steps)) ∧
      ∀ template, result = .ok template → ∀ t, t ∈ template.entryPoints ↔
        t ∈ template.governedTools ∧ ∀ u, ¬ StepEdge ext steps u t := by
  obtain ⟨steps', hsteps', hne, h⟩ := parseWorkflow_eq_ok hchecks
  cases hsteps.symm.trans hsteps'
  obtain ⟨count, hcount, hiff⟩ := visitedCount_spec h order
  rw [compileWorkflowTemplate, hchecks]
  dsimp only
  by_cases hempty : graph.entryPoints.isEmpty = true
  · -- without entry points the loop is not even entered
    rw [if_pos hempty]
    refine ⟨_, rfl, iff_of_false ?_ fun hacyclic => ?_, ?_⟩
    · rintro ⟨template, htemplate⟩
      cases htemplate
    · exact entryPoints_ne_nil h hne hacyclic (List.isEmpty_iff.mp hempty)
    · intro template htemplate
      cases htemplate
  · rw [if_neg hempty, hcount, Option.map_some]
    refine ⟨_, rfl, ?_, ?_⟩
    · rw [← hiff]
      split
      · rename_i hlt
        exact iff_of_false (by rintro ⟨template, htemplate⟩; cases htemplate) (absurd hlt)
      · rename_i hge
        exact iff_of_true ⟨_, rfl⟩ hge
    · intro template htemplate t
      split at htemplate
      · cases htemplate
      · cases htemplate
        show t ∈ graph.entryPoints ↔ t ∈ graph.governedTools ∧ _
        rw [mem_entryPoints_iff h, h.governed_iff]

/-- The set of a template, in order. -/
def sortedOrder : IterationOrder where
  toList s := s.sort
  nodup s := s.sort_nodup _
  mem_iff s t := Finset.mem_sort _

/-- A step of a template. -/
def jsonStep (tool : String) (next : List String) : Json :=
  .object [("tool", .string tool), ("then", .array (next.map .string))]

/-- Two steps whose tools are one name after normalization. -/
def loopSteps : List Json := [jsonStep "read" ["send", "Send"], jsonStep "send" ["READ"]]

theorem workflow_cycles_loop :
    ∃ graph, parseWorkflow plainExternals ⟨"p", "p", .allow, 0, none, none⟩
        (.object [("steps", .array loopSteps)]) = .ok (graph, true) ∧
      ∃ result, compileWorkflowTemplate plainExternals sortedOrder ⟨"p", "p", .allow, 0, none, none⟩
          (.object [("steps", .array loopSteps)]) = some result ∧
        ((∃ template, result = .ok template) ↔ Acyclic (StepEdge plainExternals loopSteps)) ∧
        ∀ template, result = .ok template → ∀ t, t ∈ template.entryPoints ↔
          t ∈ template.governedTools ∧ ∀ u, ¬ StepEdge plainExternals loopSteps u t :=
  ⟨_, rfl, workflow_cycles_exact _ _ _ _ _ _ _ rfl rfl⟩

/-! ### Runs -/

section Runs

variable (ext : Externals) (template : WorkflowTemplate)

/-- A call: it is appended to the history if the template lets it through. -/
def workflowCall (history : List String) (tool : String) : List String :=
  if checkWorkflowTemplate ext template history tool = none then history ++ [tool] else history

/-- The governed tools of a history. -/
def governedHistory (history : List String) : List String :=
  (history.map ext.normalizeFull).filter fun t => t ∈ template.governedTools

/-- A path of the template that begins at an entry point. -/
def IsWorkflowPath (tools : List String) : Prop :=
  (∀ t ∈ tools.head?, t ∈ template.entryPoints) ∧
    tools.IsChain fun u t => t ∈ template.successors u

variable {ext template}

theorem lastGoverned_eq_getLast? (history : List String) :
    lastGoverned ext template history = (governedHistory ext template history).getLast? := by
  rw [lastGoverned, governedHistory, List.getLast?_eq_head?_reverse, ← List.filter_reverse,
    ← List.map_reverse, List.filter_map, List.head?_map, List.head?_filter]
  rfl

/-- What a call that is no violation may come after. -/
theorem workflowViolation_eq_false_iff {history : List String} {tool : String} :
    workflowViolation ext template history tool = false ↔
      match (governedHistory ext template history).getLast? with
      | none => tool ∈ template.entryPoints
      | some prev => tool ∈ template.successors prev := by
  rw [workflowViolation, lastGoverned_eq_getLast?]
  cases (governedHistory ext template history).getLast? with
  | none => simp
  | some prev =>
    show (match template.adjacency.lookup prev with | some succs => _ | none => _) = false ↔
      tool ∈ (template.adjacency.lookup prev).getD []
    cases template.adjacency.lookup prev with
    | none => simp
    | some succs => simp

/-- A call that is no violation prolongs the path. -/
theorem IsWorkflowPath.append {history : List String} {tool : String}
    (h : IsWorkflowPath template (governedHistory ext template history))
    (hcall : workflowViolation ext template history tool = false) :
    IsWorkflowPath template (governedHistory ext template history ++ [tool]) := by
  obtain ⟨hentry, hchain⟩ := h
  rw [workflowViolation_eq_false_iff] at hcall
  cases hlast : (governedHistory ext template history).getLast? with
  | none =>
    rw [hlast] at hcall
    rw [List.getLast?_eq_none_iff.mp hlast]
    refine ⟨fun t ht => ?_, List.isChain_singleton tool⟩
    cases ht
    exact hcall
  | some prev =>
    rw [hlast] at hcall
    constructor
    · intro t ht
      apply hentry t
      rw [List.head?_append] at ht
      cases hhead : (governedHistory ext template history).head? with
      | none =>
        rw [List.head?_eq_none_iff.mp hhead] at hlast
        cases hlast
      | some first =>
        rw [hhead] at ht
        exact ht
    · refine hchain.append (List.isChain_singleton tool) fun u hu t ht => ?_
      cases hlast.symm.trans hu
      cases ht
      exact hcall

/-- **One call.**  If the template is strict, a call that is let through keeps the path, and one that is
    not leaves the history. -/
theorem isWorkflowPath_workflowCall {history : List String} (tool : String)
    (hstrict : template.strict = true)
    (h : IsWorkflowPath template (governedHistory ext template history)) :
    IsWorkflowPath template
      (governedHistory ext template (workflowCall ext template history tool)) := by
  rw [workflowCall]
  split
  · rename_i hpass
    rw [governedHistory, List.map_append, List.filter_append, ← governedHistory, List.map_singleton,
      List.filter_singleton]
    by_cases hmem : ext.normalizeFull tool ∈ template.governedTools
    · rw [decide_eq_true hmem]
      apply h.append
      rw [checkWorkflowTemplate, if_neg (not_not.mpr hmem)] at hpass
      by_contra hviolation
      rw [Bool.not_eq_false] at hviolation
      rw [if_pos ⟨hviolation, hstrict⟩] at hpass
      cases hpass
    · -- a tool that is not governed does not count
      rw [decide_eq_false hmem, cond_false, List.append_nil]
      exact h
  · exact h

end Runs

/-- **Whole runs follow the workflow.**  From the empty history, whatever the calls are, the governed
    tools among those that a strict template has let through are a path of the template that begins at an
    entry point. -/
theorem workflow_runs_are_paths (ext : Externals) (template : WorkflowTemplate)
    (hstrict : template.strict = true) (tools : List String) :
    IsWorkflowPath template
      (governedHistory ext template (tools.foldl (workflowCall ext template) [])) := by
  have hempty : IsWorkflowPath template (governedHistory ext template []) :=
    ⟨fun _ ht => (nomatch ht), List.isChain_nil⟩
  refine List.foldlRecOn (motive := fun h => IsWorkflowPath template (governedHistory ext template h))
    tools (workflowCall ext template) hempty ?_
  intro history h tool _
  exact isWorkflowPath_workflowCall tool hstrict h

/-- First read, then send. -/
def readSend : WorkflowTemplate :=
  { toWorkflowGraph := WorkflowGraph.addStep ⟨∅, ∅⟩ "read" ["send"], entryPoints := ["read"],
    strict := true, denyReason := "Workflow template violation for policy 'p'" }

theorem workflow_run_readSend :
    ["send", "list", "Read", "list", "read", "SEND"].foldl (workflowCall plainExternals readSend) [] =
        ["list", "Read", "list", "SEND"] ∧
      IsWorkflowPath readSend (governedHistory plainExternals readSend
        (["send", "list", "Read", "list", "read", "SEND"].foldl
          (workflowCall plainExternals readSend) [])) :=
  ⟨by decide, workflow_runs_are_paths plainExternals readSend rfl _⟩

end Vellaveto
