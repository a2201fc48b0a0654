/-
  THE POLICY ENGINE (`vellaveto-engine/src/lib.rs`: `with_policies`, `build_tool_index`,
  `evaluate_action`, `evaluate_with_compiled`, `apply_compiled_policy`; `policy_compile.rs`:
  `compile_policies`).

  PROGRAM.  Policies are compiled and sorted when the engine is built, and INDEXED by tool name: a
  policy whose tool pattern is an exact name is filed under that name, every other policy is always
  checked.  An action visits the two lists of positions by a two-pointer merge; the first policy that
  matches and gives a verdict decides.

  SPEC.  `linearScan`: every compiled policy in order, without an index.

  CORRECTNESS.  `index_agrees_with_scan`: the index skips no policy that could apply, visits none
  twice and keeps the order, so the result is that of the linear scan.
-/
import Mathlib.Data.List.AList
import Mathlib.Data.List.FinRange
import Vellaveto.Engine.Conditions
import Vellaveto.Engine.Legacy
import Vellaveto.Engine.Order
import Vellaveto.Lib.Merge

namespace Vellaveto

open Vellaveto.Lib

variable {κ : Type}

/-! ## Building an engine -/

/-- The order of compiled policies is that of their policies. -/
def compiledLe (a b : CompiledPolicy κ) : Prop := policyLe a.policy b.policy

instance : DecidableRel (compiledLe (κ := κ)) := fun a b =>
  inferInstanceAs (Decidable (policyLe a.policy b.policy))

/-- `compile_policies`: every policy is compiled; the errors of all of them, or the sorted set. -/
def compilePolicies (env : CompileEnv κ) (policies : List Policy) (strictMode : Bool) :
    Except (List PolicyValidationError) (List (CompiledPolicy κ)) :=
  let results := policies.map (compileSinglePolicy env strictMode)
  let errors := results.filterMap fun r =>
    match r with
    | .error e => some e
    | .ok _ => none
  let compiled := results.filterMap fun r => r.toOption
  if errors.isEmpty then .ok (compiled.insertionSort compiledLe) else .error errors

/-- The tool index over `n` compiled policies.  A position is a `Fin n`, so looking a policy up
    cannot fail. -/
structure ToolIndex (n : Nat) where
  byTool : AList fun _ : String => List (Fin n)
  alwaysCheck : List (Fin n)

/-- The name under which a policy is filed. -/
def CompiledToolMatcher.indexKey : CompiledToolMatcher → Option String
  | .toolOnly (.exact name) => some name
  | .toolAndFunction (.exact name) _ => some name
  | _ => none

namespace ToolIndex

variable {n : Nat}

/-- The positions filed under a tool name. -/
def slice (index : ToolIndex n) (tool : String) : List (Fin n) := (index.byTool.lookup tool).getD []

/-- One iteration of `build_tool_index`. -/
def add (index : ToolIndex n) (matcher : CompiledToolMatcher) (i : Fin n) : ToolIndex n :=
  match matcher.indexKey with
  | some name => { index with byTool := index.byTool.insert name (index.slice name ++ [i]) }
  | none => { index with alwaysCheck := index.alwaysCheck ++ [i] }

def isEmpty (index : ToolIndex n) : Bool := index.byTool.keys.isEmpty && index.alwaysCheck.isEmpty

end ToolIndex

/-- `build_tool_index`. -/
def buildToolIndex (compiled : List (CompiledPolicy κ)) : ToolIndex compiled.length :=
  (List.finRange compiled.length).foldl
    (fun index i => index.add (compiled.get i).toolMatcher i) ⟨∅, []⟩

/-- `PolicyEngine`. -/
structure PolicyEngine (κ : Type) extends Settings where
  compiledPolicies : List (CompiledPolicy κ)
  toolIndex : ToolIndex compiledPolicies.length

/-- `PolicyEngine::new`. -/
def PolicyEngine.new (κ : Type) (strictMode : Bool) : PolicyEngine κ where
  strictMode := strictMode
  maxPathDecodeIterations := Path.defaultMaxPathDecodeIterations
  compiledPolicies := []
  toolIndex := ⟨∅, []⟩

/-- `PolicyEngine::with_policies`. -/
def PolicyEngine.withPolicies (env : CompileEnv κ) (strictMode : Bool) (policies : List Policy) :
    Except (List PolicyValidationError) (PolicyEngine κ) :=
  (compilePolicies env policies strictMode).map fun compiled =>
    { strictMode := strictMode
      maxPathDecodeIterations := Path.defaultMaxPathDecodeIterations
      compiledPolicies := compiled
      toolIndex := buildToolIndex compiled }

/-! ## Applying policies -/

section Apply

variable (ext : Externals) (settings : Settings) (action : Action)

/-- The denial of a policy that needs a context, when there is none. -/
def checkContext (cp : CompiledPolicy κ) : Option Verdict :=
  let count := cp.conditions.contextConditions.length
  if count = 0 then none
  else
    some (.deny <| s!"Policy '{cp.policy.name}' requires evaluation context (has {count} " ++
      "context condition(s)) but none was provided")

/-- `apply_compiled_policy`. -/
def applyCompiledPolicy (cp : CompiledPolicy κ) : Except EngineError (Option Verdict) :=
  orAsk (.ok ((checkRules ext settings action cp).or (checkContext cp))) <|
    match cp.policy.policyType with
    | .allow => .ok (some .allow)
    | .deny => .ok (some (.deny cp.policy.denyReason))
    | .conditional _ => evaluateCompiledConditions ext settings action cp

/-- Does the policy match the action, under normalized names? -/
def CompiledPolicy.matchesAction (cp : CompiledPolicy κ) : Bool :=
  cp.toolMatcher.matchesNormalized (ext.normalizeFull action.tool)
    (ext.normalizeFull action.function)

/-- One policy of the loop: it passes when it does not match. -/
def askCompiledPolicy (cp : CompiledPolicy κ) : Except EngineError (Option Verdict) :=
  if cp.matchesAction ext action then applyCompiledPolicy ext settings action cp else .ok none

/-- The verdict when no policy decides. -/
def orNoMatch (d : Except EngineError (Option Verdict)) : Except EngineError Verdict :=
  d.map fun v => v.getD (.deny "No matching policy")

/-- The reference: every compiled policy in order. -/
def linearScan (compiled : List (CompiledPolicy κ)) : Except EngineError Verdict :=
  orNoMatch (firstDecision (askCompiledPolicy ext settings action) compiled)

namespace PolicyEngine

variable (engine : PolicyEngine κ)

/-- The compiled policy at a position. -/
def policyAt (i : Fin engine.compiledPolicies.length) : CompiledPolicy κ :=
  engine.compiledPolicies.get i

/-- `evaluate_with_compiled`. -/
def evaluateWithCompiled : Except EngineError Verdict :=
  let ask := askCompiledPolicy ext engine.toSettings action
  if !engine.toolIndex.isEmpty then
    let normTool := ext.normalizeFull action.tool
    orNoMatch (scanMerged (fun i => ask (engine.policyAt i)) (engine.toolIndex.slice normTool)
      engine.toolIndex.alwaysCheck)
  else orNoMatch (firstDecision ask engine.compiledPolicies)

/-- `evaluate_action`: compiled policies if there are any, else the policies passed ad hoc. -/
def evaluateAction (policies : List Policy) : Except EngineError Verdict :=
  if !engine.compiledPolicies.isEmpty then engine.evaluateWithCompiled ext action
  else if policies.isEmpty then .ok (.deny "No policies defined")
  else
    let ask := Legacy.askPolicy ext engine.toSettings action
    if isSorted policies then orNoMatch (firstDecision ask policies)
    else orNoMatch (firstDecision ask (sortPolicies policies))

/-- `collect_candidate_indices_normalized`. -/
def collectCandidateIndices (normTool : String) : List (Fin engine.compiledPolicies.length) :=
  if engine.toolIndex.isEmpty then List.finRange engine.compiledPolicies.length
  else mergeSorted (engine.toolIndex.slice normTool) engine.toolIndex.alwaysCheck

end PolicyEngine

end Apply

/-! ## The index -/

section Index

variable {n : Nat}

@[simp] theorem ToolIndex.slice_insert_self (index : ToolIndex n) (name : String)
    (l : List (Fin n)) :
    ToolIndex.slice { index with byTool := index.byTool.insert name l } name = l := by
  rw [ToolIndex.slice, AList.lookup_insert]
  rfl

theorem ToolIndex.slice_insert_ne (index : ToolIndex n) {name other : String} (l : List (Fin n))
    (hne : other ≠ name) :
    ToolIndex.slice { index with byTool := index.byTool.insert name l } other =
      index.slice other := by
  rw [ToolIndex.slice, AList.lookup_insert_ne hne]
  rfl

/-- Filing a list of positions appends each to the slice of its name. -/
theorem slice_foldl_add (matcher : Fin n → CompiledToolMatcher) (l : List (Fin n))
    (index : ToolIndex n) (name : String) :
    (l.foldl (fun index i => index.add (matcher i) i) index).slice name =
      index.slice name ++ l.filter fun i => (matcher i).indexKey == some name := by
  induction l generalizing index with
  | nil => simp
  | cons i l ih =>
    rw [List.foldl_cons, ih, ToolIndex.add]
    cases hkey : (matcher i).indexKey with
    | none =>
      rw [List.filter_cons_of_neg (by simp [hkey])]
      rfl
    | some key =>
      by_cases hname : name = key
      · subst hname
        rw [List.filter_cons_of_pos (by simp [hkey])]
        simp
      · have hne : ¬ (some key == some name) = true := by simpa using fun h => hname h.symm
        rw [List.filter_cons_of_neg (by rw [hkey]; exact hne),
          ToolIndex.slice_insert_ne index _ hname]

theorem alwaysCheck_foldl_add (matcher : Fin n → CompiledToolMatcher) (l : List (Fin n))
    (index : ToolIndex n) :
    (l.foldl (fun index i => index.add (matcher i) i) index).alwaysCheck =
      index.alwaysCheck ++ l.filter fun i => (matcher i).indexKey == none := by
  induction l generalizing index with
  | nil => simp
  | cons i l ih =>
    rw [List.foldl_cons, ih, ToolIndex.add]
    cases hkey : (matcher i).indexKey with
    | none =>
      rw [List.filter_cons_of_pos (by simp [hkey])]
      simp
    | some key =>
      rw [List.filter_cons_of_neg (by simp [hkey])]

/-- A matcher that matches a tool is filed under that tool, or always checked. -/
theorem indexKey_of_matches {m : CompiledToolMatcher} {tool function : String}
    (hm : m.matchesNormalized tool function = true) :
    m.indexKey = some tool ∨ m.indexKey = none := by
  have hexact : ∀ s, (PatternMatcher.exact s).matchesValue tool = true → s = tool := by
    intro s hs
    exact eq_of_beq hs
  cases m with
  | universal => exact Or.inr rfl
  | toolOnly t =>
    cases t with
    | exact s => exact Or.inl (congrArg some (hexact s hm))
    | any => exact Or.inr rfl
    | startsWith p => exact Or.inr rfl
    | endsWith s => exact Or.inr rfl
  | toolAndFunction t f =>
    obtain ⟨ht, -⟩ : t.matchesValue tool = true ∧ f.matchesValue function = true := by
      simpa [CompiledToolMatcher.matchesNormalized] using hm
    cases t with
    | exact s => exact Or.inl (congrArg some (hexact s ht))
    | any => exact Or.inr rfl
    | startsWith p => exact Or.inr rfl
    | endsWith s => exact Or.inr rfl

end Index

/-! ## The index and the scan -/

section Scan

/-- An engine whose index was built from its policies. -/
def PolicyEngine.Indexed (engine : PolicyEngine κ) : Prop :=
  engine.toolIndex = buildToolIndex engine.compiledPolicies

theorem withPolicies_eq_ok {env : CompileEnv κ} {strictMode : Bool} {policies : List Policy}
    {engine : PolicyEngine κ} (h : PolicyEngine.withPolicies env strictMode policies = .ok engine) :
    compilePolicies env policies strictMode = .ok engine.compiledPolicies ∧ engine.Indexed ∧
      engine.toSettings = ⟨strictMode, Path.defaultMaxPathDecodeIterations⟩ := by
  rw [PolicyEngine.withPolicies] at h
  cases hc : compilePolicies env policies strictMode with
  | error e => rw [hc] at h; cases h
  | ok compiled =>
    rw [hc] at h
    cases h
    exact ⟨rfl, rfl, rfl⟩

variable (ext : Externals) (action : Action) {engine : PolicyEngine κ}

/-- Can the policy match an action with this tool? -/
def mayMatch (tool : String) (cp : CompiledPolicy κ) : Bool :=
  cp.toolMatcher.indexKey == some tool || cp.toolMatcher.indexKey == none

theorem mayMatch_of_matches {cp : CompiledPolicy κ} (hm : cp.matchesAction ext action = true) :
    mayMatch (ext.normalizeFull action.tool) cp = true := by
  rcases indexKey_of_matches hm with hkey | hkey
  · simp [mayMatch, hkey]
  · simp [mayMatch, hkey]

/-- The merged slices are the positions of the policies that may match. -/
theorem mergeSorted_slices (hindexed : engine.Indexed) (tool : String) :
    mergeSorted (engine.toolIndex.slice tool) engine.toolIndex.alwaysCheck =
      (List.finRange engine.compiledPolicies.length).filter
        fun i => mayMatch tool (engine.policyAt i) := by
  have hslice := slice_foldl_add (fun i => (engine.policyAt i).toolMatcher)
    (List.finRange engine.compiledPolicies.length) ⟨∅, []⟩ tool
  have halways := alwaysCheck_foldl_add (fun i => (engine.policyAt i).toolMatcher)
    (List.finRange engine.compiledPolicies.length) ⟨∅, []⟩
  have hempty : ToolIndex.slice (⟨∅, []⟩ : ToolIndex engine.compiledPolicies.length) tool = [] := rfl
  rw [hempty, List.nil_append] at hslice
  rw [List.nil_append] at halways
  rw [show engine.toolIndex = buildToolIndex engine.compiledPolicies from hindexed]
  exact (congrArg₂ mergeSorted hslice halways).trans
    (mergeSorted_filter (List.pairwise_lt_finRange _) _ _)

/-- The positions an action visits: in order, and none that could match is left out. -/
theorem collectCandidateIndices_spec (hindexed : engine.Indexed) (tool : String) :
    (engine.collectCandidateIndices tool).Pairwise (· < ·) ∧
      ∀ i, mayMatch tool (engine.policyAt i) = true → i ∈ engine.collectCandidateIndices tool := by
  have hsorted := List.pairwise_lt_finRange engine.compiledPolicies.length
  rw [PolicyEngine.collectCandidateIndices]
  split
  · exact ⟨hsorted, fun i _ => List.mem_finRange i⟩
  · rw [mergeSorted_slices hindexed]
    exact ⟨hsorted.filter _, fun i hi => List.mem_filter.mpr ⟨List.mem_finRange i, hi⟩⟩

/-- Asking the visited positions is asking every policy. -/
theorem firstDecision_candidates {ε ν : Type} (hindexed : engine.Indexed) (tool : String)
    (ask : CompiledPolicy κ → Except ε (Option ν))
    (hpass : ∀ cp, mayMatch tool cp = false → ask cp = .ok none) :
    firstDecision (fun i => ask (engine.policyAt i)) (engine.collectCandidateIndices tool) =
      firstDecision ask engine.compiledPolicies := by
  have hall : firstDecision (fun i => ask (engine.policyAt i))
      (List.finRange engine.compiledPolicies.length) = firstDecision ask engine.compiledPolicies := by
    rw [← firstDecision_map engine.policyAt]
    exact congrArg _ (List.map_get_finRange engine.compiledPolicies)
  rw [PolicyEngine.collectCandidateIndices]
  split
  · exact hall
  · rw [mergeSorted_slices hindexed, ← hall]
    exact firstDecision_filter _ _ fun i _ hi => hpass _ hi

/-- A policy that cannot match passes. -/
theorem askCompiledPolicy_pass (settings : Settings) {cp : CompiledPolicy κ}
    (hcp : mayMatch (ext.normalizeFull action.tool) cp = false) :
    askCompiledPolicy ext settings action cp = .ok none := by
  rw [askCompiledPolicy, if_neg]
  intro hm
  rw [mayMatch_of_matches ext action hm] at hcp
  cases hcp

/-- What `evaluate_with_compiled` does, in terms of the positions it visits. -/
theorem evaluateWithCompiled_eq (engine : PolicyEngine κ) :
    engine.evaluateWithCompiled ext action =
      orNoMatch (firstDecision
        (fun i => askCompiledPolicy ext engine.toSettings action (engine.policyAt i))
        (engine.collectCandidateIndices (ext.normalizeFull action.tool))) := by
  rw [PolicyEngine.evaluateWithCompiled, PolicyEngine.collectCandidateIndices]
  by_cases hempty : engine.toolIndex.isEmpty = true
  · rw [if_neg (by simp [hempty]), if_pos hempty,
      ← firstDecision_map engine.policyAt]
    exact congrArg (fun l => orNoMatch (firstDecision _ l))
      (List.map_get_finRange engine.compiledPolicies).symm
  · rw [if_pos (by simp [hempty]), if_neg hempty]
    exact congrArg orNoMatch (scanMerged_eq _ _ _)

/-- **The index is sound and complete.**  For every set of policies that compiles and every action,
    the positions visited through the index come in increasing order, so none twice; every policy
    that matches is visited; and asking them gives exactly the result of the linear scan. -/
theorem index_agrees_with_scan (env : CompileEnv κ) (strictMode : Bool) (policies : List Policy)
    (engine : PolicyEngine κ)
    (hengine : PolicyEngine.withPolicies env strictMode policies = .ok engine) (action : Action) :
    engine.evaluateWithCompiled env.toExternals action =
        linearScan env.toExternals engine.toSettings action engine.compiledPolicies ∧
      engine.evaluateWithCompiled env.toExternals action =
        orNoMatch (firstDecision
          (fun i => askCompiledPolicy env.toExternals engine.toSettings action (engine.policyAt i))
          (engine.collectCandidateIndices (env.normalizeFull action.tool))) ∧
      (engine.collectCandidateIndices (env.normalizeFull action.tool)).Pairwise (· < ·) ∧
      ∀ i, (engine.policyAt i).matchesAction env.toExternals action = true →
        i ∈ engine.collectCandidateIndices (env.normalizeFull action.tool) := by
  obtain ⟨-, hindexed, -⟩ := withPolicies_eq_ok hengine
  obtain ⟨hsorted, hcomplete⟩ :=
    collectCandidateIndices_spec hindexed (env.normalizeFull action.tool)
  have hvisit := evaluateWithCompiled_eq env.toExternals action engine
  refine ⟨?_, hvisit, hsorted, fun i hi => ?_⟩
  · rw [hvisit, linearScan, firstDecision_candidates hindexed]
    exact fun cp hcp => askCompiledPolicy_pass env.toExternals action engine.toSettings hcp
  · exact hcomplete i (mayMatch_of_matches env.toExternals action hi)

end Scan

/-- An engine with an indexed denial and a general permission. -/
theorem index_agrees_with_scan_bash :
    ∃ engine, PolicyEngine.withPolicies plainEnv true
        [⟨"*", "all", .allow, 1, none, none⟩, ⟨"bash:*", "no shell", .deny, 5, none, none⟩] =
          .ok engine ∧
      engine.evaluateWithCompiled plainExternals (Action.new "Bash" "run" .null) =
        linearScan plainExternals engine.toSettings (Action.new "Bash" "run" .null)
          engine.compiledPolicies := by
  rcases hengine : PolicyEngine.withPolicies plainEnv true
      [⟨"*", "all", .allow, 1, none, none⟩, ⟨"bash:*", "no shell", .deny, 5, none, none⟩] with
    e | engine
  · have hok : (PolicyEngine.withPolicies plainEnv true
        [⟨"*", "all", .allow, 1, none, none⟩,
          ⟨"bash:*", "no shell", .deny, 5, none, none⟩]).isOk = true := by decide +kernel
    rw [hengine] at hok
    cases hok
  · exact ⟨engine, rfl, (index_agrees_with_scan plainEnv true _ engine hengine
      (Action.new "Bash" "run" .null)).1⟩

end Vellaveto
