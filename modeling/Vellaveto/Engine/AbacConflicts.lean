/-
  CONFLICTS BETWEEN ABAC POLICIES (`find_conflicts`, `action_patterns_overlap`, `patterns_could_overlap` of
  `vellaveto-engine/src/abac.rs`).

  PROGRAM.      Every Permit is compared with every Forbid, by the patterns of their actions alone: a pair is
                reported if some pattern of one could match what some pattern of the other matches.

  SPEC.         A pair is reported whenever there is an action that both constrain.

  CORRECTNESS.  The comparison of two patterns is a table over their kinds.  Only a literal can exclude
                anything, and it excludes what it does not match itself (`patternsCouldOverlap_of_matches`).
-/
import Vellaveto.Engine.ForbidInDoubt

namespace Vellaveto.Abac

open Vellaveto.Lib

/-! ### The program -/

/-- `patterns_could_overlap`. -/
def patternsCouldOverlap : PatternMatcher → PatternMatcher → Bool
  | .any, _ | _, .any => true
  | .exact x, .exact y => x == y
  | .exact e, .startsWith p | .startsWith p, .exact e => p.toList.isPrefixOf e.toList
  | .exact e, .endsWith s | .endsWith s, .exact e => s.toList.isSuffixOf e.toList
  | _, _ => true

/-- `action_patterns_overlap`. -/
def actionPatternsOverlap (a b : CompiledAction) : Bool :=
  a.matchers.isEmpty || b.matchers.isEmpty ||
    a.matchers.any fun m => b.matchers.any fun n =>
      patternsCouldOverlap m.1 n.1 && patternsCouldOverlap m.2 n.2

/-- `AbacConflict`. -/
structure AbacConflict where
  permitId : String
  forbidId : String
  overlapDescription : String
deriving DecidableEq, Repr

/-- What is reported of a pair. -/
def AbacConflict.between (permitId forbidId : String) : AbacConflict :=
  ⟨permitId, forbidId,
    s!"Permit '{permitId}' and Forbid '{forbidId}' have overlapping action patterns"⟩

/-- `AbacEngine::find_conflicts`. -/
def AbacEngine.findConflicts (engine : AbacEngine) : List AbacConflict :=
  let permits := engine.compiled.filter fun p => p.effect = .permit
  let forbids := engine.compiled.filter fun p => p.effect = .forbid
  permits.flatMap fun permit =>
    (forbids.filter fun forbid => actionPatternsOverlap permit.action forbid.action).map fun forbid =>
      .between permit.id forbid.id

/-! ### Completeness -/

section Overlap

variable {a b : PatternMatcher} {value : String}

/-- **Two patterns that match one value** could overlap. -/
theorem patternsCouldOverlap_of_matches (ha : a.matchesValue value = true)
    (hb : b.matchesValue value = true) : patternsCouldOverlap a b = true := by
  cases a with
  | any => rfl
  | exact x =>
    obtain rfl : x = value := eq_of_beq ha
    cases b with
    | any => rfl
    | exact y => exact beq_iff_eq.mpr (eq_of_beq hb).symm
    | startsWith p => exact hb
    | endsWith s => exact hb
  | startsWith p =>
    cases b with
    | exact y =>
      obtain rfl : y = value := eq_of_beq hb
      exact ha
    | any => rfl
    | startsWith q => rfl
    | endsWith s => rfl
  | endsWith s =>
    cases b with
    | exact y =>
      obtain rfl : y = value := eq_of_beq hb
      exact ha
    | any => rfl
    | startsWith q => rfl
    | endsWith t => rfl

/-- Two constraints that an action satisfies overlap. -/
theorem actionPatternsOverlap_of_matches {ext : AbacExternals} {c d : CompiledAction} {action : Action}
    (hc : matchesAction ext c action = true) (hd : matchesAction ext d action = true) :
    actionPatternsOverlap c d = true := by
  rw [matchesAction, Bool.or_eq_true] at hc hd
  rw [actionPatternsOverlap, Bool.or_eq_true, Bool.or_eq_true]
  rcases hc with hc | hc
  · exact .inl (.inl hc)
  rcases hd with hd | hd
  · exact .inl (.inr hd)
  obtain ⟨m, hm, hmatch⟩ := List.any_eq_true.mp hc
  obtain ⟨n, hn, hmatch'⟩ := List.any_eq_true.mp hd
  obtain ⟨htool, hfunction⟩ := Bool.and_eq_true_iff.mp hmatch
  obtain ⟨htool', hfunction'⟩ := Bool.and_eq_true_iff.mp hmatch'
  right
  refine List.any_eq_true.mpr ⟨m, hm, List.any_eq_true.mpr ⟨n, hn, ?_⟩⟩
  rw [patternsCouldOverlap_of_matches htool htool',
    patternsCouldOverlap_of_matches hfunction hfunction']
  rfl

end Overlap

/-- **Conflict detection is complete.**  If some action satisfies the action constraints of a Permit and
    of a Forbid of the set, the pair is reported. -/
theorem conflicts_complete (ext : AbacExternals) (policies : List AbacPolicy)
    (entities : List AbacEntity) (engine : AbacEngine)
    (hnew : AbacEngine.new ext policies entities = .ok engine) (permit forbid : AbacPolicy)
    (hpermit : permit ∈ policies ∧ permit.effect = .permit)
    (hforbid : forbid ∈ policies ∧ forbid.effect = .forbid) (action : Action)
    (hmatches : matchesAction ext (compileAction ext permit.action) action = true ∧
      matchesAction ext (compileAction ext forbid.action) action = true) :
    AbacConflict.between permit.id forbid.id ∈ engine.findConflicts := by
  obtain ⟨hperm, -⟩ := AbacEngine.new_spec hnew
  have hcompiled : ∀ p ∈ policies, p.compiled ext ∈ engine.compiled := fun p hp =>
    hperm.mem_iff.mpr (List.mem_map_of_mem hp)
  have hoverlap : actionPatternsOverlap (permit.compiled ext).action (forbid.compiled ext).action = true :=
    actionPatternsOverlap_of_matches hmatches.1 hmatches.2
  have hpermits : permit.compiled ext ∈ engine.compiled.filter fun p => p.effect = .permit :=
    List.mem_filter.mpr ⟨hcompiled permit hpermit.1, decide_eq_true hpermit.2⟩
  have hforbids : forbid.compiled ext ∈ engine.compiled.filter fun p => p.effect = .forbid :=
    List.mem_filter.mpr ⟨hcompiled forbid hforbid.1, decide_eq_true hforbid.2⟩
  refine List.mem_flatMap.mpr ⟨permit.compiled ext, hpermits, List.mem_map.mpr ?_⟩
  exact ⟨forbid.compiled ext, List.mem_filter.mpr ⟨hforbids, hoverlap⟩, rfl⟩

/-- All of a tool is permitted, and one function of all tools is forbidden. -/
def permitFiles : AbacPolicy :=
  { id := "files", description := "", effect := .permit, action := { patterns := ["file*"] } }

def forbidDelete : AbacPolicy :=
  { id := "no-delete", description := "", effect := .forbid, action := { patterns := ["*:delete"] } }

theorem conflicts_complete_delete :
    ∃ engine, AbacEngine.new plainAbacExternals [permitFiles, forbidDelete] [] = .ok engine ∧
      AbacConflict.between "files" "no-delete" ∈ engine.findConflicts := by
  have haccepted : (AbacEngine.new plainAbacExternals [permitFiles, forbidDelete] []).toBool = true := by
    decide +kernel
  obtain ⟨engine, hengine⟩ := exists_accepted haccepted
  refine ⟨engine, hengine, ?_⟩
  exact conflicts_complete plainAbacExternals _ [] engine hengine permitFiles forbidDelete
    ⟨by simp, rfl⟩ ⟨by simp, rfl⟩ (Action.new "filesystem" "Delete" .null)
    ⟨by decide +kernel, by decide +kernel⟩

end Vellaveto.Abac
