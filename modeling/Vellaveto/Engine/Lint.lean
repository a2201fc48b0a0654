/-
  THE OVERLAP LINT (`vellaveto-engine/src/lint.rs`, rule L005).

  Two policies of one tool group overlap when a path is matched by an allowed pattern of each.  The lint
  does not look for such a path; it compares the TEXTS of the patterns: equal, one a prefix of the
  other, or concrete prefixes (the text before the first wildcard) of which one starts with the other.

  SPEC.         `pathMatches`: a star matches any text, a question mark one character, any other
                character itself; `SharesPath a b`: some path is matched by both.

  CORRECTNESS.
    1. `startsWith_concrete`     a matched path starts with the concrete prefix of its pattern, so the
                                 concrete prefixes of patterns that share a path are comparable;
    2. `patternsOverlap_iff`     patterns that share a path are found, EXCEPT where one of them starts
                                 with a wildcard and the texts alone do not tell;
    3. `mem_overlaps_iff`        and the loops over the policies visit every pair.
-/
import Mathlib.Data.Finset.Basic
import Mathlib.Data.List.Dedup
import Vellaveto.Types.Core
import Vellaveto.Lib.Glob
import Vellaveto.Lib.Text

namespace Vellaveto.Lint

open Vellaveto.Lib Vellaveto.Lib.Glob

/-- `LintSeverity`. -/
inductive LintSeverity where
  | info
  | warning
  | error
deriving DecidableEq

/-- `LintFinding`. -/
structure LintFinding where
  ruleId : String
  severity : LintSeverity
  policyId : String
  message : String
  suggestion : Option String
deriving DecidableEq

/-! ## The texts of two patterns -/

/-- `is_prefix_pattern`.  The lengths compared there are those of a text and of its prefix. -/
def isPrefixPattern (pre candidate : List Char) : Bool :=
  (pre.isPrefixOf candidate && pre.length < candidate.length) ||
    (stripSuffix "/**".toList pre).any (·.isPrefixOf candidate) ||
    (stripSuffix "/*".toList pre).any (·.isPrefixOf candidate)

/-- `concrete_prefix`: the text before the first wildcard. -/
def concretePrefix (pattern : List Char) : List Char :=
  pattern.takeWhile fun c => c ∉ ['*', '?', '[']

/-- `patterns_overlap`. -/
def patternsOverlap (a b : List Char) : Bool :=
  a == b || isPrefixPattern a b || isPrefixPattern b a ||
    (!(concretePrefix a).isEmpty && !(concretePrefix b).isEmpty &&
      ((concretePrefix b).isPrefixOf (concretePrefix a) ||
        (concretePrefix a).isPrefixOf (concretePrefix b)))

/-! ## The policies -/

/-- The part of a policy id before the first colon. -/
def toolPart (policy : Policy) : List Char := beforeFirst ':' policy.id.toList

/-- The allowed patterns of a policy; a policy without path rules is passed over like one that allows
    nothing. -/
def allowedPaths (policy : Policy) : List String :=
  match policy.pathRules with
  | some rules => rules.allowed
  | none => []

/-- Two policies and the patterns on which they overlap. -/
structure Overlap where
  first : Policy
  firstPath : String
  second : Policy
  secondPath : String
deriving DecidableEq

/-- The finding for an overlap. -/
def overlapFinding (o : Overlap) : LintFinding where
  ruleId := "L005"
  severity := .warning
  policyId := o.first.id
  message := "Policy '" ++ o.first.id ++ "' path '" ++ o.firstPath ++ "' overlaps with policy '" ++
    o.second.id ++ "' path '" ++ o.secondPath ++ "' — higher-priority policy shadows the other"
  suggestion :=
    some "Ensure overlapping policies have distinct priorities or non-overlapping paths"

/-- The two loops over the patterns of two policies. -/
def overlapsBetween (p1 p2 : Policy) : List Overlap :=
  (allowedPaths p1).flatMap fun a1 =>
    ((allowedPaths p2).filter fun a2 => patternsOverlap a1.toList a2.toList).map fun a2 =>
      ⟨p1, a1, p2, a2⟩

/-- The pairs of positions in the order in which a group is gone through. -/
def pairsOf (n : Nat) : List (Nat × Nat) :=
  (List.range n).flatMap fun i => (List.range' (i + 1) (n - (i + 1))).map fun j => (i, j)

/-- One pair of a group: a pair that was reported is passed over. -/
def visit (group : List Policy) (state : Finset (Nat × Nat) × List Overlap) (pair : Nat × Nat) :
    Finset (Nat × Nat) × List Overlap :=
  if pair ∈ state.1 then state
  else
    match group[pair.1]?, group[pair.2]? with
    | some p1, some p2 =>
      let found := overlapsBetween p1 p2
      (if found.isEmpty then state.1 else insert pair state.1, state.2 ++ found)
    | _, _ => state

/-- The overlaps within a group. -/
def groupOverlaps (group : List Policy) : List Overlap :=
  if group.length < 2 then [] else ((pairsOf group.length).foldl (visit group) (∅, [])).2

/-- The order in which the hash map of the groups lists its keys. -/
structure HashOrder where
  keys : List (List Char) → List (List Char)
  perm : ∀ parts, (keys parts).Perm parts

/-- The overlaps of a set of policies, group by group. -/
def overlaps (order : HashOrder) (policies : List Policy) : List Overlap :=
  (order.keys (policies.map toolPart).dedup).flatMap fun part =>
    groupOverlaps (policies.filter fun policy => toolPart policy = part)

/-- `check_overlapping_paths`. -/
def checkOverlappingPaths (order : HashOrder) (policies : List Policy) : List LintFinding :=
  (overlaps order policies).map overlapFinding

/-! ## Patterns that share a path -/

/-- What a character of a pattern matches. -/
def token (c : Char) : Token Char :=
  if c = '*' then .star else if c = '?' then .one fun _ => true else .one (· = c)

/-- The path is matched by the pattern. -/
def pathMatches (pattern path : List Char) : Bool := globMatches (pattern.map token) path

/-- Some path is matched by both patterns. -/
def SharesPath (a b : List Char) : Prop :=
  ∃ path, pathMatches a path = true ∧ pathMatches b path = true

/-- A path that a pattern matches starts with the concrete prefix of the pattern. -/
theorem startsWith_concrete {pattern path : List Char} (h : pathMatches pattern path = true) :
    concretePrefix pattern <+: path := by
  induction pattern generalizing path with
  | nil => exact List.nil_prefix
  | cons c pattern ih =>
    by_cases hwild : c ∈ ['*', '?', '[']
    · have hstop : concretePrefix (c :: pattern) = [] := by
        rw [concretePrefix, List.takeWhile_cons_of_neg]
        rw [decide_eq_true_iff]
        exact not_not.mpr hwild
      rw [hstop]
      exact List.nil_prefix
    · have hgo : concretePrefix (c :: pattern) = c :: concretePrefix pattern := by
        rw [concretePrefix, List.takeWhile_cons_of_pos]
        · rfl
        · exact decide_eq_true hwild
      rw [hgo]
      have htoken : token c = .one (· = c) := by
        simp only [List.mem_cons, not_or] at hwild
        rw [token, if_neg hwild.1, if_neg hwild.2.1]
      rw [pathMatches, List.map_cons, htoken] at h
      cases path with
      | nil => cases h
      | cons d path =>
        rw [globMatches_one_cons, Bool.and_eq_true, decide_eq_true_iff] at h
        obtain ⟨rfl, hrest⟩ := h
        exact (List.prefix_cons_inj d).mpr (ih hrest)

/-- The texts alone show the overlap: they are equal, one is a prefix of the other, or neither pattern
    starts with a wildcard. -/
def ShownByText (a b : List Char) : Prop :=
  a = b ∨ isPrefixPattern a b = true ∨ isPrefixPattern b a = true ∨
    (concretePrefix a ≠ [] ∧ concretePrefix b ≠ [])

/-- **Which overlaps are found.** -/
theorem patternsOverlap_iff {a b : List Char} (h : SharesPath a b) :
    patternsOverlap a b = true ↔ ShownByText a b := by
  obtain ⟨path, ha, hb⟩ := h
  have hcomparable : (concretePrefix b).isPrefixOf (concretePrefix a) = true ∨
      (concretePrefix a).isPrefixOf (concretePrefix b) = true := by
    rw [List.isPrefixOf_iff_prefix, List.isPrefixOf_iff_prefix]
    exact List.prefix_or_prefix_of_prefix (startsWith_concrete hb) (startsWith_concrete ha)
  simp only [patternsOverlap, ShownByText, Bool.or_eq_true, Bool.and_eq_true, beq_iff_eq,
    Bool.not_eq_true', List.isEmpty_eq_false_iff, hcomparable, and_true, or_assoc]

/-! ## Every pair is visited -/

theorem nodup_pairsOf (n : Nat) : (pairsOf n).Nodup := by
  refine List.nodup_flatMap.mpr ⟨fun i _ => ?_, ?_⟩
  · exact List.Nodup.map (fun j k hjk => (Prod.mk.inj hjk).2) List.nodup_range'
  · refine List.nodup_range.imp fun {i k} hik => ?_
    intro pair hi hk
    obtain ⟨_, _, rfl⟩ := List.mem_map.mp hi
    obtain ⟨_, _, heq⟩ := List.mem_map.mp hk
    exact hik (Prod.mk.inj heq).1.symm

theorem mem_pairsOf {n i j : Nat} : (i, j) ∈ pairsOf n ↔ i < j ∧ j < n := by
  simp only [pairsOf, List.mem_flatMap, List.mem_range, List.mem_map, List.mem_range'_1,
    Prod.mk.injEq]
  constructor
  · rintro ⟨i', hi', j', hj', rfl, rfl⟩
    omega
  · rintro ⟨hij, hjn⟩
    exact ⟨i, by omega, j, by omega, rfl, rfl⟩

/-- The overlaps that a pair of positions has. -/
def foundAt (group : List Policy) (pair : Nat × Nat) : List Overlap :=
  match group[pair.1]?, group[pair.2]? with
  | some p1, some p2 => overlapsBetween p1 p2
  | _, _ => []

/-- **The loop over the pairs.**  No pair comes twice, so the set of reported pairs stops nothing. -/
theorem foldl_visit {group : List Policy} {pairs : List (Nat × Nat)} (hnodup : pairs.Nodup)
    {state : Finset (Nat × Nat) × List Overlap} (hnew : ∀ pair ∈ pairs, pair ∉ state.1) :
    (pairs.foldl (visit group) state).2 = state.2 ++ pairs.flatMap (foundAt group) := by
  induction pairs generalizing state with
  | nil => simp
  | cons pair pairs ih =>
    obtain ⟨hfirst, hrest⟩ := List.nodup_cons.mp hnodup
    have hnotin := hnew pair List.mem_cons_self
    have hfound : (visit group state pair).2 = state.2 ++ foundAt group pair := by
      rw [visit, if_neg hnotin, foundAt]
      split <;> simp
    have hkeys : ∀ other ∈ pairs, other ∉ (visit group state pair).1 := by
      intro other hother
      have hold := hnew other (List.mem_cons_of_mem pair hother)
      have hne : other ≠ pair := fun h => hfirst (h ▸ hother)
      rw [visit, if_neg hnotin]
      split
      · dsimp only
        split
        · exact hold
        · rw [Finset.mem_insert, not_or]
          exact ⟨hne, hold⟩
      · exact hold
    rw [List.foldl_cons, ih hrest hkeys, hfound, List.flatMap_cons, List.append_assoc]

theorem mem_overlapsBetween {p1 p2 : Policy} {o : Overlap} :
    o ∈ overlapsBetween p1 p2 ↔ o.first = p1 ∧ o.second = p2 ∧ o.firstPath ∈ allowedPaths p1 ∧
      o.secondPath ∈ allowedPaths p2 ∧
      patternsOverlap o.firstPath.toList o.secondPath.toList = true := by
  simp only [overlapsBetween, List.mem_flatMap, List.mem_map, List.mem_filter]
  constructor
  · rintro ⟨a1, ha1, a2, ⟨ha2, hoverlap⟩, rfl⟩
    exact ⟨rfl, rfl, ha1, ha2, hoverlap⟩
  · rintro ⟨rfl, rfl, ha1, ha2, hoverlap⟩
    exact ⟨o.firstPath, ha1, o.secondPath, ⟨ha2, hoverlap⟩, rfl⟩

theorem groupOverlaps_eq (group : List Policy) :
    groupOverlaps group = (pairsOf group.length).flatMap (foundAt group) := by
  rw [groupOverlaps, foldl_visit (nodup_pairsOf _) fun _ _ => Finset.notMem_empty _, List.nil_append]
  split
  · rename_i hshort
    refine (List.flatMap_eq_nil_iff.mpr fun pair hpair => ?_).symm
    have := mem_pairsOf.mp hpair
    omega
  · rfl

/-- What is found in a group: the overlapping patterns of any two of its policies. -/
theorem mem_groupOverlaps {group : List Policy} {o : Overlap} :
    o ∈ groupOverlaps group ↔ (∃ i j : Nat, i < j ∧ group[i]? = some o.first ∧ group[j]? = some o.second) ∧
      o.firstPath ∈ allowedPaths o.first ∧ o.secondPath ∈ allowedPaths o.second ∧
      patternsOverlap o.firstPath.toList o.secondPath.toList = true := by
  rw [groupOverlaps_eq, List.mem_flatMap]
  constructor
  · rintro ⟨⟨i, j⟩, hpair, ho⟩
    unfold foundAt at ho
    split at ho
    · rename_i p1 p2 hp1 hp2
      obtain ⟨rfl, rfl, hrest⟩ := mem_overlapsBetween.mp ho
      exact ⟨⟨i, j, (mem_pairsOf.mp hpair).1, hp1, hp2⟩, hrest⟩
    · cases ho
  · rintro ⟨⟨i, j, hij, hi, hj⟩, hrest⟩
    have hlen : j < group.length := (List.getElem?_eq_some_iff.mp hj).1
    refine ⟨(i, j), mem_pairsOf.mpr ⟨hij, hlen⟩, ?_⟩
    show o ∈ match group[i]?, group[j]? with
      | some p1, some p2 => overlapsBetween p1 p2
      | _, _ => []
    rw [hi, hj]
    exact mem_overlapsBetween.mpr ⟨rfl, rfl, hrest⟩

/-- Two elements in this order stand at two positions in this order. -/
theorem exists_positions {α : Type*} {x y : α} {l : List α} (h : List.Sublist [x, y] l) :
    ∃ i j : Nat, i < j ∧ l[i]? = some x ∧ l[j]? = some y := by
  induction l with
  | nil => cases h
  | cons z l ih =>
    cases h with
    | cons _ htail =>
      obtain ⟨i, j, hij, hi, hj⟩ := ih htail
      exact ⟨i + 1, j + 1, by omega, hi, hj⟩
    | cons_cons _ htail =>
      obtain ⟨j, hj⟩ := List.getElem?_of_mem (List.singleton_sublist.mp htail)
      exact ⟨0, j + 1, by omega, rfl, hj⟩

/-- Two policies of one tool group, in this order in the
    set, with an allowed pattern each that match a common path: the patterns are reported exactly if
    their texts show the overlap. -/
theorem mem_overlaps_iff (order : HashOrder) {policies : List Policy} {o : Overlap}
    (hpolicies : List.Sublist [o.first, o.second] policies) (hgroup : toolPart o.first = toolPart o.second)
    (hfirst : o.firstPath ∈ allowedPaths o.first) (hsecond : o.secondPath ∈ allowedPaths o.second)
    (hshares : SharesPath o.firstPath.toList o.secondPath.toList) :
    o ∈ overlaps order policies ↔ ShownByText o.firstPath.toList o.secondPath.toList := by
  rw [← patternsOverlap_iff hshares, overlaps, List.mem_flatMap]
  constructor
  · rintro ⟨part, -, ho⟩
    exact (mem_groupOverlaps.mp ho).2.2.2
  · intro hoverlap
    have hmem : o.first ∈ policies := hpolicies.subset List.mem_cons_self
    refine ⟨toolPart o.first, ?_, mem_groupOverlaps.mpr ⟨?_, hfirst, hsecond, hoverlap⟩⟩
    · rw [(order.perm _).mem_iff, List.mem_dedup]
      exact List.mem_map_of_mem hmem
    · have hsub := hpolicies.filter fun policy => decide (toolPart policy = toolPart o.first)
      rw [List.filter_cons_of_pos (by simp), List.filter_cons_of_pos (by simp [hgroup]),
        List.filter_nil] at hsub
      exact exists_positions hsub

/-- **Which overlaps the lint reports.**  Of two patterns that match a common path it finds the overlap,
    and of two policies of one tool group with such patterns it reports it, EXACTLY IF the texts of the
    patterns show it. -/
theorem overlap_lint_reports_iff (order : HashOrder) :
    (∀ a b : List Char, SharesPath a b → (patternsOverlap a b = true ↔ ShownByText a b)) ∧
    ∀ (policies : List Policy) (o : Overlap),
      List.Sublist [o.first, o.second] policies → toolPart o.first = toolPart o.second →
      o.firstPath ∈ allowedPaths o.first → o.secondPath ∈ allowedPaths o.second →
      SharesPath o.firstPath.toList o.secondPath.toList →
      (o ∈ overlaps order policies ↔ ShownByText o.firstPath.toList o.secondPath.toList) ∧
        (ShownByText o.firstPath.toList o.secondPath.toList →
          overlapFinding o ∈ checkOverlappingPaths order policies) := by
  refine ⟨fun a b => patternsOverlap_iff, ?_⟩
  intro policies o hpolicies hgroup hfirst hsecond hshares
  have hiff := mem_overlaps_iff order hpolicies hgroup hfirst hsecond hshares
  exact ⟨hiff, fun htext => List.mem_map_of_mem (hiff.mpr htext)⟩

/-- A policy that allows a path pattern. -/
def allowPolicy (id path : String) : Policy := ⟨id, id, .allow, 10, some ⟨[path], []⟩, none⟩

/-- The keys as they are. -/
def plainOrder : HashOrder := ⟨id, fun _ => List.Perm.refl _⟩

/-- A directory and one below it are reported. -/
theorem overlap_lint_reports_iff_nested :
    overlapFinding ⟨allowPolicy "file:read" "/home/**", "/home/**",
        allowPolicy "file:write" "/home/user/**", "/home/user/**"⟩ ∈
      checkOverlappingPaths plainOrder
        [allowPolicy "file:read" "/home/**", allowPolicy "file:write" "/home/user/**"] := by
  refine ((overlap_lint_reports_iff plainOrder).2 _
    ⟨allowPolicy "file:read" "/home/**", "/home/**", allowPolicy "file:write" "/home/user/**",
      "/home/user/**"⟩ (List.Sublist.refl _) (by decide +kernel) (List.mem_singleton.mpr rfl)
      (List.mem_singleton.mpr rfl) ?_).2 ?_
  · exact ⟨"/home/user/notes".toList, by decide +kernel, by decide +kernel⟩
  · exact .inr (.inr (.inr ⟨by decide +kernel, by decide +kernel⟩))

/-- A star matches every path, and the lint does not see that it overlaps with `/home`. -/
theorem star_overlap_is_missed :
    pathMatches "*".toList "/home".toList = true ∧ pathMatches "/home".toList "/home".toList = true ∧
      patternsOverlap "*".toList "/home".toList = false ∧
      checkOverlappingPaths plainOrder
        [allowPolicy "file:read" "*", allowPolicy "file:write" "/home"] = [] := by
  decide +kernel

end Vellaveto.Lint
