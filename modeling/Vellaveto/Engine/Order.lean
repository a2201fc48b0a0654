/-
  THE ORDER OF POLICIES (`vellaveto-engine/src/lib.rs`: `sort_policies`, the sortedness test of
  `evaluate_action`; `policy_compile.rs`: the sort of `compile_policies`).

  PROGRAM.  Policies are evaluated by priority (high first), denials first at equal priority, then by
  id.  The comparison is written three times in the source, and once more as a test on neighbours
  that decides whether a list passed ad hoc has to be sorted at all.

  SPEC.  All of them are the order of `policyKey`, a LINEAR order that tells policies with different
  ids apart.

  CORRECTNESS.  `isSorted_iff`, `sortPolicies_eq_self`: the test accepts exactly the sorted lists, on
  which sorting changes nothing.  `sortPolicies_perm_eq`: with distinct ids, permuted lists sort to
  the same list.
-/
import Mathlib.Data.List.Sort
import Mathlib.Data.Prod.Lex
import Mathlib.Data.String.Basic
import Mathlib.Order.Compare
import Vellaveto.Types.Core

namespace Vellaveto

/-- `matches!(policy_type, PolicyType::Deny)`. -/
def Policy.isDeny (p : Policy) : Bool :=
  match p.policyType with
  | .deny => true
  | _ => false

/-- The comparison of `sort_policies` and of the two other sorts. -/
def comparePolicies (a b : Policy) : Ordering :=
  let pri := compare b.priority a.priority
  if pri ≠ .eq then pri
  else
    let denyOrd := compare b.isDeny a.isDeny
    if denyOrd ≠ .eq then denyOrd else compare a.id b.id

/-- May `a` stand before `b`? -/
def policyLe (a b : Policy) : Prop := comparePolicies a b ≠ .gt

instance : DecidableRel policyLe := fun a b =>
  inferInstanceAs (Decidable (comparePolicies a b ≠ .gt))

/-- `sort_policies`: a stable sort. -/
def sortPolicies (policies : List Policy) : List Policy := policies.insertionSort policyLe

/-- The test on neighbours that `evaluate_action` uses. -/
def inOrder (a b : Policy) : Bool :=
  let pri := compare a.priority b.priority
  if pri = .eq then
    if a.isDeny = b.isDeny then decide (compare a.id b.id ≠ .gt) else decide (b.isDeny ≤ a.isDeny)
  else decide (pri ≠ .lt)

/-- `policies.windows(2).all(..)`. -/
def isSorted (policies : List Policy) : Bool :=
  (policies.zip policies.tail).all fun w => inOrder w.1 w.2

/-! ## One linear order -/

/-- What the order looks at. -/
def policyKey (p : Policy) : Int ×ₗ Bool ×ₗ String := toLex (-p.priority, toLex (!p.isDeny, p.id))

theorem policyKey_le_iff {a b : Policy} :
    policyKey a ≤ policyKey b ↔
      b.priority < a.priority ∨ a.priority = b.priority ∧
        (a.isDeny = true ∧ b.isDeny = false ∨ a.isDeny = b.isDeny ∧ a.id ≤ b.id) := by
  rw [policyKey, policyKey, Prod.Lex.toLex_le_toLex, Prod.Lex.toLex_le_toLex]
  show (-a.priority < -b.priority ∨ -a.priority = -b.priority ∧ _) ↔ _
  have hneg : -a.priority = -b.priority ↔ a.priority = b.priority := by omega
  have hlt : -a.priority < -b.priority ↔ b.priority < a.priority := by omega
  rw [hneg, hlt]
  cases a.isDeny <;> cases b.isDeny <;> simp

theorem compare_id_iff {s t : String} : compare s t ≠ .gt ↔ s ≤ t := by
  rw [Ne, compare_gt_iff_gt, not_lt]

/-- The comparison of the sorts is the order of the keys. -/
theorem policyLe_iff {a b : Policy} : policyLe a b ↔ policyKey a ≤ policyKey b := by
  rw [policyKey_le_iff, policyLe, comparePolicies]
  rcases lt_trichotomy a.priority b.priority with hlt | heq | hgt
  · have hcmp : compare b.priority a.priority = .gt := compare_gt_iff_gt.mpr hlt
    rw [hcmp]
    simp
    omega
  · have hcmp : compare b.priority a.priority = .eq := compare_eq_iff_eq.mpr heq.symm
    have hdeny : compare true false = Ordering.gt := rfl
    have hother : compare false true = Ordering.lt := rfl
    rw [hcmp, heq]
    cases a.isDeny <;> cases b.isDeny <;> simp [hdeny, hother, compare_id_iff]
  · have hcmp : compare b.priority a.priority = .lt := compare_lt_iff_lt.mpr hgt
    rw [hcmp]
    simp [hgt]

/-- So is the test on neighbours. -/
theorem inOrder_iff {a b : Policy} : inOrder a b = true ↔ policyKey a ≤ policyKey b := by
  rw [policyKey_le_iff, inOrder]
  rcases lt_trichotomy a.priority b.priority with hlt | heq | hgt
  · have hcmp : compare a.priority b.priority = .lt := compare_lt_iff_lt.mpr hlt
    rw [hcmp]
    simp
    omega
  · have hcmp : compare a.priority b.priority = .eq := compare_eq_iff_eq.mpr heq
    rw [hcmp, heq]
    cases a.isDeny <;> cases b.isDeny <;> simp [compare_id_iff]
  · have hcmp : compare a.priority b.priority = .gt := compare_gt_iff_gt.mpr hgt
    rw [hcmp]
    simp [hgt]

theorem id_eq_of_policyKey_eq {a b : Policy} (h : policyKey a = policyKey b) : a.id = b.id := by
  have hinner := congrArg (fun k => (ofLex (ofLex k).2).2) h
  exact hinner

instance : Std.Total policyLe := ⟨fun a b => by
  rw [policyLe_iff, policyLe_iff]
  exact le_total _ _⟩

instance : IsTrans Policy policyLe := ⟨fun a b c hab hbc => by
  rw [policyLe_iff] at hab hbc ⊢
  exact hab.trans hbc⟩

/-! ## Sorting -/

theorem sortPolicies_perm (policies : List Policy) : (sortPolicies policies).Perm policies :=
  List.perm_insertionSort policyLe policies

theorem sortPolicies_pairwise (policies : List Policy) :
    (sortPolicies policies).Pairwise policyLe :=
  List.pairwise_insertionSort policyLe policies

/-- The test on neighbours accepts exactly the sorted lists. -/
theorem isSorted_iff {policies : List Policy} :
    isSorted policies = true ↔ policies.Pairwise policyLe := by
  rw [← List.isChain_iff_pairwise]
  induction policies with
  | nil => simp [isSorted]
  | cons a policies ih =>
    cases policies with
    | nil => simp [isSorted]
    | cons b policies =>
      have hcons : isSorted (a :: b :: policies) = (inOrder a b && isSorted (b :: policies)) := rfl
      rw [hcons, Bool.and_eq_true, ih, inOrder_iff, ← policyLe_iff, List.isChain_cons_cons]

/-- Sorting a sorted list changes nothing. -/
theorem sortPolicies_eq_self {policies : List Policy} (h : isSorted policies = true) :
    sortPolicies policies = policies :=
  (isSorted_iff.mp h).insertionSort_eq

/-- Policies with different ids are never tied. -/
theorem eq_of_tied {policies : List Policy} (hids : (policies.map Policy.id).Nodup) {a b : Policy}
    (ha : a ∈ policies) (hb : b ∈ policies) (hab : policyLe a b) (hba : policyLe b a) : a = b := by
  rw [policyLe_iff] at hab hba
  have hid : a.id = b.id := id_eq_of_policyKey_eq (le_antisymm hab hba)
  exact List.inj_on_of_nodup_map hids ha hb hid

/-- **One order.**  With distinct ids, permuted lists sort to the same list. -/
theorem sortPolicies_perm_eq {policies policies' : List Policy}
    (hids : (policies.map Policy.id).Nodup) (hperm : policies.Perm policies') :
    sortPolicies policies = sortPolicies policies' := by
  have hperm' : (sortPolicies policies).Perm (sortPolicies policies') :=
    ((sortPolicies_perm policies).trans hperm).trans (sortPolicies_perm policies').symm
  refine hperm'.eq_of_pairwise ?_ (sortPolicies_pairwise _) (sortPolicies_pairwise _)
  intro a b ha hb hab hba
  have ha' : a ∈ policies := (sortPolicies_perm policies).mem_iff.mp ha
  have hb' : b ∈ policies := hperm.mem_iff.mpr ((sortPolicies_perm policies').mem_iff.mp hb)
  exact eq_of_tied hids ha' hb' hab hba

end Vellaveto
