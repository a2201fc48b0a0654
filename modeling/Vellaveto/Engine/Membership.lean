/-
  GROUP MEMBERSHIP (`is_member_of` of `vellaveto-engine/src/abac.rs`).

  An entity is a member of a group if a chain of parent links leads from one to the other.  The search is
  bounded to 16 levels and visits no key twice; a key that it enters at the last level is then not
  entered again by a shorter way, and what is behind it is not found.  Whether that happens depends on
  the order in which parents are listed.

    1. **The search** — `isMemberOfBounded_eq_search`: `Lib/BoundedSearch` at the parents of a store.
    2. **When membership is reachability** — `membership_exact`: if some chain avoids the keys that can be
       cut off; and if one key that can be is on every chain, then some order of the parents hides the
       group.
    3. **A member that is not found** — `member_not_found`.
-/
import Vellaveto.Engine.ForbidInDoubt
import Vellaveto.Lib.BoundedSearch

namespace Vellaveto.Abac

open Vellaveto.Lib

/-! ### The search -/

/-- The parents of a key. -/
def EntityStore.parents (store : EntityStore) (key : String) : List String :=
  (store.memberships.lookup key).getD []

theorem isMemberOfBounded_eq_search (store : EntityStore) (groupKey : String) (left : Nat)
    (key : String) (visited : List String) :
    store.isMemberOfBounded groupKey left key visited =
      search store.parents groupKey left key visited := by
  induction left generalizing key visited with
  | zero => rfl
  | succ left ih =>
    rw [EntityStore.isMemberOfBounded, search]
    congr 2
    funext found parent
    rw [tryNext, ih]

/-- A store with other lists of parents. -/
def EntityStore.withParents (store : EntityStore) (parents : String → List String) : EntityStore where
  memberships :=
    { entries := store.memberships.entries.map (Sigma.map id fun key _ => parents key)
      nodupKeys := by
        rw [List.NodupKeys, List.keys, List.map_map]
        exact store.memberships.nodupKeys }

theorem parents_withParents {store : EntityStore} {parents : String → List String}
    (h : ∀ key, (parents key).Perm (store.parents key)) :
    (store.withParents parents).parents = parents := by
  funext key
  have hlookup : (store.withParents parents).memberships.lookup key =
      (store.memberships.lookup key).map fun _ => parents key := List.dlookup_map₂ key
  have hkey := h key
  rw [EntityStore.parents] at hkey ⊢
  rw [hlookup]
  cases hstore : store.memberships.lookup key with
  | none =>
    rw [hstore] at hkey
    exact hkey.eq_nil.symm
  | some _ => rfl

/-! ### When membership is reachability -/

/-- A chain of parent links from the key to the group, of the depth limit at most. -/
def EntityStore.WithinDepth (store : EntityStore) (key groupKey : String) : Prop :=
  ∃ path, Linked store.parents (key :: path ++ [groupKey]) ∧ path.length + 1 ≤ maxMembershipDepth

/-- A key that the search can enter at its last level: it is at the end of a line of 15 links from `key`,
    without repetitions and without the group, and the group is not its parent. -/
def EntityStore.CutOffFrom (store : EntityStore) (key groupKey v : String) : Prop :=
  CutOff store.parents groupKey key (maxMembershipDepth - 1) v

section Exact

variable {ext : AbacExternals} {store : EntityStore} {key groupKey : String}

theorem isMemberOf_eq_search :
    store.isMemberOf ext key groupKey = (search store.parents (normalizeEntityKey ext groupKey)
      maxMembershipDepth (normalizeEntityKey ext key) []).1 := by
  rw [EntityStore.isMemberOf, isMemberOfBounded_eq_search]

theorem withinDepth_of_isMemberOf (h : store.isMemberOf ext key groupKey = true) :
    store.WithinDepth (normalizeEntityKey ext key) (normalizeEntityKey ext groupKey) := by
  rw [isMemberOf_eq_search] at h
  obtain ⟨path, hlinked, hlen, -⟩ := search_sound h
  exact ⟨path, hlinked, hlen⟩

end Exact

/-- **When membership is reachability.**  If no chain within the depth limit leads to the group, or some
    chain avoids the keys that can be cut off, membership is a chain within the limit, in whatever order
    the parents are listed.  If one key that can be cut off is on every chain, some order of the same
    parents hides the group, also where a chain within the limit leads to it. -/
theorem membership_exact (ext : AbacExternals) (store : EntityStore) (entity group : String) :
    let key := normalizeEntityKey ext entity
    let groupKey := normalizeEntityKey ext group
    ((store.WithinDepth key groupKey → ∃ path, Linked store.parents (key :: path ++ [groupKey]) ∧
        ∀ v ∈ key :: path, ¬ store.CutOffFrom key groupKey v) →
      (store.isMemberOf ext entity group = true ↔ store.WithinDepth key groupKey)) ∧
    ∀ v, store.CutOffFrom key groupKey v →
      (∀ path, Linked store.parents (key :: path ++ [groupKey]) → v ∈ key :: path) →
      ∃ store' : EntityStore, (∀ k, (store'.parents k).Perm (store.parents k)) ∧
        store'.isMemberOf ext entity group = false := by
  intro key groupKey
  constructor
  · intro hclear
    refine ⟨withinDepth_of_isMemberOf, fun hwithin => ?_⟩
    obtain ⟨path, hlinked, havoid⟩ := hclear hwithin
    rw [isMemberOf_eq_search]
    exact search_complete hlinked havoid
  · intro v hcut hbehind
    obtain ⟨parents, hperm, hfalse⟩ := exists_order_search_false hcut hbehind
    refine ⟨store.withParents parents, ?_, ?_⟩
    · rw [parents_withParents hperm]
      exact hperm
    · rw [isMemberOf_eq_search, parents_withParents hperm]
      exact hfalse

/-! ### A member that is not found -/

/-- A group, and the group that it is in. -/
def subgroup (id parent : String) : AbacEntity := { entityType := "g", id := id, parents := [parent] }

/-- The agent `u`, 14 nested groups `a` to `n` of which the last is in `v`, and `v` in `w` in `x`. -/
def nestedGroups (parents : List String) : List AbacEntity :=
  [{ entityType := "g", id := "u", parents := parents },
   subgroup "a" "g::b", subgroup "b" "g::c", subgroup "c" "g::d", subgroup "d" "g::e",
   subgroup "e" "g::f", subgroup "f" "g::g", subgroup "g" "g::h", subgroup "h" "g::i",
   subgroup "i" "g::j", subgroup "j" "g::k", subgroup "k" "g::l", subgroup "l" "g::m",
   subgroup "m" "g::n", subgroup "n" "g::v", subgroup "v" "g::w", subgroup "w" "g::x"]

/-- The store, with the parents of `u` in this order. -/
def nestedStore (parents : List String) : EntityStore :=
  .fromConfig plainAbacExternals (nestedGroups parents)

/-- `u` is in `a` and in `v`: three links lead to `x`, which is not found if `a` is listed first. -/
theorem member_not_found :
    (nestedStore ["g::v", "g::a"]).isMemberOf plainAbacExternals "g::u" "g::x" = true ∧
      ¬ ((nestedStore ["g::a", "g::v"]).isMemberOf plainAbacExternals "g::u" "g::x" = true ↔
        (nestedStore ["g::a", "g::v"]).WithinDepth (normalizeEntityKey plainAbacExternals "g::u")
          (normalizeEntityKey plainAbacExternals "g::x")) := by
  refine ⟨by decide +kernel, fun h => ?_⟩
  have hwithin : (nestedStore ["g::a", "g::v"]).WithinDepth
      (normalizeEntityKey plainAbacExternals "g::u")
      (normalizeEntityKey plainAbacExternals "g::x") := by
    refine ⟨["g::v", "g::w"], ?_, by decide⟩
    exact List.isChain_cons_cons.mpr ⟨by decide +kernel,
      List.isChain_cons_cons.mpr ⟨by decide +kernel, List.isChain_pair.mpr (by decide +kernel)⟩⟩
  exact absurd (h.mpr hwithin) (by decide +kernel)

end Vellaveto.Abac
