/-
  FORBID OVERRIDES: rules that permit or forbid, asked one after the other.

      let mut best_permit = None;
      for rule in rules {
          if !applies(rule) { continue; }
          if forbids(rule) { return Deny(rule); }
          best_permit = best_permit.or(Some(rule));
      }
      match best_permit { Some(rule) => Allow(rule), None => NoMatch }

  The early return makes the loop look sensitive to the order of the rules.  Only the rule that is
  named is:

    1. `combine_eq_deny_iff`           the rule that denies is the first one that applies and forbids;
    2. `combine_eq_allow_iff`          a rule allows when no rule that applies forbids and it is the
                                       first that applies;
    3. `exists_combine_eq_deny_iff`,
       `exists_combine_eq_allow_iff`   so the rules deny when SOME rule that applies forbids, and allow
                                       when none does and some rule applies: no word of positions.
-/
import Mathlib.Data.List.Basic

namespace Vellaveto.Lib

variable {α : Type*}

/-- What a list of rules comes to. -/
inductive Ruling (α : Type*) where
  | deny (rule : α)
  | allow (rule : α)
  | noMatch

/-- The loop; `best` is the first permitting rule so far. -/
def combine (forbids applies : α → Bool) : Option α → List α → Ruling α
  | none, [] => .noMatch
  | some rule, [] => .allow rule
  | best, rule :: rules =>
    if applies rule then
      if forbids rule then .deny rule else combine forbids applies (best <|> some rule) rules
    else combine forbids applies best rules

variable {forbids applies : α → Bool}

/-! ## One rule -/

theorem combine_cons (best : Option α) (rule : α) (rules : List α) :
    combine forbids applies best (rule :: rules) =
      if applies rule then
        if forbids rule then .deny rule else combine forbids applies (best <|> some rule) rules
      else combine forbids applies best rules := by
  cases best <;> rfl

theorem combine_cons_skip {rule : α} (best : Option α) (rules : List α) (h : applies rule = false) :
    combine forbids applies best (rule :: rules) = combine forbids applies best rules := by
  rw [combine_cons, h]
  rfl

theorem combine_cons_deny {rule : α} (best : Option α) (rules : List α) (h : applies rule = true)
    (hforbids : forbids rule = true) :
    combine forbids applies best (rule :: rules) = .deny rule := by
  rw [combine_cons, h, hforbids]
  rfl

theorem combine_cons_permit {rule : α} (best : Option α) (rules : List α) (h : applies rule = true)
    (hforbids : forbids rule = false) :
    combine forbids applies best (rule :: rules) =
      combine forbids applies (best <|> some rule) rules := by
  rw [combine_cons, h, hforbids]
  rfl

/-! ## All rules -/

theorem combine_eq_deny_iff {best : Option α} {rules : List α} {rule : α} :
    combine forbids applies best rules = .deny rule ↔
      rules.find? (fun r => applies r && forbids r) = some rule := by
  induction rules generalizing best with
  | nil => cases best <;> simp [combine]
  | cons r rules ih =>
    cases happlies : applies r with
    | false =>
      rw [combine_cons_skip best rules happlies, ih, List.find?_cons_of_neg (by simp [happlies])]
    | true =>
      cases hforbids : forbids r with
      | false =>
        rw [combine_cons_permit best rules happlies hforbids, ih,
          List.find?_cons_of_neg (by simp [hforbids])]
      | true =>
        rw [combine_cons_deny best rules happlies hforbids,
          List.find?_cons_of_pos (by simp [happlies, hforbids])]
        simp

theorem combine_eq_allow_iff {best : Option α} {rules : List α} {rule : α} :
    combine forbids applies best rules = .allow rule ↔
      (∀ r ∈ rules, applies r = true → forbids r = false) ∧
        (best <|> rules.find? applies) = some rule := by
  induction rules generalizing best with
  | nil => cases best <;> simp [combine]
  | cons r rules ih =>
    rw [List.forall_mem_cons]
    cases happlies : applies r with
    | false =>
      rw [combine_cons_skip best rules happlies, ih, List.find?_cons_of_neg (by simp [happlies])]
      simp
    | true =>
      rw [List.find?_cons_of_pos happlies]
      cases hforbids : forbids r with
      | false =>
        rw [combine_cons_permit best rules happlies hforbids, ih]
        cases best <;> simp
      | true =>
        rw [combine_cons_deny best rules happlies hforbids]
        simp

/-- The rules deny exactly when one that applies forbids. -/
theorem exists_combine_eq_deny_iff {best : Option α} {rules : List α} :
    (∃ rule, combine forbids applies best rules = .deny rule) ↔
      ∃ r ∈ rules, forbids r = true ∧ applies r = true := by
  simp only [combine_eq_deny_iff]
  rw [← Option.isSome_iff_exists, List.find?_isSome]
  simp [and_comm]

/-- **Forbid overrides.**  The rules allow exactly when one of them applies and none that applies
    forbids. -/
theorem exists_combine_eq_allow_iff {rules : List α} :
    (∃ rule, combine forbids applies none rules = .allow rule) ↔
      (¬∃ r ∈ rules, forbids r = true ∧ applies r = true) ∧ ∃ r ∈ rules, applies r = true := by
  have hnone : (¬∃ r ∈ rules, forbids r = true ∧ applies r = true) ↔
      ∀ r ∈ rules, applies r = true → forbids r = false := by
    simp only [not_exists, not_and, Bool.not_eq_true]
    exact forall₂_congr fun r _ => by cases forbids r <;> simp
  simp only [combine_eq_allow_iff, exists_and_left, hnone]
  rw [← Option.isSome_iff_exists]
  show _ ∧ (rules.find? applies).isSome = true ↔ _
  rw [List.find?_isSome]

end Vellaveto.Lib
