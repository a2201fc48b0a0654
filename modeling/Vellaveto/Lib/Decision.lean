/-
  DECISION LISTS: rules asked one after the other until one of them answers.

  A rule may DECIDE (`ok (some v)`), PASS the question on (`ok none`) or FAIL (`error e`); the first
  rule that does not pass settles the matter.  This is the loop

      for rule in rules { if let Some(v) = ask(rule)? { return Ok(Some(v)); } }

  `Asked ask P rules` says that `P` holds of every rule the loop gets to.  The rules below are what
  the evaluators use:

    1. `firstDecision_eq_some_iff`  who decided, and that everybody before passed;
    2. `firstDecision_filter`       rules that pass may be left out;
    3. `firstDecision_congr`        two ways of asking that agree, up to a kind of answer, on every
                                    rule that is asked give decisions that agree
                                    (`firstDecision_congr₂`: for two corresponding lists);
    4. `firstDecision_eq_of_asked`  and so do two that give the same answers, texts and errors included
                                    (`findSome?_eq_of_reached`: for checks that cannot fail).
-/
import Mathlib.Data.List.Forall2

namespace Vellaveto.Lib

variable {α β ε ν κ : Type*}

/-- A decision, or the next one if it passes. -/
def orAsk (d next : Except ε (Option ν)) : Except ε (Option ν) :=
  match d with
  | .error e => .error e
  | .ok (some v) => .ok (some v)
  | .ok none => next

/-- The answer of the first rule that does not pass. -/
def firstDecision (ask : α → Except ε (Option ν)) : List α → Except ε (Option ν)
  | [] => .ok none
  | a :: as => orAsk (ask a) (firstDecision ask as)

/-- `P` holds of every rule that is asked. -/
def Asked (ask : α → Except ε (Option ν)) (P : α → Prop) : List α → Prop
  | [] => True
  | a :: as => P a ∧ (ask a = .ok none → Asked ask P as)

/-- Whether a decision passes can be decided, whatever the answers are. -/
instance decidablePass : (d : Except ε (Option ν)) → Decidable (d = .ok none)
  | .error _ => .isFalse (by simp)
  | .ok none => .isTrue rfl
  | .ok (some _) => .isFalse (by simp)

instance decidableAsked (ask : α → Except ε (Option ν)) (P : α → Prop) [DecidablePred P] :
    (as : List α) → Decidable (Asked ask P as)
  | [] => .isTrue trivial
  | a :: as =>
    have : Decidable (Asked ask P as) := decidableAsked ask P as
    inferInstanceAs (Decidable (P a ∧ (ask a = .ok none → Asked ask P as)))

/-- What is left of a result when errors lose their text and values all but their kind. -/
def outcome (kind : ν → κ) : Except ε ν → Option κ
  | .ok v => some (kind v)
  | .error _ => none

/-- The outcome of a decision. -/
abbrev decided (kind : ν → κ) : Except ε (Option ν) → Option (Option κ) :=
  outcome (Option.map kind)

@[simp] theorem outcome_ok (kind : ν → κ) (v : ν) :
    outcome kind (.ok v : Except ε ν) = some (kind v) := rfl

@[simp] theorem outcome_error (kind : ν → κ) (e : ε) :
    outcome kind (.error e : Except ε ν) = none := rfl

/-- A bind succeeds exactly when both of its parts do. -/
theorem bind_eq_ok_iff {α β : Type} {x : Except ε α} {f : α → Except ε β} {b : β} :
    (x >>= f) = .ok b ↔ ∃ a, x = .ok a ∧ f a = .ok b := by
  cases x with
  | error e =>
    constructor
    · intro h
      cases h
    · rintro ⟨a, ha, -⟩
      cases ha
  | ok a =>
    constructor
    · intro h
      exact ⟨a, rfl, h⟩
    · rintro ⟨a', ha', h⟩
      cases ha'
      exact h

/-- A check that fails with an error is passed by what comes after it. -/
theorem ite_error_eq_ok_iff {β : Type} {P : Prop} [Decidable P] {e : ε} {x : Except ε β} {b : β} :
    (if P then .error e else x) = .ok b ↔ ¬ P ∧ x = .ok b := by
  by_cases h : P
  · simp [h]
  · simp [h]

/-- A check that answers is passed by what comes after it. -/
theorem ite_some_eq_none_iff {β : Type} {P : Prop} [Decidable P] {v : β} {x : Option β} :
    (if P then some v else x) = none ↔ ¬ P ∧ x = none := by
  by_cases h : P
  · simp [h]
  · simp [h]

/-- A traversal succeeds with the list of the results. -/
theorem forall₂_of_mapM_eq_ok {α β : Type} {f : α → Except ε β} {as : List α} {bs : List β}
    (h : as.mapM f = .ok bs) : List.Forall₂ (fun a b => f a = .ok b) as bs := by
  induction as generalizing bs with
  | nil =>
    cases h
    exact .nil
  | cons a as ih =>
    rw [List.mapM_cons] at h
    obtain ⟨b, hb, h⟩ := bind_eq_ok_iff.mp h
    obtain ⟨bs', hbs', h⟩ := bind_eq_ok_iff.mp h
    cases h
    exact .cons hb (ih hbs')

/-- If a result, where there is one, is that of a total function, a traversal that succeeds maps the
    function. -/
theorem eq_map_of_mapM_eq_ok {α β : Type} {f : α → Except ε β} {g : α → β} {as : List α}
    {bs : List β} (hg : ∀ a b, f a = .ok b → b = g a) (h : as.mapM f = .ok bs) :
    bs = as.map g := by
  have hall := forall₂_of_mapM_eq_ok h
  clear h
  induction hall with
  | nil => rfl
  | cons hab _ ih => rw [List.map_cons, ← hg _ _ hab, ih]

/-! ## One decision after another -/

@[simp] theorem orAsk_pass (next : Except ε (Option ν)) : orAsk (.ok none) next = next := rfl

theorem orAsk_settled {d : Except ε (Option ν)} (next : Except ε (Option ν)) (hd : d ≠ .ok none) :
    orAsk d next = d := by
  rcases d with e | (_ | v)
  · rfl
  · exact absurd rfl hd
  · rfl

theorem orAsk_eq_none_iff {d next : Except ε (Option ν)} :
    orAsk d next = .ok none ↔ d = .ok none ∧ next = .ok none := by
  by_cases hd : d = .ok none
  · rw [hd, orAsk_pass]
    simp
  · rw [orAsk_settled next hd]
    simp [hd]

/-- A decision passes exactly when its outcome says so. -/
theorem decided_eq_pass_iff {kind : ν → κ} {d : Except ε (Option ν)} :
    decided kind d = some none ↔ d = .ok none := by
  rcases d with e | (_ | v) <;> simp [decided, outcome]

/-- Agreement is kept by asking one after the other. -/
theorem decided_orAsk {ε' ν' : Type*} {kind : ν → κ} {kind' : ν' → κ}
    {d next : Except ε (Option ν)} {d' next' : Except ε' (Option ν')}
    (hd : decided kind d = decided kind' d')
    (hnext : d = .ok none → decided kind next = decided kind' next') :
    decided kind (orAsk d next) = decided kind' (orAsk d' next') := by
  by_cases hpass : d = .ok none
  · have hkind : decided kind' d' = some none := by
      rw [← hd, hpass]
      rfl
    have hpass' : d' = .ok none := decided_eq_pass_iff.mp hkind
    rw [hpass, hpass', orAsk_pass, orAsk_pass]
    exact hnext hpass
  · have hpass' : d' ≠ .ok none := by
      intro hd'
      have hkind : decided kind d = some none := by
        rw [hd, hd']
        rfl
      exact hpass (decided_eq_pass_iff.mp hkind)
    rw [orAsk_settled next hpass, orAsk_settled next' hpass']
    exact hd

/-! ## Lists of rules -/

variable {ask : α → Except ε (Option ν)}

theorem firstDecision_cons_pass {a : α} (as : List α) (ha : ask a = .ok none) :
    firstDecision ask (a :: as) = firstDecision ask as := by
  rw [firstDecision, ha, orAsk_pass]

theorem firstDecision_cons_settled {a : α} (as : List α) (ha : ask a ≠ .ok none) :
    firstDecision ask (a :: as) = ask a := by
  rw [firstDecision, orAsk_settled _ ha]

/-- Nobody decides exactly when everybody passes. -/
theorem firstDecision_eq_none_iff {as : List α} :
    firstDecision ask as = .ok none ↔ ∀ a ∈ as, ask a = .ok none := by
  induction as with
  | nil => simp [firstDecision]
  | cons a as ih =>
    by_cases ha : ask a = .ok none
    · rw [firstDecision_cons_pass as ha, ih]
      simp [ha]
    · rw [firstDecision_cons_settled as ha]
      simp [ha]

/-- The rule that decided: it gave the answer, and every rule before it passed. -/
theorem firstDecision_eq_some_iff {as : List α} {v : ν} :
    firstDecision ask as = .ok (some v) ↔
      ∃ before a after, as = before ++ a :: after ∧ ask a = .ok (some v) ∧
        ∀ b ∈ before, ask b = .ok none := by
  induction as with
  | nil => simp [firstDecision]
  | cons a as ih =>
    by_cases ha : ask a = .ok none
    · rw [firstDecision_cons_pass as ha, ih]
      constructor
      · rintro ⟨before, b, after, rfl, hb, hbefore⟩
        refine ⟨a :: before, b, after, rfl, hb, fun c hc => ?_⟩
        rcases List.mem_cons.mp hc with rfl | hc
        · exact ha
        · exact hbefore c hc
      · rintro ⟨before, b, after, heq, hb, hbefore⟩
        cases before with
        | nil =>
          obtain ⟨rfl, rfl⟩ := List.cons_eq_cons.mp heq
          rw [ha] at hb
          cases hb
        | cons c before =>
          obtain ⟨rfl, rfl⟩ := List.cons_eq_cons.mp heq
          exact ⟨before, b, after, rfl, hb, fun d hd => hbefore d (List.mem_cons_of_mem _ hd)⟩
    · rw [firstDecision_cons_settled as ha]
      constructor
      · intro hv
        exact ⟨[], a, as, rfl, hv, by simp⟩
      · rintro ⟨before, b, after, heq, hb, hbefore⟩
        cases before with
        | nil =>
          obtain ⟨rfl, rfl⟩ := List.cons_eq_cons.mp heq
          exact hb
        | cons c before =>
          obtain ⟨rfl, rfl⟩ := List.cons_eq_cons.mp heq
          exact absurd (hbefore a List.mem_cons_self) ha

theorem firstDecision_map (f : β → α) (bs : List β) :
    firstDecision ask (bs.map f) = firstDecision (fun b => ask (f b)) bs := by
  induction bs with
  | nil => rfl
  | cons b bs ih =>
    rw [List.map_cons, firstDecision, firstDecision, ih]

/-- Rules that pass may be left out. -/
theorem firstDecision_filter (p : α → Bool) (as : List α)
    (hpass : ∀ a ∈ as, p a = false → ask a = .ok none) :
    firstDecision ask (as.filter p) = firstDecision ask as := by
  induction as with
  | nil => rfl
  | cons a as ih =>
    have ih' := ih fun b hb => hpass b (List.mem_cons_of_mem a hb)
    by_cases hp : p a = true
    · rw [List.filter_cons_of_pos hp, firstDecision, firstDecision, ih']
    · rw [List.filter_cons_of_neg hp, ih',
        firstDecision_cons_pass as (hpass a List.mem_cons_self (by simpa using hp))]

theorem Asked.mono {P Q : α → Prop} {as : List α} (hPQ : ∀ a ∈ as, P a → Q a)
    (h : Asked ask P as) : Asked ask Q as := by
  induction as with
  | nil => trivial
  | cons a as ih =>
    obtain ⟨hP, hrest⟩ := h
    refine ⟨hPQ a List.mem_cons_self hP, fun ha => ih ?_ (hrest ha)⟩
    intro b hb
    exact hPQ b (List.mem_cons_of_mem a hb)

/-- Agreement of two lists of rules that correspond to each other one by one: if corresponding
    rules agree, up to the kind of answer, as far as the first list is asked, both decide alike. -/
theorem firstDecision_congr₂ {kind : ν → κ} {ε' ν' : Type*} {kind' : ν' → κ}
    {ask' : β → Except ε' (Option ν')} {R : α → β → Prop} {as : List α} {bs : List β}
    (hrel : List.Forall₂ R as bs)
    (h : Asked ask (fun a => ∀ b, R a b → decided kind (ask a) = decided kind' (ask' b)) as) :
    decided kind (firstDecision ask as) = decided kind' (firstDecision ask' bs) := by
  induction hrel with
  | nil => rfl
  | cons hab _ ih =>
    obtain ⟨hagree, hrest⟩ := h
    exact decided_orAsk (hagree _ hab) fun ha => ih (hrest ha)

/-- **Agreement rule.**  If two ways of asking agree, up to the kind of answer, on every rule the
    first one gets to, then they decide alike. -/
theorem firstDecision_congr {kind : ν → κ} {ε' ν' : Type*} {kind' : ν' → κ}
    {ask' : α → Except ε' (Option ν')} {as : List α}
    (h : Asked ask (fun a => decided kind (ask a) = decided kind' (ask' a)) as) :
    decided kind (firstDecision ask as) = decided kind' (firstDecision ask' as) := by
  refine firstDecision_congr₂ (List.forall₂_same.mpr fun a _ => (rfl : a = a)) (h.mono ?_)
  intro a _ ha b hab
  rwa [← hab]

/-- Two checks of a list find the same if they agree on every entry that the first gets to. -/
theorem findSome?_eq_of_reached {f g : α → Option β} {as : List α}
    (h : ∀ (i : Nat) a, as[i]? = some a → (∀ j < i, ∀ b, as[j]? = some b → f b = none) → f a = g a) :
    as.findSome? f = as.findSome? g := by
  induction as with
  | nil => rfl
  | cons a as ih =>
    have hfirst : f a = g a := h 0 a rfl fun j hj => absurd hj (Nat.not_lt_zero j)
    rw [List.findSome?_cons, List.findSome?_cons, ← hfirst]
    cases ha : f a with
    | some v => rfl
    | none =>
      apply ih
      intro i b hb hbefore
      apply h (i + 1) b hb
      intro j hj c hc
      cases j with
      | zero =>
        cases hc
        exact ha
      | succ j => exact hbefore j (Nat.lt_of_succ_lt_succ hj) c hc

/-- Two ways of asking decide the same if they agree on every rule that the first gets to. -/
theorem firstDecision_eq_of_asked {ask' : α → Except ε (Option ν)} {as : List α}
    (h : Asked ask (fun a => ask a = ask' a) as) : firstDecision ask as = firstDecision ask' as := by
  induction as with
  | nil => rfl
  | cons a as ih =>
    obtain ⟨ha, hrest⟩ := h
    rw [firstDecision, firstDecision, ← ha]
    by_cases hpass : ask a = .ok none
    · rw [ih (hrest hpass)]
    · rw [orAsk_settled _ hpass, orAsk_settled _ hpass]

/-- A single rule decides alone. -/
theorem firstDecision_singleton (ask : α → Except ε (Option ν)) (a : α) :
    firstDecision ask [a] = ask a := by
  rw [firstDecision, firstDecision]
  by_cases hpass : ask a = .ok none
  · rw [hpass, orAsk_pass]
  · rw [orAsk_settled _ hpass]

theorem asked_of_forall {P : α → Prop} {as : List α}
    (h : ∀ a ∈ as, P a) : Asked ask P as := by
  induction as with
  | nil => trivial
  | cons a as ih =>
    refine ⟨h a List.mem_cons_self, fun _ => ih fun b hb => ?_⟩
    exact h b (List.mem_cons_of_mem a hb)

/-- An optional value is known from what it is with two different defaults. -/
theorem eq_of_getD_eq {r r' : Option α} {a b : α} (ha : r.getD a = r'.getD a)
    (hb : r.getD b = r'.getD b) (hab : a ≠ b) : r = r' := by
  cases r with
  | none =>
    cases r' with
    | none => rfl
    | some v' => exact absurd (ha.trans hb.symm) hab
  | some v =>
    cases r' with
    | none => exact absurd (ha.symm.trans hb) hab
    | some v' => exact congrArg some ha

end Vellaveto.Lib
