/-
  RUNS of a deterministic, possibly panicking, state machine.

  A component of the gateway is a state and a few calls on it.  A call either yields the next
  state or PANICS (`none`); after a panic nothing more happens.  `run` performs a list of calls,
  `EachStep` says that a property of (state before, call, state after) holds at every call of the
  list that is reached, and the rules below are what the component proofs use:

    1. `run_invariant`      what every step preserves, every run preserves (`run_invariant_mem`: what
                            the calls of this run preserve; `run_invariant_of_eachStep` and
                            `EachStep.of_invariant`: what the steps that meet a condition preserve,
                            and what follows at each of them);
    2. `run_rel`            a preorder kept by every step relates the two ends of the run;
    3. `eachStep_congr`     two step properties that agree wherever an invariant holds agree along
                            whole runs;
    4. `eachStep_iff`       when one step keeps `Q` exactly if its condition holds, then `Q` holds in
                            EVERY state of a run exactly if the condition holds at EVERY step;
    5. `run_iff_eachStep`   if moreover `Q` never comes back once it is lost, it holds at the END of a
                            run exactly if the condition holds at every step;
    6. `eachStep_fresh`     when the names that the calls of a run bring with them are distinct, each
                            is new to the state it comes into.
-/
import Mathlib.Order.Defs.PartialOrder

namespace Vellaveto.Lib

variable {σ α : Type*}

/-- Perform the calls in order; `none` as soon as one of them panics. -/
def run (step : σ → α → Option σ) : σ → List α → Option σ
  | s, [] => some s
  | s, a :: as => (step s a).bind fun s' => run step s' as

/-- `P before call after` holds at every call of the run that is reached and returns. -/
def EachStep (step : σ → α → Option σ) (P : σ → α → σ → Prop) : σ → List α → Prop
  | _, [] => True
  | s, a :: as => ∀ s', step s a = some s' → P s a s' ∧ EachStep step P s' as

/-- Whether a property holds at each step of a run can be found out by running it. -/
instance EachStep.decidable (step : σ → α → Option σ) (P : σ → α → σ → Prop)
    [∀ s a s', Decidable (P s a s')] : (s : σ) → (as : List α) → Decidable (EachStep step P s as)
  | _, [] => isTrue trivial
  | s, a :: as =>
    match h : step s a with
    | none => isTrue fun s' hs' => absurd (h.symm.trans hs') (Option.some_ne_none s').symm
    | some s' =>
      have := EachStep.decidable step P s' as
      decidable_of_iff (P s a s' ∧ EachStep step P s' as)
        ⟨fun hs _ ht => Option.some.inj (h.symm.trans ht) ▸ hs, fun hs => hs s' h⟩

variable {step : σ → α → Option σ}

@[simp] theorem run_nil (s : σ) : run step s [] = some s := rfl

theorem run_cons_eq_some {s t : σ} {a : α} {as : List α} :
    run step s (a :: as) = some t ↔ ∃ s', step s a = some s' ∧ run step s' as = some t :=
  Option.bind_eq_some_iff

theorem run_append_eq_some {s t : σ} {as bs : List α} :
    run step s (as ++ bs) = some t ↔ ∃ u, run step s as = some u ∧ run step u bs = some t := by
  induction as generalizing s with
  | nil =>
    refine ⟨fun h => ⟨s, rfl, h⟩, ?_⟩
    rintro ⟨u, hu, ht⟩
    cases hu
    exact ht
  | cons a as ih =>
    rw [List.cons_append, run_cons_eq_some]
    simp only [run_cons_eq_some, ih]
    constructor
    · rintro ⟨s', hs', u, hu, ht⟩
      exact ⟨u, ⟨s', hs', hu⟩, ht⟩
    · rintro ⟨u, ⟨s', hs', hu⟩, ht⟩
      exact ⟨s', hs', u, hu, ht⟩

/-- A step property along two runs, one after the other. -/
theorem EachStep.append {P : σ → α → σ → Prop} {s u : σ} {as bs : List α}
    (h : EachStep step P s (as ++ bs)) (hrun : run step s as = some u) :
    EachStep step P s as ∧ EachStep step P u bs := by
  induction as generalizing s with
  | nil =>
    cases hrun
    exact ⟨trivial, h⟩
  | cons a as ih =>
    obtain ⟨s', hs', hrest⟩ := run_cons_eq_some.mp hrun
    obtain ⟨hP, htail⟩ := h s' hs'
    obtain ⟨hleft, hright⟩ := ih htail hrest
    refine ⟨fun t ht => ?_, hright⟩
    cases hs'.symm.trans ht
    exact ⟨hP, hleft⟩

/-- **Invariant rule.**  What the calls of a run preserve, the run preserves. -/
theorem run_invariant_mem {I : σ → Prop} {s t : σ} {as : List α}
    (hstep : ∀ s a s', a ∈ as → I s → step s a = some s' → I s') (hs : I s)
    (hrun : run step s as = some t) : I t := by
  induction as generalizing s with
  | nil => cases hrun; exact hs
  | cons a as ih =>
    obtain ⟨s', hs', hrest⟩ := run_cons_eq_some.mp hrun
    refine ih (fun s b s' hb => hstep s b s' (List.mem_cons_of_mem a hb)) ?_ hrest
    exact hstep s a s' List.mem_cons_self hs hs'

/-- What every step preserves, every run preserves. -/
theorem run_invariant {I : σ → Prop} (hstep : ∀ s a s', I s → step s a = some s' → I s')
    {s t : σ} {as : List α} (hs : I s) (hrun : run step s as = some t) : I t :=
  run_invariant_mem (fun s a s' _ => hstep s a s') hs hrun

/-- What the steps of a run that meet a condition preserve, the run preserves if they all meet it. -/
theorem run_invariant_of_eachStep {I : σ → Prop} {C : σ → α → σ → Prop} {s t : σ} {as : List α}
    (hstep : ∀ s a s', a ∈ as → I s → C s a s' → step s a = some s' → I s')
    (heach : EachStep step C s as) (hs : I s) (hrun : run step s as = some t) : I t := by
  induction as generalizing s with
  | nil => cases hrun; exact hs
  | cons a as ih =>
    obtain ⟨s', hs', hrest⟩ := run_cons_eq_some.mp hrun
    obtain ⟨hC, htail⟩ := heach s' hs'
    refine ih (fun s b s' hb => hstep s b s' (List.mem_cons_of_mem a hb)) htail ?_ hrest
    exact hstep s a s' List.mem_cons_self hs hC hs'

/-- **Preorder rule.**  A reflexive, transitive relation that holds across every step of the run
    holds between its ends. -/
theorem run_rel {R : σ → σ → Prop} (hrefl : ∀ s, R s s)
    (htrans : ∀ s t u, R s t → R t u → R s u) {s t : σ} {as : List α}
    (heach : EachStep step (fun s _ s' => R s s') s as) (hrun : run step s as = some t) :
    R s t := by
  induction as generalizing s with
  | nil => cases hrun; exact hrefl _
  | cons a as ih =>
    obtain ⟨s', hs', hrest⟩ := run_cons_eq_some.mp hrun
    obtain ⟨hR, htail⟩ := heach s' hs'
    exact htrans s s' t hR (ih htail hrest)

/-- What holds of every step holds along every run. -/
theorem eachStep_of_step {P : σ → α → σ → Prop} (h : ∀ s a s', step s a = some s' → P s a s')
    {s : σ} {as : List α} : EachStep step P s as := by
  induction as generalizing s with
  | nil => trivial
  | cons a as ih => exact fun s' hs' => ⟨h s a s' hs', ih⟩

/-- Two step properties that agree wherever the invariant holds agree along whole runs. -/
theorem eachStep_congr {I : σ → Prop} {P Q : σ → α → σ → Prop}
    (hstep : ∀ s a s', I s → step s a = some s' → I s')
    (hPQ : ∀ s a s', I s → step s a = some s' → (P s a s' ↔ Q s a s'))
    {s : σ} {as : List α} (hs : I s) : EachStep step P s as ↔ EachStep step Q s as := by
  induction as generalizing s with
  | nil => exact Iff.rfl
  | cons a as ih =>
    refine forall_congr' fun s' => imp_congr_right fun hs' => ?_
    rw [hPQ s a s' hs hs', ih (hstep s a s' hs hs')]

/-- A step property that follows from another one, for the calls of the run and wherever the
    invariant holds. -/
theorem EachStep.mono {I : σ → Prop} {P Q : σ → α → σ → Prop}
    (hstep : ∀ s a s', I s → step s a = some s' → I s') {s : σ} {as : List α}
    (hPQ : ∀ s a s', a ∈ as → I s → step s a = some s' → P s a s' → Q s a s')
    (hs : I s) (h : EachStep step P s as) : EachStep step Q s as := by
  induction as generalizing s with
  | nil => trivial
  | cons a as ih =>
    intro s' hs'
    obtain ⟨hP, htail⟩ := h s' hs'
    refine ⟨hPQ s a s' List.mem_cons_self hs hs' hP, ih ?_ (hstep s a s' hs hs') htail⟩
    intro t b t' hb
    exact hPQ t b t' (List.mem_cons_of_mem a hb)

/-- What follows at the steps that meet a condition, from an invariant that these steps keep, holds
    along a run whose steps all meet it. -/
theorem EachStep.of_invariant {I : σ → Prop} {C Q : σ → α → σ → Prop} {s : σ} {as : List α}
    (hstep : ∀ s a s', a ∈ as → I s → C s a s' → step s a = some s' → I s' ∧ Q s a s')
    (heach : EachStep step C s as) (hs : I s) : EachStep step Q s as := by
  induction as generalizing s with
  | nil => trivial
  | cons a as ih =>
    intro s' hs'
    obtain ⟨hC, htail⟩ := heach s' hs'
    obtain ⟨hI', hQ⟩ := hstep s a s' List.mem_cons_self hs hC hs'
    exact ⟨hQ, ih (fun s b s' hb => hstep s b s' (List.mem_cons_of_mem a hb)) htail hI'⟩

theorem EachStep.and {P Q : σ → α → σ → Prop} {s : σ} {as : List α} (hP : EachStep step P s as)
    (hQ : EachStep step Q s as) : EachStep step (fun s a s' => P s a s' ∧ Q s a s') s as := by
  induction as generalizing s with
  | nil => trivial
  | cons a as ih =>
    intro s' hs'
    exact ⟨⟨(hP s' hs').1, (hQ s' hs').1⟩, ih (hP s' hs').2 (hQ s' hs').2⟩

/-- **Exactness rule.**  Let `I` be an invariant, and let a step from a state where `Q` holds keep
    `Q` exactly when its condition `C` holds.  From a state where `Q` holds, `Q` then holds in every
    state the run reaches exactly when every step of the run meets `C`. -/
theorem eachStep_iff {I Q : σ → Prop} {C : σ → α → Prop}
    (hstep : ∀ s a s', I s → step s a = some s' → I s')
    (hQC : ∀ s a s', I s → Q s → step s a = some s' → (Q s' ↔ C s a))
    {s : σ} {as : List α} (hs : I s) (hQ : Q s) :
    EachStep step (fun _ _ s' => Q s') s as ↔ EachStep step (fun s a _ => C s a) s as := by
  induction as generalizing s with
  | nil => exact Iff.rfl
  | cons a as ih =>
    refine forall_congr' fun s' => imp_congr_right fun hs' => ?_
    have hI' : I s' := hstep s a s' hs hs'
    -- the tail is only reached with `Q` in both readings, which is what the hypothesis needs
    constructor
    · rintro ⟨hQ', htail⟩
      exact ⟨(hQC s a s' hs hQ hs').mp hQ', (ih hI' hQ').mp htail⟩
    · rintro ⟨hC, htail⟩
      have hQ' : Q s' := (hQC s a s' hs hQ hs').mpr hC
      exact ⟨hQ', (ih hI' hQ').mpr htail⟩

/-- What no step brings back holds at the start of a run if it holds at its end. -/
theorem run_backward {I Q : σ → Prop} {D : σ → α → Prop}
    (hstep : ∀ s a s', I s → D s a → step s a = some s' → I s')
    (hback : ∀ s a s', I s → D s a → step s a = some s' → Q s' → Q s)
    {s t : σ} {as : List α} (hD : EachStep step (fun s a _ => D s a) s as) (hs : I s)
    (hrun : run step s as = some t) (hQ : Q t) : Q s := by
  induction as generalizing s with
  | nil => cases hrun; exact hQ
  | cons a as ih =>
    obtain ⟨s', hs', hrest⟩ := run_cons_eq_some.mp hrun
    obtain ⟨hDa, hDas⟩ := hD s' hs'
    exact hback s a s' hs hDa hs' (ih hDas (hstep s a s' hs hDa hs') hrest)

/-- **Exactness at the end of a run.**  Let the steps of the run meet `D`.  If such a step keeps the
    invariant, keeps `Q` exactly when its condition `C` holds, and never brings `Q` back, then `Q`
    holds at the end of the run exactly when every step meets `C`. -/
theorem run_iff_eachStep {I Q : σ → Prop} {D C : σ → α → Prop}
    (hstep : ∀ s a s', I s → D s a → step s a = some s' → I s')
    (hQC : ∀ s a s', I s → D s a → Q s → step s a = some s' → (Q s' ↔ C s a))
    (hback : ∀ s a s', I s → D s a → step s a = some s' → Q s' → Q s)
    {s t : σ} {as : List α} (hD : EachStep step (fun s a _ => D s a) s as) (hs : I s) (hQ : Q s)
    (hrun : run step s as = some t) : Q t ↔ EachStep step (fun s a _ => C s a) s as := by
  induction as generalizing s with
  | nil =>
    cases hrun
    exact iff_of_true hQ trivial
  | cons a as ih =>
    obtain ⟨s', hs', hrest⟩ := run_cons_eq_some.mp hrun
    obtain ⟨hDa, hDas⟩ := hD s' hs'
    have hI' : I s' := hstep s a s' hs hDa hs'
    have hone := hQC s a s' hs hDa hQ hs'
    by_cases hQ' : Q s'
    · have htail := ih hDas hI' hQ' hrest
      rw [htail]
      constructor
      · intro h u hu
        obtain rfl : s' = u := Option.some.inj (hs'.symm.trans hu)
        exact ⟨hone.mp hQ', h⟩
      · intro h
        exact (h s' hs').2
    · -- once lost, `Q` is lost to the end
      have hlost : ¬Q t := fun hQt => hQ' (run_backward hstep hback hDas hI' hrest hQt)
      refine iff_of_false hlost fun h => hQ' ?_
      exact hone.mpr (h s' hs').1

/-- **Freshness rule.**  A step uses no name but those used before and the one it brings.  If the
    names of a run are distinct and new at its start, each is new when it comes. -/
theorem eachStep_fresh {β : Type*} {newName : α → Option β} (used : σ → β → Prop)
    (hstep : ∀ s a s', step s a = some s' → ∀ b, used s' b → used s b ∨ newName a = some b)
    {s : σ} {as : List α} (hdistinct : (as.filterMap newName).Nodup)
    (hs : ∀ b ∈ as.filterMap newName, ¬used s b) :
    EachStep step (fun s a _ => ∀ b, newName a = some b → ¬used s b) s as := by
  induction as generalizing s with
  | nil => trivial
  | cons a as ih =>
    intro s' hs'
    refine ⟨fun b hb => hs b (List.mem_filterMap.mpr ⟨a, List.mem_cons_self, hb⟩), ?_⟩
    have hsplit : (a :: as).filterMap newName = (newName a).toList ++ as.filterMap newName := by
      rw [List.filterMap_cons]
      cases newName a with
      | none => rfl
      | some b => rfl
    rw [hsplit] at hdistinct hs
    obtain ⟨-, htail, hdisjoint⟩ := List.nodup_append.mp hdistinct
    refine ih htail fun b hb hused => ?_
    rcases hstep s a s' hs' b hused with hold | hnew
    · exact hs b (List.mem_append_right _ hb) hold
    · exact hdisjoint b (by simp [hnew]) b hb rfl

end Vellaveto.Lib
