/-
  EFFECTFUL CALLS: a call on a state that returns a value or stops with an error.

  `Act σ ε α` is a function on the state.  What the call had changed when it stopped STAYS changed,
  which is how a Rust method with `&self`, a lock and `?` behaves.  Two rules carry the proofs:

    1. `Act.bind_eq_ok`   a sequence returned exactly if both parts did, one after the other;
    2. `Act.Keeps`        a preorder on states that each part keeps, whatever its outcome, is kept
                          by the sequence.
-/
import Mathlib.Order.Defs.PartialOrder

namespace Vellaveto.Lib

/-- A call: from the state before to the outcome and the state after. -/
def Act (σ ε α : Type*) : Type _ := σ → Except ε α × σ

namespace Act

variable {σ ε : Type}

instance : Monad (Act σ ε) where
  pure a := fun s => (.ok a, s)
  bind x f := fun s =>
    match x s with
    | (.ok a, t) => f a t
    | (.error e, t) => (.error e, t)

/-- The state as it is. -/
def read : Act σ ε σ := fun s => (.ok s, s)

/-- Change the state. -/
def update (f : σ → σ) : Act σ ε Unit := fun s => (.ok (), f s)

/-- Stop with an error. -/
def stop {α : Type} (e : ε) : Act σ ε α := fun s => (.error e, s)

/-- The value, or stop if there is none. -/
def orStop {α : Type} (e : ε) : Option α → Act σ ε α
  | some a => pure a
  | none => stop e

variable {α β : Type} {x : Act σ ε α} {f : α → Act σ ε β} {s t : σ}

@[simp] theorem pure_apply (a : α) : (pure a : Act σ ε α) s = (.ok a, s) := rfl
@[simp] theorem read_apply : (read : Act σ ε σ) s = (.ok s, s) := rfl
@[simp] theorem update_apply (g : σ → σ) : (update g : Act σ ε Unit) s = (.ok (), g s) := rfl
@[simp] theorem stop_apply (e : ε) : (stop e : Act σ ε α) s = (.error e, s) := rfl

/-- A sequence returns exactly if its parts do. -/
theorem bind_eq_ok {b : β} : (x >>= f) s = (.ok b, t) ↔
    ∃ a u, x s = (.ok a, u) ∧ f a u = (.ok b, t) := by
  show (match x s with
    | (.ok a, t) => f a t
    | (.error e, t) => (.error e, t)) = _ ↔ _
  rcases hx : x s with ⟨_ | a, u⟩
  · simp
  · constructor
    · intro h
      exact ⟨a, u, rfl, h⟩
    · rintro ⟨_, _, hau, h⟩
      cases hau
      exact h

/-- A sequence stops where one of its parts does. -/
theorem bind_eq_error {e : ε} : (x >>= f) s = (.error e, t) ↔
    x s = (.error e, t) ∨ ∃ a u, x s = (.ok a, u) ∧ f a u = (.error e, t) := by
  show (match x s with
    | (.ok a, t) => f a t
    | (.error e, t) => (.error e, t)) = _ ↔ _
  rcases hx : x s with ⟨_ | a, u⟩
  · simp
  · constructor
    · intro h
      exact Or.inr ⟨a, u, rfl, h⟩
    · rintro (h | ⟨_, _, hau, h⟩)
      · cases h
      · cases hau
        exact h

theorem pure_eq_ok {a b : α} : (pure a : Act σ ε α) s = (.ok b, t) ↔ a = b ∧ s = t := by
  simp

theorem orStop_eq_ok {e : ε} {o : Option α} {a : α} :
    orStop e o s = (.ok a, t) ↔ o = some a ∧ s = t := by
  cases o <;> simp [orStop]

/-- After a call that stopped, nothing more happens. -/
theorem bind_of_error {e : ε} (h : x s = (.error e, t)) : (x >>= f) s = (.error e, t) := by
  show (match x s with
    | (.ok a, t) => f a t
    | (.error e, t) => (.error e, t)) = _
  rw [h]

theorem bind_of_ok {a : α} (h : x s = (.ok a, t)) : (x >>= f) s = f a t := by
  show (match x s with
    | (.ok a, t) => f a t
    | (.error e, t) => (.error e, t)) = _
  rw [h]

/-- Whatever the outcome, the states before and after are related. -/
def Keeps (R : σ → σ → Prop) (x : Act σ ε α) : Prop := ∀ s, R s (x s).2

section Keeps

variable {R : σ → σ → Prop} (hrefl : ∀ s, R s s) (htrans : ∀ s t u, R s t → R t u → R s u)

include hrefl in
theorem keeps_pure (a : α) : Keeps R (pure a : Act σ ε α) := fun s => hrefl s

include hrefl in
theorem keeps_read : Keeps R (read : Act σ ε σ) := fun s => hrefl s

include hrefl in
theorem keeps_stop (e : ε) : Keeps R (stop e : Act σ ε α) := fun s => hrefl s

include hrefl in
theorem keeps_orStop (e : ε) (o : Option α) : Keeps R (orStop e o : Act σ ε α) := by
  cases o with
  | none => exact keeps_stop hrefl e
  | some a => exact keeps_pure hrefl a

include htrans in
/-- The rule for a sequence at one state, where what the first part returned is known. -/
theorem rel_bind (hx : R s (x s).2) (hf : ∀ a t, x s = (.ok a, t) → R t (f a t).2) :
    R s ((x >>= f) s).2 := by
  rcases h : x s with ⟨_ | a, u⟩
  · rw [h] at hx
    rw [bind_of_error h]
    exact hx
  · rw [h] at hx
    rw [bind_of_ok h]
    exact htrans s u _ hx (hf a u h)

include htrans in
theorem Keeps.bind (hx : Keeps R x) (hf : ∀ a, Keeps R (f a)) : Keeps R (x >>= f) :=
  fun s => rel_bind htrans (hx s) fun a t _ => hf a t

end Keeps

end Act

end Vellaveto.Lib
