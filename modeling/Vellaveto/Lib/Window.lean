/-
  A WINDOW over the end of a history: a queue that drops its oldest entry when it is full.

  One push turns the last `cap` entries of a history into the last `cap` entries of the history with
  the new entry (`pushBounded_rtake`), so a property of the window is a property of the end of the
  history, and says nothing about what fell out of it.

  A log that refuses entries once it is full (`pushUnlessFull`) is the opposite: it holds the START
  of the history (`pushUnlessFull_take`) and never sees what comes after.
-/
import Mathlib.Data.List.DropRight

namespace Vellaveto.Lib

variable {α β : Type*}

/-- Push at the back; a queue of `cap` entries or more first loses its front. -/
def pushBounded (cap : Nat) (queue : List α) (x : α) : List α :=
  (if cap ≤ queue.length then queue.tail else queue) ++ [x]

/-- **One push moves the window by one entry.** -/
theorem pushBounded_rtake {cap : Nat} (hcap : 0 < cap) (xs : List α) (x : α) :
    pushBounded cap (xs.rtake cap) x = (xs ++ [x]).rtake cap := by
  obtain ⟨n, rfl⟩ : ∃ n, cap = n + 1 := ⟨cap - 1, by omega⟩
  rw [List.rtake_concat_succ, pushBounded]
  refine congrArg (· ++ [x]) ?_
  have hlen : (xs.rtake (n + 1)).length = xs.length - (xs.length - (n + 1)) := by
    rw [List.rtake, List.length_drop]
  by_cases hfull : n + 1 ≤ (xs.rtake (n + 1)).length
  · rw [if_pos hfull, List.rtake, List.rtake, List.tail_drop]
    rw [show xs.length - (n + 1) + 1 = xs.length - n by omega]
  · rw [if_neg hfull, List.rtake, List.rtake]
    rw [show xs.length - (n + 1) = 0 by omega, show xs.length - n = 0 by omega]

theorem map_pushBounded (f : α → β) (cap : Nat) (queue : List α) (x : α) :
    (pushBounded cap queue x).map f = pushBounded cap (queue.map f) (f x) := by
  unfold pushBounded
  rw [List.map_append, List.length_map]
  split
  · rw [List.map_tail]; rfl
  · rfl

/-- Push at the back, unless the log already has `cap` entries. -/
def pushUnlessFull (cap : Nat) (log : List α) (x : α) : List α :=
  if log.length < cap then log ++ [x] else log

/-- **A push adds to the start of the history, or nothing.** -/
theorem pushUnlessFull_take (cap : Nat) (xs : List α) (x : α) :
    pushUnlessFull cap (xs.take cap) x = (xs ++ [x]).take cap := by
  have hlen : (xs.take cap).length = min cap xs.length := List.length_take
  by_cases hroom : xs.length < cap
  · have hlog : xs.take cap = xs := List.take_of_length_le hroom.le
    rw [hlog, pushUnlessFull, if_pos hroom]
    exact (List.take_of_length_le (by rw [List.length_append]; exact hroom)).symm
  · have hfull : ¬(xs.take cap).length < cap := by omega
    rw [pushUnlessFull, if_neg hfull, List.take_append_of_le_length (by omega)]

/-- A log with room for two stretches of a history holds both. -/
theorem take_map_append {f : α → β} {cap : Nat} {p a : List α} (hroom : p.length + a.length ≤ cap) :
    ((p ++ a).map f).take cap = p.map f ++ (a.map f).take cap := by
  rw [List.map_append, List.take_of_length_le, List.take_of_length_le]
  · rw [List.length_map]; omega
  · rw [List.length_append, List.length_map, List.length_map]; exact hroom

theorem map_pushUnlessFull (f : α → β) (cap : Nat) (log : List α) (x : α) :
    (pushUnlessFull cap log x).map f = pushUnlessFull cap (log.map f) (f x) := by
  unfold pushUnlessFull
  rw [List.length_map]
  split
  · rw [List.map_append]; rfl
  · rfl

end Vellaveto.Lib
