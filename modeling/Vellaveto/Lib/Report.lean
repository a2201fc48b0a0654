/-
  TRACKERS that report findings.

  A tracker takes calls one at a time, and each call returns what the tracker found at that call.
  `reported` is what the LAST call of a sequence returns.  What a tracker remembers of the earlier
  calls is a log, and a log is a window over the history: `log_run` reads it off from what one call
  does to it.
-/
import Mathlib.Data.List.Basic
import Vellaveto.Lib.Run

namespace Vellaveto.Lib

variable {σ α β φ : Type*} {record : σ → α → Option (σ × List φ)}

/-- One call: the tracker goes on from the state before, and the findings are those of this call. -/
def feed (record : σ → α → Option (σ × List φ)) (s : σ × List φ) (call : α) :
    Option (σ × List φ) := record s.1 call

/-- What the last of the calls reports; nothing if there is none, or if a call panics. -/
def reported (record : σ → α → Option (σ × List φ)) (s : σ) (calls : List α) : List φ :=
  ((run (feed record) (s, []) calls).map Prod.snd).getD []

theorem mem_reported {s : σ} {calls : List α} {f : φ} :
    f ∈ reported record s calls ↔
      ∃ t fs, run (feed record) (s, []) calls = some (t, fs) ∧ f ∈ fs := by
  unfold reported
  cases h : run (feed record) (s, []) calls with
  | none => simp
  | some r =>
    obtain ⟨t, fs⟩ := r
    simp

/-- The findings are those of the last call, made in the state that the calls before it left. -/
theorem exists_last_call {s t : σ} {calls : List α} {call : α} {fs : List φ}
    (hrun : run (feed record) (s, []) (calls ++ [call]) = some (t, fs)) :
    ∃ r, run (feed record) (s, []) calls = some r ∧ record r.1 call = some (t, fs) := by
  obtain ⟨r, hr, hlast⟩ := run_append_eq_some.mp hrun
  obtain ⟨r', hcall, hnil⟩ := run_cons_eq_some.mp hlast
  cases hnil
  exact ⟨r, hr, hcall⟩

/-- **What the log holds.**  If a call turns the window of a history into the window of the history
    with the call's entry, a run turns it into the window of the history with all its entries. -/
theorem log_run (log : σ → List β) (entry : α → β) (window : List β → List β)
    (hstep : ∀ s call t fs, record s call = some (t, fs) → ∀ xs, log s = window xs →
      log t = window (xs ++ [entry call]))
    {calls : List α} {r r' : σ × List φ} {xs : List β} (hlog : log r.1 = window xs)
    (hrun : run (feed record) r calls = some r') : log r'.1 = window (xs ++ calls.map entry) := by
  induction calls generalizing r xs with
  | nil =>
    cases hrun
    rw [List.map_nil, List.append_nil]
    exact hlog
  | cons call calls ih =>
    obtain ⟨u, hu, hrest⟩ := run_cons_eq_some.mp hrun
    have hnext := hstep r.1 call u.1 u.2 hu xs hlog
    rw [List.map_cons, List.append_cons]
    exact ih hnext hrest

/-- When it depends on the call alone whether it panics, a run returns exactly if no call panics. -/
theorem run_feed_isSome {ok : α → Prop} (hok : ∀ s call, (record s call).isSome ↔ ok call)
    {calls : List α} {r : σ × List φ} :
    (run (feed record) r calls).isSome ↔ ∀ call ∈ calls, ok call := by
  induction calls generalizing r with
  | nil => simp
  | cons call calls ih =>
    rw [List.forall_mem_cons, ← hok r.1 call]
    show ((record r.1 call).bind fun u => run (feed record) u calls).isSome ↔ _
    cases record r.1 call with
    | none => simp
    | some u =>
      rw [Option.bind_some, ih]
      simp

end Vellaveto.Lib
