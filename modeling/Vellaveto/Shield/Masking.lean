/-
  IS ALL DETECTED PII MASKED?

  `find_matches` resolves overlaps so that its callers can slice: the longest span at the earliest
  start wins and "redacts strictly more".  That holds for a span INSIDE the winner.  A span that
  starts inside the winner and ends after it is dropped whole, and the part that sticks out stays in
  clear: in `/a/b/alice@example.com` the path `/a/b/alice` wins over the address, and `@example.com`
  is sent.

  1. `not_shows_of_assembled` — what `find_matches` returns, `sanitize` does mask: a byte inside a
     returned span is in no piece that shows the input.

  2. `detected_pii_masked_iff` — so all that the patterns report is masked exactly when the
     reported spans are `Seamless`: wherever the chain of longest first spans ends strictly inside a
     reported span, a nonempty reported span starts.
-/
import Vellaveto.Shield.Sanitizer

namespace Vellaveto.Shield

open Vellaveto.Lib

/-- Every reported byte lies in a returned span, and no output of `sanitize` shows one. -/
structure DetectedPiiMasked (upper : Char → List Char) (scanner : PiiScanner) (input : Text) :
    Prop where
  covered : ∀ m ∈ scanner.reported input, ∀ i, m.start ≤ i → i < m.stop →
    ∃ k ∈ scanner.findMatches input, k.start ≤ i ∧ i < k.stop
  masked : ∀ s t pieces, s.scanner = scanner → sanitizePieces upper input s = (.ok pieces, t) →
    ∀ m ∈ scanner.reported input, ∀ i, m.start ≤ i → i < m.stop →
      ∀ piece ∈ pieces, ¬ piece.ShowsByte i

/-- Nothing before `lastEnd` is shown. -/
theorem not_shows_before {input : Text} {ms : List PiiMatch} {lastEnd : Nat} {ps : List Piece}
    (hps : Assembled input ms lastEnd ps) (horder : InOrder input ms lastEnd) {i : Nat}
    (hi : i < lastEnd) : ∀ piece ∈ ps, ¬ piece.ShowsByte i := by
  induction hps with
  | last hrest =>
    intro piece hpiece
    rw [List.mem_singleton.mp hpiece]
    rintro ⟨hle, _⟩
    omega
  | @next m ms lastEnd gap key ps hgap hps ih =>
    have hm := (horder.spans m List.mem_cons_self).start_le_stop
    have hlast : lastEnd ≤ m.start := horder.start m List.mem_cons_self
    intro piece hpiece
    rcases List.mem_cons.mp hpiece with rfl | hpiece
    · rintro ⟨hle, _⟩
      omega
    rcases List.mem_cons.mp hpiece with rfl | hpiece
    · exact id
    exact ih horder.tail (by omega) piece hpiece

/-- A byte of a match is shown by no piece. -/
theorem not_shows_of_assembled {input : Text} {ms : List PiiMatch} {lastEnd : Nat}
    {ps : List Piece} (hps : Assembled input ms lastEnd ps) (horder : InOrder input ms lastEnd)
    {k : PiiMatch} (hk : k ∈ ms) {i : Nat} (hstart : k.start ≤ i) (hstop : i < k.stop) :
    ∀ piece ∈ ps, ¬ piece.ShowsByte i := by
  induction hps with
  | last => cases hk
  | @next m ms lastEnd gap key ps hgap hps ih =>
    have hfirst : ∀ n ∈ ms, m.stop ≤ n.start := (List.pairwise_cons.mp horder.disjoint).1
    have hm := (horder.spans m List.mem_cons_self).start_le_stop
    intro piece hpiece
    rcases List.mem_cons.mp hpiece with rfl | hpiece
    · -- the gap before `m` lies before every match
      show ¬ (lastEnd ≤ i ∧ i < m.start)
      rcases List.mem_cons.mp hk with rfl | hk
      · omega
      · have hle := hfirst k hk
        omega
    rcases List.mem_cons.mp hpiece with rfl | hlater
    · exact id
    rcases List.mem_cons.mp hk with rfl | hk
    · -- what is pushed later starts at the end of `k`
      exact not_shows_before hps horder.tail hstop piece hlater
    · exact ih horder.tail hk piece hlater

/-- **Detected PII is masked exactly when the reported spans are seamless.** -/
theorem detected_pii_masked_iff (upper : Char → List Char) (scanner : PiiScanner) (input : Text) :
    DetectedPiiMasked upper scanner input ↔
      Seamless PiiMatch.start PiiMatch.stop (scanner.reported input) := by
  rw [← scanner.covers_findMatches_iff input]
  constructor
  · intro h
    exact h.covered
  · intro hcover
    refine ⟨hcover, ?_⟩
    rintro s t pieces rfl hok m hm i hstart hstop
    obtain ⟨k, hk, hkstart, hkstop⟩ := hcover m hm i hstart hstop
    rw [sanitizePieces_apply, if_neg (by simpa using List.ne_nil_of_mem hk)] at hok
    obtain ⟨ps, rfl, hps, _⟩ := assembled_of_sanitizeLoop hok
    exact not_shows_of_assembled hps (inOrder_findMatches _ _) hk hkstart hkstop

/-! ## A path that ends in an address -/

/-- The expression that reports one span of one text, and nothing in any other. -/
def spanOf (text : Text) (start stop : Nat) (hle : start ≤ stop) (hstart : IsBoundary text start)
    (hstop : IsBoundary text stop) : Regex where
  findIter input := if input = text then [(start, stop)] else []
  start_le_end input m hm := by
    split at hm
    · cases List.mem_singleton.mp hm
      exact hle
    · cases hm
  start_boundary input m hm := by
    split at hm
    · rename_i htext
      cases List.mem_singleton.mp hm
      rw [htext]
      exact hstart
    · cases hm
  end_boundary input m hm := by
    split at hm
    · rename_i htext
      cases List.mem_singleton.mp hm
      rw [htext]
      exact hstop
    · cases hm

/-- A path with an address as its last part. -/
def pathWithAddress : Text := "/a/b/alice@example.com".toList

/-- What the built-in patterns `email` and `path` report in `pathWithAddress`: the address from
    byte 5 on, and the path up to the `@`. -/
def pathScanner : PiiScanner where
  defaultPatterns :=
    [⟨"email", spanOf pathWithAddress 5 22 (by decide) ⟨_, rfl⟩ ⟨_, rfl⟩, false⟩,
     ⟨"path", spanOf pathWithAddress 0 10 (by decide) ⟨_, rfl⟩ ⟨_, rfl⟩, false⟩]
  customPatterns := []

/-- The domain of the address is reported, and sent in clear. -/
theorem address_after_path_not_masked :
    ¬ ∀ upper scanner input, DetectedPiiMasked upper scanner input := by
  intro h
  have hcovered := (h (fun c => [c]) pathScanner pathWithAddress).covered
  have hreported : ∃ m ∈ pathScanner.reported pathWithAddress, m.start ≤ 10 ∧ 10 < m.stop := by
    decide +kernel
  obtain ⟨m, hm, hstart, hstop⟩ := hreported
  obtain ⟨k, hk, hkstart, hkstop⟩ := hcovered m hm 10 hstart hstop
  have hnone : ∀ k ∈ pathScanner.findMatches pathWithAddress, ¬ (k.start ≤ 10 ∧ 10 < k.stop) := by
    decide +kernel
  exact hnone k hk ⟨hkstart, hkstop⟩

end Vellaveto.Shield
