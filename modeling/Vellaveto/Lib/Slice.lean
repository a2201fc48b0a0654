/-
  BYTE SLICES of a text.

  A position in a Rust `&str` is a BYTE offset, and `&s[a..b]` panics unless `a ≤ b` and both are
  character boundaries.  The text stays a list of characters here, so `slice` is partial; the
  lemmas say when it is defined and what it returns, in terms of the ways to split the text.
-/
import Mathlib.Data.String.Basic
import Mathlib.Tactic.Common
import Vellaveto.Lib.Text

namespace Vellaveto.Lib

/-- `&s[a..b]`; `none` is its panic. -/
def slice (cs : List Char) (a b : Nat) : Option (List Char) :=
  if a ≤ b then (byteSuffix cs a).bind fun rest => bytePrefix rest (b - a) else none

/-- `&s[..s.len().min(max)]`; `none` is its panic, when byte `max` is inside a character. -/
def clipBytes (max : Nat) (s : String) : Option String := sliceTo s (min s.utf8ByteSize max)

/-- `n` is the offset of a character boundary, the end of the text included. -/
def IsBoundary (cs : List Char) (n : Nat) : Prop := ∃ u, bytePrefix cs n = some u

theorem bytePrefix_append (u v : List Char) : bytePrefix (u ++ v) (String.utf8Len u) = some u := by
  induction u with
  | nil => simp [bytePrefix]
  | cons c u ih =>
    have hpos := c.utf8Size_pos
    obtain ⟨n, hn⟩ := Nat.exists_eq_succ_of_ne_zero (show String.utf8Len u + c.utf8Size ≠ 0 by omega)
    have hle : c.utf8Size ≤ n + 1 := by omega
    have hsub : n + 1 - c.utf8Size = String.utf8Len u := by omega
    rw [String.utf8Len_cons, hn, List.cons_append, bytePrefix, if_pos hle, hsub, ih]
    rfl

theorem byteSuffix_append (u v : List Char) : byteSuffix (u ++ v) (String.utf8Len u) = some v := by
  induction u with
  | nil => simp [byteSuffix]
  | cons c u ih =>
    have hpos := c.utf8Size_pos
    obtain ⟨n, hn⟩ := Nat.exists_eq_succ_of_ne_zero (show String.utf8Len u + c.utf8Size ≠ 0 by omega)
    have hle : c.utf8Size ≤ n + 1 := by omega
    have hsub : n + 1 - c.utf8Size = String.utf8Len u := by omega
    rw [String.utf8Len_cons, hn, List.cons_append, byteSuffix, if_pos hle, hsub, ih]

/-- The first `n` bytes are `w` exactly when the text starts with `w` and `w` has `n` bytes. -/
theorem bytePrefix_eq_some {cs w : List Char} {n : Nat} :
    bytePrefix cs n = some w ↔ ∃ v, cs = w ++ v ∧ String.utf8Len w = n := by
  constructor
  · intro h
    induction cs generalizing n w with
    | nil =>
      cases n with
      | zero =>
        cases h
        exact ⟨[], rfl, rfl⟩
      | succ n => cases h
    | cons c cs ih =>
      cases n with
      | zero =>
        cases h
        exact ⟨c :: cs, rfl, rfl⟩
      | succ n =>
        rw [bytePrefix] at h
        split at h
        · rename_i hle
          obtain ⟨w, hw, rfl⟩ := Option.map_eq_some_iff.mp h
          obtain ⟨v, rfl, hlen⟩ := ih hw
          refine ⟨v, rfl, ?_⟩
          rw [String.utf8Len_cons, hlen]
          omega
        · cases h
  · rintro ⟨v, rfl, rfl⟩
    exact bytePrefix_append w v

theorem exists_byteSuffix {cs u : List Char} {n : Nat} (h : bytePrefix cs n = some u) :
    ∃ v, byteSuffix cs n = some v ∧ cs = u ++ v := by
  obtain ⟨v, rfl, rfl⟩ := bytePrefix_eq_some.mp h
  exact ⟨v, byteSuffix_append u v, rfl⟩

theorem isBoundary_zero (cs : List Char) : IsBoundary cs 0 := ⟨[], by cases cs <;> rfl⟩

/-- Of two prefixes of one text, the one with more bytes starts with the other. -/
theorem prefix_of_utf8Len_le {cs u t : List Char} (hu : u <+: cs) (ht : t <+: cs)
    (hle : String.utf8Len u ≤ String.utf8Len t) : u <+: t := by
  rcases List.prefix_or_prefix_of_prefix hu ht with h | ⟨r, rfl⟩
  · exact h
  · cases r with
    | nil => simp
    | cons c r =>
      have hpos := c.utf8Size_pos
      rw [String.utf8Len_append, String.utf8Len_cons] at hle
      omega

/-- Between two boundaries in order a slice is defined, and continues the prefix before it. -/
theorem exists_slice {cs u : List Char} {a b : Nat} (ha : bytePrefix cs a = some u)
    (hb : IsBoundary cs b) (hab : a ≤ b) :
    ∃ w, slice cs a b = some w ∧ bytePrefix cs b = some (u ++ w) := by
  obtain ⟨t, ht⟩ := hb
  obtain ⟨v, rfl, rfl⟩ := bytePrefix_eq_some.mp ha
  obtain ⟨v', hsplit, rfl⟩ := bytePrefix_eq_some.mp ht
  have hut : u <+: t :=
    prefix_of_utf8Len_le (List.prefix_append u v) (hsplit ▸ List.prefix_append t v') hab
  obtain ⟨w, rfl⟩ := hut
  have hv : v = w ++ v' := by
    rw [List.append_assoc] at hsplit
    exact List.append_cancel_left hsplit
  refine ⟨w, ?_, ht⟩
  rw [slice, if_pos hab, byteSuffix_append, Option.bind_some, hv, String.utf8Len_append,
    Nat.add_sub_cancel_left]
  exact bytePrefix_append w v'

/-- A slice that is defined continues the prefix before it. -/
theorem bytePrefix_of_slice {cs u w : List Char} {a b : Nat} (ha : bytePrefix cs a = some u)
    (h : slice cs a b = some w) : bytePrefix cs b = some (u ++ w) := by
  rw [slice] at h
  split at h
  · rename_i hab
    obtain ⟨rest, hrest, hw⟩ := Option.bind_eq_some_iff.mp h
    obtain ⟨v, hv, rfl⟩ := exists_byteSuffix ha
    obtain rfl : v = rest := Option.some.inj (hv.symm.trans hrest)
    obtain ⟨v', rfl, hlen⟩ := bytePrefix_eq_some.mp hw
    obtain ⟨_, _, hu⟩ := bytePrefix_eq_some.mp ha
    have hb : String.utf8Len (u ++ w) = b := by
      rw [String.utf8Len_append]
      omega
    exact bytePrefix_eq_some.mpr ⟨v', (List.append_assoc u w v').symm, hb⟩
  · cases h

end Vellaveto.Lib
