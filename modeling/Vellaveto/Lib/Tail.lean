/-
  THE TAIL OF A UTF-8 TEXT.

  Cutting `n` bytes off the front of an encoded text may cut a character in two.  Skipping the
  continuation bytes that are left of it brings the cut to the next character, so that what remains is
  the encoding of a suffix of the text again (`dropWhile_drop_utf8Encode`).  `dropBytes` is that suffix.
-/
import Vellaveto.Lib.Escape

namespace Vellaveto.Lib

/-- The characters behind the first `n` bytes; a character that is cut is dropped. -/
def dropBytes : Nat → List Char → List Char
  | 0, cs => cs
  | _ + 1, [] => []
  | n + 1, c :: cs => dropBytes (n + 1 - c.utf8Size) cs

@[simp] theorem dropBytes_zero (cs : List Char) : dropBytes 0 cs = cs := by
  cases cs <;> rfl

theorem dropBytes_suffix (n : Nat) (cs : List Char) : dropBytes n cs <:+ cs := by
  induction cs generalizing n with
  | nil => cases n <;> exact List.suffix_refl []
  | cons c cs ih =>
    cases n with
    | zero => exact List.suffix_refl _
    | succ n => exact (ih _).trans (List.suffix_cons c cs)

/-- What lies behind the cut is kept. -/
theorem dropBytes_append {n : Nat} {as bs : List Char} (h : n ≤ (utf8Encode as).length) :
    dropBytes n (as ++ bs) = dropBytes n as ++ bs := by
  induction as generalizing n with
  | nil =>
    obtain rfl : n = 0 := Nat.le_zero.mp h
    rw [dropBytes_zero, dropBytes_zero]
  | cons c as ih =>
    cases n with
    | zero => rw [dropBytes_zero, dropBytes_zero]
    | succ n =>
      rw [utf8Encode_cons, List.length_append, String.length_utf8EncodeChar] at h
      exact ih (by omega)

/-- The bytes of a character: one that is no continuation byte, and continuation bytes. -/
theorem utf8EncodeChar_shape (c : Char) : ∃ b bs, String.utf8EncodeChar c = b :: bs ∧
    isContinuation b = false ∧ ∀ x ∈ bs, isContinuation x = true := by
  have hfirst : ∀ n, n % 256 < 0x80 ∨ 0xBF < n % 256 → isContinuation (UInt8.ofNat n) = false := by
    intro n hn
    simp only [isContinuation, UInt8.le_iff_toNat_le, UInt8.toNat_ofNat', UInt8.toNat_ofNat,
      Bool.and_eq_false_iff, decide_eq_false_iff_not]
    omega
  have hrest : ∀ n, isContinuation (UInt8.ofNat (n % 64 + 0x80)) = true := by
    intro n
    simp only [isContinuation, UInt8.le_iff_toNat_le, UInt8.toNat_ofNat', UInt8.toNat_ofNat,
      Bool.and_eq_true, decide_eq_true_eq]
    omega
  fun_cases String.utf8EncodeChar c with
  | case1 v h1 =>
    clear_value v
    exact ⟨_, [], rfl, hfirst _ (by omega), List.forall_mem_nil _⟩
  | case2 v h1 h2 =>
    clear_value v
    exact ⟨_, _, rfl, hfirst _ (by omega), List.forall_mem_singleton.mpr (hrest v)⟩
  | case3 v h1 h2 h3 =>
    clear_value v
    exact ⟨_, _, rfl, hfirst _ (by omega), List.forall_mem_cons.mpr ⟨hrest _,
      List.forall_mem_singleton.mpr (hrest v)⟩⟩
  | case4 v h1 h2 h3 =>
    clear_value v
    exact ⟨_, _, rfl, hfirst _ (by omega), List.forall_mem_cons.mpr ⟨hrest _,
      List.forall_mem_cons.mpr ⟨hrest _, List.forall_mem_singleton.mpr (hrest v)⟩⟩⟩

theorem dropWhile_utf8Encode (cs : List Char) :
    (utf8Encode cs).dropWhile isContinuation = utf8Encode cs := by
  cases cs with
  | nil => rfl
  | cons c cs =>
    obtain ⟨b, bs, hc, hb, -⟩ := utf8EncodeChar_shape c
    rw [utf8Encode_cons, hc, List.cons_append, List.dropWhile_cons_of_neg (by simp [hb])]

/-- **Cut, and go on to the next character.** -/
theorem dropWhile_drop_utf8Encode (n : Nat) (cs : List Char) :
    ((utf8Encode cs).drop n).dropWhile isContinuation = utf8Encode (dropBytes n cs) := by
  induction cs generalizing n with
  | nil => cases n <;> rfl
  | cons c cs ih =>
    cases n with
    | zero => exact dropWhile_utf8Encode (c :: cs)
    | succ n =>
      have hsize := String.length_utf8EncodeChar c
      show _ = utf8Encode (dropBytes (n + 1 - c.utf8Size) cs)
      rw [utf8Encode_cons, List.drop_append, hsize, ← ih]
      -- of the character that is cut, only continuation bytes are left
      have hcut : ∀ x ∈ (String.utf8EncodeChar c).drop (n + 1), isContinuation x = true := by
        intro x hx
        obtain ⟨b, bs, hc, -, hbs⟩ := utf8EncodeChar_shape c
        rw [hc, List.drop_succ_cons] at hx
        exact hbs x (List.mem_of_mem_drop hx)
      rw [List.dropWhile_append_of_pos hcut]

end Vellaveto.Lib
