/-
  ASCII LETTERS and their case.

  `str::to_ascii_lowercase` changes the 26 capital letters and nothing else; two texts that it makes
  equal are the same but for the case of ASCII letters (`SameCaseless`).  Such texts have the same
  length in bytes, are cut alike, and every property of characters that the ASCII letters share holds
  of both.
-/
import Mathlib.Data.String.Basic
import Vellaveto.Lib.Text

namespace Vellaveto.Lib

/-- What holds of the first 128 characters holds of every ASCII character. -/
theorem forall_ascii {P : Char → Prop} (h : ∀ n < 0x80, P (Char.ofNat n)) {c : Char}
    (hc : isAscii c = true) : P c := by
  have hlt : c.toNat < 0x80 := by simpa [isAscii] using hc
  have hn := h c.toNat hlt
  rwa [Char.ofNat_toNat] at hn

/-- The same text but for the case of ASCII letters. -/
def SameCaseless (cs ds : List Char) : Prop := cs.map Char.toLower = ds.map Char.toLower

instance (cs ds : List Char) : Decidable (SameCaseless cs ds) :=
  inferInstanceAs (Decidable (_ = _))

/-- An ASCII letter. -/
def isAsciiLetter (c : Char) : Bool := ('a' ≤ c && c ≤ 'z') || ('A' ≤ c && c ≤ 'Z')

/-- Lower case changes nothing but letters, to letters. -/
theorem toLower_eq_or_letter (c : Char) :
    c.toLower = c ∨ (isAsciiLetter c = true ∧ isAsciiLetter c.toLower = true) := by
  cases hc : isAscii c with
  | true =>
    refine forall_ascii (P := fun c => c.toLower = c ∨
      (isAsciiLetter c = true ∧ isAsciiLetter c.toLower = true)) ?_ hc
    decide
  | false =>
    refine Or.inl ?_
    unfold Char.toLower
    split
    · rename_i hupper
      have hlt : c.toNat < 0x80 :=
        Nat.lt_of_le_of_lt (UInt32.le_iff_toNat_le.mp hupper.2) (by decide)
      simp only [isAscii, decide_eq_false_iff_not] at hc
      omega
    · rfl

/-- Characters of one case class are the same, or both are ASCII letters. -/
theorem eq_or_letters_of_toLower_eq {c d : Char} (h : c.toLower = d.toLower) :
    c = d ∨ (isAsciiLetter c = true ∧ isAsciiLetter d = true) := by
  rcases toLower_eq_or_letter c with hc | ⟨hc, hc'⟩
  · rcases toLower_eq_or_letter d with hd | ⟨hd, hd'⟩
    · exact Or.inl (hc.symm.trans (h.trans hd))
    · refine Or.inr ⟨?_, hd⟩
      rw [← hc, h]
      exact hd'
  · rcases toLower_eq_or_letter d with hd | ⟨hd, -⟩
    · refine Or.inr ⟨hc, ?_⟩
      rw [← hd, ← h]
      exact hc'
    · exact Or.inr ⟨hc, hd⟩

/-- What no ASCII letter is, is told apart by no change of case. -/
theorem eq_of_toLower_eq {c d : Char} (hd : isAsciiLetter d = false) (h : c.toLower = d.toLower) :
    c = d := by
  rcases eq_or_letters_of_toLower_eq h with heq | ⟨-, hletter⟩
  · exact heq
  · rw [hd] at hletter
    cases hletter

/-- A property of characters that all ASCII letters have alike does not depend on the case. -/
theorem eq_of_caseless {β : Type} {f : Char → β} {b : β}
    (hf : ∀ c, isAsciiLetter c = true → f c = b) {c d : Char} (h : c.toLower = d.toLower) :
    f c = f d := by
  rcases eq_or_letters_of_toLower_eq h with rfl | ⟨hc, hd⟩
  · rfl
  · rw [hf c hc, hf d hd]

/-- What holds of the letters among the first 128 characters holds of every letter. -/
theorem forall_letter {P : Char → Prop}
    (h : ∀ n < 0x80, isAsciiLetter (Char.ofNat n) = true → P (Char.ofNat n)) {c : Char}
    (hc : isAsciiLetter c = true) : P c := by
  refine forall_ascii (P := fun c => isAsciiLetter c = true → P c) h ?_ hc
  simp only [isAsciiLetter, Bool.or_eq_true, Bool.and_eq_true, decide_eq_true_eq] at hc
  simp only [isAscii, decide_eq_true_eq]
  have hz : 'z'.toNat = 122 := rfl
  have hZ : 'Z'.toNat = 90 := rfl
  rcases hc with ⟨-, hle⟩ | ⟨-, hle⟩
  · have hle' : c.toNat ≤ 'z'.toNat := hle
    omega
  · have hle' : c.toNat ≤ 'Z'.toNat := hle
    omega

namespace SameCaseless

variable {cs ds : List Char}

theorem refl (cs : List Char) : SameCaseless cs cs := rfl

/-- Two texts that differ in case only, cut at the same place. -/
theorem exists_append {front back : List Char} (h : SameCaseless cs (front ++ back)) :
    ∃ front' back', cs = front' ++ back' ∧ SameCaseless front' front ∧ SameCaseless back' back := by
  rw [SameCaseless, List.map_append, List.map_eq_append_iff] at h
  obtain ⟨front', back', rfl, hfront, hback⟩ := h
  exact ⟨front', back', rfl, hfront, hback⟩

theorem append {front back front' back' : List Char} (hfront : SameCaseless front' front)
    (hback : SameCaseless back' back) : SameCaseless (front' ++ back') (front ++ back) := by
  rw [SameCaseless, List.map_append, List.map_append, hfront, hback]

/-- A character that is no letter stands in both texts or in neither. -/
theorem mem (h : SameCaseless cs ds) {d : Char} (hd : isAsciiLetter d = false) (hmem : d ∈ cs) : d ∈ ds := by
  have hmem' : d.toLower ∈ ds.map Char.toLower := h ▸ List.mem_map_of_mem hmem
  obtain ⟨c, hc, heq⟩ := List.mem_map.mp hmem'
  rw [← eq_of_toLower_eq hd heq]
  exact hc

theorem any_eq {f : Char → Bool} {b : Bool} (hf : ∀ c, isAsciiLetter c = true → f c = b)
    (h : SameCaseless cs ds) : cs.any f = ds.any f := by
  induction cs generalizing ds with
  | nil =>
    cases ds with
    | nil => rfl
    | cons d ds => cases h
  | cons c cs ih =>
    cases ds with
    | nil => cases h
    | cons d ds =>
      obtain ⟨hhead, htail⟩ := List.cons.inj h
      rw [List.any_cons, List.any_cons, ih htail, eq_of_caseless hf hhead]

theorem utf8Len_eq (h : SameCaseless cs ds) : String.utf8Len cs = String.utf8Len ds := by
  induction cs generalizing ds with
  | nil =>
    cases ds with
    | nil => rfl
    | cons d ds => cases h
  | cons c cs ih =>
    cases ds with
    | nil => cases h
    | cons d ds =>
      obtain ⟨hhead, htail⟩ := List.cons.inj h
      have hsize : c.utf8Size = d.utf8Size := by
        refine eq_of_caseless (b := 1) ?_ hhead
        exact fun c hc => forall_letter (P := fun c => c.utf8Size = 1) (by decide) hc
      rw [String.utf8Len_cons, String.utf8Len_cons, ih htail, hsize]

end SameCaseless

end Vellaveto.Lib
