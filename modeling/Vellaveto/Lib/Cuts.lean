/-
  CUTTING A TEXT AT A CHARACTER.

  `beforeFirst` and `afterLast` are how the parsers of the source take a text apart.  A separator that does
  not occur in a part passes over it, so a text that is put together from parts is cut between them.
  Percent-decoding passes over a part without `%` in the same way.
-/
import Mathlib.Data.List.TakeWhile
import Vellaveto.Lib.Escape
import Vellaveto.Lib.Text

namespace Vellaveto.Lib

variable {sep : Char} {cs ds : List Char}

theorem beforeFirst_append (h : sep ∉ cs) : beforeFirst sep (cs ++ ds) = cs ++ beforeFirst sep ds := by
  refine List.takeWhile_append_of_pos fun c hc => ?_
  exact decide_eq_true fun heq => h (heq ▸ hc)

theorem beforeFirst_eq_self (h : sep ∉ cs) : beforeFirst sep cs = cs := by
  refine List.takeWhile_eq_self_iff.mpr fun c hc => ?_
  exact decide_eq_true fun heq => h (heq ▸ hc)

@[simp] theorem beforeFirst_nil (sep : Char) : beforeFirst sep [] = [] := rfl

@[simp] theorem beforeFirst_cons_self (sep : Char) (cs : List Char) : beforeFirst sep (sep :: cs) = [] := by
  simp [beforeFirst]

theorem beforeFirst_cons_of_ne {c : Char} (h : c ≠ sep) (cs : List Char) :
    beforeFirst sep (c :: cs) = c :: beforeFirst sep cs := by
  simp [beforeFirst, h]

theorem beforeFirst_append_of_mem (h : sep ∈ cs) : beforeFirst sep (cs ++ ds) = beforeFirst sep cs := by
  induction cs with
  | nil => cases h
  | cons c cs ih =>
    by_cases hc : c = sep
    · subst hc
      rw [List.cons_append, beforeFirst_cons_self, beforeFirst_cons_self]
    · have hmem : sep ∈ cs := (List.mem_cons.mp h).resolve_left (Ne.symm hc)
      rw [List.cons_append, beforeFirst_cons_of_ne hc, beforeFirst_cons_of_ne hc, ih hmem]

theorem beforeFirst_subset (sep : Char) (cs : List Char) : beforeFirst sep cs ⊆ cs :=
  (List.takeWhile_prefix _).subset

theorem afterLast_eq_self (h : sep ∉ cs) : afterLast sep cs = cs := by
  have hall : ∀ c ∈ cs.reverse, decide (c ≠ sep) = true := fun c hc =>
    decide_eq_true fun heq => h (heq ▸ List.mem_reverse.mp hc)
  rw [afterLast, List.takeWhile_eq_self_iff.mpr hall, List.reverse_reverse]

/-- The last separator is the one with no other behind it. -/
theorem afterLast_append_cons (h : sep ∉ ds) : afterLast sep (cs ++ sep :: ds) = ds := by
  have hall : ∀ c ∈ ds.reverse, decide (c ≠ sep) = true := fun c hc =>
    decide_eq_true fun heq => h (heq ▸ List.mem_reverse.mp hc)
  rw [afterLast, List.reverse_append, List.reverse_cons, List.append_assoc,
    List.takeWhile_append_of_pos hall]
  simp

theorem afterLast_append_of_mem (h : sep ∈ ds) : afterLast sep (cs ++ ds) = afterLast sep ds := by
  have hrev := @beforeFirst_append_of_mem sep ds.reverse cs.reverse (List.mem_reverse.mpr h)
  rw [afterLast, List.reverse_append]
  exact congrArg List.reverse hrev

/-! ### Percent-decoding -/

theorem percentDecodeBytes_cons_of_ne {b : UInt8} (h : b ≠ 0x25) (bs : List UInt8) :
    percentDecodeBytes (b :: bs) = b :: percentDecodeBytes bs := by
  rw [percentDecodeBytes.eq_def]
  split
  · rename_i heq
    cases heq
  · rename_i heq
    exact absurd (List.cons.inj heq).1 h
  · rename_i heq
    obtain ⟨rfl, rfl⟩ := List.cons.inj heq
    rfl

theorem percentDecodeBytes_append {bs : List UInt8} (h : 0x25 ∉ bs) (rest : List UInt8) :
    percentDecodeBytes (bs ++ rest) = bs ++ percentDecodeBytes rest := by
  induction bs with
  | nil => rfl
  | cons b bs ih =>
    obtain ⟨hne, hrest⟩ := not_or.mp (mt List.mem_cons.mpr h)
    rw [List.cons_append, percentDecodeBytes_cons_of_ne (Ne.symm hne), ih hrest]
    rfl

theorem utf8Decode_append (cs : List Char) (rest : List UInt8) :
    utf8Decode (utf8Encode cs ++ rest) = (utf8Decode rest).map (cs ++ ·) := by
  induction cs with
  | nil => simp
  | cons c cs ih =>
    rw [utf8Encode_cons, List.append_assoc, utf8Decode_utf8EncodeChar, ih, Option.map_map]
    rfl

/-- A part without `%` in front is kept. -/
theorem percentDecodeUtf8_append (h : '%' ∉ cs) :
    percentDecodeUtf8 (cs ++ ds) = (percentDecodeUtf8 ds).map (cs ++ ·) := by
  have hbytes : 0x25 ∉ utf8Encode cs := by
    rw [utf8Encode, List.mem_flatMap]
    rintro ⟨c, hc, hin⟩
    refine not_mem_utf8EncodeChar (by decide) (fun heq => ?_) hin
    have hpercent : c = '%' := Char.toNat_inj.mp heq
    exact h (hpercent ▸ hc)
  rw [percentDecodeUtf8, utf8Encode_append, percentDecodeBytes_append hbytes, utf8Decode_append]
  rfl

theorem percentDecodeBytes_eq_nil_iff {bs : List UInt8} : percentDecodeBytes bs = [] ↔ bs = [] := by
  refine ⟨fun h => ?_, fun h => by rw [h]; rfl⟩
  rw [percentDecodeBytes.eq_def] at h
  split at h
  · rfl
  · split at h <;> cases h
  · cases h

/-- Only the empty text is decoded to nothing. -/
theorem percentDecodeUtf8_eq_nil_iff {cs : List Char} : percentDecodeUtf8 cs = some [] ↔ cs = [] := by
  refine ⟨fun h => ?_, fun h => by rw [h]; rfl⟩
  have hnone : (percentDecodeBytes (utf8Encode cs)).length = 0 := (length_utf8Encode_of_utf8Decode h).symm
  have hbytes := percentDecodeBytes_eq_nil_iff.mp (List.length_eq_zero_iff.mp hnone)
  cases cs with
  | nil => rfl
  | cons c cs =>
    have hlen := congrArg List.length hbytes
    have hpos := c.utf8Size_pos
    rw [utf8Encode_cons, List.length_append, String.length_utf8EncodeChar, List.length_nil] at hlen
    omega

/-- What is no hexadecimal digit ends no escape. -/
theorem percentDecodeBytes_append_cons {b : UInt8} (hb : hexDigit b = none) (bs rest : List UInt8) :
    percentDecodeBytes (bs ++ b :: rest) = percentDecodeBytes bs ++ percentDecodeBytes (b :: rest) := by
  induction bs using percentDecodeBytes.induct with
  | case1 => rfl
  | case2 hi lo bs h l hhi hlo ih =>
    show percentDecodeBytes (37 :: hi :: lo :: (bs ++ b :: rest)) = _
    simp only [percentDecodeBytes, hhi, hlo]
    rw [ih]
    rfl
  | case3 hi lo bs hno ih =>
    have hkept : ∀ tail, percentDecodeBytes (37 :: hi :: lo :: tail) =
        37 :: percentDecodeBytes (hi :: lo :: tail) := by
      intro tail
      rw [percentDecodeBytes]
      split
      · rename_i h l hhi hlo
        exact (hno h l hhi hlo).elim
      · rfl
    show percentDecodeBytes (37 :: hi :: lo :: (bs ++ b :: rest)) = _
    rw [hkept, hkept]
    exact congrArg (37 :: ·) ih
  | case4 b' bs hno ih =>
    have hkept : percentDecodeBytes (b' :: bs) = b' :: percentDecodeBytes bs := by
      rw [percentDecodeBytes.eq_def]
      split
      · rename_i heq
        cases heq
      · rename_i heq
        exact (hno _ _ _ (List.cons.inj heq).1 (List.cons.inj heq).2).elim
      · rename_i heq
        obtain ⟨rfl, rfl⟩ := List.cons.inj heq
        rfl
    have hkept' : percentDecodeBytes (b' :: (bs ++ b :: rest)) = b' :: percentDecodeBytes (bs ++ b :: rest) := by
      by_cases hpercent : b' = 37
      · subst hpercent
        cases bs with
        | nil =>
          cases rest with
          | nil => rfl
          | cons r rest =>
            show percentDecodeBytes (37 :: b :: r :: rest) = _
            simp only [percentDecodeBytes, hb]
            rfl
        | cons x bs =>
          cases bs with
          | nil =>
            show percentDecodeBytes (37 :: x :: b :: rest) = _
            rw [percentDecodeBytes]
            split
            · rename_i hlo
              rw [hb] at hlo
              cases hlo
            · rfl
          | cons y bs => exact (hno x y bs rfl rfl).elim
      · exact percentDecodeBytes_cons_of_ne hpercent _
    rw [List.cons_append, hkept, hkept', ih]
    rfl

/-- A byte of ASCII continues no character, so what stands in front of it decodes by itself. -/
theorem utf8Decode_isSome_left {b : UInt8} (hb : b < 0x80) (bs rest : List UInt8)
    (h : (utf8Decode (bs ++ b :: rest)).isSome) : (utf8Decode bs).isSome := by
  have hcont : isContinuation b = false := by
    have hnot : ¬ (0x80 ≤ b) := UInt8.not_le.mpr hb
    simp [isContinuation, hnot]
  fun_induction utf8Decode bs with
  | case1 => rfl
  | case2 b0 bs h0 ih =>
    rw [List.cons_append, utf8Decode.eq_def] at h
    simp only [h0, if_true, Option.isSome_map] at h ⊢
    exact ih h
  | case3 b0 h0 b1 bs1 h1 ih =>
    rw [List.cons_append, List.cons_append, utf8Decode.eq_def] at h
    simp only [h0, h1, if_true, if_false, Option.isSome_map] at h ⊢
    exact ih h
  | case4 b0 h0 b1 h1 b2 bs2 c h2 ih =>
    simp only [List.cons_append] at h
    rw [utf8Decode.eq_def] at h
    simp only [h0, h1, Bool.false_eq_true, if_false] at h
    rw [if_pos h2, Option.isSome_map] at h
    rw [Option.isSome_map]
    exact ih h
  | case5 b0 h0 b1 h1 b2 c' h2 b3 bs3 c h3 ih =>
    simp only [List.cons_append] at h
    rw [utf8Decode.eq_def] at h
    simp only [h0, h1, Bool.false_eq_true, if_false] at h
    rw [if_neg h2, if_pos h3, Option.isSome_map] at h
    rw [Option.isSome_map]
    exact ih h
  | case6 b0 h0 b1 h1 b2 c' h2 b3 bs3 c h3 =>
    simp only [List.cons_append] at h
    rw [utf8Decode.eq_def] at h
    simp only [h0, h1, Bool.false_eq_true, if_false] at h
    rw [if_neg h2, if_neg h3] at h
    exact h
  | case7 b0 h0 b1 h1 b2 c' h2 =>
    -- the byte behind the text would have to continue a character
    simp only [List.cons_append] at h
    rw [utf8Decode.eq_def] at h
    simp only [h0, h1, Bool.false_eq_true, if_false] at h
    rw [if_neg h2] at h
    simp [hcont] at h
  | case8 b0 h0 b1 h1 =>
    simp only [List.cons_append] at h
    rw [utf8Decode.eq_def] at h
    simp only [h0, h1, Bool.false_eq_true, if_false] at h
    cases rest <;> simp [hcont] at h
  | case9 b0 h0 =>
    simp only [List.cons_append] at h
    rw [utf8Decode.eq_def] at h
    simp only [h0, if_false] at h
    cases rest with
    | nil => simp [hcont] at h
    | cons r rest => cases rest <;> simp [hcont] at h

/-- **What is cut off at a separator** can be decoded if the whole text can. -/
theorem isSome_percentDecodeUtf8_beforeFirst {b : UInt8} (hbyte : String.utf8EncodeChar sep = [b])
    (hascii : b < 0x80) (hhex : hexDigit b = none) (hpercent : b ≠ 0x25)
    (h : (percentDecodeUtf8 cs).isSome) : (percentDecodeUtf8 (beforeFirst sep cs)).isSome := by
  by_cases hmem : sep ∈ cs
  · obtain ⟨front, rest, rfl, hfront⟩ := List.eq_append_cons_of_mem hmem
    rw [percentDecodeUtf8, utf8Encode_append, utf8Encode_cons, hbyte, List.singleton_append,
      percentDecodeBytes_append_cons hhex, percentDecodeBytes_cons_of_ne hpercent] at h
    rw [beforeFirst_append hfront, beforeFirst_cons_self, List.append_nil]
    exact utf8Decode_isSome_left hascii _ _ h
  · rw [beforeFirst_eq_self hmem]
    exact h

end Vellaveto.Lib
