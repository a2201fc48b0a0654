/-
  WHEN PERCENT-DECODING CHANGES NOTHING.

  Strict UTF-8 decoding undoes the encoding, and what it accepts has exactly the bytes of its result.
  Hence a decoding step can be followed by LENGTH alone: an escape `%XX` turns three bytes into one, so
  a text is as long after decoding as before only when it holds no escape, and then it stays as it is.
  Whether a text holds an escape can be read off its characters: `%` and the hexadecimal digits are
  ASCII, and no byte of another character is an ASCII byte.
-/
import Vellaveto.Lib.Percent
import Vellaveto.Lib.Segments

namespace Vellaveto.Lib

@[simp] theorem utf8Encode_nil : utf8Encode [] = [] := rfl

@[simp] theorem utf8Encode_cons (c : Char) (cs : List Char) :
    utf8Encode (c :: cs) = String.utf8EncodeChar c ++ utf8Encode cs := rfl

@[simp] theorem utf8Encode_append (as bs : List Char) :
    utf8Encode (as ++ bs) = utf8Encode as ++ utf8Encode bs := List.flatMap_append

/-- The bytes of one character are read back as that character: one case for each of the four sizes
    of an encoded character. -/
theorem utf8Decode_utf8EncodeChar (c : Char) (rest : List UInt8) :
    utf8Decode (String.utf8EncodeChar c ++ rest) = (utf8Decode rest).map (c :: ·) := by
  have hvalid : c.toNat < 0xD800 ∨ (0xDFFF < c.toNat ∧ c.toNat < 0x110000) := c.valid
  have hback : ∀ n, n = c.toNat → Char.ofNat n = c := by
    intro n hn
    rw [hn]
    exact Char.ofNat_toNat c
  fun_cases String.utf8EncodeChar c with
  | case1 v h1 =>
    have hv : v = c.toNat := rfl
    clear_value v
    rw [List.cons_append, List.nil_append, utf8Decode.eq_def]
    simp only [UInt8.lt_iff_toNat_lt, UInt8.toNat_ofNat', UInt8.toNat_ofNat]
    rw [if_pos (by omega), hback _ (by omega)]
  | case2 v h1 h2 =>
    have hv : v = c.toNat := rfl
    clear_value v
    rw [List.cons_append, List.cons_append, List.nil_append, utf8Decode.eq_def]
    simp only [isContinuation, payload, UInt8.le_iff_toNat_le, UInt8.lt_iff_toNat_lt,
      UInt8.toNat_ofNat', UInt8.toNat_ofNat, Bool.and_eq_true, decide_eq_true_eq]
    rw [if_neg (by omega), if_pos (by omega), hback _ (by omega)]
  | case3 v h1 h2 h3 =>
    have hv : v = c.toNat := rfl
    clear_value v
    rw [List.cons_append, List.cons_append, List.cons_append, List.nil_append, utf8Decode.eq_def]
    simp only [isContinuation, payload, UInt8.le_iff_toNat_le, UInt8.lt_iff_toNat_lt,
      UInt8.toNat_ofNat', UInt8.toNat_ofNat, Bool.and_eq_true, decide_eq_true_eq,
      Bool.not_eq_true', Bool.and_eq_false_iff, decide_eq_false_iff_not]
    rw [if_neg (by omega), if_neg (by omega), if_pos (by omega), hback _ (by omega)]
  | case4 v h1 h2 h3 =>
    have hv : v = c.toNat := rfl
    clear_value v
    rw [List.cons_append, List.cons_append, List.cons_append, List.cons_append, List.nil_append,
      utf8Decode.eq_def]
    simp only [isContinuation, payload, UInt8.le_iff_toNat_le, UInt8.lt_iff_toNat_lt,
      UInt8.toNat_ofNat', UInt8.toNat_ofNat, Bool.and_eq_true, decide_eq_true_eq,
      Bool.not_eq_true', Bool.and_eq_false_iff, decide_eq_false_iff_not]
    -- the first byte rules out the shorter forms, and the payloads put the character together
    have hfirst : (v / 0x40000 % 8 + 0xF0) % 2 ^ 8 = v / 0x40000 + 0xF0 := by omega
    have hrest : ∀ n, (n % 64 + 0x80) % 2 ^ 8 = n % 64 + 0x80 := by omega
    have hpayload : ∀ n, (n % 64 + 0x80) % 64 = n % 64 := by omega
    have hvalue : (v / 0x40000 + 0xF0) % 8 * 262144 + v / 0x1000 % 64 * 4096 + v / 64 % 64 * 64
        + v % 64 = v := by omega
    simp only [hfirst, hrest, hpayload, hvalue]
    rw [if_neg (by omega), if_neg (by omega), if_neg (by omega), if_pos (by omega), hback _ hv]

@[simp] theorem utf8Decode_utf8Encode (cs : List Char) : utf8Decode (utf8Encode cs) = some cs := by
  induction cs with
  | nil => rfl
  | cons c cs ih => rw [utf8Encode_cons, utf8Decode_utf8EncodeChar, ih, Option.map_some]

theorem val_ofNat {n : Nat} (hvalid : n.isValidChar) : (Char.ofNat n).val.toNat = n := by
  rw [Char.ofNat, dif_pos hvalid]
  rfl

theorem utf8Size_ofNat {n size : Nat} (hvalid : n.isValidChar)
    (hsize : size = if n ≤ 0x7F then 1 else if n ≤ 0x7FF then 2 else if n ≤ 0xFFFF then 3 else 4) :
    (Char.ofNat n).utf8Size = size := by
  simp only [Char.utf8Size, UInt32.le_iff_toNat_le, val_ofNat hvalid]
  exact hsize.symm

/-- The bytes that decode are the bytes of what they decode to, as far as their number goes. -/
theorem length_utf8Encode_of_utf8Decode {bs : List UInt8} {cs : List Char}
    (h : utf8Decode bs = some cs) : (utf8Encode cs).length = bs.length := by
  -- one case for each number of bytes a character takes; all other cases decode to nothing
  fun_induction utf8Decode bs generalizing cs with
  | case1 => cases h; rfl
  | case2 b0 bs hb ih =>
    obtain ⟨cs', hcs', rfl⟩ := Option.map_eq_some_iff.mp h
    have hlt : b0.toNat < 0x80 := UInt8.lt_iff_toNat_lt.mp hb
    have hsize : (Char.ofNat b0.toNat).utf8Size = 1 :=
      utf8Size_ofNat (.inl (by omega)) (by rw [if_pos (by omega)])
    rw [utf8Encode_cons, List.length_append, String.length_utf8EncodeChar, hsize, ih hcs',
      List.length_cons]
    omega
  | case3 b0 hb b1 bs1 hcond ih =>
    obtain ⟨cs', hcs', rfl⟩ := Option.map_eq_some_iff.mp h
    simp only [isContinuation, UInt8.le_iff_toNat_le, Bool.and_eq_true, decide_eq_true_eq,
      UInt8.toNat_ofNat] at hcond
    have hsize : (Char.ofNat (b0.toNat % 32 * 64 + payload b1)).utf8Size = 2 := by
      have hpay : payload b1 < 64 := Nat.mod_lt _ (by omega)
      refine utf8Size_ofNat (.inl (by omega)) ?_
      rw [if_neg (by omega), if_pos (by omega)]
    rw [utf8Encode_cons, List.length_append, String.length_utf8EncodeChar, hsize, ih hcs']
    simp only [List.length_cons]
    omega
  | case4 b0 hb b1 hcond b2 bs2 c hcond' =>
    rename_i ih
    obtain ⟨cs', hcs', rfl⟩ := Option.map_eq_some_iff.mp h
    simp only [isContinuation, UInt8.le_iff_toNat_le, Bool.and_eq_true, decide_eq_true_eq,
      UInt8.toNat_ofNat, Bool.not_eq_true', Bool.and_eq_false_iff, decide_eq_false_iff_not]
      at hcond'
    have hsize : (Char.ofNat c).utf8Size = 3 := by
      have hc : c < 65536 := by
        have h1 : payload b1 < 64 := Nat.mod_lt _ (by omega)
        have h2 : payload b2 < 64 := Nat.mod_lt _ (by omega)
        show b0.toNat % 16 * 4096 + payload b1 * 64 + payload b2 < 65536
        omega
      refine utf8Size_ofNat ?_ ?_
      · show c < 0xD800 ∨ (0xDFFF < c ∧ c < 0x110000)
        omega
      · rw [if_neg (by omega), if_neg (by omega), if_pos (by omega)]
    rw [utf8Encode_cons, List.length_append, String.length_utf8EncodeChar, hsize, ih hcs']
    simp only [List.length_cons]
    omega
  | case5 b0 hb b1 hcond b2 c' hcond' b3 bs3 c hcond'' =>
    rename_i ih
    obtain ⟨cs', hcs', rfl⟩ := Option.map_eq_some_iff.mp h
    simp only [Bool.and_eq_true, decide_eq_true_eq] at hcond''
    have hsize : (Char.ofNat c).utf8Size = 4 := by
      refine utf8Size_ofNat ?_ ?_
      · show c < 0xD800 ∨ (0xDFFF < c ∧ c < 0x110000)
        omega
      · rw [if_neg (by omega), if_neg (by omega), if_neg (by omega)]
    rw [utf8Encode_cons, List.length_append, String.length_utf8EncodeChar, hsize, ih hcs']
    simp only [List.length_cons]
    omega
  | _ => cases h

/-! ### Escapes -/

/-- Some place of the bytes reads `%XX` with two hexadecimal digits. -/
def HasEscapeBytes (bs : List UInt8) : Prop :=
  ∃ hi lo, (hexDigit hi).isSome ∧ (hexDigit lo).isSome ∧ [0x25, hi, lo] <:+: bs

theorem HasEscapeBytes.cons {b : UInt8} {bs : List UInt8} (h : HasEscapeBytes bs) :
    HasEscapeBytes (b :: bs) := by
  obtain ⟨hi, lo, hhi, hlo, hin⟩ := h
  exact ⟨hi, lo, hhi, hlo, List.infix_cons hin⟩

theorem hasEscapeBytes_cons_iff {b : UInt8} {bs : List UInt8} : HasEscapeBytes (b :: bs) ↔
    (∃ hi lo rest, (hexDigit hi).isSome ∧ (hexDigit lo).isSome ∧ b = 0x25 ∧ bs = hi :: lo :: rest) ∨
      HasEscapeBytes bs := by
  constructor
  · rintro ⟨hi, lo, hhi, hlo, hin⟩
    rcases List.infix_cons_iff.mp hin with hpre | hin
    · left
      obtain ⟨rest, hrest⟩ := hpre
      rw [List.cons_append, List.cons_append, List.cons_append, List.nil_append] at hrest
      obtain ⟨hb, htail⟩ := List.cons.inj hrest
      exact ⟨hi, lo, rest, hhi, hlo, hb.symm, htail.symm⟩
    · exact .inr ⟨hi, lo, hhi, hlo, hin⟩
  · rintro (⟨hi, lo, rest, hhi, hlo, rfl, rfl⟩ | h)
    · exact ⟨hi, lo, hhi, hlo, [], rest, rfl⟩
    · exact h.cons

theorem length_percentDecodeBytes_le (bs : List UInt8) :
    (percentDecodeBytes bs).length ≤ bs.length := by
  fun_induction percentDecodeBytes bs with
  | case1 => exact Nat.le_refl 0
  | case2 hi lo bs h l hhi hlo ih =>
    simp only [List.length_cons]
    omega
  | case3 hi lo bs hnone ih =>
    simp only [List.length_cons] at ih ⊢
    omega
  | case4 b bs hne ih =>
    simp only [List.length_cons]
    omega

/-- **No escape, no change.** -/
theorem percentDecodeBytes_eq_self {bs : List UInt8} (h : ¬ HasEscapeBytes bs) :
    percentDecodeBytes bs = bs := by
  fun_induction percentDecodeBytes bs with
  | case1 => rfl
  | case2 hi lo bs hv lv hlo hhi ih =>
    exact absurd ⟨hi, lo, by rw [hhi]; rfl, by rw [hlo]; rfl, [], bs, rfl⟩ h
  | case3 hi lo bs hnone ih => rw [ih fun hrest => h hrest.cons]
  | case4 b bs hne ih => rw [ih fun hrest => h hrest.cons]

/-- **An escape makes the text shorter.** -/
theorem length_percentDecodeBytes_lt {bs : List UInt8} (h : HasEscapeBytes bs) :
    (percentDecodeBytes bs).length < bs.length := by
  fun_induction percentDecodeBytes bs with
  | case1 =>
    obtain ⟨hi, lo, -, -, hin⟩ := h
    cases List.infix_nil.mp hin
  | case2 hi lo bs hv lv hhi hlo ih =>
    have hle := length_percentDecodeBytes_le bs
    simp only [List.length_cons]
    omega
  | case3 hi lo bs hnone ih =>
    rcases hasEscapeBytes_cons_iff.mp h with ⟨hi', lo', rest, hhi, hlo, -, heq⟩ | hrest
    · cases heq
      obtain ⟨hv, hhv⟩ := Option.isSome_iff_exists.mp hhi
      obtain ⟨lv, hlv⟩ := Option.isSome_iff_exists.mp hlo
      exact absurd hlv (hnone hv lv hhv)
    · have hlt := ih hrest
      simp only [List.length_cons] at hlt ⊢
      omega
  | case4 b bs hne ih =>
    rcases hasEscapeBytes_cons_iff.mp h with ⟨hi, lo, rest, -, -, rfl, rfl⟩ | hrest
    · exact absurd rfl (hne hi lo rest rfl)
    · have hlt := ih hrest
      simp only [List.length_cons]
      omega

/-- A hexadecimal digit. -/
def isHexChar (c : Char) : Bool :=
  ('0' ≤ c && c ≤ '9') || ('a' ≤ c && c ≤ 'f') || ('A' ≤ c && c ≤ 'F')

/-- Some place of the text reads `%XX` with two hexadecimal digits. -/
def HasEscape (cs : List Char) : Prop :=
  ∃ hi lo, isHexChar hi ∧ isHexChar lo ∧ ['%', hi, lo] <:+: cs

theorem utf8EncodeChar_ascii {c : Char} (h : c.toNat < 0x80) :
    String.utf8EncodeChar c = [UInt8.ofNat c.toNat] := by
  have hle : c.val.toNat ≤ 0x7F := by
    have hval : c.val.toNat = c.toNat := rfl
    omega
  rw [String.utf8EncodeChar]
  simp only [hle, if_true]
  rfl

/-- No byte of a character is an ASCII byte, unless it is the character itself. -/
theorem not_mem_utf8EncodeChar {c : Char} {b : UInt8} (hb : b.toNat < 0x80)
    (hne : c.toNat ≠ b.toNat) : b ∉ String.utf8EncodeChar c := by
  have hbytes : ∀ n, b = UInt8.ofNat n → b.toNat = n % 256 := by
    intro n hn
    rw [hn, UInt8.toNat_ofNat']
  fun_cases String.utf8EncodeChar c with
  | case1 v h1 =>
    intro hmem
    have hv : v = c.toNat := rfl
    clear_value v
    have hn := hbytes _ (List.mem_singleton.mp hmem)
    omega
  | case2 v h1 h2 =>
    intro hmem
    simp only [List.mem_cons, List.not_mem_nil, or_false] at hmem
    rcases hmem with h | h
    all_goals
      have hn := hbytes _ h
      omega
  | case3 v h1 h2 h3 =>
    intro hmem
    simp only [List.mem_cons, List.not_mem_nil, or_false] at hmem
    rcases hmem with h | h | h
    all_goals
      have hn := hbytes _ h
      omega
  | case4 v h1 h2 h3 =>
    intro hmem
    simp only [List.mem_cons, List.not_mem_nil, or_false] at hmem
    rcases hmem with h | h | h | h
    all_goals
      have hn := hbytes _ h
      omega

/-- An ASCII byte at the front of an encoded text is its first character. -/
theorem cons_prefix_utf8Encode {b : UInt8} {bs : List UInt8} {cs : List Char}
    (hb : b.toNat < 0x80) (h : b :: bs <+: utf8Encode cs) :
    ∃ cs', cs = Char.ofNat b.toNat :: cs' ∧ bs <+: utf8Encode cs' := by
  cases cs with
  | nil => cases List.prefix_nil.mp h
  | cons c cs =>
    have hc : c.toNat = b.toNat := by
      by_contra hne
      have hmem : b ∈ String.utf8EncodeChar c := by
        obtain ⟨rest, hrest⟩ := h
        rw [utf8Encode_cons, List.cons_append] at hrest
        cases henc : String.utf8EncodeChar c with
        | nil => exact absurd henc String.utf8EncodeChar_ne_nil
        | cons b' bs' =>
          rw [henc, List.cons_append] at hrest
          rw [(List.cons.inj hrest).1]
          exact List.mem_cons_self
      exact not_mem_utf8EncodeChar hb hne hmem
    have hascii : String.utf8EncodeChar c = [b] := by
      rw [utf8EncodeChar_ascii (by omega), hc, UInt8.ofNat_toNat]
    rw [utf8Encode_cons, hascii, List.cons_append, List.nil_append, List.cons_prefix_cons] at h
    refine ⟨cs, ?_, h.2⟩
    rw [← hc, Char.ofNat_toNat]

theorem hexDigit_isSome {b : UInt8} :
    (hexDigit b).isSome ↔ (48 ≤ b.toNat ∧ b.toNat ≤ 57 ∨ 97 ≤ b.toNat ∧ b.toNat ≤ 102) ∨
      65 ≤ b.toNat ∧ b.toNat ≤ 70 := by
  unfold hexDigit
  simp only [Bool.and_eq_true, decide_eq_true_eq, UInt8.le_iff_toNat_le]
  change Option.isSome (if 48 ≤ b.toNat ∧ b.toNat ≤ 57 then _ else
    if 97 ≤ b.toNat ∧ b.toNat ≤ 102 then _ else if 65 ≤ b.toNat ∧ b.toNat ≤ 70 then _ else none) ↔ _
  split_ifs <;> simp <;> omega

theorem isHexChar_iff {c : Char} :
    isHexChar c ↔ (48 ≤ c.toNat ∧ c.toNat ≤ 57 ∨ 97 ≤ c.toNat ∧ c.toNat ≤ 102) ∨
      65 ≤ c.toNat ∧ c.toNat ≤ 70 := by
  simp only [isHexChar, Bool.or_eq_true, Bool.and_eq_true, decide_eq_true_eq, Char.le_def,
    UInt32.le_iff_toNat_le]
  rfl

theorem hexDigit_isSome_iff {b : UInt8} :
    (hexDigit b).isSome ↔ isHexChar (Char.ofNat b.toNat) := by
  have hb := b.toNat_lt
  have hval : (Char.ofNat b.toNat).toNat = b.toNat := val_ofNat (.inl (by omega))
  rw [hexDigit_isSome, isHexChar_iff, hval]

theorem isHexChar_toNat_lt {c : Char} (h : isHexChar c) : c.toNat < 0x80 := by
  have hc := isHexChar_iff.mp h
  omega

theorem toNat_lt_of_hexDigit {b : UInt8} (h : (hexDigit b).isSome) : b.toNat < 0x80 := by
  have hb := hexDigit_isSome.mp h
  omega

/-- **Escapes are seen in the characters.** -/
theorem hasEscapeBytes_utf8Encode {cs : List Char} :
    HasEscapeBytes (utf8Encode cs) ↔ HasEscape cs := by
  constructor
  · rintro ⟨hi, lo, hhi, hlo, hin⟩
    refine ⟨Char.ofNat hi.toNat, Char.ofNat lo.toNat, hexDigit_isSome_iff.mp hhi,
      hexDigit_isSome_iff.mp hlo, ?_⟩
    induction cs with
    | nil => cases List.infix_nil.mp hin
    | cons c cs ih =>
      by_cases hc : c = '%'
      · subst hc
        have hbytes : String.utf8EncodeChar '%' = [0x25] := by decide
        rw [utf8Encode_cons, hbytes, List.cons_append, List.nil_append] at hin
        rcases List.infix_cons_iff.mp hin with hpre | hin
        · rw [List.cons_prefix_cons] at hpre
          obtain ⟨cs', rfl, hpre'⟩ := cons_prefix_utf8Encode (toNat_lt_of_hexDigit hhi) hpre.2
          obtain ⟨cs'', rfl, -⟩ := cons_prefix_utf8Encode (toNat_lt_of_hexDigit hlo) hpre'
          exact ⟨[], cs'', rfl⟩
        · exact List.infix_cons (ih hin)
      · have hne : c.toNat ≠ UInt8.toNat 0x25 := by
          intro heq
          apply hc
          rw [← Char.ofNat_toNat c, heq]
          decide
        rw [utf8Encode_cons] at hin
        exact List.infix_cons (ih (infix_of_not_mem (not_mem_utf8EncodeChar (by decide) hne) hin))
  · rintro ⟨hi, lo, hhi, hlo, before, after, rfl⟩
    have hascii := isHexChar_toNat_lt hhi
    have hascii' := isHexChar_toNat_lt hlo
    have hback : ∀ c : Char, c.toNat < 0x80 → isHexChar c →
        (hexDigit (UInt8.ofNat c.toNat)).isSome := by
      intro c hlt hc
      have hbyte : (UInt8.ofNat c.toNat).toNat = c.toNat := by
        rw [UInt8.toNat_ofNat']
        omega
      rw [hexDigit_isSome_iff, hbyte, Char.ofNat_toNat]
      exact hc
    refine ⟨UInt8.ofNat hi.toNat, UInt8.ofNat lo.toNat, hback hi hascii hhi, hback lo hascii' hlo,
      utf8Encode before, utf8Encode after, ?_⟩
    have hpercent : String.utf8EncodeChar '%' = [0x25] := by decide
    simp [utf8EncodeChar_ascii hascii, utf8EncodeChar_ascii hascii', hpercent]

/-- A text without escapes decodes to itself. -/
theorem percentDecodeUtf8_eq_self {cs : List Char} (h : ¬ HasEscape cs) :
    percentDecodeUtf8 cs = some cs := by
  rw [percentDecodeUtf8, percentDecodeBytes_eq_self (mt hasEscapeBytes_utf8Encode.mp h),
    utf8Decode_utf8Encode]

/-- Decoding a text with escapes makes it shorter, counted in bytes. -/
theorem length_percentDecodeUtf8_lt {cs ds : List Char} (h : HasEscape cs)
    (hdec : percentDecodeUtf8 cs = some ds) : (utf8Encode ds).length < (utf8Encode cs).length := by
  rw [length_utf8Encode_of_utf8Decode hdec]
  exact length_percentDecodeBytes_lt (hasEscapeBytes_utf8Encode.mpr h)

end Vellaveto.Lib
