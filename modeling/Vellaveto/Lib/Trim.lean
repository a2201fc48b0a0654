/-
  TRIMMING A TEXT, and its lower case.

  A text is often normalized in several passes: trim it, drop some characters, cut a suffix off, write it in
  lower case.  Each pass runs once, so a later one can expose what an earlier one would have removed.

    1. `trim_append`            trimming a longer text keeps what trimming its front keeps;
    2. `trim_eq_self_iff`       a text is trimmed exactly if it neither starts nor ends in whitespace;
    3. `IsLowerCase`            what holds of the Unicode lower case of a character;
    4. `lowercaseChars_blank`   what is added in whitespace and slashes is added to the lower case;
    5. `head_lowercase`, `getLast_lowercase`, `lowercase_of_stable`   its ends, and its lower case again.
-/
import Mathlib.Data.List.DropRight
import Vellaveto.Lib.AsciiCase

namespace Vellaveto.Lib

/-- A property of every character of a text, by evaluation. -/
theorem forall_mem_of_all {p : Char → Prop} [DecidablePred p] {cs : List Char}
    (h : cs.all (fun c => decide (p c)) = true) : ∀ c ∈ cs, p c := by
  intro c hc
  exact of_decide_eq_true (List.all_eq_true.mp h c hc)

/-! ### Trimming -/

theorem rdropWhile_append {α : Type*} (p : α → Bool) (xs ys : List α) :
    (xs ++ ys).rdropWhile p = if ys.rdropWhile p = [] then xs.rdropWhile p else xs ++ ys.rdropWhile p := by
  unfold List.rdropWhile
  rw [List.reverse_append, List.dropWhile_append]
  simp only [List.isEmpty_iff, List.reverse_eq_nil_iff]
  split
  · rfl
  · rw [List.reverse_append, List.reverse_reverse]

theorem trim_eq (cs : List Char) : trim cs = (cs.dropWhile isWhitespace).rdropWhile isWhitespace := rfl

theorem trim_subset (cs : List Char) : trim cs ⊆ cs := by
  intro c hc
  rw [trim_eq] at hc
  exact (List.dropWhile_suffix _).subset ((List.rdropWhile_prefix _ _).subset hc)

theorem trim_length_le (cs : List Char) : (trim cs).length ≤ cs.length := by
  rw [trim_eq]
  exact (List.rdropWhile_prefix _ _).length_le.trans (List.dropWhile_suffix _).length_le

/-- **Trimming a longer text** keeps what trimming its front keeps; behind it comes whitespace of the front, or
    what was added. -/
theorem trim_append (cs ds : List Char) :
    ∃ extra, trim (cs ++ ds) = trim cs ++ extra ∧ ∀ c ∈ extra, isWhitespace c = true ∨ c ∈ ds := by
  rw [trim_eq, trim_eq, List.dropWhile_append]
  split
  · rename_i hempty
    refine ⟨trim ds, ?_, fun c hc => Or.inr (trim_subset ds hc)⟩
    rw [List.isEmpty_iff.mp hempty, List.rdropWhile_nil, List.nil_append]
    rfl
  · rw [rdropWhile_append]
    split
    · exact ⟨[], by rw [List.append_nil], fun c hc => by cases hc⟩
    · refine ⟨(cs.dropWhile isWhitespace).rtakeWhile isWhitespace ++ ds.rdropWhile isWhitespace, ?_, ?_⟩
      · rw [← List.append_assoc, List.rdropWhile_append_rtakeWhile]
      · intro c hc
        rcases List.mem_append.mp hc with hc | hc
        · exact Or.inl (List.mem_rtakeWhile_imp hc)
        · exact Or.inr ((List.rdropWhile_prefix _ _).subset hc)

/-- A text is trimmed exactly if it has no whitespace at its ends. -/
theorem trim_eq_self_iff (cs : List Char) :
    trim cs = cs ↔ (∀ c ∈ cs.head?, isWhitespace c = false) ∧ ∀ c ∈ cs.getLast?, isWhitespace c = false := by
  have hfront : cs.dropWhile isWhitespace = cs ↔ ∀ c ∈ cs.head?, isWhitespace c = false := by
    cases cs with
    | nil => simp
    | cons c cs => simp
  have hback : cs.rdropWhile isWhitespace = cs ↔ ∀ c ∈ cs.getLast?, isWhitespace c = false := by
    rw [List.rdropWhile_eq_self_iff]
    constructor
    · intro h c hc
      obtain ⟨hne, rfl⟩ := List.mem_getLast?_eq_getLast hc
      exact Bool.eq_false_iff.mpr (h hne)
    · intro h hne
      rw [h _ (List.getLast_mem_getLast? hne)]
      decide
  rw [trim_eq, ← hfront, ← hback]
  constructor
  · intro h
    have hlen : cs.length ≤ (cs.dropWhile isWhitespace).length := by
      have hle := (List.rdropWhile_prefix isWhitespace (cs.dropWhile isWhitespace)).length_le
      rwa [h] at hle
    have hstart := (List.dropWhile_suffix (l := cs) isWhitespace).eq_of_length_le hlen
    rw [hstart] at h
    exact ⟨hstart, h⟩
  · rintro ⟨hstart, hend⟩
    rw [hstart, hend]

/-! ### Lower case -/

section LowerCase

variable {hidden : Char → Bool} {nonAscii : List Char → Char → List Char → List Char}

/-- What holds of the Unicode lower case of a character outside ASCII, where `hidden` are characters without
    case: whitespace stays, what follows in whitespace and slashes does not matter, a character
    becomes characters of its kind, and these stay what they are. -/
structure IsLowerCase (hidden : Char → Bool) (nonAscii : List Char → Char → List Char → List Char) :
    Prop where
  whitespace : ∀ before c after, isAscii c = false → isWhitespace c = true → nonAscii before c after = [c]
  context : ∀ before c after blank, isAscii c = false → (∀ d ∈ blank, isWhitespace d = true ∨ d = '/') →
    nonAscii before c (after ++ blank) = nonAscii before c after
  kind : ∀ before c after, isAscii c = false → nonAscii before c after ≠ [] ∧
    ∀ d ∈ nonAscii before c after,
      isWhitespace d = isWhitespace c ∧ hidden d = hidden c ∧ d ≠ '/'
  stable : ∀ before c after, isAscii c = false → ∀ d ∈ nonAscii before c after,
    if isAscii d then d.toLower = d else ∀ before' after', nonAscii before' d after' = [d]

/-- Whitespace and slashes are their own lower case. -/
theorem lowercaseChars_of_blank (h : IsLowerCase hidden nonAscii) {blank : List Char}
    (hblank : ∀ d ∈ blank, isWhitespace d = true ∨ d = '/') (before : List Char) :
    lowercaseChars nonAscii before blank = blank := by
  induction blank generalizing before with
  | nil => rfl
  | cons c blank ih =>
    have hc := hblank c List.mem_cons_self
    rw [lowercaseChars, ih fun d hd => hblank d (List.mem_cons_of_mem c hd)]
    split
    · rename_i hascii
      have hlower : c.toLower = c := by
        refine forall_ascii (P := fun c => isWhitespace c = true ∨ c = '/' → c.toLower = c) ?_ hascii hc
        decide +kernel
      rw [hlower]
      rfl
    · rename_i hascii
      have hspace : isWhitespace c = true := hc.resolve_right fun heq => hascii (by rw [heq]; decide)
      rw [h.whitespace before c blank (Bool.eq_false_iff.mpr hascii) hspace]
      rfl

/-- **What is added** in whitespace and slashes is added to the lower case. -/
theorem lowercaseChars_blank (h : IsLowerCase hidden nonAscii) {blank : List Char}
    (hblank : ∀ d ∈ blank, isWhitespace d = true ∨ d = '/') (before cs : List Char) :
    lowercaseChars nonAscii before (cs ++ blank) = lowercaseChars nonAscii before cs ++ blank := by
  induction cs generalizing before with
  | nil => exact lowercaseChars_of_blank h hblank before
  | cons c cs ih =>
    rw [List.cons_append, lowercaseChars, lowercaseChars, ih, List.append_assoc]
    split
    · rfl
    · rename_i hascii
      rw [h.context before c cs blank (Bool.eq_false_iff.mpr hascii) hblank]

/-- The lower case of one character: not nothing, and of its kind. -/
theorem kind_of_lower (h : IsLowerCase hidden nonAscii)
    (hascii : ∀ c, isAscii c = true → hidden c.toLower = hidden c) (before : List Char) (c : Char)
    (after : List Char) :
    (if isAscii c then [c.toLower] else nonAscii before c after) ≠ [] ∧
      ∀ d ∈ (if isAscii c then [c.toLower] else nonAscii before c after),
        isWhitespace d = isWhitespace c ∧ hidden d = hidden c ∧ (d = '/' ↔ c = '/') := by
  split
  · rename_i hc
    refine ⟨List.cons_ne_nil _ _, fun d hd => ?_⟩
    rw [List.mem_singleton.mp hd]
    have hkind : isWhitespace c.toLower = isWhitespace c ∧ (c.toLower = '/' ↔ c = '/') := by
      refine forall_ascii
        (P := fun c => isWhitespace c.toLower = isWhitespace c ∧ (c.toLower = '/' ↔ c = '/')) ?_ hc
      decide +kernel
    exact ⟨hkind.1, hascii c hc, hkind.2⟩
  · rename_i hc
    obtain ⟨hne, hkind⟩ := h.kind before c after (Bool.eq_false_iff.mpr hc)
    refine ⟨hne, fun d hd => ?_⟩
    obtain ⟨hspace, hhidden, hslash⟩ := hkind d hd
    exact ⟨hspace, hhidden, fun heq => absurd heq hslash, fun heq => absurd (by rw [heq]; decide) hc⟩

variable (h : IsLowerCase hidden nonAscii) (hascii : ∀ c, isAscii c = true → hidden c.toLower = hidden c)

include h hascii

/-- The first character of the lower case is of the kind of the first character. -/
theorem head_lowercase (before cs : List Char) :
    (lowercaseChars nonAscii before cs).head?.map isWhitespace = cs.head?.map isWhitespace := by
  cases cs with
  | nil => rfl
  | cons c cs =>
    obtain ⟨hne, hkind⟩ := kind_of_lower h hascii before c cs
    obtain ⟨d, ds, hds⟩ := List.exists_cons_of_ne_nil hne
    rw [lowercaseChars, hds]
    have hd := hkind d (by rw [hds]; exact List.mem_cons_self)
    exact congrArg some hd.1

/-- The last one of the kind of the last one. -/
theorem getLast_lowercase (before cs : List Char) :
    (lowercaseChars nonAscii before cs).getLast?.map (fun c => (isWhitespace c, decide (c = '/'))) =
      cs.getLast?.map (fun c => (isWhitespace c, decide (c = '/'))) := by
  induction cs generalizing before with
  | nil => rfl
  | cons c cs ih =>
    obtain ⟨hne, hkind⟩ := kind_of_lower h hascii before c cs
    rw [lowercaseChars]
    cases cs with
    | nil =>
      obtain ⟨d, hd⟩ : ∃ d, _ = some d := ⟨_, List.getLast?_eq_some_getLast hne⟩
      obtain ⟨hspace, -, hslash⟩ := hkind d (List.mem_of_getLast? hd)
      rw [lowercaseChars, List.append_nil, hd]
      simp only [Option.map_some, List.getLast?_singleton, hspace, hslash]
    | cons c' cs =>
      have hlater : lowercaseChars nonAscii (c :: before) (c' :: cs) ≠ [] := by
        rw [lowercaseChars]
        exact List.append_ne_nil_of_left_ne_nil (kind_of_lower h hascii _ c' cs).1 _
      rw [List.getLast?_append_of_ne_nil _ hlater, ih, List.getLast?_cons_cons]

/-- What is hidden stays hidden, and nothing else becomes so. -/
theorem hidden_of_mem_lowercase {before cs : List Char} {d : Char}
    (hd : d ∈ lowercaseChars nonAscii before cs) : ∃ c ∈ cs, hidden d = hidden c := by
  induction cs generalizing before with
  | nil => cases hd
  | cons c cs ih =>
    rw [lowercaseChars] at hd
    rcases List.mem_append.mp hd with hd | hd
    · exact ⟨c, List.mem_cons_self, ((kind_of_lower h hascii before c cs).2 d hd).2.1⟩
    · obtain ⟨c', hc', heq⟩ := ih hd
      exact ⟨c', List.mem_cons_of_mem c hc', heq⟩

omit hascii

/-- **The lower case of a lower case**, or of any part of it, is itself. -/
theorem lowercase_of_stable {before cs : List Char} {ds : List Char}
    (hds : ds ⊆ lowercaseChars nonAscii before cs) (before' : List Char) :
    lowercaseChars nonAscii before' ds = ds := by
  have hstable : ∀ d ∈ lowercaseChars nonAscii before cs,
      if isAscii d then d.toLower = d else ∀ before' after', nonAscii before' d after' = [d] := by
    clear hds
    intro d hd
    induction cs generalizing before with
    | nil => cases hd
    | cons c cs ih =>
      rw [lowercaseChars] at hd
      rcases List.mem_append.mp hd with hd | hd
      · split at hd
        · rename_i hc
          rw [List.mem_singleton.mp hd]
          refine forall_ascii (P := fun c => if isAscii c.toLower then c.toLower.toLower = c.toLower
            else ∀ before' after', nonAscii before' c.toLower after' = [c.toLower]) ?_ hc
          intro n hn
          have hlower : ∀ n < 0x80, isAscii (Char.ofNat n).toLower = true ∧
              (Char.ofNat n).toLower.toLower = (Char.ofNat n).toLower := by
            decide +kernel
          rw [if_pos (hlower n hn).1]
          exact (hlower n hn).2
        · rename_i hc
          exact h.stable before c cs (Bool.eq_false_iff.mpr hc) d hd
      · exact ih hd
  induction ds generalizing before' with
  | nil => rfl
  | cons d ds ih =>
    obtain ⟨hd, hrest⟩ := List.cons_subset.mp hds
    have hkept := hstable d hd
    rw [lowercaseChars, ih hrest]
    split
    · rename_i hc
      rw [if_pos hc] at hkept
      rw [hkept]
      rfl
    · rename_i hc
      rw [if_neg hc] at hkept
      rw [hkept]
      rfl

end LowerCase

end Vellaveto.Lib
