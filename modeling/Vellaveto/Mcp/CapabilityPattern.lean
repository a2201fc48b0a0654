/-
  CAPABILITY PATTERNS: matching a value, and containment of one pattern in another
  (`verified_capability_glob.rs`, `verified_capability_glob_subset.rs`,
  `verified_capability_pattern.rs`, `verified_capability_literal.rs`, and `pattern_matches`,
  `pattern_is_subset` of `capability_token.rs`).

  A pattern is read BYTE by byte: `*` stands for any bytes, `?` for one byte, anything else for
  itself up to ASCII case.  The matcher and the position sets are those of `Lib.Glob` with the byte
  as letter.

  PROGRAM.      `patternMatches` is what coverage uses at run time; `patternIsSubset` is what
                delegation asks of tool and function patterns.

  CORRECTNESS.
    1. `patternMatches_eq_glob`     the shortcuts of the matcher change nothing;
    2. `represent_collect`          every byte acts like one of the representative bytes;
    3. `patternIsSubset_sound`      a child pattern that passes matches only what its parent matches;
    4. `globPatternSubset_eq_true`  the search answers: it never runs out of fuel.
-/
import Mathlib.Tactic.Common
import Vellaveto.Lib.Glob
import Vellaveto.Lib.Percent

namespace Vellaveto.Capability

open Vellaveto.Lib Vellaveto.Lib.Glob

/-- `str::as_bytes`. -/
def asBytes (s : String) : List UInt8 := utf8Encode s.toList

/-- The byte `*`. -/
def starByte : UInt8 := 0x2A

/-- The byte `?`. -/
def questionByte : UInt8 := 0x3F

/-- `ascii_fold_byte`. -/
def asciiFoldByte (byte : UInt8) : UInt8 :=
  if 0x41 ≤ byte && byte ≤ 0x5A then byte + 0x20 else byte

/-- `byte_eq_ignore_ascii_case`. -/
def byteEqIgnoreAsciiCase (left right : UInt8) : Bool := asciiFoldByte left == asciiFoldByte right

/-- `str::eq_ignore_ascii_case`. -/
def eqIgnoreAsciiCase (left right : String) : Bool :=
  (asBytes left).map asciiFoldByte == (asBytes right).map asciiFoldByte

/-- What one byte of a pattern stands for. -/
def globToken (byte : UInt8) : Token UInt8 :=
  if byte = starByte then .star
  else if byte = questionByte then .one fun _ => true
  else .one (byteEqIgnoreAsciiCase byte)

/-- A pattern as a list of tokens. -/
def tokens (pattern : List UInt8) : List (Token UInt8) := pattern.map globToken

/-- `literal_child_matches_parent_glob_from`. -/
def literalChildMatchesParentGlobFrom (parentPattern childLiteral : List UInt8) : Bool :=
  globMatches (tokens parentPattern) childLiteral

/-- `literal_child_matches_parent_glob`. -/
def literalChildMatchesParentGlob (parentPattern childLiteral : String) : Bool :=
  literalChildMatchesParentGlobFrom (asBytes parentPattern) (asBytes childLiteral)

/-- `has_glob_metacharacters`. -/
def hasGlobMetacharacters (pattern : String) : Bool :=
  (asBytes pattern).any fun b => b == starByte || b == questionByte

/-- `pattern_subset_guard`. -/
def patternSubsetGuard (parentIsWildcard parentEqualsChildIgnoreAsciiCase
    childHasMetacharacters : Bool) : Bool :=
  parentIsWildcard || parentEqualsChildIgnoreAsciiCase || !childHasMetacharacters

/-- `literal_pattern_matches`. -/
def literalPatternMatches (patternHasMetacharacters patternEqualsValueIgnoreAsciiCase : Bool) :
    Bool :=
  !patternHasMetacharacters && patternEqualsValueIgnoreAsciiCase

/-- `literal_child_pattern_subset`. -/
def literalChildPatternSubset (childHasMetacharacters parentMatchesChildLiteral : Bool) : Bool :=
  !childHasMetacharacters && parentMatchesChildLiteral

/-- `pattern_matches`. -/
def patternMatches (pattern value : String) : Bool :=
  if pattern = "*" then true
  else if literalPatternMatches (hasGlobMetacharacters pattern) (eqIgnoreAsciiCase pattern value) then
    true
  else if !hasGlobMetacharacters pattern then false
  else literalChildMatchesParentGlob pattern value

/-! ## Containment of globs -/

/-- Note a byte of a pattern: literals are kept folded, each once. -/
def noteByte (representatives : List UInt8) (byte : UInt8) : List UInt8 :=
  if byte = starByte ∨ byte = questionByte then representatives
  else if asciiFoldByte byte ∈ representatives then representatives
  else representatives ++ [asciiFoldByte byte]

/-- `collect_representative_bytes`: the literals of both patterns, and the first byte that is none
    of them. -/
def collectRepresentativeBytes (parentPattern childPattern : List UInt8) : List UInt8 :=
  let literals := (parentPattern ++ childPattern).foldl noteByte []
  match (List.range 256).find? fun n => UInt8.ofNat n ∉ literals with
  | some other => literals ++ [UInt8.ofNat other]
  | none => literals

/-- `glob_pattern_subset`. -/
def globPatternSubset (parentPattern childPattern : String) : Bool :=
  let parent := asBytes parentPattern
  let child := asBytes childPattern
  (globSubset (tokens parent) (tokens child) (collectRepresentativeBytes parent child)).getD false

/-- `pattern_is_subset`. -/
def patternIsSubset (parent child : String) : Bool :=
  let parentIsWildcard := parent == "*"
  let parentEqualsChild := eqIgnoreAsciiCase parent child
  let childHasMetacharacters := hasGlobMetacharacters child
  if patternSubsetGuard parentIsWildcard parentEqualsChild childHasMetacharacters then
    if parentIsWildcard || parentEqualsChild then true
    else
      -- the child is a literal value, which the parent glob may match
      literalChildPatternSubset childHasMetacharacters (literalChildMatchesParentGlob parent child)
  else globPatternSubset parent child

example : patternIsSubset "fi*" "fix*" = true := by decide +kernel

example : patternIsSubset "fi?" "fi*" = false := by decide +kernel

/-! ## Bytes up to case -/

theorem asciiFoldByte_idem (b : UInt8) : asciiFoldByte (asciiFoldByte b) = asciiFoldByte b := by
  unfold asciiFoldByte
  grind

theorem asciiFoldByte_eq_star (b : UInt8) : asciiFoldByte b = starByte ↔ b = starByte := by
  unfold asciiFoldByte starByte
  grind

theorem asciiFoldByte_eq_question (b : UInt8) :
    asciiFoldByte b = questionByte ↔ b = questionByte := by
  unfold asciiFoldByte questionByte
  grind

theorem asciiFoldByte_of_le_star {b : UInt8} (h : b ≤ starByte) : asciiFoldByte b = b := by
  unfold asciiFoldByte
  unfold starByte at h
  grind

theorem takes_globToken (b a : UInt8) :
    (globToken b).takes a =
      (b != starByte && (b == questionByte || asciiFoldByte b == asciiFoldByte a)) := by
  unfold globToken
  split
  · rename_i hs
    rw [hs]
    rfl
  · rename_i hs
    rw [bne_iff_ne.mpr hs, Bool.true_and]
    split
    · rename_i hq
      rw [beq_iff_eq.mpr hq]
      rfl
    · rename_i hq
      rw [beq_false_of_ne hq]
      rfl

/-- A token does not see the case of its own byte ... -/
theorem globToken_asciiFoldByte (b : UInt8) : globToken (asciiFoldByte b) = globToken b := by
  simp only [globToken, asciiFoldByte_eq_star, asciiFoldByte_eq_question]
  split
  · rfl
  · split
    · rfl
    · refine congrArg Token.one (funext fun a => ?_)
      rw [byteEqIgnoreAsciiCase, byteEqIgnoreAsciiCase, asciiFoldByte_idem]

/-- ... nor the case of the byte it reads. -/
theorem takes_asciiFoldByte {pattern : List UInt8} {t : Token UInt8} (ht : t ∈ tokens pattern)
    (a : UInt8) : t.takes (asciiFoldByte a) = t.takes a := by
  obtain ⟨b, -, rfl⟩ := List.mem_map.mp ht
  rw [takes_globToken, takes_globToken, asciiFoldByte_idem]

theorem tokens_fold (pattern : List UInt8) : tokens (pattern.map asciiFoldByte) = tokens pattern := by
  rw [tokens, tokens, List.map_map]
  exact List.map_congr_left fun b _ => globToken_asciiFoldByte b

/-- Two values that differ in case are matched alike. -/
theorem globMatches_of_fold_eq {pattern v w : List UInt8}
    (h : v.map asciiFoldByte = w.map asciiFoldByte) :
    globMatches (tokens pattern) v = globMatches (tokens pattern) w := by
  rw [← globMatches_map (fun t ht a => takes_asciiFoldByte ht a) v, h,
    globMatches_map fun t ht a => takes_asciiFoldByte ht a]

/-- Two patterns that differ in case match alike. -/
theorem tokens_of_fold_eq {p q : List UInt8} (h : p.map asciiFoldByte = q.map asciiFoldByte) :
    tokens p = tokens q := by
  rw [← tokens_fold p, h, tokens_fold]

/-! ## The matcher -/

/-- A pattern without metacharacters matches itself up to case. -/
theorem globMatches_literal {pattern : List UInt8} (value : List UInt8)
    (h : (pattern.any fun b => b == starByte || b == questionByte) = false) :
    globMatches (tokens pattern) value =
      (pattern.map asciiFoldByte == value.map asciiFoldByte) := by
  induction pattern generalizing value with
  | nil => cases value <;> rfl
  | cons b pattern ih =>
    rw [List.any_cons, Bool.or_eq_false_iff] at h
    obtain ⟨hb, hrest⟩ := h
    have hb' : ¬ b = starByte ∧ ¬ b = questionByte := by simpa using hb
    rw [tokens, List.map_cons, globToken, if_neg hb'.1, if_neg hb'.2]
    cases value with
    | nil => rfl
    | cons a value =>
      rw [globMatches_one_cons, ← tokens, ih value hrest]
      rfl

theorem asBytes_star : asBytes "*" = [starByte] := by decide

/-- The shortcuts of the matcher change nothing. -/
theorem patternMatches_eq_glob (pattern value : String) :
    patternMatches pattern value = globMatches (tokens (asBytes pattern)) (asBytes value) := by
  unfold patternMatches
  split
  · rename_i hstar
    -- a single star matches every text
    rw [hstar, asBytes_star]
    generalize asBytes value = v
    induction v with
    | nil => rfl
    | cons a v ih =>
      change true = globMatches (.star :: []) (a :: v)
      rw [globMatches_star_cons]
      exact (Bool.or_eq_true_iff.mpr (Or.inr ih.symm)).symm
  · cases hmeta : hasGlobMetacharacters pattern
    · have hliteral := globMatches_literal (asBytes value) hmeta
      rw [hliteral, ← eqIgnoreAsciiCase]
      cases eqIgnoreAsciiCase pattern value <;> rfl
    · rfl

/-! ## The representatives -/

/-- What has been noted after some bytes: exactly the folded literals. -/
theorem mem_foldl_noteByte (bytes reps : List UInt8) (r : UInt8) :
    r ∈ bytes.foldl noteByte reps ↔
      r ∈ reps ∨ ∃ b ∈ bytes, b ≠ starByte ∧ b ≠ questionByte ∧ r = asciiFoldByte b := by
  induction bytes generalizing reps with
  | nil => simp
  | cons b bytes ih =>
    rw [List.foldl_cons, ih]
    have hnote : r ∈ noteByte reps b ↔
        r ∈ reps ∨ (b ≠ starByte ∧ b ≠ questionByte ∧ r = asciiFoldByte b) := by
      unfold noteByte
      split
      · rename_i hmeta
        constructor
        · exact Or.inl
        · rintro (hr | ⟨hs, hq, -⟩)
          · exact hr
          · exact absurd hmeta (by simp [hs, hq])
      · rename_i hmeta
        rw [not_or] at hmeta
        split
        · rename_i hmem
          constructor
          · exact Or.inl
          · rintro (hr | ⟨-, -, rfl⟩)
            · exact hr
            · exact hmem
        · simp [hmeta.1, hmeta.2]
    rw [hnote, List.exists_mem_cons_iff, or_assoc]

/-- **Every byte acts like a representative.** -/
theorem represent_collect (parent child : List UInt8) :
    Represent (collectRepresentativeBytes parent child) (tokens parent) (tokens child) := by
  intro a
  set literals := (parent ++ child).foldl noteByte [] with hliterals
  have hmem : ∀ r, r ∈ literals ↔
      ∃ b ∈ parent ++ child, b ≠ starByte ∧ b ≠ questionByte ∧ r = asciiFoldByte b := fun r => by
    rw [hliterals, mem_foldl_noteByte]
    simp
  -- it is enough that `r` folds to the same byte, or that no literal reads either of the two
  suffices h : ∃ r ∈ collectRepresentativeBytes parent child,
      asciiFoldByte r = asciiFoldByte a ∨ (asciiFoldByte a ∉ literals ∧ asciiFoldByte r ∉ literals) by
    obtain ⟨r, hr, hact⟩ := h
    have hall : ∀ b ∈ parent ++ child, (globToken b).takes a = (globToken b).takes r := by
      intro b hb
      rw [takes_globToken, takes_globToken]
      rcases hact with hsame | ⟨ha, hr⟩
      · rw [hsame]
      · have hne : ∀ c, asciiFoldByte c ∉ literals → b ≠ starByte → b ≠ questionByte →
            asciiFoldByte b ≠ asciiFoldByte c := fun c hc hs hq heq =>
          hc ((hmem _).mpr ⟨b, hb, hs, hq, heq.symm⟩)
        by_cases hs : b = starByte
        · simp [hs]
        · by_cases hq : b = questionByte
          · rw [beq_iff_eq.mpr hq, Bool.true_or, Bool.true_or]
          · rw [beq_false_of_ne (hne a ha hs hq), beq_false_of_ne (hne r hr hs hq)]
    refine ⟨r, hr, ?_, ?_⟩
    · intro t ht
      obtain ⟨b, hb, rfl⟩ := List.mem_map.mp ht
      exact hall b (List.mem_append_left _ hb)
    · intro t ht
      obtain ⟨b, hb, rfl⟩ := List.mem_map.mp ht
      exact hall b (List.mem_append_right _ hb)
  -- the star is no literal, so the search for another byte ends there at the latest
  have hstar : starByte ∉ literals := fun h => by
    obtain ⟨b, -, hs, -, hfold⟩ := (hmem _).mp h
    exact hs ((asciiFoldByte_eq_star b).mp hfold.symm)
  have hcollect : collectRepresentativeBytes parent child =
      match (List.range 256).find? fun n => UInt8.ofNat n ∉ literals with
      | some other => literals ++ [UInt8.ofNat other]
      | none => literals := rfl
  rw [hcollect]
  split
  · rename_i other hfind
    rw [List.find?_range_eq_some] at hfind
    obtain ⟨hother, -, hfirst⟩ := hfind
    by_cases ha : asciiFoldByte a ∈ literals
    · exact ⟨asciiFoldByte a, List.mem_append_left _ ha, Or.inl (asciiFoldByte_idem a)⟩
    · refine ⟨UInt8.ofNat other, by simp, Or.inr ⟨ha, ?_⟩⟩
      have hle : other ≤ 0x2A := by
        by_contra hlt
        have hseen := hfirst 0x2A (by omega)
        exact hstar (by simpa [starByte] using hseen)
      have hle' : UInt8.ofNat other ≤ starByte := by
        rw [UInt8.le_iff_toNat_le, UInt8.toNat_ofNat', Nat.mod_eq_of_lt (by omega)]
        exact hle
      rw [asciiFoldByte_of_le_star hle']
      simpa using hother
  · rename_i hnone
    rw [List.find?_range_eq_none] at hnone
    exact absurd (by simpa [starByte] using hnone 0x2A (by omega)) hstar

/-! ## Containment -/

/-- The search answers: it never runs out of fuel. -/
theorem globPatternSubset_eq_true {parent child : String} :
    globPatternSubset parent child = true ↔
      globSubset (tokens (asBytes parent)) (tokens (asBytes child))
        (collectRepresentativeBytes (asBytes parent) (asBytes child)) = some true := by
  rw [globPatternSubset]
  obtain ⟨answer, hanswer⟩ := Option.isSome_iff_exists.mp
    (globSubset_isSome (tokens (asBytes parent)) (tokens (asBytes child))
      (collectRepresentativeBytes (asBytes parent) (asBytes child)))
  rw [hanswer]
  simp

/-- **Containment.**  A child pattern that passes matches only what its parent matches. -/
theorem patternIsSubset_sound {parent child : String} (h : patternIsSubset parent child = true)
    {value : String} (hvalue : patternMatches child value = true) :
    patternMatches parent value = true := by
  rw [patternMatches_eq_glob] at hvalue ⊢
  unfold patternIsSubset at h
  dsimp only at h
  split at h
  · rename_i hguard
    split at h
    · rename_i hshortcut
      rcases Bool.or_eq_true_iff.mp hshortcut with hwild | hequal
      · rw [← patternMatches_eq_glob, patternMatches, if_pos (beq_iff_eq.mp hwild)]
      · rw [tokens_of_fold_eq (beq_iff_eq.mp hequal)]
        exact hvalue
    · obtain ⟨hmeta, hmatch⟩ := Bool.and_eq_true_iff.mp h
      rw [globMatches_literal _ (Bool.not_eq_true' _ ▸ hmeta)] at hvalue
      rw [← globMatches_of_fold_eq (beq_iff_eq.mp hvalue)]
      exact hmatch
  · exact globSubset_sound (represent_collect _ _) (globPatternSubset_eq_true.mp h) hvalue

end Vellaveto.Capability
