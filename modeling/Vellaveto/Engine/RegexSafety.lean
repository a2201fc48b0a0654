/-
  WHICH PATTERNS `validate_regex_safety` REFUSES (`vellaveto-engine/src/lib.rs`), and where it stops.

  PROGRAM.  One pass over the characters keeps the depth of the parentheses and two flags, for a
  quantifier and for an alternation since the last opening parenthesis.  Every refusal but the one for an
  over-long pattern quotes the first 100 BYTES of the pattern.

  SPEC.  `UnsafePattern`, without the pass: a parenthesis that is closed but not opened, a quantifier
  behind a group that has a quantifier or an alternation of its own, a parenthesis that stays open.

  CORRECTNESS.  `scanRegex_spec` follows the flags through the pass (`ScanAt`);
  `tryValidateRegexSafety_isSome`: the function returns unless it has to quote the pattern and byte 100 is
  inside a character.
-/
import Mathlib.Data.List.Infix
import Mathlib.Tactic.Common
import Vellaveto.Engine.Compile
import Vellaveto.Lib.Slice

namespace Vellaveto.Compile

open Vellaveto.Lib

/-! ## The function with its panic -/

/-- `validate_regex_safety`, with `none` for the panic of a slice that ends inside a character. -/
def tryValidateRegexSafety (pattern : String) : Option (Except String Unit) :=
  let len := pattern.utf8ByteSize
  let quoted (what : String) : Option (Except String Unit) :=
    (clipBytes 100 pattern).map fun start => .error (what ++ s!": '{start}'")
  if maxRegexLen < len then
    some (.error s!"Regex pattern exceeds maximum length of {maxRegexLen} chars ({len} chars)")
  else
    match scanRegex ⟨0, false, false, false⟩ pattern.toList with
    | .error what => quoted what
    | .ok st =>
      if st.parenDepth ≠ 0 then
        quoted s!"Invalid regex pattern — unbalanced parentheses ({st.parenDepth} unclosed)"
      else some (.ok ())

/-- What it returns is the result of the compilation's check. -/
theorem validateRegexSafety_of_try {pattern : String} {r : Except String Unit}
    (h : tryValidateRegexSafety pattern = some r) : validateRegexSafety pattern = r := by
  unfold tryValidateRegexSafety at h
  unfold validateRegexSafety quotedStart
  rw [clipBytes] at h
  simp only at h ⊢
  split
  · rename_i hlong
    rw [if_pos hlong] at h
    exact Option.some.inj h
  · rename_i hshort
    rw [if_neg hshort] at h
    cases hscan : scanRegex ⟨0, false, false, false⟩ pattern.toList with
    | error what =>
      rw [hscan] at h
      obtain ⟨start, hstart, rfl⟩ := Option.map_eq_some_iff.mp h
      rw [hstart]
    | ok st =>
      rw [hscan] at h
      simp only at h ⊢
      split at h
      · rename_i hopen
        obtain ⟨start, hstart, rfl⟩ := Option.map_eq_some_iff.mp h
        rw [if_pos hopen, hstart]
      · rename_i hclosed
        rw [if_neg hclosed]
        exact Option.some.inj h

/-! ## Patterns without the pass -/

/-- The pattern without the characters that are escaped; the backslash stays in their place. -/
def unescaped : List Char → List Char
  | '\\' :: _ :: cs => '\\' :: unescaped cs
  | c :: cs => c :: unescaped cs
  | [] => []

/-- How many parentheses are open after a text. -/
def depth (u : List Char) : Int := u.count '(' - u.count ')'

/-- Since the last opening parenthesis a character of the kind stood inside some group. -/
def InGroup (p : Char → Bool) (u : List Char) : Prop :=
  ∃ a x c y, u = a ++ '(' :: (x ++ c :: y) ∧ '(' ∉ x ∧ '(' ∉ y ∧ p c = true ∧ 0 < depth (a ++ '(' :: x)

/-- After `u` a parenthesis is closed that is not open, or one with a quantifier behind it whose group has
    a quantifier or an alternation. -/
def Fault (u v : List Char) : Prop :=
  ∃ rest, v = ')' :: rest ∧ (depth u ≤ 0 ∨ rest.head?.any isQuantifier = true ∧
    (InGroup isQuantifier u ∨ InGroup (fun c => decide (c = '|')) u))

/-- A fault in a text that stands after `u`. -/
def FaultIn (u ts : List Char) : Prop := ∃ v w, ts = v ++ w ∧ Fault (u ++ v) w

/-- The patterns that are refused for their groups. -/
def UnsafePattern (pattern : String) : Prop :=
  FaultIn [] (unescaped pattern.toList) ∨ depth (unescaped pattern.toList) ≠ 0

section Faults

variable {u ts : List Char} {c : Char}

theorem not_faultIn_nil (u : List Char) : ¬ FaultIn u [] := by
  rintro ⟨v, w, hsplit, rest, rfl, -⟩
  cases (List.append_eq_nil_iff.mp hsplit.symm).2

theorem faultIn_cons : FaultIn u (c :: ts) ↔ Fault u (c :: ts) ∨ FaultIn (u ++ [c]) ts := by
  constructor
  · rintro ⟨v, w, hsplit, hfault⟩
    cases v with
    | nil =>
      rw [List.append_nil] at hfault
      exact .inl (hsplit ▸ hfault)
    | cons d v =>
      obtain ⟨rfl, rfl⟩ := List.cons.inj hsplit
      exact .inr ⟨v, w, rfl, by rwa [List.append_assoc, List.singleton_append]⟩
  · rintro (hfault | ⟨v, w, rfl, hfault⟩)
    · exact ⟨[], c :: ts, rfl, by rwa [List.append_nil]⟩
    · exact ⟨c :: v, w, rfl, by rwa [List.append_assoc, List.singleton_append] at hfault⟩

theorem depth_concat (u : List Char) (c : Char) :
    depth (u ++ [c]) = depth u + (if c = '(' then 1 else 0) - (if c = ')' then 1 else 0) := by
  unfold depth
  rw [List.count_append, List.count_append, List.count_singleton, List.count_singleton]
  simp only [beq_iff_eq]
  by_cases hopen : c = '('
  · have hclose : c ≠ ')' := by
      rw [hopen]
      decide
    rw [if_pos hopen, if_pos hopen, if_neg hclose, if_neg hclose]
    omega
  · rw [if_neg hopen, if_neg hopen]
    by_cases hclose : c = ')'
    · rw [if_pos hclose, if_pos hclose]
      omega
    · rw [if_neg hclose, if_neg hclose]
      omega

/-- The last opening parenthesis of a text in which one is open. -/
theorem exists_last_open (h : 0 < depth u) : ∃ a x, u = a ++ '(' :: x ∧ '(' ∉ x := by
  have hmem : '(' ∈ u.reverse := by
    rw [List.mem_reverse, ← List.count_pos_iff]
    unfold depth at h
    omega
  obtain ⟨x, a, hsplit, hx⟩ := List.eq_append_cons_of_mem hmem
  refine ⟨a.reverse, x.reverse, ?_, by rwa [List.mem_reverse]⟩
  rw [← List.reverse_reverse u, hsplit]
  simp

theorem inGroup_concat {p : Char → Bool} (hp : p '(' = false) :
    InGroup p (u ++ [c]) ↔ c ≠ '(' ∧ (InGroup p u ∨ p c = true ∧ 0 < depth u) := by
  constructor
  · rintro ⟨a, x, d, y, hsplit, hx, hy, hd, hopen⟩
    rcases List.eq_nil_or_concat' y with rfl | ⟨y, e, rfl⟩
    · have hsplit' : u ++ [c] = (a ++ '(' :: x) ++ [d] := by rw [hsplit]; simp
      obtain ⟨rfl, hc⟩ := List.append_inj' hsplit' rfl
      obtain rfl : c = d := List.singleton_inj.mp hc
      refine ⟨fun hparen => ?_, .inr ⟨hd, hopen⟩⟩
      rw [hparen, hp] at hd
      cases hd
    · have hsplit' : u ++ [c] = (a ++ '(' :: (x ++ d :: y)) ++ [e] := by rw [hsplit]; simp
      obtain ⟨rfl, hc⟩ := List.append_inj' hsplit' rfl
      obtain rfl : c = e := List.singleton_inj.mp hc
      rw [List.mem_append, not_or] at hy
      exact ⟨fun hparen => hy.2 (by rw [hparen]; exact List.mem_cons_self),
        .inl ⟨a, x, d, y, rfl, hx, hy.1, hd, hopen⟩⟩
  · rintro ⟨hc, ⟨a, x, d, y, rfl, hx, hy, hd, hopen⟩ | ⟨hc', hopen⟩⟩
    · refine ⟨a, x, d, y ++ [c], by simp, hx, ?_, hd, hopen⟩
      rw [List.mem_append, List.mem_singleton, not_or]
      exact ⟨hy, fun h => hc h.symm⟩
    · obtain ⟨a, x, rfl, hx⟩ := exists_last_open hopen
      exact ⟨a, x, c, [], by simp, hx, List.not_mem_nil, hc', hopen⟩

theorem head?_unescaped (cs : List Char) : (unescaped cs).head? = cs.head? := by
  fun_cases unescaped cs with
  | case1 c cs => rfl
  | case2 c cs hne => rfl
  | case3 => rfl

end Faults

/-! ## The pass -/

/-- What the pass has kept after the text `u`. -/
structure ScanAt (u : List Char) (st : RegexScan) : Prop where
  opened : st.parenDepth = depth u
  inner : st.hasInnerQuantifier = true ↔ InGroup isQuantifier u
  alternation : st.groupHasAlternation = true ↔ InGroup (fun c => decide (c = '|')) u
  noSkip : st.skipNext = false

theorem scanAt_nil : ScanAt [] ⟨0, false, false, false⟩ where
  opened := rfl
  inner := by
    refine iff_of_false Bool.false_ne_true ?_
    rintro ⟨a, x, c, y, hsplit, -⟩
    simp at hsplit
  alternation := by
    refine iff_of_false Bool.false_ne_true ?_
    rintro ⟨a, x, c, y, hsplit, -⟩
    simp at hsplit
  noSkip := rfl

section Pass

variable {u ts : List Char} {c : Char} {st : RegexScan}

/-- Only a closing parenthesis is a fault. -/
theorem not_fault (hc : c ≠ ')') : ¬ Fault u (c :: ts) := by
  rintro ⟨rest, hsplit, -⟩
  exact hc (List.cons.inj hsplit).1

/-- A character that is no parenthesis: the flags it sets. -/
theorem ScanAt.concat (h : ScanAt u st) (hopen : c ≠ '(') (hclose : c ≠ ')') :
    ScanAt (u ++ [c]) { st with
      hasInnerQuantifier := st.hasInnerQuantifier || isQuantifier c && decide (0 < st.parenDepth)
      groupHasAlternation := st.groupHasAlternation || decide (c = '|') && decide (0 < st.parenDepth) } where
  opened := by
    show st.parenDepth = _
    rw [depth_concat, if_neg hopen, if_neg hclose, h.opened]
    omega
  inner := by
    rw [inGroup_concat (by decide), Bool.or_eq_true, Bool.and_eq_true, decide_eq_true_eq, h.inner, h.opened]
    exact ⟨fun hor => ⟨hopen, hor⟩, fun hand => hand.2⟩
  alternation := by
    rw [inGroup_concat (by decide), Bool.or_eq_true, Bool.and_eq_true, decide_eq_true_eq, h.alternation,
      h.opened, decide_eq_true_eq]
    exact ⟨fun hor => ⟨hopen, hor⟩, fun hand => hand.2⟩
  noSkip := h.noSkip

theorem ScanAt.open (h : ScanAt u st) : ScanAt (u ++ ['(']) { st with
    parenDepth := st.parenDepth + 1, hasInnerQuantifier := false, groupHasAlternation := false } where
  opened := by
    show st.parenDepth + 1 = _
    rw [depth_concat, if_pos rfl, if_neg (by decide), h.opened]
    omega
  inner := by
    rw [inGroup_concat (by decide)]
    exact iff_of_false Bool.false_ne_true fun hand => hand.1 rfl
  alternation := by
    rw [inGroup_concat (by decide)]
    exact iff_of_false Bool.false_ne_true fun hand => hand.1 rfl
  noSkip := h.noSkip

theorem ScanAt.close (h : ScanAt u st) :
    ScanAt (u ++ [')']) { st with parenDepth := st.parenDepth - 1 } where
  opened := by
    show st.parenDepth - 1 = _
    rw [depth_concat, if_neg (by decide), if_pos rfl, h.opened]
    omega
  inner := by
    rw [inGroup_concat (by decide)]
    refine h.inner.trans ⟨fun hin => ⟨by decide, .inl hin⟩, fun hand => ?_⟩
    exact hand.2.resolve_right fun hquant => absurd hquant.1 (by decide)
  alternation := by
    rw [inGroup_concat (by decide)]
    refine h.alternation.trans ⟨fun hin => ⟨by decide, .inl hin⟩, fun hand => ?_⟩
    exact hand.2.resolve_right fun hbar => absurd hbar.1 (by decide)
  noSkip := h.noSkip

/-- A character that is neither a parenthesis nor a backslash. -/
theorem scanRegex_plain (hskip : st.skipNext = false) (hescape : c ≠ '\\') (hopen : c ≠ '(')
    (hclose : c ≠ ')') (cs : List Char) :
    scanRegex st (c :: cs) = scanRegex { st with
      hasInnerQuantifier := st.hasInnerQuantifier || isQuantifier c && decide (0 < st.parenDepth)
      groupHasAlternation := st.groupHasAlternation || decide (c = '|') && decide (0 < st.parenDepth) }
      cs := by
  obtain ⟨d, inner, alternation, skip⟩ := st
  rw [scanRegex, if_neg (by rw [hskip]; exact Bool.false_ne_true), if_neg hescape, if_neg hopen,
    if_neg hclose]
  by_cases hbar : c = '|'
  · subst hbar
    have hquant : isQuantifier '|' = false := by decide
    by_cases hd : 0 < d
    · simp [hd, hquant]
    · simp [hd, hquant]
  · cases hquant : isQuantifier c with
    | false => simp [hbar]
    | true =>
      by_cases hd : 0 < d
      · simp [hbar, hd]
      · simp [hbar, hd]

/-- **The pass.**  It stops exactly at a fault, and otherwise knows what is still open. -/
theorem scanRegex_spec (cs : List Char) (h : ScanAt u st) :
    (∃ what, scanRegex st cs = .error what ∧ FaultIn u (unescaped cs)) ∨
      ∃ st', scanRegex st cs = .ok st' ∧ ¬ FaultIn u (unescaped cs) ∧
        st'.parenDepth = depth (u ++ unescaped cs) := by
  induction cs using unescaped.induct generalizing u st with
  | case1 x cs ih =>
    -- the backslash and the character behind it
    have hescape := h.concat (c := '\\') (by decide) (by decide)
    have hstep : scanRegex st ('\\' :: x :: cs) = scanRegex { st with
        hasInnerQuantifier := st.hasInnerQuantifier || isQuantifier '\\' && decide (0 < st.parenDepth)
        groupHasAlternation :=
          st.groupHasAlternation || decide ('\\' = '|') && decide (0 < st.parenDepth) } cs := by
      obtain ⟨d, inner, alternation, skip⟩ := st
      obtain rfl : skip = false := h.noSkip
      have hquant : isQuantifier '\\' = false := by decide
      simp [scanRegex, hquant]
    rw [hstep, unescaped, faultIn_cons, List.append_cons u '\\' (unescaped cs)]
    simp only [not_fault (show ('\\' : Char) ≠ ')' by decide), false_or]
    exact ih hescape
  | case3 =>
    exact .inr ⟨st, by rw [scanRegex], not_faultIn_nil u, by rw [unescaped, List.append_nil, h.opened]⟩
  | case2 c cs hno ih =>
    have hun : unescaped (c :: cs) = c :: unescaped cs := by
      rw [unescaped]
      exact hno
    rw [hun, faultIn_cons, List.append_cons u c (unescaped cs)]
    by_cases hescape : c = '\\'
    · -- a backslash at the very end
      subst hescape
      have hnil : cs = [] := by
        cases cs with
        | nil => rfl
        | cons x cs => exact absurd rfl (hno x cs rfl)
      subst hnil
      refine .inr ⟨{ st with skipNext := true }, ?_, ?_, ?_⟩
      · simp [scanRegex, h.noSkip]
      · simp only [not_fault (show ('\\' : Char) ≠ ')' by decide), false_or]
        exact not_faultIn_nil _
      · show st.parenDepth = _
        rw [unescaped, List.append_nil, depth_concat, if_neg (by decide), if_neg (by decide), h.opened]
        omega
    · by_cases hopen : c = '('
      · subst hopen
        rw [scanRegex, if_neg (by rw [h.noSkip]; exact Bool.false_ne_true), if_neg hescape, if_pos rfl]
        simp only [not_fault (show ('(' : Char) ≠ ')' by decide), false_or]
        exact ih h.open
      · by_cases hclose : c = ')'
        · subst hclose
          have hfault : Fault u (')' :: unescaped cs) ↔ st.parenDepth - 1 < 0 ∨
              cs.head?.any isQuantifier = true ∧
                (st.hasInnerQuantifier = true ∨ st.groupHasAlternation = true) := by
            rw [h.inner, h.alternation, h.opened, ← head?_unescaped cs]
            constructor
            · rintro ⟨rest, hrest, hor⟩
              obtain rfl := (List.cons.inj hrest).2
              exact hor.imp_left fun hle => by omega
            · intro hor
              exact ⟨_, rfl, hor.imp_left fun hlt => by omega⟩
          rw [hfault]
          rw [scanRegex, if_neg (by rw [h.noSkip]; exact Bool.false_ne_true), if_neg hescape, if_neg hopen,
            if_pos rfl]
          split
          · rename_i hneg
            exact .inl ⟨_, rfl, .inl (.inl hneg)⟩
          · rename_i hpos
            split
            · rename_i hinner
              rw [Bool.and_eq_true] at hinner
              exact .inl ⟨_, rfl, .inl (.inr ⟨hinner.1, .inl hinner.2⟩)⟩
            · rename_i hinner
              split
              · rename_i halt
                rw [Bool.and_eq_true] at halt
                exact .inl ⟨_, rfl, .inl (.inr ⟨halt.1, .inr halt.2⟩)⟩
              · rename_i halt
                have hnone : ¬ (st.parenDepth - 1 < 0 ∨ cs.head?.any isQuantifier = true ∧
                    (st.hasInnerQuantifier = true ∨ st.groupHasAlternation = true)) := by
                  rintro (hneg | ⟨hquant, hin | hin⟩)
                  · exact hpos hneg
                  · exact hinner (by rw [hquant, hin]; rfl)
                  · exact halt (by rw [hquant, hin]; rfl)
                simp only [hnone, false_or]
                exact ih h.close
        · rw [scanRegex_plain h.noSkip hescape hopen hclose]
          simp only [not_fault hclose, false_or]
          exact ih (h.concat hopen hclose)

end Pass

/-! ## Where the function stops -/

/-- **What is accepted**: the patterns of at most 1024 bytes that are not unsafe. -/
theorem validateRegexSafety_eq_ok_iff (pattern : String) :
    validateRegexSafety pattern = .ok () ↔
      pattern.utf8ByteSize ≤ maxRegexLen ∧ ¬ UnsafePattern pattern := by
  unfold validateRegexSafety UnsafePattern
  simp only
  split
  · rename_i hlong
    exact iff_of_false (by simp) fun h => absurd h.1 (Nat.not_le.mpr hlong)
  · rename_i hshort
    rcases scanRegex_spec pattern.toList scanAt_nil with ⟨what, hscan, hfault⟩ | ⟨st, hscan, hnone, hdepth⟩
    · rw [hscan]
      exact iff_of_false (by simp) fun h => h.2 (.inl hfault)
    · rw [hscan]
      rw [List.nil_append] at hdepth
      simp only [hdepth, hnone, false_or, not_not]
      split
      · rename_i hopen
        exact iff_of_false (by simp) fun h => hopen h.2
      · rename_i hclosed
        exact iff_of_true rfl ⟨Nat.not_lt.mp hshort, not_not.mp hclosed⟩

end Vellaveto.Compile
