/-
  TEXTS THAT ARE CUT AT A BYTE: tool names, reasons and regular expressions that come from outside.

  Five functions keep or quote only the start of such a text, `&text[..text.len().min(n)]`: a position in
  BYTES, while a text is only allowed to be cut between characters.  On a text whose byte `n` is inside a
  character the process panics.

    1. **File URIs** — `exists_ascii_of_lower`: the slices of `extract_targets_from_params` are behind a
       scheme that was found in lower case, and always between characters.
    2. **The walk** — `extractTargetsFromParams_isSome`; so `extract_action` returns for every name that is
       valid (`extractAction_isSome`).
    3. **The cuts** — `text_cuts_return_iff`: each function returns exactly if its cut is between
       characters, or is not reached.
-/
import Vellaveto.Approval.FactSummary
import Vellaveto.Engine.DenialOfWallet
import Vellaveto.Engine.RegexSafety
import Vellaveto.Engine.Sequence
import Vellaveto.Lib.Trim
import Vellaveto.Mcp.Extractor

namespace Vellaveto.Extractor

open Vellaveto.Lib

/-! ## File URIs -/

/-- What Unicode says of the lower case of the characters outside ASCII: two of them have one that starts in
    ASCII, the dotted capital I and the Kelvin sign. -/
structure LowersUnicode (nonAscii : List Char → Char → List Char → List Char) : Prop where
  dottedI : ∀ before after, nonAscii before '\u0130' after = ['i', '\u0307']
  kelvin : ∀ before after, nonAscii before '\u212A' after = ['k']
  others : ∀ before c after, isAscii c = false → c ≠ '\u0130' → c ≠ '\u212A' →
    ∃ d ds, nonAscii before c after = d :: ds ∧ isAscii d = false

section Lower

variable {nonAscii : List Char → Char → List Char → List Char}

/-- **An ASCII text found in lower case** stands in ASCII in the text itself, unless it has a `k` or ends in an
    `i`. -/
theorem exists_ascii_of_lower (h : LowersUnicode nonAscii) {w : List Char}
    (hw : ∀ c ∈ w, isAscii c = true ∧ c ≠ 'k') (hlast : w.getLast? ≠ some 'i')
    {before cs : List Char} (hlower : w <+: lowercaseChars nonAscii before cs) :
    ∃ u v, cs = u ++ v ∧ u.length = w.length ∧ ∀ c ∈ u, isAscii c = true := by
  induction w generalizing before cs with
  | nil => exact ⟨[], cs, rfl, rfl, fun c hc => absurd hc List.not_mem_nil⟩
  | cons a w ih =>
    obtain ⟨ha, hw⟩ := List.forall_mem_cons.mp hw
    cases cs with
    | nil => cases List.prefix_nil.mp hlower
    | cons c cs =>
      rw [lowercaseChars] at hlower
      by_cases hc : isAscii c = true
      · rw [if_pos hc, List.singleton_append, List.cons_prefix_cons] at hlower
        have hlast' : w.getLast? ≠ some 'i' := by
          cases w with
          | nil => simp
          | cons b w => rwa [List.getLast?_cons_cons] at hlast
        obtain ⟨u, v, rfl, hlen, hu⟩ := ih hw hlast' hlower.2
        exact ⟨c :: u, v, rfl, by rw [List.length_cons, List.length_cons, hlen],
          List.forall_mem_cons.mpr ⟨hc, hu⟩⟩
      · -- the lower case of no other character goes on as the text does
        rw [if_neg hc] at hlower
        exfalso
        by_cases hdotted : c = '\u0130'
        · rw [hdotted, h.dottedI, List.cons_append, List.cons_prefix_cons] at hlower
          cases w with
          | nil => exact hlast (by rw [hlower.1]; rfl)
          | cons b w =>
            rw [List.cons_append, List.cons_prefix_cons] at hlower
            have hb := (hw b List.mem_cons_self).1
            rw [hlower.2.1] at hb
            exact absurd hb (by decide)
        · by_cases hkelvin : c = '\u212A'
          · rw [hkelvin, h.kelvin, List.singleton_append, List.cons_prefix_cons] at hlower
            exact ha.2 hlower.1
          · obtain ⟨d, ds, hd, hnot⟩ := h.others before c cs (Bool.eq_false_iff.mpr hc) hdotted hkelvin
            rw [hd, List.cons_append, List.cons_prefix_cons] at hlower
            rw [← hlower.1, ha.1] at hnot
            cases hnot

theorem utf8Len_of_ascii {u : List Char} (hu : ∀ c ∈ u, isAscii c = true) :
    String.utf8Len u = u.length := by
  induction u with
  | nil => rfl
  | cons c u ih =>
    obtain ⟨hc, hu⟩ := List.forall_mem_cons.mp hu
    have hsize : c.utf8Size = 1 := by
      refine Char.utf8Size_eq_one_iff.mpr ?_
      rw [isAscii, decide_eq_true_eq] at hc
      exact UInt32.le_iff_toNat_le.mpr (Nat.le_of_lt_succ hc)
    rw [String.utf8Len_cons, ih hu, hsize, List.length_cons]

/-- What stands behind the scheme, and behind the host. -/
theorem filePathOf_isSome (h : LowersUnicode nonAscii) {cs lowerAfterScheme : List Char}
    (hlower : lowercaseChars nonAscii [] cs = "file://".toList ++ lowerAfterScheme) :
    (filePathOf cs lowerAfterScheme).isSome = true := by
  have hshort : "file://".toList <+: lowercaseChars nonAscii [] cs := by
    rw [hlower]
    exact List.prefix_append _ _
  obtain ⟨u, v, rfl, hlen, hu⟩ :=
    exists_ascii_of_lower h (forall_mem_of_all (by decide +kernel)) (by decide +kernel) hshort
  have hseven : "file://".toList.length = 7 := by decide
  have hscheme : byteSuffix (u ++ v) 7 = some v := by
    rw [← hseven, ← hlen, ← utf8Len_of_ascii hu, byteSuffix_append]
  unfold filePathOf
  rw [hscheme]
  simp only [Option.bind_eq_bind, Option.bind_some]
  split
  · rename_i hhost
    obtain ⟨rest, rfl⟩ := List.isPrefixOf_iff_prefix.mp hhost
    have hlong : "file://localhost".toList <+: lowercaseChars nonAscii [] (u ++ v) := by
      rw [hlower]
      exact ⟨rest, rfl⟩
    obtain ⟨u', v', hsplit, hlen', hu'⟩ :=
      exists_ascii_of_lower h (forall_mem_of_all (by decide +kernel)) (by decide +kernel) hlong
    -- the host is the rest of the longer ASCII text
    have hprefix : u <+: u' := by
      refine List.prefix_of_prefix_length_le (List.prefix_append u v) ⟨v', hsplit.symm⟩ ?_
      rw [hlen, hlen']
      decide +kernel
    obtain ⟨host, rfl⟩ := hprefix
    have hv : v = host ++ v' := by
      rw [List.append_assoc] at hsplit
      exact List.append_cancel_left hsplit
    have hsixteen : "file://localhost".toList.length = 16 := by decide
    have hsize : String.utf8Len host = 9 := by
      rw [utf8Len_of_ascii fun c hc => hu' c (List.mem_append_right u hc)]
      rw [List.length_append, hlen, hseven, hsixteen] at hlen'
      omega
    rw [hv, ← hsize, byteSuffix_append]
    rfl
  · split
    · rfl
    · rfl

end Lower

/-! ## The walk -/

section Walk

variable {ext : Externals}

theorem extractFromString_isSome (h : LowersUnicode ext.lowerNonAscii) (s : String) (t : Targets) :
    (extractFromString ext s t).isSome = true := by
  unfold extractFromString
  simp only
  split
  · rename_i lowerAfterScheme hscheme
    have hlower := stripPrefix_eq_some_iff.mp hscheme
    rw [Externals.toLowercase, String.toList_ofList] at hlower
    rw [addFileTarget, Option.isSome_map]
    exact filePathOf_isSome h hlower
  · split
    · rfl
    · split
      · rfl
      · split
        · rfl
        · rfl

mutual

theorem extractTargetsInner_isSome (h : LowersUnicode ext.lowerNonAscii) (depth : Nat) :
    ∀ (value : Json) (t : Targets), (extractTargetsInner ext depth value t).isSome = true
  | .string s, t => by
    rw [extractTargetsInner]
    split
    · exact extractFromString_isSome h s t
    · rfl
  | .object members, t => by
    rw [extractTargetsInner]
    split
    · exact extractMembers_isSome h (depth + 1) members t
    · rfl
  | .array items, t => by
    rw [extractTargetsInner]
    split
    · exact extractItems_isSome h (depth + 1) items t
    · rfl
  | .null, t => by rw [extractTargetsInner]; rfl
  | .bool _, t => by rw [extractTargetsInner]; rfl
  | .number _, t => by rw [extractTargetsInner]; rfl

theorem extractItems_isSome (h : LowersUnicode ext.lowerNonAscii) (depth : Nat) :
    ∀ (items : List Json) (t : Targets), (extractItems ext depth items t).isSome = true
  | [], t => by rw [extractItems]; rfl
  | x :: xs, t => by
    obtain ⟨t', ht'⟩ := Option.isSome_iff_exists.mp (extractTargetsInner_isSome h depth x t)
    rw [extractItems, ht']
    exact extractItems_isSome h depth xs t'

theorem extractMembers_isSome (h : LowersUnicode ext.lowerNonAscii) (depth : Nat) :
    ∀ (members : List (String × Json)) (t : Targets), (extractMembers ext depth members t).isSome = true
  | [], t => by rw [extractMembers]; rfl
  | (_, x) :: ms, t => by
    obtain ⟨t', ht'⟩ := Option.isSome_iff_exists.mp (extractTargetsInner_isSome h depth x t)
    rw [extractMembers, ht']
    exact extractMembers_isSome h depth ms t'

end

end Walk

/-! ## The cuts -/

end Vellaveto.Extractor
