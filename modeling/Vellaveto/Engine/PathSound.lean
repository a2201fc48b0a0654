/-
  NORMALIZED PATHS ARE CANONICAL (`vellaveto-engine/src/path.rs`).

  What `normalize_path_bounded` returns is absolute, has no empty, `.` or `..` component, and holds no
  NUL, no backslash and no percent sequence that would still decode; so normalizing it again, under
  whatever iteration limit, gives it back.

  The decode loop ends at a text that a further round leaves alone.  A round shortens a text with an
  escape in it, so such a text has none, and no backslash either (`decodeOnce_eq_self`).  The kept
  components are segments of that text, and a sequence `%XX` has no slash in it: joining the
  components again cannot put a new one together.
-/
import Vellaveto.Engine.Path
import Vellaveto.Lib.Escape

namespace Vellaveto.Path

open Vellaveto.Lib

/-! ### The decode loop -/

/-- The text of a path after which the decode loop has nothing left to do. -/
structure Decoded (cs : List Char) : Prop where
  noNull : Char.ofNat 0 ∉ cs
  noBackslash : '\\' ∉ cs
  noEscape : ¬ HasEscape cs

theorem map_slash_eq_self {cs : List Char} (h : '\\' ∉ cs) :
    (cs.map fun c => if c = '\\' then '/' else c) = cs := by
  refine (List.map_congr_left ?_).trans (List.map_id cs)
  intro c hc
  have hne : c ≠ '\\' := fun heq => h (heq ▸ hc)
  rw [if_neg hne, id]

theorem length_utf8Encode_map_slash (cs : List Char) :
    (utf8Encode (cs.map fun c => if c = '\\' then '/' else c)).length = (utf8Encode cs).length := by
  have hsize : ∀ c : Char, (if c = '\\' then '/' else c).utf8Size = c.utf8Size := by
    intro c
    split
    · rename_i hc
      rw [hc]
      decide
    · rfl
  induction cs with
  | nil => rfl
  | cons c cs ih =>
    rw [List.map_cons, utf8Encode_cons, utf8Encode_cons, List.length_append, List.length_append, ih,
      String.length_utf8EncodeChar, String.length_utf8EncodeChar, hsize]

/-- **A round changes nothing exactly when nothing is left to decode.** -/
theorem decodeOnce_eq_self {cs : List Char} : decodeOnce cs = .ok cs ↔ Decoded cs := by
  constructor
  · intro h
    unfold decodeOnce at h
    split at h
    · cases h
    rename_i decoded hdec
    split at h
    · cases h
    rename_i hnull
    have hmap := Except.ok.inj h
    -- the round keeps the number of bytes, so there was no escape
    have hnone : ¬ HasEscape cs := by
      intro hesc
      have hlt := length_percentDecodeUtf8_lt hesc hdec
      have hlen := length_utf8Encode_map_slash decoded
      rw [hmap] at hlen
      omega
    have hsame : decoded = cs := by
      rw [percentDecodeUtf8_eq_self hnone] at hdec
      exact (Option.some.inj hdec).symm
    subst hsame
    refine ⟨fun hmem => hnull (List.contains_iff_mem.mpr hmem), fun hmem => ?_, hnone⟩
    rw [← hmap] at hmem
    obtain ⟨c, -, hc⟩ := List.mem_map.mp hmem
    split at hc
    · cases hc
    · exact absurd hc ‹_›
  · rintro ⟨hnull, hback, hnone⟩
    unfold decodeOnce
    rw [percentDecodeUtf8_eq_self hnone]
    simp only
    rw [if_neg (fun hc => hnull (List.contains_iff_mem.mp hc)), map_slash_eq_self hback]

/-- What the loop returns has nothing left to decode. -/
theorem decoded_of_decodeLoop {m left : Nat} {raw cs : List Char}
    (h : decodeLoop m left raw = .ok cs) : Decoded cs := by
  induction left using Nat.strong_induction_on generalizing raw with
  | _ left ih =>
    unfold decodeLoop at h
    split at h
    · cases h
    rename_i decoded hdec
    split at h
    · rename_i heq
      cases h
      exact decodeOnce_eq_self.mp (heq ▸ hdec)
    · match left, h with
      | 0, h => cases h
      | 1, h => cases h
      | left + 2, h => exact ih (left + 1) (by omega) h

theorem decodeLoop_of_decoded (m left : Nat) {cs : List Char} (h : Decoded cs) :
    decodeLoop m left cs = .ok cs := by
  unfold decodeLoop
  rw [decodeOnce_eq_self.mpr h]
  simp only [if_true]

/-! ### The components -/

/-- A component that normalization keeps. -/
def Kept (component : List Char) : Prop :=
  component ≠ [] ∧ component ≠ ['.'] ∧ component ≠ ['.', '.']

theorem pushComponent_of_kept (stack : List (List Char)) {component : List Char}
    (h : Kept component) : pushComponent stack component = component :: stack := by
  obtain ⟨hempty, hdot, hdots⟩ := h
  rw [pushComponent, if_neg (by rintro (h | h) <;> contradiction), if_neg hdots]

/-- The stack only ever holds kept components, each of them one that was pushed. -/
theorem mem_foldl_pushComponent {components stack : List (List Char)} {c : List Char}
    (h : c ∈ components.foldl pushComponent stack) :
    c ∈ stack ∨ (c ∈ components ∧ Kept c) := by
  induction components generalizing stack with
  | nil => exact .inl h
  | cons component components ih =>
    rcases ih h with hstack | ⟨hmem, hkept⟩
    · unfold pushComponent at hstack
      split at hstack
      · exact .inl hstack
      split at hstack
      · exact .inl (List.mem_of_mem_tail hstack)
      · rename_i hskip hdots
        rcases List.mem_cons.mp hstack with rfl | hstack
        · refine .inr ⟨List.mem_cons_self, ?_, ?_, hdots⟩
          · exact fun heq => hskip (.inl heq)
          · exact fun heq => hskip (.inr heq)
        · exact .inl hstack
    · exact .inr ⟨List.mem_cons_of_mem component hmem, hkept⟩

theorem foldl_pushComponent_of_kept {components : List (List Char)} (stack : List (List Char))
    (h : ∀ c ∈ components, Kept c) :
    components.foldl pushComponent stack = components.reverse ++ stack := by
  induction components generalizing stack with
  | nil => rfl
  | cons component components ih =>
    rw [List.foldl_cons, pushComponent_of_kept stack (h component List.mem_cons_self),
      ih _ (fun c hc => h c (List.mem_cons_of_mem component hc))]
    simp

/-- The components of a normalized path: kept ones, without a slash, each occurring in the text. -/
theorem normalizeDecodedPath_components {cs normalized : List Char}
    (h : normalizeDecodedPath cs = .ok normalized) :
    ∃ components, normalized = '/' :: ['/'].intercalate components ∧
      ∀ c ∈ components, Kept c ∧ '/' ∉ c ∧ c <:+: cs := by
  unfold normalizeDecodedPath at h
  split at h
  · cases h
  simp only at h
  split at h
  · cases h
  refine ⟨_, (Except.ok.inj h).symm, ?_⟩
  intro c hc
  rcases mem_foldl_pushComponent (List.mem_reverse.mp hc) with hnil | ⟨hmem, hkept⟩
  · cases hnil
  · exact ⟨hkept, not_mem_of_mem_splitOn hmem, infix_of_mem_splitOn hmem⟩

/-! ### Canonical paths -/

/-- The form of a normalized path. -/
structure Canonical (path : String) : Prop where
  absolute : path.toList.head? = some '/'
  components : path = "/" ∨ ∀ c ∈ path.toList.tail.splitOn '/', c ≠ [] ∧ c ≠ ['.'] ∧ c ≠ ['.', '.']
  noNull : Char.ofNat 0 ∉ path.toList
  noBackslash : '\\' ∉ path.toList
  noEscape : ¬ ∃ hi lo, isHexChar hi ∧ isHexChar lo ∧ ['%', hi, lo] <:+: path.toList

/-- A letter of the joined path is the slash or a letter of a component. -/
theorem mem_joined {components : List (List Char)} {x : Char} (hx : x ≠ '/')
    (h : x ∈ '/' :: ['/'].intercalate components) : ∃ c ∈ components, x ∈ c := by
  have hword : [x] <:+: ['/'] ++ ['/'].intercalate components := (List.singleton_infix_iff x _).mpr h
  have htail : [x] <:+: ['/'].intercalate components :=
    infix_of_not_mem (by simpa using hx) hword
  obtain ⟨c, hc, hin⟩ := infix_intercalate (by simpa using hx.symm) (by simp) htail
  exact ⟨c, hc, (List.singleton_infix_iff x c).mp hin⟩

theorem decoded_joined {cs : List Char} {components : List (List Char)} (hcs : Decoded cs)
    (h : ∀ c ∈ components, c <:+: cs) : Decoded ('/' :: ['/'].intercalate components) := by
  refine ⟨?_, ?_, ?_⟩
  · intro hmem
    obtain ⟨c, hc, hin⟩ := mem_joined (by decide) hmem
    exact hcs.noNull ((h c hc).subset hin)
  · intro hmem
    obtain ⟨c, hc, hin⟩ := mem_joined (by decide) hmem
    exact hcs.noBackslash ((h c hc).subset hin)
  · rintro ⟨hi, lo, hhi, hlo, hin⟩
    have hslash : '/' ∉ ['%', hi, lo] := by
      have hhi' : hi ≠ '/' := fun heq => by subst heq; cases hhi
      have hlo' : lo ≠ '/' := fun heq => by subst heq; cases hlo
      simp [hhi'.symm, hlo'.symm]
    have htail : ['%', hi, lo] <:+: ['/'].intercalate components :=
      infix_of_not_mem (List.not_mem_cons_of_ne_of_not_mem (by decide) List.not_mem_nil) hin
    obtain ⟨c, hc, hinc⟩ := infix_intercalate hslash (by simp) htail
    exact hcs.noEscape ⟨hi, lo, hhi, hlo, hinc.trans (h c hc)⟩

/-- Components that are joined and split again are the same components. -/
theorem splitOn_joined {components : List (List Char)} (hne : components ≠ [])
    (h : ∀ c ∈ components, '/' ∉ c) :
    ('/' :: ['/'].intercalate components).splitOn '/' = [] :: components := by
  rw [List.splitOn_cons_eq_if_modifyHead, if_pos (beq_self_eq_true _),
    List.splitOn_intercalate '/' h hne]

/-- Joined components normalize to themselves. -/
theorem normalizeDecodedPath_joined {components : List (List Char)}
    (hnull : Char.ofNat 0 ∉ '/' :: ['/'].intercalate components)
    (h : ∀ c ∈ components, Kept c ∧ '/' ∉ c) :
    normalizeDecodedPath ('/' :: ['/'].intercalate components)
      = .ok ('/' :: ['/'].intercalate components) := by
  have hstack : ((('/' :: ['/'].intercalate components).splitOn '/').foldl pushComponent
      []).reverse = components := by
    by_cases hne : components = []
    · subst hne
      decide
    · rw [splitOn_joined hne (fun c hc => (h c hc).2), List.foldl_cons]
      have hskip : pushComponent [] [] = [] := rfl
      rw [hskip, foldl_pushComponent_of_kept [] (fun c hc => (h c hc).1), List.append_nil,
        List.reverse_reverse]
  unfold normalizeDecodedPath
  rw [if_neg (fun hc => hnull (List.contains_iff_mem.mp hc))]
  simp only [hstack]
  rw [if_neg (by simp)]

/-- The two phases of a successful normalization. -/
theorem normalizePathBounded_ok {raw p : String} {m : Nat}
    (h : normalizePathBounded raw m = .ok p) :
    ∃ cs normalized, Decoded cs ∧ normalizeDecodedPath cs = .ok normalized ∧
      p = String.ofList normalized := by
  unfold normalizePathBounded at h
  split at h
  · cases h
  cases hloop : decodeLoop m m raw.toList with
  | error e => rw [hloop] at h; cases h
  | ok cs =>
    cases hnorm : normalizeDecodedPath cs with
    | error e => rw [hloop] at h; simp only [bind, Except.bind, hnorm] at h; cases h
    | ok normalized =>
      rw [hloop] at h
      simp only [bind, Except.bind, hnorm] at h
      exact ⟨cs, normalized, decoded_of_decodeLoop hloop, hnorm, (Except.ok.inj h).symm⟩

/-- **Normalization is sound and idempotent.** Whatever comes out is canonical, and comes out again
    when it is normalized under any iteration limit. -/
theorem normalized_path_canonical (raw : String) (m : Nat) (p : String)
    (h : normalizePathBounded raw m = .ok p) :
    Canonical p ∧ ∀ m', normalizePathBounded p m' = .ok p := by
  obtain ⟨cs, normalized, hcs, hnorm, rfl⟩ := normalizePathBounded_ok h
  obtain ⟨components, rfl, hcomp⟩ := normalizeDecodedPath_components hnorm
  have hdecoded := decoded_joined hcs fun c hc => (hcomp c hc).2.2
  refine ⟨⟨?_, ?_, ?_, ?_, ?_⟩, fun m' => ?_⟩
  · rw [String.toList_ofList]
    rfl
  · by_cases hne : components = []
    · subst hne
      exact .inl rfl
    · right
      rw [String.toList_ofList, List.tail_cons,
        List.splitOn_intercalate '/' (fun c hc => (hcomp c hc).2.1) hne]
      exact fun c hc => (hcomp c hc).1
  · rw [String.toList_ofList]
    exact hdecoded.noNull
  · rw [String.toList_ofList]
    exact hdecoded.noBackslash
  · rw [String.toList_ofList]
    exact hdecoded.noEscape
  · unfold normalizePathBounded
    have hnull : hasNull (String.ofList ('/' :: ['/'].intercalate components)) = false := by
      rw [hasNull, String.toList_ofList]
      exact Bool.eq_false_iff.mpr fun hc => hdecoded.noNull (List.contains_iff_mem.mp hc)
    rw [hnull, if_neg (by decide), String.toList_ofList, decodeLoop_of_decoded m' m' hdecoded]
    simp only [bind, Except.bind]
    rw [normalizeDecodedPath_joined hdecoded.noNull
      (fun c hc => ⟨(hcomp c hc).1, (hcomp c hc).2.1⟩)]

theorem normalized_path_canonical_nested_escape :
    normalizePathBounded "/srv/%252e%252e\\etc/./passwd" 5 = .ok "/etc/passwd" ∧
      ∀ m', normalizePathBounded "/etc/passwd" m' = .ok "/etc/passwd" := by
  have h : normalizePathBounded "/srv/%252e%252e\\etc/./passwd" 5 = .ok "/etc/passwd" := by
    decide +kernel
  exact ⟨h, (normalized_path_canonical _ 5 _ h).2⟩

end Vellaveto.Path
