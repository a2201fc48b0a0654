/-
  WHAT A REPLACEMENT EXPOSES.

  Where keys are replaced in a text one after the other, a later key can be one that was not in the text
  at first: the value of an earlier key has brought it in, or has made it together with the letters
  around it.

    1. `Completes v k`           the ways in which a value `v` can make the word `k` appear;
    2. `infix_replaceAll`        a word that a replacement makes appear is completed by the value;
    3. `infix_of_mem_replaced`   so if no value completes another key, only keys of the text itself
                                 are replaced, in whatever order the keys come.

  The way back is for keys in BRACKETS, `Delimited a b`: with what such a key has before and behind the
  value, a text can be made in which the value completes it (`Completes.around`), and in that text
  nothing else is a key (`only_delimited`, `replaceAll_around`).
-/
import Vellaveto.Lib.Replace

namespace Vellaveto.Lib

variable {α : Type*} [DecidableEq α]

/-- The keys that are found when each is replaced by its value, one after the other. -/
def replaced : List (List α × List α) → List α → List (List α)
  | [], _ => []
  | e :: es, text =>
    let rest := replaced es (replaceAll e.1 e.2 text)
    if e.1 <:+: text then e.1 :: rest else rest

theorem mem_of_mem_replaced {entries : List (List α × List α)} {text key : List α}
    (h : key ∈ replaced entries text) : ∃ e ∈ entries, e.1 = key := by
  induction entries generalizing text with
  | nil => cases h
  | cons e es ih =>
    have hlater : key ∈ replaced es (replaceAll e.1 e.2 text) → ∃ e' ∈ e :: es, e'.1 = key := by
      intro hrest
      obtain ⟨e', he', hkey⟩ := ih hrest
      exact ⟨e', List.mem_cons_of_mem e he', hkey⟩
    simp only [replaced] at h
    split at h
    · rcases List.mem_cons.mp h with rfl | hrest
      · exact ⟨e, List.mem_cons_self, rfl⟩
      · exact hlater hrest
    · exact hlater h

omit [DecidableEq α] in
/-- How a value can make a word appear: it contains it, it has the start or the end of it, or it fills
    the gap in the middle of it. -/
inductive Completes (v k : List α) : Prop where
  | inside (h : k <:+: v)
  | starts (w y : List α) (hw : w ≠ []) (hv : w <:+ v) (hk : k = w ++ y)
  | ends (x w : List α) (hw : w ≠ []) (hv : w <+: v) (hk : k = x ++ w)
  | fills (x y : List α) (hx : x ≠ []) (hy : y ≠ []) (hk : k = x ++ (v ++ y))

section Replacement

variable {src dst k : List α}

omit [DecidableEq α] in
/-- A prefix ends in the first part, or runs on into the second. -/
theorem prefix_append_cases {w u v : List α} (h : w <+: u ++ v) :
    w <+: u ∨ ∃ r, r ≠ [] ∧ w = u ++ r ∧ r <+: v := by
  rcases Nat.lt_or_ge u.length w.length with hlong | hshort
  · obtain ⟨r, rfl, hr⟩ := exists_prefix_of_append h (Nat.le_of_lt hlong)
    refine .inr ⟨r, ?_, rfl, hr⟩
    rintro rfl
    rw [List.append_nil] at hlong
    exact Nat.lt_irrefl _ hlong
  · exact .inl (List.prefix_of_prefix_length_le h (List.prefix_append u v) hshort)

omit [DecidableEq α] in
/-- A word that starts before the value. -/
theorem prefix_before {u rest : List α} (hu : u ≠ []) (h : k <+: u ++ (dst ++ rest)) :
    Completes dst k ∨ k <+: u := by
  rcases prefix_append_cases h with hstart | ⟨r, hr, rfl, hrest⟩
  · exact .inr hstart
  · rcases prefix_append_cases hrest with hdst | ⟨y, hy, rfl, -⟩
    · exact .inl (.ends u r hr hdst rfl)
    · exact .inl (.fills u y hu hy rfl)

omit [DecidableEq α] in
/-- A word that starts in the value or behind it. -/
theorem infix_behind {rest : List α} (h : k <:+: dst ++ rest) : Completes dst k ∨ k <:+: rest := by
  obtain ⟨s, t, hst⟩ := h
  rw [List.append_assoc] at hst
  rcases List.append_eq_append_iff.mp hst with ⟨w, rfl, hw⟩ | ⟨s', rfl, hs'⟩
  · rcases prefix_append_cases ⟨t, hw⟩ with hstart | ⟨y, hy, rfl, hyrest⟩
    · exact .inl (.inside (hstart.isInfix.trans (List.suffix_append s w).isInfix))
    · by_cases hnil : w = []
      · subst hnil
        exact .inr hyrest.isInfix
      · exact .inl (.starts w y hnil (List.suffix_append s w) rfl)
  · exact .inr ⟨s', t, by rw [hs', List.append_assoc]⟩

/-- The induction over the text, for a word that starts in the part that is kept. -/
theorem prefix_replaceFrom {u : List α} (hu : u ≠ []) {skip : Nat} {text : List α}
    (h : k <+: u ++ replaceFrom src dst skip text) :
    Completes dst k ∨ k <+: u ++ text.drop skip := by
  induction text generalizing u skip with
  | nil =>
    rw [replaceFrom, List.append_nil] at h
    exact .inr (h.trans (List.prefix_append u _))
  | cons c text ih =>
    cases skip with
    | succ skip => exact ih hu h
    | zero =>
      rw [replaceFrom] at h
      split at h
      · rcases prefix_before hu h with hcompletes | hstart
        · exact .inl hcompletes
        · exact .inr (hstart.trans (List.prefix_append u _))
      · rw [List.append_cons] at h
        rcases ih (List.append_ne_nil_of_right_ne_nil u (List.cons_ne_nil c [])) h with
          hcompletes | hstart
        · exact .inl hcompletes
        · rw [← List.append_cons] at hstart
          exact .inr hstart

/-- The same, for a word that starts anywhere. -/
theorem infix_replaceFrom (hk : k ≠ []) {skip : Nat} {text : List α}
    (h : k <:+: replaceFrom src dst skip text) : Completes dst k ∨ k <:+: text := by
  induction text generalizing skip with
  | nil =>
    rw [replaceFrom] at h
    exact absurd (List.eq_nil_of_infix_nil h) hk
  | cons c text ih =>
    have hlater : k <:+: text → k <:+: c :: text := fun hmem => List.infix_cons hmem
    cases skip with
    | succ skip => exact (ih h).imp_right hlater
    | zero =>
      rw [replaceFrom] at h
      split at h
      · rcases infix_behind h with hcompletes | hrest
        · exact .inl hcompletes
        · exact (ih hrest).imp_right hlater
      · rcases List.infix_cons_iff.mp h with hstart | hrest
        · have hone : k <+: [c] ++ replaceFrom src dst 0 text := hstart
          exact (prefix_replaceFrom (List.cons_ne_nil c []) hone).imp_right List.IsPrefix.isInfix
        · exact (ih hrest).imp_right hlater

/-- **A word that a replacement makes appear is completed by the value.** -/
theorem infix_replaceAll (hsrc : src ≠ []) (hk : k ≠ []) {text : List α}
    (h : k <:+: replaceAll src dst text) : Completes dst k ∨ k <:+: text := by
  rw [replaceAll, if_neg hsrc] at h
  exact infix_replaceFrom hk h

/-- Where the key does not occur, nothing is replaced. -/
theorem replaceAll_eq_self (hsrc : src ≠ []) {text : List α} (h : ¬ src <:+: text) :
    replaceAll src dst text = text := by
  have hnone : ∀ i, i < text.length → ¬ src <+: text.drop i ++ [] := by
    intro i _ hstart
    rw [List.append_nil] at hstart
    exact h (hstart.isInfix.trans (List.drop_suffix i text).isInfix)
  have hkept := replaceAll_append hsrc dst hnone
  rw [List.append_nil] at hkept
  rw [hkept, replaceAll, if_neg hsrc, replaceFrom, List.append_nil]

end Replacement

/-- **Only keys of the text are replaced**, if no key of the text has a value that completes another key. -/
theorem infix_of_mem_replaced {entries : List (List α × List α)} {input text : List α}
    (hkeys : ∀ e ∈ entries, e.1 ≠ []) (hnodup : (entries.map Prod.fst).Nodup)
    (hvalues : ∀ e ∈ entries, e.1 <:+: input → ∀ e' ∈ entries, e'.1 ≠ e.1 → ¬ Completes e.2 e'.1)
    (htext : ∀ e ∈ entries, e.1 <:+: text → e.1 <:+: input) :
    ∀ key ∈ replaced entries text, key <:+: input := by
  induction entries generalizing text with
  | nil =>
    intro key hkey
    cases hkey
  | cons e es ih =>
    obtain ⟨hfresh, hnodup⟩ := List.nodup_cons.mp hnodup
    have hrest : ∀ key ∈ replaced es (replaceAll e.1 e.2 text), key <:+: input := by
      refine ih (fun e' he' => hkeys e' (List.mem_cons_of_mem e he')) hnodup ?_ ?_
      · intro e' he' hinput e'' he''
        exact hvalues e' (List.mem_cons_of_mem e he') hinput e'' (List.mem_cons_of_mem e he'')
      · intro e' he' hoccurs
        refine htext e' (List.mem_cons_of_mem e he') ?_
        by_cases hocc : e.1 <:+: text
        · -- the value of a key of the text completes no other key
          have hne : e'.1 ≠ e.1 := fun heq => hfresh (heq ▸ List.mem_map_of_mem he')
          have hinput := htext e List.mem_cons_self hocc
          have hnot := hvalues e List.mem_cons_self hinput e' (List.mem_cons_of_mem e he') hne
          exact (infix_replaceAll (hkeys e List.mem_cons_self)
            (hkeys e' (List.mem_cons_of_mem e he')) hoccurs).resolve_left hnot
        · rwa [replaceAll_eq_self (hkeys e List.mem_cons_self) hocc] at hoccurs
    intro key hkey
    simp only [replaced] at hkey
    split at hkey
    · rename_i hocc
      rcases List.mem_cons.mp hkey with rfl | hkey
      · exact htext e List.mem_cons_self hocc
      · exact hrest key hkey
    · exact hrest key hkey

/-! ## Keys in brackets -/

/-- A word that opens with `a`, closes with `b` and has neither inside. -/
def Delimited (a b : α) (k : List α) : Prop :=
  ∃ body, k = a :: (body ++ [b]) ∧ a ∉ body ∧ b ∉ body

/-- Nothing, or the beginning of a word in brackets. -/
def Opening (a b : α) (x : List α) : Prop := x = [] ∨ ∃ x', x = a :: x' ∧ a ∉ x' ∧ b ∉ x'

section Brackets

variable {a b : α} {k c v w x y : List α}

omit [DecidableEq α]

theorem notMem_closed {body : List α} (ha : a ∉ body) (hab : a ≠ b) : a ∉ body ++ [b] := by
  rw [List.mem_append, List.mem_singleton]
  exact fun h => h.elim ha hab

theorem Delimited.opening (h : Delimited a b (x ++ w)) (hw : w ≠ []) : Opening a b x := by
  obtain ⟨body, hbody, ha, hb⟩ := h
  cases x with
  | nil => exact .inl rfl
  | cons d x =>
    rw [List.cons_append] at hbody
    obtain ⟨rfl, htail⟩ := List.cons.inj hbody
    have hdrop := congrArg List.dropLast htail
    rw [List.dropLast_append_of_ne_nil hw, List.dropLast_concat] at hdrop
    rw [← hdrop] at ha hb
    refine .inr ⟨x, rfl, ?_, ?_⟩
    · exact fun hmem => ha (List.mem_append_left _ hmem)
    · exact fun hmem => hb (List.mem_append_left _ hmem)

theorem Delimited.notMem_behind (h : Delimited a b (w ++ y)) (hab : a ≠ b) (hw : w ≠ []) :
    a ∉ y := by
  obtain ⟨body, hbody, ha, -⟩ := h
  obtain ⟨d, w, rfl⟩ := List.exists_cons_of_ne_nil hw
  rw [List.cons_append] at hbody
  obtain ⟨rfl, htail⟩ := List.cons.inj hbody
  intro hmem
  exact notMem_closed ha hab (htail ▸ List.mem_append_right w hmem)

/-- A value that completes a key in brackets does so in a text with no other bracket that opens and
    closes. -/
theorem Completes.around (h : Completes v k) (hk : Delimited a b k) (hab : a ≠ b) :
    ∃ x y, Opening a b x ∧ a ∉ y ∧ k <:+: x ++ (v ++ y) := by
  cases h with
  | inside h =>
    refine ⟨[], [], .inl rfl, List.not_mem_nil, ?_⟩
    rwa [List.nil_append, List.append_nil]
  | starts w y hw hv heq =>
    subst heq
    refine ⟨[], y, .inl rfl, hk.notMem_behind hab hw, ?_⟩
    obtain ⟨p, rfl⟩ := hv
    rw [List.nil_append, List.append_assoc]
    exact (List.suffix_append p (w ++ y)).isInfix
  | ends x w hw hv heq =>
    subst heq
    refine ⟨x, [], hk.opening hw, List.not_mem_nil, ?_⟩
    obtain ⟨r, rfl⟩ := hv
    rw [List.append_nil, ← List.append_assoc]
    exact (List.prefix_append (x ++ w) r).isInfix
  | fills x y hx hy heq =>
    subst heq
    have hwhole : Delimited a b ((x ++ v) ++ y) := by rwa [List.append_assoc]
    refine ⟨x, y, hk.opening (List.append_ne_nil_of_right_ne_nil v hy), ?_, List.infix_refl _⟩
    exact hwhole.notMem_behind hab (List.append_ne_nil_of_left_ne_nil hx v)

/-- A value without brackets, and with a letter that the key does not have, does not complete it. -/
theorem not_completes_of_letter (hk : Delimited a b k) (ha : a ∉ v) (hb : b ∉ v) {c : α} (hc : c ∈ v)
    (hck : c ∉ k) : ¬ Completes v k := by
  obtain ⟨body, rfl, -, -⟩ := hk
  intro h
  cases h with
  | inside h => exact ha (h.subset List.mem_cons_self)
  | starts w y hw hv heq =>
    obtain ⟨d, w, rfl⟩ := List.exists_cons_of_ne_nil hw
    rw [List.cons_append] at heq
    rw [(List.cons.inj heq).1] at ha
    exact ha (hv.subset List.mem_cons_self)
  | ends x w hw hv heq =>
    have hlast := congrArg List.getLast? heq
    rw [List.getLast?_append_of_ne_nil _ hw, ← List.cons_append, List.getLast?_concat] at hlast
    exact hb (hv.subset (List.mem_of_getLast? hlast.symm))
  | fills x y _ _ heq =>
    rw [heq] at hck
    exact hck (List.mem_append_right x (List.mem_append_left y hc))

/-- A bracket that opens and is followed by another one that opens does not start a word. -/
theorem Opening.not_prefix (hx : Opening a b x) (hne : x ≠ []) (hab : a ≠ b)
    (hc : Delimited a b c) (hw : Delimited a b w) : ¬ w <+: x ++ (c ++ y) := by
  obtain ⟨x, rfl, hxa, hxb⟩ := hx.resolve_left hne
  obtain ⟨cbody, rfl, -, -⟩ := hc
  obtain ⟨wbody, rfl, hwa, -⟩ := hw
  intro hstart
  rw [List.cons_append, List.cons_prefix_cons] at hstart
  rcases prefix_append_cases hstart.2 with hinside | ⟨r, hr, heq, hrest⟩
  · exact hxb (hinside.subset (List.mem_append_right wbody (List.mem_singleton_self b)))
  · -- what runs on starts with the second bracket that opens
    obtain ⟨d, r, rfl⟩ := List.exists_cons_of_ne_nil hr
    rw [List.cons_append, List.cons_prefix_cons] at hrest
    have hmem : d ∈ wbody ++ [b] := heq ▸ List.mem_append_right x List.mem_cons_self
    rw [hrest.1] at hmem
    exact notMem_closed hwa hab hmem

/-- In that text the key in the place of the value is the only word in brackets. -/
theorem only_delimited (hab : a ≠ b) (hc : Delimited a b c) (hw : Delimited a b w)
    (hx : Opening a b x) (hy : a ∉ y) {s t : List α} (h : s ++ (w ++ t) = x ++ (c ++ y)) :
    s = x ∧ w = c := by
  have hfirst : ∀ {t : List α}, w ++ t = c ++ y → w = c := by
    intro t heq
    have hfree : OverlapFree (Delimited a b) := overlapFree_of_delimited (fun _ hk => hk) hab
    have hpos : 0 < c.length := by
      obtain ⟨body, rfl, -⟩ := hc
      exact Nat.succ_pos _
    have hstart : w <+: c ++ y := ⟨t, heq⟩
    exact (hfree w c hw hc 0 hpos
      (List.prefix_or_prefix_of_prefix hstart (List.prefix_append c y))).2
  rcases List.append_eq_append_iff.mp h with ⟨x', hx', hrest⟩ | ⟨s', rfl, hrest⟩
  · cases x' with
    | nil =>
      rw [List.append_nil] at hx'
      exact ⟨hx'.symm, hfirst hrest⟩
    | cons d x' =>
      exfalso
      cases s with
      | nil => exact hx.not_prefix (hx' ▸ List.cons_ne_nil d x') hab hc hw ⟨t, h⟩
      | cons e s =>
        -- the word starts at a second bracket that opens
        obtain ⟨wbody, rfl, -⟩ := hw
        obtain ⟨rfl, -⟩ := List.cons.inj hrest
        rcases hx with hnil | ⟨r, hr, hra, -⟩
        · rw [hnil] at hx'
          cases hx'
        · rw [hr, List.cons_append] at hx'
          rw [(List.cons.inj hx').2] at hra
          exact hra (List.mem_append_right s List.mem_cons_self)
  · cases s' with
    | nil =>
      rw [List.append_nil]
      exact ⟨rfl, hfirst hrest.symm⟩
    | cons d s' =>
      -- behind its first letter there is none that opens
      exfalso
      obtain ⟨wbody, rfl, -⟩ := hw
      obtain ⟨cbody, rfl, hca, -⟩ := hc
      rw [List.cons_append, List.cons_append] at hrest
      have hmem : a ∈ cbody ++ [b] ++ y := by
        rw [(List.cons.inj hrest).2]
        exact List.mem_append_right s' List.mem_cons_self
      rcases List.mem_append.mp hmem with hin | hin
      · exact notMem_closed hca hab hin
      · exact hy hin

/-- There the replacement of the key puts the value in its place. -/
theorem replaceAll_around [DecidableEq α] (hab : a ≠ b) (hc : Delimited a b c)
    (hx : Opening a b x) (hy : a ∉ y) :
    replaceAll c v (x ++ (c ++ y)) = x ++ (v ++ y) := by
  have hne : c ≠ [] := by
    obtain ⟨body, rfl, -⟩ := hc
    exact List.cons_ne_nil a _
  have hbefore : ∀ i, i < x.length → ¬ c <+: x.drop i ++ (c ++ y) := by
    rintro i hi ⟨t, ht⟩
    have hsplit : x.take i ++ (c ++ t) = x ++ (c ++ y) := by
      rw [ht, ← List.append_assoc, List.take_append_drop]
    have htake := congrArg List.length (only_delimited hab hc hc hx hy hsplit).1
    rw [List.length_take] at htake
    omega
  have hbehind : ¬ c <:+: y := by
    obtain ⟨body, rfl, -⟩ := hc
    exact fun hoccurs => hy (hoccurs.subset List.mem_cons_self)
  rw [replaceAll_append hne v hbefore, replaceAll_self_append hne, replaceAll_eq_self hne hbehind]

end Brackets

end Vellaveto.Lib
