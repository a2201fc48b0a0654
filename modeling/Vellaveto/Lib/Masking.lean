/-
  MASKING: words of a text are replaced by keys, pair after pair, and the keys by the words again.

  A masked text is a list of TOKENS: letters of the original text, and marks where a key stands for a word.
  Both directions are global replacements, so a replacement can also hit a place that is no word of the
  original text or no key that was put there.  `Hides` and `Restores` describe passes that do not:

  1. one pass is what `replaceAll` does to the text that is shown (`Hides.replaceAll_shown`,
     `Restores.replaceAll_shown`);

  2. passes one after another, in both directions, give the original text back (`restore_hide`); for a single
     pair this is also necessary (`restore_hide_iff`);

  3. the word shows up again in the masked text exactly if it does in a part between two marks, with the keys
     at its ends (`infix_shown_iff`).
-/
import Vellaveto.Lib.Replace

namespace Vellaveto.Lib.Masking

variable {α : Type*}

/-- A word and the key that stands for it. -/
structure MaskPair (α : Type*) where
  word : List α
  key : List α
deriving DecidableEq

/-- A letter of the original text, or a key that was put there. -/
inductive Token (α : Type*) where
  | letter (c : α)
  | mark (pair : MaskPair α)

namespace Token

/-- What the masked text shows. -/
def shown : Token α → List α
  | letter c => [c]
  | mark pair => pair.key

/-- What the original text had there. -/
def original : Token α → List α
  | letter c => [c]
  | mark pair => pair.word

end Token

def shown (ts : List (Token α)) : List α := ts.flatMap (·.shown)

def original (ts : List (Token α)) : List α := ts.flatMap (·.original)

/-- A text without marks. -/
def letters (text : List α) : List (Token α) := text.map .letter

section Tokens

@[simp] theorem shown_nil : shown ([] : List (Token α)) = [] := rfl

@[simp] theorem shown_cons (t : Token α) (ts : List (Token α)) : shown (t :: ts) = t.shown ++ shown ts := rfl

@[simp] theorem original_cons (t : Token α) (ts : List (Token α)) :
    original (t :: ts) = t.original ++ original ts := rfl

theorem shown_append (ts us : List (Token α)) : shown (ts ++ us) = shown ts ++ shown us := List.flatMap_append

theorem original_append (ts us : List (Token α)) : original (ts ++ us) = original ts ++ original us :=
  List.flatMap_append

theorem shown_letters (text : List α) : shown (letters text) = text := by
  induction text with
  | nil => rfl
  | cons c text ih => exact congrArg (c :: ·) ih

theorem original_letters (text : List α) : original (letters text) = text := by
  induction text with
  | nil => rfl
  | cons c text ih => exact congrArg (c :: ·) ih

/-- Without marks, the original is shown. -/
theorem shown_eq_original {ts : List (Token α)} (h : ∀ pair, .mark pair ∉ ts) : shown ts = original ts := by
  induction ts with
  | nil => rfl
  | cons t ts ih =>
    have ih := ih fun pair hmem => h pair (List.mem_cons_of_mem t hmem)
    cases t with
    | letter c => exact congrArg (c :: ·) ih
    | mark pair => exact absurd List.mem_cons_self (h pair)

theorem mark_notMem_letters (pair : MaskPair α) (text : List α) : .mark pair ∉ letters text := by
  simp [letters]

end Tokens

/-! ## Passes that join nothing -/

/-- No occurrence of `w` starts in the token. -/
def StartsNowhere (w : List α) (t : Token α) (ts : List (Token α)) : Prop :=
  ∀ i, i < t.shown.length → ¬ w <+: t.shown.drop i ++ shown ts

/-- A pass that exchanges the tokens `before`, which show `find`, for `after`: every occurrence of `find` that it
    meets is shown by such tokens. -/
inductive Pass (find : List α) (before after : List (Token α)) : List (Token α) → List (Token α) → Prop where
  | nil : Pass find before after [] []
  | hit {ts ts' : List (Token α)} (h : Pass find before after ts ts') :
    Pass find before after (before ++ ts) (after ++ ts')
  | miss {t : Token α} {ts ts' : List (Token α)} (hno : StartsNowhere find t ts)
    (h : Pass find before after ts ts') : Pass find before after (t :: ts) (t :: ts')

/-- The pass that hides a word: every occurrence that it meets is made of letters of the original text. -/
def Hides (e : MaskPair α) : List (Token α) → List (Token α) → Prop := Pass e.word (letters e.word) [.mark e]

/-- The pass that restores a word: every occurrence of the key that it meets is one that was put there. -/
def Restores (e : MaskPair α) : List (Token α) → List (Token α) → Prop := Pass e.key [.mark e] (letters e.word)

/-- One pass after another. -/
inductive Passes (pass : MaskPair α → List (Token α) → List (Token α) → Prop) :
    List (MaskPair α) → List (Token α) → List (Token α) → Prop where
  | nil (ts : List (Token α)) : Passes pass [] ts ts
  | cons {e : MaskPair α} {es : List (MaskPair α)} {ts us vs : List (Token α)} (h : pass e ts us)
    (hs : Passes pass es us vs) : Passes pass (e :: es) ts vs

/-- **No pass joins a key with its surroundings**, neither on the way out nor on the way back. -/
def JoinFree (es : List (MaskPair α)) (text : List α) : Prop :=
  ∃ hidden restored, Passes Hides es (letters text) hidden ∧ Passes Restores es hidden restored

section Pass

variable {e f : MaskPair α} {es : List (MaskPair α)} {find : List α} {before after ts ts' : List (Token α)}

/-- What is shown is replaced. -/
theorem Pass.replaceAll_shown [DecidableEq α] (h : Pass find before after ts ts') (hbefore : shown before = find)
    (hfind : find ≠ []) : replaceAll find (shown after) (shown ts) = shown ts' := by
  induction h with
  | nil => simp [replaceAll, hfind, replaceFrom]
  | hit _ ih => rw [shown_append, hbefore, replaceAll_self_append hfind, ih, shown_append]
  | @miss t ts ts' hno _ ih =>
    have hmiss : replaceAll find (shown after) (t.shown ++ shown ts) =
        t.shown ++ replaceAll find (shown after) (shown ts) := replaceAll_append hfind _ hno
    rw [shown_cons, hmiss, ih, shown_cons]

/-- What the text came from stays. -/
theorem Pass.original_eq (h : Pass find before after ts ts') (hsame : original after = original before) :
    original ts' = original ts := by
  induction h with
  | nil => rfl
  | hit _ ih => rw [original_append, original_append, hsame, ih]
  | miss _ _ ih => rw [original_cons, original_cons, ih]

theorem Pass.mem (h : Pass find before after ts ts') {t : Token α} (ht : t ∈ ts') : t ∈ after ∨ t ∈ ts := by
  induction h with
  | nil => cases ht
  | hit _ ih =>
    rcases List.mem_append.mp ht with ht | ht
    · exact Or.inl ht
    · exact (ih ht).imp_right (List.mem_append_right _)
  | miss _ _ ih =>
    rcases List.mem_cons.mp ht with ht | ht
    · exact Or.inr (List.mem_cons.mpr (Or.inl ht))
    · exact (ih ht).imp_right (List.mem_cons_of_mem _)

/-- Restoring leaves no mark of its own pair. -/
theorem Restores.mark_notMem (h : Restores e ts ts') (hkey : e.key ≠ []) : .mark e ∉ ts' := by
  unfold Restores at h
  induction h with
  | nil => exact List.not_mem_nil
  | hit _ ih =>
    rw [List.mem_append]
    rintro (hmem | hmem)
    · exact mark_notMem_letters e e.word hmem
    · exact ih hmem
  | @miss t ts ts' hno _ ih =>
    rw [List.mem_cons]
    rintro (rfl | hmem)
    · exact hno 0 (List.length_pos_iff.mpr hkey) (List.prefix_append e.key (shown ts))
    · exact ih hmem

/-! ## All passes -/

section Runs

variable {hidden restored : List (Token α)}

/-- Hiding pair after pair. -/
theorem hides_run [DecidableEq α] (h : Passes Hides es ts ts') (hwords : ∀ e ∈ es, e.word ≠ []) :
    es.foldl (fun text e => replaceAll e.word e.key text) (shown ts) = shown ts' ∧
      original ts' = original ts ∧ ∀ f, .mark f ∈ ts' → f ∈ es ∨ .mark f ∈ ts := by
  induction h with
  | nil ts => exact ⟨rfl, rfl, fun f hf => Or.inr hf⟩
  | @cons e es ts us vs h _ ih =>
    rw [List.forall_mem_cons] at hwords
    obtain ⟨hshown, horiginal, hmarks⟩ := ih hwords.2
    have hstep := h.replaceAll_shown (shown_letters e.word) hwords.1
    have hkey : shown [Token.mark e] = e.key := List.append_nil e.key
    rw [hkey] at hstep
    refine ⟨?_, ?_, fun f hf => ?_⟩
    · rw [List.foldl_cons, hstep, hshown]
    · rw [horiginal, h.original_eq]
      rw [original_letters]
      exact List.append_nil e.word
    · rcases hmarks f hf with hf | hf
      · exact Or.inl (List.mem_cons_of_mem e hf)
      · rcases h.mem hf with hf | hf
        · cases List.mem_singleton.mp hf
          exact Or.inl List.mem_cons_self
        · exact Or.inr hf

/-- Restoring pair after pair. -/
theorem restores_run [DecidableEq α] (h : Passes Restores es ts ts') (hkeys : ∀ e ∈ es, e.key ≠ []) :
    es.foldl (fun text e => replaceAll e.key e.word text) (shown ts) = shown ts' ∧
      original ts' = original ts ∧ ∀ f, .mark f ∈ ts' → f ∉ es ∧ .mark f ∈ ts := by
  induction h with
  | nil ts => exact ⟨rfl, rfl, fun f hf => ⟨List.not_mem_nil, hf⟩⟩
  | @cons e es ts us vs h _ ih =>
    rw [List.forall_mem_cons] at hkeys
    obtain ⟨hshown, horiginal, hmarks⟩ := ih hkeys.2
    have hstep := h.replaceAll_shown (List.append_nil e.key) hkeys.1
    rw [shown_letters] at hstep
    refine ⟨?_, ?_, fun f hf => ?_⟩
    · rw [List.foldl_cons, hstep, hshown]
    · rw [horiginal, h.original_eq]
      rw [original_letters]
      exact (List.append_nil e.word).symm
    · obtain ⟨hfes, hfus⟩ := hmarks f hf
      refine ⟨?_, ?_⟩
      · rw [List.mem_cons]
        rintro (rfl | hmem)
        · exact h.mark_notMem hkeys.1 hfus
        · exact hfes hmem
      · exact (h.mem hfus).resolve_left (mark_notMem_letters f e.word)

end Runs

/-- **There and back**: passes that join nothing give the original text back. -/
theorem restore_hide [DecidableEq α] {text : List α} (hwords : ∀ e ∈ es, e.word ≠ [])
    (hkeys : ∀ e ∈ es, e.key ≠ []) (h : JoinFree es text) :
    es.foldl (fun text e => replaceAll e.key e.word text)
      (es.foldl (fun text e => replaceAll e.word e.key text) text) = text := by
  obtain ⟨hidden, restored, hout, hback⟩ := h
  obtain ⟨hshown, horiginal, hmarks⟩ := hides_run hout hwords
  obtain ⟨hshown', horiginal', hmarks'⟩ := restores_run hback hkeys
  rw [shown_letters] at hshown
  rw [hshown, hshown', shown_eq_original, horiginal', horiginal, original_letters]
  intro f hf
  obtain ⟨hnot, hmem⟩ := hmarks' f hf
  rcases hmarks f hmem with hin | hin
  · exact hnot hin
  · exact mark_notMem_letters f text hin

/-! ## One pair -/

/-- The first pass joins nothing: there are no keys yet. -/
theorem exists_hides (hword : e.word ≠ []) (text : List α) : ∃ hidden, Hides e (letters text) hidden := by
  classical
  induction hn : text.length using Nat.strong_induction_on generalizing text with
  | _ n ih =>
    cases text with
    | nil => exact ⟨[], .nil⟩
    | cons c text =>
      by_cases hstart : e.word <+: c :: text
      · obtain ⟨rest, hrest⟩ := hstart
        have hlen : rest.length < n := by
          have := congrArg List.length hrest
          have hpos := List.length_pos_iff.mpr hword
          rw [List.length_append] at this
          omega
        obtain ⟨hidden, h⟩ := ih rest.length hlen rest rfl
        refine ⟨[.mark e] ++ hidden, ?_⟩
        rw [← hrest, letters, List.map_append]
        exact Pass.hit h
      · have hlen : text.length < n := by
          rw [List.length_cons] at hn
          omega
        obtain ⟨hidden, h⟩ := ih text.length hlen text rfl
        refine ⟨.letter c :: hidden, .miss (fun i hi => ?_) h⟩
        obtain rfl : i = 0 := Nat.lt_one_iff.mp hi
        show ¬ e.word <+: [c] ++ shown (letters text)
        rwa [shown_letters]

/-- A text that comes back was restored at the keys that were put there. -/
theorem exists_restores [DecidableEq α] (hkey : e.key ≠ []) (h : Hides e ts ts')
    (hletters : ∀ f, .mark f ∉ ts) (hback : replaceAll e.key e.word (shown ts') = shown ts) :
    ∃ restored, Restores e ts' restored := by
  unfold Hides at h
  induction h with
  | nil => exact ⟨[], .nil⟩
  | @hit ts ts' _ ih =>
    have hback : replaceAll e.key e.word (e.key ++ shown ts') = shown (letters e.word ++ ts) := hback
    rw [replaceAll_self_append hkey, shown_append, shown_letters] at hback
    obtain ⟨restored, hr⟩ := ih (fun f hf => hletters f (List.mem_append_right _ hf))
      (List.append_cancel_left hback)
    exact ⟨letters e.word ++ restored, .hit hr⟩
  | @miss t ts ts' hno _ ih =>
    cases t with
    | mark f => exact absurd List.mem_cons_self (hletters f)
    | letter c =>
      have hback : replaceAll e.key e.word (c :: shown ts') = c :: shown ts := hback
      by_cases hstart : e.key <+: c :: shown ts'
      · -- the word would come back where the text had none
        exfalso
        obtain ⟨rest, hrest⟩ := hstart
        rw [← hrest, replaceAll_self_append hkey] at hback
        refine hno 0 Nat.zero_lt_one ?_
        exact ⟨replaceAll e.key e.word rest, hback⟩
      · have hno' : StartsNowhere e.key (.letter c) ts' := by
          intro i hi
          obtain rfl : i = 0 := Nat.lt_one_iff.mp hi
          exact hstart
        have hmiss : replaceAll e.key e.word ([c] ++ shown ts') = [c] ++ replaceAll e.key e.word (shown ts') :=
          replaceAll_append hkey _ hno'
        obtain ⟨restored, hr⟩ := ih (fun f hf => hletters f (List.mem_cons_of_mem _ hf))
          (List.cons.inj (hmiss.symm.trans hback)).2
        exact ⟨.letter c :: restored, .miss hno' hr⟩

/-- **A single pair** comes back exactly if nothing is joined. -/
theorem restore_hide_iff [DecidableEq α] (hword : e.word ≠ []) (hkey : e.key ≠ []) {text : List α} :
    replaceAll e.key e.word (replaceAll e.word e.key text) = text ↔ JoinFree [e] text := by
  constructor
  · intro hback
    obtain ⟨hidden, hout⟩ := exists_hides hword text
    have hshown := (hides_run (.cons hout (.nil hidden)) (List.forall_mem_singleton.mpr hword)).1
    rw [shown_letters, List.foldl_cons, List.foldl_nil] at hshown
    rw [hshown] at hback
    obtain ⟨restored, hr⟩ := exists_restores hkey hout (fun f => mark_notMem_letters f text)
      (hback.trans (shown_letters text).symm)
    exact ⟨hidden, restored, .cons hout (.nil hidden), .cons hr (.nil restored)⟩
  · intro h
    exact restore_hide (List.forall_mem_singleton.mpr hword) (List.forall_mem_singleton.mpr hkey) h

/-! ## What a masked text shows of the word -/

/-- The parts between the marks, each with the keys at its ends; `current` is the part so far. -/
def windows (current : List α) : List (Token α) → List (List α)
  | [] => [current]
  | .letter c :: ts => windows (current ++ [c]) ts
  | .mark e :: ts => (current ++ e.key) :: windows e.key ts

/-- A word that does not contain `k` lies on one side of it, or overlaps it. -/
theorem infix_or_infix {w a k b : List α} (h : w <:+: a ++ (k ++ b)) (hk : ¬ k <:+: w) :
    w <:+: a ++ k ∨ w <:+: k ++ b := by
  obtain ⟨x, y, hxy⟩ := h
  rw [List.append_assoc] at hxy
  rcases List.append_eq_append_iff.mp hxy with ⟨a', rfl, hrest⟩ | ⟨x', rfl, hrest⟩
  · -- the word starts in `a`
    rw [← List.append_assoc] at hrest
    rcases List.append_eq_append_iff.mp hrest with ⟨k', hk', -⟩ | ⟨w', hw, -⟩
    · left
      rw [List.append_assoc, hk']
      exact ⟨x, k', by simp⟩
    · rw [hw] at hk
      exact absurd ⟨a', w', rfl⟩ hk
  · right
    rw [hrest]
    exact ⟨x', y, by simp⟩

/-- **The word shows up** in a masked text exactly if it does in a window. -/
theorem infix_shown_iff {w : List α} (hkeys : ∀ f, .mark f ∈ ts → ¬ f.key <:+: w) (current : List α) :
    w <:+: current ++ shown ts ↔ ∃ x ∈ windows current ts, w <:+: x := by
  induction ts generalizing current with
  | nil => simp [windows]
  | cons t ts ih =>
    have ih := ih fun f hf => hkeys f (List.mem_cons_of_mem t hf)
    cases t with
    | letter c =>
      rw [windows, ← ih]
      simp [Token.shown]
    | mark f =>
      have hwindows : (∃ x ∈ windows current (.mark f :: ts), w <:+: x) ↔
          w <:+: current ++ f.key ∨ w <:+: f.key ++ shown ts := by
        rw [ih]
        simp [windows]
      rw [hwindows]
      show w <:+: current ++ (f.key ++ shown ts) ↔ _
      constructor
      · intro h
        exact infix_or_infix h (hkeys f List.mem_cons_self)
      · rintro (h | h)
        · exact h.trans ⟨[], shown ts, by simp⟩
        · exact h.trans ⟨current, [], by simp⟩

/-- The word stays covered: no part of the text shows it together with the keys put at its ends. -/
def Covered (e : MaskPair α) (text : List α) : Prop :=
  ∀ hidden, Hides e (letters text) hidden → ∀ x ∈ windows [] hidden, ¬ e.word <:+: x

theorem covered_iff [DecidableEq α] (hword : e.word ≠ []) (hkey : ¬ e.key <:+: e.word) {text : List α} :
    Covered e text ↔ ¬ e.word <:+: replaceAll e.word e.key text := by
  have hread : ∀ hidden, Hides e (letters text) hidden →
      (e.word <:+: replaceAll e.word e.key text ↔ ∃ x ∈ windows [] hidden, e.word <:+: x) := by
    intro hidden hout
    obtain ⟨hshown, -, hmarks⟩ := hides_run (.cons hout (.nil hidden)) (List.forall_mem_singleton.mpr hword)
    rw [shown_letters, List.foldl_cons, List.foldl_nil] at hshown
    rw [hshown, ← infix_shown_iff _ [], List.nil_append]
    intro f hf
    rcases hmarks f hf with hmem | hmem
    · rwa [List.mem_singleton.mp hmem]
    · exact absurd hmem (mark_notMem_letters f text)
  constructor
  · intro hcovered hinfix
    obtain ⟨hidden, hout⟩ := exists_hides hword text
    obtain ⟨x, hx, hxw⟩ := (hread hidden hout).mp hinfix
    exact hcovered hidden hout x hx hxw
  · intro hnot hidden hout x hx hxw
    exact hnot ((hread hidden hout).mpr ⟨x, hx, hxw⟩)

end Pass

end Vellaveto.Lib.Masking
