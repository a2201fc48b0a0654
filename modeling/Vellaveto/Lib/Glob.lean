/-
  GLOB PATTERNS over an arbitrary alphabet, and deciding that one contains another.

  A pattern is a list of tokens: a star, or a test of one letter.  `globMatches` is the matcher.
  Containment is decided on SETS OF POSITIONS of the two patterns, read letter by letter: a product
  of two subset constructions, explored breadth-first from the two start sets.  Only a few
  REPRESENTATIVE letters are read; every other letter acts on both patterns like one of them.

  PROGRAM.      `globMatches`; `start`, `transition`, `accepts` on position sets; `globSubset`.

  SPEC.         `lang S ts w`: from some position in `S`, the rest of `ts` matches `w`.

  CORRECTNESS.
    1. `lang_transition`     reading a letter and then a word is reading the longer word;
    2. `accepts_foldl`       the set reached after a word accepts exactly if the pattern matches it;
    3. `globSubset_sound`,
       `globSubset_complete` the answer `true` means containment, and with the answer `false` comes a
                             word that the child matches and the parent does not;
    4. `globSubset_isSome`   the exploration never runs out of fuel;
    5. `globSubset_exact`    so it decides containment.
-/
import Mathlib.Data.Fintype.BigOperators
import Mathlib.Data.Vector.Basic
import Vellaveto.Lib.Explore

namespace Vellaveto.Lib.Glob

variable {α : Type*}

/-- A star, or a test that one letter has to pass. -/
inductive Token (α : Type*) where
  | star
  | one (test : α → Bool)

def Token.isStar : Token α → Bool
  | .star => true
  | .one _ => false

/-- Does the token take this letter and go on to the next token? -/
def Token.takes : Token α → α → Bool
  | .star, _ => false
  | .one test, a => test a

/-! ## Matching -/

/-- Does `rest` accept the text or one of its suffixes? -/
def starMatches (rest : List α → Bool) : List α → Bool
  | [] => rest []
  | a :: w => rest (a :: w) || starMatches rest w

/-- The glob matcher. -/
def globMatches : List (Token α) → List α → Bool
  | [] => fun w => w.isEmpty
  | .star :: ts => starMatches (globMatches ts)
  | .one test :: ts => fun w =>
    match w with
    | [] => false
    | a :: w => test a && globMatches ts w

@[simp] theorem globMatches_nil (w : List α) : globMatches [] w = w.isEmpty := rfl

@[simp] theorem globMatches_star_nil (ts : List (Token α)) :
    globMatches (.star :: ts) [] = globMatches ts [] := rfl

@[simp] theorem globMatches_star_cons (ts : List (Token α)) (a : α) (w : List α) :
    globMatches (.star :: ts) (a :: w) =
      (globMatches ts (a :: w) || globMatches (.star :: ts) w) := rfl

@[simp] theorem globMatches_one_nil (test : α → Bool) (ts : List (Token α)) :
    globMatches (.one test :: ts) [] = false := rfl

@[simp] theorem globMatches_one_cons (test : α → Bool) (ts : List (Token α)) (a : α) (w : List α) :
    globMatches (.one test :: ts) (a :: w) = (test a && globMatches ts w) := rfl

/-- A star may stand for nothing. -/
theorem globMatches_star_of_rest {ts : List (Token α)} {w : List α} (h : globMatches ts w = true) :
    globMatches (.star :: ts) w = true := by
  cases w with
  | nil => exact h
  | cons a w => rw [globMatches_star_cons, h, Bool.true_or]

/-- A change of letters that no token notices changes no match. -/
theorem globMatches_map {ts : List (Token α)} {f : α → α} (h : ∀ t ∈ ts, ∀ a, t.takes (f a) = t.takes a)
    (w : List α) : globMatches ts (w.map f) = globMatches ts w := by
  induction ts generalizing w with
  | nil => simp
  | cons t ts ih =>
    have ih := ih fun u hu => h u (List.mem_cons_of_mem t hu)
    cases t with
    | star =>
      induction w with
      | nil => rfl
      | cons a w ihw =>
        rw [List.map_cons, globMatches_star_cons, ihw, ← List.map_cons, ih, globMatches_star_cons]
    | one test =>
      cases w with
      | nil => rfl
      | cons a w =>
        have htest : test (f a) = test a := h _ List.mem_cons_self a
        rw [List.map_cons, globMatches_one_cons, globMatches_one_cons, htest, ih]

/-! ## Sets of positions

    A set of positions of a pattern of `n` tokens is a list of `n + 1` flags. -/

/-- Close under skipping a star. -/
def closure : List (Token α) → List Bool → List Bool
  | t :: ts, b :: b' :: S => b :: closure ts ((b' || (b && t.isStar)) :: S)
  | _, S => S

/-- Read one letter; `carry` is the flag that the token before hands on. -/
def stepFrom (a : α) : Bool → List (Token α) → List Bool → List Bool
  | carry, t :: ts, b :: S => (carry || (b && t.isStar)) :: stepFrom a (b && t.takes a) ts S
  | carry, _, _ => [carry]

/-- The positions before any letter is read. -/
def start (ts : List (Token α)) : List Bool := closure ts (true :: List.replicate ts.length false)

/-- The positions after one more letter. -/
def transition (ts : List (Token α)) (S : List Bool) (a : α) : List Bool :=
  closure ts (stepFrom a false ts S)

/-- Is the end of the pattern among the positions? -/
def accepts (S : List Bool) : Bool := S.getLastD false

/-- From one of the positions, the rest of the pattern matches the word. -/
def lang : List Bool → List (Token α) → List α → Bool
  | [], _, _ => false
  | b :: S, ts, w => (b && globMatches ts w) || lang S ts.tail w

/-- No star is left to skip. -/
def Closed : List (Token α) → List Bool → Prop
  | t :: ts, b :: S => (t.isStar = true → b = true → S.headD false = true) ∧ Closed ts S
  | _, _ => True

theorem length_closure (ts : List (Token α)) (S : List Bool) :
    (closure ts S).length = S.length := by
  induction ts, S using closure.induct with
  | case1 t ts b b' S ih => simp [closure, ih]
  | case2 ts S h => rw [closure]; exact h

theorem length_stepFrom (a : α) (carry : Bool) (ts : List (Token α)) (S : List Bool)
    (hS : S.length = ts.length + 1) : (stepFrom a carry ts S).length = ts.length + 1 := by
  induction ts generalizing carry S with
  | nil => rfl
  | cons t ts ih =>
    cases S with
    | nil => cases hS
    | cons b S =>
      rw [stepFrom, List.length_cons, ih _ S (by simpa using hS), List.length_cons]

theorem length_start (ts : List (Token α)) : (start ts).length = ts.length + 1 := by
  rw [start, length_closure, List.length_cons, List.length_replicate]

theorem length_transition {ts : List (Token α)} {S : List Bool} (a : α)
    (hS : S.length = ts.length + 1) : (transition ts S a).length = ts.length + 1 := by
  rw [transition, length_closure, length_stepFrom a false ts S hS]

/-- The first flag never changes. -/
theorem headD_closure (ts : List (Token α)) (S : List Bool) :
    (closure ts S).headD false = S.headD false := by
  unfold closure
  split <;> rfl

theorem closed_closure (ts : List (Token α)) (S : List Bool) (hS : S.length = ts.length + 1) :
    Closed ts (closure ts S) := by
  induction ts, S using closure.induct with
  | case1 t ts b b' S ih =>
    rw [closure, Closed]
    refine ⟨?_, ih (by simpa using hS)⟩
    intro ht hb
    rw [headD_closure]
    simp [ht, hb]
  | case2 ts S h =>
    cases ts with
    | nil => cases S <;> trivial
    | cons t ts =>
      rcases S with _ | ⟨b, _ | ⟨b', S⟩⟩
      · cases hS
      · cases hS
      · exact absurd rfl (h t ts b b' S rfl)

theorem lang_closure (ts : List (Token α)) (S : List Bool) (w : List α) :
    lang (closure ts S) ts w = lang S ts w := by
  induction ts, S using closure.induct with
  | case1 t ts b b' S ih =>
    rw [closure, lang, List.tail_cons, ih, lang, lang, lang, List.tail_cons]
    cases t with
    | one test => simp [Token.isStar]
    | star =>
      -- the flag the star hands on adds nothing: the star itself matches what the rest matches
      cases hrest : globMatches ts w
      · simp
      · rw [globMatches_star_of_rest hrest]
        cases b <;> simp [Token.isStar]
  | case2 ts S h => rw [closure]; exact h

theorem lang_stepFrom (a : α) (carry : Bool) (ts : List (Token α)) (S : List Bool) (w : List α)
    (hS : S.length = ts.length + 1) (hclosed : Closed ts S) :
    lang (stepFrom a carry ts S) ts w = ((carry && globMatches ts w) || lang S ts (a :: w)) := by
  induction ts generalizing carry S with
  | nil =>
    obtain ⟨b, rfl⟩ := List.length_eq_one_iff.mp hS
    simp [stepFrom, lang]
  | cons t ts ih =>
    cases S with
    | nil => cases hS
    | cons b S =>
      obtain ⟨hhead, hclosed⟩ := hclosed
      rw [stepFrom, lang, List.tail_cons, ih _ S (by simpa using hS) hclosed, lang, List.tail_cons]
      cases t with
      | one test =>
        cases carry <;> cases b <;> simp [Token.isStar, Token.takes]
      | star =>
        cases b with
        | false => simp
        | true =>
          -- skipping the star now is what the next position does, and it is in the set
          have hnext : globMatches ts (a :: w) = true → lang S ts (a :: w) = true := by
            intro hmatch
            cases S with
            | nil => cases hS
            | cons b' S =>
              have hb' : b' = true := hhead rfl rfl
              simp [lang, hb', hmatch]
          cases hmatch : globMatches ts (a :: w)
          · cases carry <;> simp [Token.isStar, Token.takes, hmatch]
          · simp [Token.isStar, Token.takes, hmatch, hnext hmatch]

/-- Reading a letter and then a word is reading the longer word. -/
theorem lang_transition {ts : List (Token α)} {S : List Bool} (a : α) (w : List α)
    (hS : S.length = ts.length + 1) (hclosed : Closed ts S) :
    lang (transition ts S a) ts w = lang S ts (a :: w) := by
  rw [transition, lang_closure, lang_stepFrom a false ts S w hS hclosed, Bool.false_and,
    Bool.false_or]

theorem lang_replicate_false (n : Nat) (ts : List (Token α)) (w : List α) :
    lang (List.replicate n false) ts w = false := by
  induction n generalizing ts with
  | zero => rfl
  | succ n ih => rw [List.replicate_succ, lang, ih, Bool.false_and, Bool.or_false]

theorem lang_start (ts : List (Token α)) (w : List α) :
    lang (start ts) ts w = globMatches ts w := by
  rw [start, lang_closure, lang, lang_replicate_false, Bool.true_and, Bool.or_false]

theorem closed_start (ts : List (Token α)) : Closed ts (start ts) :=
  closed_closure _ _ (by rw [List.length_cons, List.length_replicate])

theorem closed_transition {ts : List (Token α)} {S : List Bool} (a : α)
    (hS : S.length = ts.length + 1) : Closed ts (transition ts S a) :=
  closed_closure _ _ (length_stepFrom a false ts S hS)

/-- A closed set accepts exactly if it matches the empty word. -/
theorem lang_nil_eq_accepts (ts : List (Token α)) (S : List Bool) (hS : S.length = ts.length + 1)
    (hclosed : Closed ts S) : lang S ts ([] : List α) = accepts S := by
  induction ts generalizing S with
  | nil =>
    obtain ⟨b, rfl⟩ := List.length_eq_one_iff.mp hS
    simp [lang, accepts]
  | cons t ts ih =>
    rcases S with _ | ⟨b, _ | ⟨b', S⟩⟩
    · cases hS
    · cases hS
    · obtain ⟨hhead, hclosed⟩ := hclosed
      have hrest := ih (b' :: S) (by simpa using hS) hclosed
      have hlast : accepts (b :: b' :: S) = accepts (b' :: S) := by simp [accepts]
      rw [hlast, ← hrest, lang, List.tail_cons]
      cases t with
      | one test => simp
      | star =>
        cases b with
        | false => simp
        | true =>
          have hb' : b' = true := hhead rfl rfl
          simp [lang, hb']

/-- What is known of every set the automaton reaches. -/
theorem foldl_transition (ts : List (Token α)) (w : List α) {S : List Bool}
    (hS : S.length = ts.length + 1) (hclosed : Closed ts S) :
    (w.foldl (transition ts) S).length = ts.length + 1 ∧ Closed ts (w.foldl (transition ts) S) ∧
      lang (w.foldl (transition ts) S) ts [] = lang S ts w := by
  induction w generalizing S with
  | nil => exact ⟨hS, hclosed, rfl⟩
  | cons a w ih =>
    rw [List.foldl_cons, ← lang_transition a w hS hclosed]
    exact ih (length_transition a hS) (closed_transition a hS)

/-- The set reached after a word accepts exactly if the pattern matches the word. -/
theorem accepts_foldl (ts : List (Token α)) (w : List α) :
    accepts (w.foldl (transition ts) (start ts)) = globMatches ts w := by
  obtain ⟨hlen, hclosed, hlang⟩ := foldl_transition ts w (length_start ts) (closed_start ts)
  rw [← lang_nil_eq_accepts ts _ hlen hclosed, hlang, lang_start]

/-! ## Containment -/

/-- The letters act on the pattern alike. -/
def ActAlike (ts : List (Token α)) (a r : α) : Prop := ∀ t ∈ ts, t.takes a = t.takes r

/-- Every letter acts on both patterns like one of the representatives. -/
def Represent (reps : List α) (ps cs : List (Token α)) : Prop :=
  ∀ a, ∃ r ∈ reps, ActAlike ps a r ∧ ActAlike cs a r

theorem stepFrom_congr {ts : List (Token α)} {a r : α} (h : ActAlike ts a r) (carry : Bool)
    (S : List Bool) : stepFrom a carry ts S = stepFrom r carry ts S := by
  induction ts generalizing carry S with
  | nil => rfl
  | cons t ts ih =>
    cases S with
    | nil => rfl
    | cons b S =>
      rw [stepFrom, stepFrom, h t List.mem_cons_self, ih fun u hu => h u (List.mem_cons_of_mem t hu)]

/-- A pair of sets that refutes containment: the child accepts, the parent does not. -/
def refutes (s : List Bool × List Bool) : Bool := accepts s.2 && !accepts s.1

/-- The pairs that one representative letter leads to. -/
def successors (ps cs : List (Token α)) (reps : List α) (s : List Bool × List Bool) :
    List (List Bool × List Bool) :=
  reps.map fun r => (transition ps s.1 r, transition cs s.2 r)

/-- More than the number of pairs of position sets. -/
def pairFuel (ps cs : List (Token α)) : Nat := 2 ^ (ps.length + 1) * 2 ^ (cs.length + 1) + 1

/-- Does `ps` match everything that `cs` matches?  `none` would mean that the fuel ran out. -/
def globSubset (ps cs : List (Token α)) (reps : List α) : Option Bool :=
  explore refutes (successors ps cs reps) (pairFuel ps cs) [(start ps, start cs)]
    [(start ps, start cs)]

/-- The pair of sets that a word leads to is reachable with representatives only. -/
theorem reachable_foldl {ps cs : List (Token α)} {reps : List α} (hreps : Represent reps ps cs)
    (w : List α) (s : List Bool × List Bool) :
    Relation.ReflTransGen (fun s t => t ∈ successors ps cs reps s) s
      (w.foldl (transition ps) s.1, w.foldl (transition cs) s.2) := by
  induction w generalizing s with
  | nil => exact .refl
  | cons a w ih =>
    obtain ⟨r, hr, hps, hcs⟩ := hreps a
    refine .head ?_ (ih (transition ps s.1 a, transition cs s.2 a))
    have hsame : (transition ps s.1 a, transition cs s.2 a) =
        (transition ps s.1 r, transition cs s.2 r) := by
      rw [transition, transition, stepFrom_congr hps, stepFrom_congr hcs]
      rfl
    rw [hsame]
    exact List.mem_map.mpr ⟨r, hr, rfl⟩

/-- **Soundness.**  When the answer is `true`, the parent matches all that the child matches. -/
theorem globSubset_sound {ps cs : List (Token α)} {reps : List α} (hreps : Represent reps ps cs)
    (h : globSubset ps cs reps = some true) {w : List α} (hw : globMatches cs w = true) :
    globMatches ps w = true := by
  have hgood := explore_sound h (reachable_foldl hreps w (start ps, start cs))
  rw [refutes, accepts_foldl, accepts_foldl, hw] at hgood
  simpa using hgood

/-- A path of representatives leads to the pair of sets after the word that they spell. -/
theorem exists_foldl_of_reachable {ps cs : List (Token α)} {reps : List α}
    {s t : List Bool × List Bool}
    (h : Relation.ReflTransGen (fun s t => t ∈ successors ps cs reps s) s t) :
    ∃ w : List α, t = (w.foldl (transition ps) s.1, w.foldl (transition cs) s.2) := by
  induction h with
  | refl => exact ⟨[], rfl⟩
  | tail _ hstep ih =>
    obtain ⟨w, rfl⟩ := ih
    obtain ⟨r, -, rfl⟩ := List.mem_map.mp hstep
    refine ⟨w ++ [r], ?_⟩
    rw [List.foldl_append, List.foldl_append]
    rfl

/-- **Completeness.**  When the answer is `false`, some word tells the two patterns apart. -/
theorem globSubset_complete {ps cs : List (Token α)} {reps : List α}
    (h : globSubset ps cs reps = some false) :
    ∃ w, globMatches cs w = true ∧ globMatches ps w = false := by
  obtain ⟨s, hs, t, hreach, hbad⟩ := exists_bad_of_explore h
  rw [List.mem_singleton.mp hs] at hreach
  obtain ⟨w, rfl⟩ := exists_foldl_of_reachable hreach
  rw [refutes, accepts_foldl, accepts_foldl] at hbad
  exact ⟨w, by simpa using hbad⟩

/-- The position sets of a pattern of `n` tokens. -/
def positionSets (n : Nat) : Finset (List Bool) :=
  (Finset.univ : Finset (List.Vector Bool (n + 1))).map
    ⟨List.Vector.toList, List.Vector.toList_injective⟩

theorem mem_positionSets {n : Nat} {S : List Bool} : S ∈ positionSets n ↔ S.length = n + 1 := by
  constructor
  · intro h
    obtain ⟨v, -, rfl⟩ := Finset.mem_map.mp h
    exact v.toList_length
  · intro h
    exact Finset.mem_map.mpr ⟨⟨S, h⟩, Finset.mem_univ _, rfl⟩

theorem card_positionSets (n : Nat) : (positionSets n).card = 2 ^ (n + 1) := by
  rw [positionSets, Finset.card_map, Finset.card_univ, card_vector, Fintype.card_bool]

/-- **Termination.**  The exploration never runs out of fuel. -/
theorem globSubset_isSome (ps cs : List (Token α)) (reps : List α) :
    (globSubset ps cs reps).isSome = true := by
  let states := positionSets ps.length ×ˢ positionSets cs.length
  have hmem : ∀ s : List Bool × List Bool,
      s ∈ states ↔ s.1.length = ps.length + 1 ∧ s.2.length = cs.length + 1 := fun s => by
    rw [Finset.mem_product, mem_positionSets, mem_positionSets]
  have hstart : ∀ s ∈ [(start ps, start cs)], s ∈ states := by
    intro s hs
    rw [List.mem_singleton.mp hs]
    exact (hmem _).mpr ⟨length_start ps, length_start cs⟩
  have hcard : states.card = 2 ^ (ps.length + 1) * 2 ^ (cs.length + 1) := by
    rw [Finset.card_product, card_positionSets, card_positionSets]
  refine explore_isSome states ?_ hstart hstart (List.nodup_singleton _) ?_
  · intro s hs t ht
    obtain ⟨hp, hc⟩ := (hmem s).mp hs
    obtain ⟨r, -, rfl⟩ := List.mem_map.mp ht
    exact (hmem _).mpr ⟨length_transition r hp, length_transition r hc⟩
  · have hpos : 0 < states.card :=
      Finset.card_pos.mpr ⟨_, hstart _ List.mem_cons_self⟩
    rw [pairFuel, ← hcard, List.length_singleton]
    omega

/-- **Exactness.**  The search answers, and it answers `true` exactly if the parent matches all that
    the child matches. -/
theorem globSubset_exact {ps cs : List (Token α)} {reps : List α} (hreps : Represent reps ps cs) :
    ∃ answer, globSubset ps cs reps = some answer ∧
      (answer = true ↔ ∀ w, globMatches cs w = true → globMatches ps w = true) := by
  obtain ⟨answer, hanswer⟩ := Option.isSome_iff_exists.mp (globSubset_isSome ps cs reps)
  refine ⟨answer, hanswer, ?_⟩
  cases answer with
  | true =>
    refine iff_of_true rfl ?_
    intro w hw
    exact globSubset_sound hreps hanswer hw
  | false =>
    obtain ⟨w, hchild, hparent⟩ := globSubset_complete hanswer
    refine iff_of_false Bool.false_ne_true ?_
    intro hall
    rw [hall w hchild] at hparent
    exact Bool.noConfusion hparent

end Vellaveto.Lib.Glob
