/-
  LEGACY AND COMPILED MATCHING: policy ids, path rules, network rules and IP rules.

  PROGRAM.  `Legacy.matchesAction` and `Legacy.checkRulesLegacy` read the patterns of a policy when an
  action is evaluated, `CompiledPolicy.matchesAction` and `checkRules` use what was compiled.

  SPEC.  For a policy that compiles, the two must match the same actions and deny the same targets.

  CORRECTNESS.  They do, apart from two places:
    1. an id segment with `*` at both ends (`divergentId`): compiled it matches every name, here only
       names that end in the rest of it;
    2. network rules without any domain (`divergentNetwork`): compiled they still deny a domain that
       cannot be normalized, here they are skipped.
  Both are exact (`matchesAction_agrees_iff`, `networkRules_agree_iff`).
-/
import Vellaveto.Engine.Traced

namespace Vellaveto.Legacy

open Vellaveto.Lib

/-! ## Policy ids -/

/-- `*` stands only at the start or at the end of the segment. -/
def StarsOutside (seg : List Char) : Prop := '*' ∉ seg.tail.dropLast

/-- `*` stands at both ends. -/
def starredTwice (seg : List Char) : Bool :=
  decide (2 ≤ seg.length) && seg.head? == some '*' && seg.getLast? == some '*'

/-- A segment with two stars matches every compiled name; here only names that end in its tail. -/
def divergentSegment (ext : Externals) (seg : List Char) (name : String) : Bool :=
  starredTwice seg &&
    !(ext.normalizeFull (String.ofList seg.tail)).toList.isSuffixOf (ext.normalizeFull name).toList

theorem toLower_eq_star_iff {c : Char} (hc : isAscii c = true) : c.toLower = '*' ↔ c = '*' :=
  forall_ascii (P := fun c => c.toLower = '*' ↔ c = '*') (by decide) hc

/-- Lower case makes no stars. -/
theorem star_not_mem_lower {cs : List Char} (hcs : IsAsciiText cs) (hno : '*' ∉ cs) :
    '*' ∉ cs.map Char.toLower := by
  intro hmem
  obtain ⟨c, hc, hstar⟩ := List.mem_map.mp hmem
  exact hno ((toLower_eq_star_iff (hcs c hc)).mp hstar ▸ hc)

theorem starredTwice_eq (c d : Char) (init : List Char) :
    starredTwice (c :: (init ++ [d])) = (decide (c = '*') && decide (d = '*')) := by
  have hlast : (c :: (init ++ [d])).getLast? = some d := by
    rw [← List.cons_append, List.getLast?_concat]
  have hlen : 2 ≤ (c :: (init ++ [d])).length := by simp
  rw [starredTwice, hlast, decide_eq_true hlen, List.head?_cons]
  rfl

section Segment

variable {ext : Externals}
  (hnorm : ∀ s : String, IsAsciiText s.toList → ext.normalizeFull s = toAsciiLowercase s)

include hnorm

theorem normalizeFull_ofList {cs : List Char} (hcs : IsAsciiText cs) :
    ext.normalizeFull (String.ofList cs) = String.ofList (cs.map Char.toLower) := by
  rw [hnorm _ (by simpa using hcs), toAsciiLowercase, String.toList_ofList]

/-- A segment without a star is one name. -/
theorem matchPattern_literal {seg : List Char} (hascii : IsAsciiText seg) (hseg : '*' ∉ seg)
    (name : String) :
    matchPattern ext (String.ofList seg) name =
        (PatternMatcher.compile ext (String.ofList seg)).matchesValue (ext.normalizeFull name) := by
  have hlower := star_not_mem_lower hascii hseg
  have hpre : ∀ cs : List Char, '*' ∉ cs → stripPrefix ['*'] cs = none := by
    intro cs hcs
    cases cs with
    | nil => rfl
    | cons c cs => rw [stripPrefix_singleton, if_neg (by rintro rfl; exact hcs List.mem_cons_self)]
  have hsuf : ∀ cs : List Char, '*' ∉ cs → stripSuffix ['*'] cs = none := by
    intro cs hcs
    rcases List.eq_nil_or_concat cs with rfl | ⟨init, d, rfl⟩
    · rfl
    · rw [List.concat_eq_append, stripSuffix_singleton, if_neg]
      rintro rfl
      exact hcs (by simp)
  have hone : ∀ cs : List Char, '*' ∉ cs → cs ≠ ['*'] := by
    rintro cs hcs rfl
    exact hcs List.mem_cons_self
  rw [matchPattern, PatternMatcher.compile, normalizeFull_ofList hnorm hascii]
  simp only [String.toList_ofList, hpre _ hseg, hpre _ hlower, hsuf _ hseg, hsuf _ hlower,
    hone _ hseg, hone _ hlower, if_false, List.contains_iff_mem, hseg, PatternMatcher.matchesValue]
  rw [Bool.eq_iff_iff, beq_iff_eq, beq_iff_eq, ← String.toList_inj, String.toList_ofList]

/-- A segment `start*` is a start of the name. -/
theorem matchPattern_start {c : Char} {init : List Char} (hascii : IsAsciiText (c :: (init ++ ['*'])))
    (hc : c ≠ '*') (hinit : '*' ∉ init) (name : String) :
    matchPattern ext (String.ofList (c :: (init ++ ['*']))) name =
      (PatternMatcher.compile ext (String.ofList (c :: (init ++ ['*'])))).matchesValue
        (ext.normalizeFull name) := by
  have hstart : IsAsciiText (c :: init) := fun x hx => hascii x (List.mem_append_left ['*'] hx)
  have hno : (c :: init).contains '*' = false := by simp [hinit, Ne.symm hc]
  have hlow : '*' ≠ c.toLower := by
    intro h
    exact hc ((toLower_eq_star_iff (hascii c List.mem_cons_self)).mp h.symm)
  have hnolow : ((c :: init).map Char.toLower).contains '*' = false := by
    rw [List.contains_eq_mem, decide_eq_false_iff_not] at hno ⊢
    exact star_not_mem_lower hstart hno
  have hmap : (c :: (init ++ ['*'])).map Char.toLower = (c :: init).map Char.toLower ++ ['*'] := by
    simp
  rw [matchPattern, PatternMatcher.compile, normalizeFull_ofList hnorm hascii]
  simp only [String.toList_ofList]
  rw [if_neg (by simp), if_neg (by simp), stripPrefix_singleton, if_neg (Ne.symm hc),
    List.map_cons, stripPrefix_singleton, if_neg hlow, ← List.map_cons, hmap,
    ← List.cons_append, stripSuffix_singleton, stripSuffix_singleton, if_pos rfl, if_pos rfl]
  dsimp only
  rw [hno, hnolow, if_neg Bool.false_ne_true, if_neg Bool.false_ne_true,
    PatternMatcher.matchesValue, normalizeFull_ofList hnorm hstart, String.toList_ofList]

/-- A segment `*tail` is an end of the name; with a second star the compiled one takes any name. -/
theorem matchPattern_end_iff {d : Char} {init : List Char}
    (hascii : IsAsciiText ('*' :: (init ++ [d]))) (hinit : '*' ∉ init) (name : String) :
    matchPattern ext (String.ofList ('*' :: (init ++ [d]))) name =
        (PatternMatcher.compile ext (String.ofList ('*' :: (init ++ [d])))).matchesValue
          (ext.normalizeFull name) ↔
      divergentSegment ext ('*' :: (init ++ [d])) name = false := by
  have htail : IsAsciiText (init ++ [d]) := fun x hx => hascii x (List.mem_cons_of_mem '*' hx)
  have hstar : Char.toLower '*' = '*' := rfl
  rw [divergentSegment, List.tail_cons, matchPattern, PatternMatcher.compile, starredTwice_eq,
    normalizeFull_ofList hnorm hascii, normalizeFull_ofList hnorm htail]
  simp only [String.toList_ofList, List.map_cons, stripPrefix_singleton, hstar, if_true]
  by_cases hd : d = '*'
  · have hany : (init ++ [d]).contains '*' = true := by simp [hd]
    rw [if_neg (by simp), if_neg (by simp), if_pos hany]
    simp [PatternMatcher.matchesValue, hd]
  · have hany : (init ++ [d]).contains '*' = false := by simp [hinit, Ne.symm hd]
    rw [if_neg (by simp), if_neg (by simp), hany, if_neg Bool.false_ne_true,
      normalizeFull_ofList hnorm htail]
    simp [PatternMatcher.matchesValue, hd]

/-- The two readings of a segment agree on a name unless the segment is divergent on it. -/
theorem matchPattern_agrees_iff {seg : List Char} (hascii : IsAsciiText seg)
    (hstars : StarsOutside seg) (name : String) :
    matchPattern ext (String.ofList seg) name =
        (PatternMatcher.compile ext (String.ofList seg)).matchesValue (ext.normalizeFull name) ↔
      divergentSegment ext seg name = false := by
  rcases seg with _ | ⟨c, rest⟩
  · exact iff_of_true (matchPattern_literal hnorm hascii (by simp) name) rfl
  rcases List.eq_nil_or_concat rest with rfl | ⟨init, d, rfl⟩
  · refine iff_of_true ?_ rfl
    by_cases hc : c = '*'
    · rw [hc, matchPattern, PatternMatcher.compile,
        normalizeFull_ofList hnorm (by simp [IsAsciiText, isAscii])]
      rfl
    · exact matchPattern_literal hnorm hascii (by simpa using fun h => hc h.symm) name
  · rw [List.concat_eq_append] at hascii hstars ⊢
    have hinit : '*' ∉ init := by simpa [StarsOutside] using hstars
    by_cases hc : c = '*'
    · subst hc
      exact matchPattern_end_iff hnorm hascii hinit name
    · refine iff_of_true ?_ (by rw [divergentSegment, starredTwice_eq, decide_eq_false hc]; rfl)
      by_cases hd : d = '*'
      · subst hd
        exact matchPattern_start hnorm hascii hc hinit name
      · exact matchPattern_literal hnorm hascii (by simp [hinit, Ne.symm hc, Ne.symm hd]) name

/-- What a segment matches here, it matches compiled. -/
theorem compiled_of_matchPattern {seg : List Char} (hascii : IsAsciiText seg)
    (hstars : StarsOutside seg) {name : String}
    (h : matchPattern ext (String.ofList seg) name = true) :
    (PatternMatcher.compile ext (String.ofList seg)).matchesValue (ext.normalizeFull name) =
      true := by
  by_contra hno
  have hdiff : ¬matchPattern ext (String.ofList seg) name =
      (PatternMatcher.compile ext (String.ofList seg)).matchesValue (ext.normalizeFull name) := by
    intro heq
    exact hno (heq ▸ h)
  rw [matchPattern_agrees_iff hnorm hascii hstars, divergentSegment] at hdiff
  -- a divergent segment has two stars, and compiles to a matcher of everything
  obtain ⟨init, rfl, hinit⟩ : ∃ init, seg = '*' :: (init ++ ['*']) ∧ '*' ∉ init := by
    rcases seg with _ | ⟨c, rest⟩
    · exact absurd rfl hdiff
    rcases List.eq_nil_or_concat rest with rfl | ⟨init, d, rfl⟩
    · exact absurd rfl hdiff
    · rw [List.concat_eq_append] at hdiff hstars ⊢
      have htwice : starredTwice (c :: (init ++ [d])) = true := by
        by_contra hnot
        exact hdiff (by rw [Bool.eq_false_iff.mpr hnot, Bool.false_and])
      rw [starredTwice_eq, Bool.and_eq_true, decide_eq_true_eq, decide_eq_true_eq] at htwice
      obtain ⟨rfl, rfl⟩ := htwice
      exact ⟨init, rfl, by simpa [StarsOutside] using hstars⟩
  refine hno ?_
  have hany : (init ++ ['*']).contains '*' = true := by simp
  rw [PatternMatcher.compile]
  simp only [String.toList_ofList, stripPrefix_singleton, if_true]
  rw [if_neg (by simp), if_pos hany]
  rfl

end Segment

/-- The segments of an id that are matched. -/
def idSegments (id : String) : List (List Char) :=
  if id.toList.contains ':' then
    let toolPat := beforeFirst ':' id.toList
    [toolPat, beforeFirst ':' (id.toList.drop (toolPat.length + 1))]
  else [id.toList]

/-- An ASCII id whose segments have `*` only at their ends. -/
def PlainId (id : String) : Prop := IsAsciiText id.toList ∧ ∀ seg ∈ idSegments id, StarsOutside seg

/-- A segment of the id is divergent on the name it is matched with. -/
def divergentId (ext : Externals) (action : Action) (id : String) : Bool :=
  ((idSegments id).zip [action.tool, action.function]).any fun p => divergentSegment ext p.1 p.2

theorem ascii_of_mem_idSegments {id : String} (hid : IsAsciiText id.toList) {seg : List Char}
    (hseg : seg ∈ idSegments id) : IsAsciiText seg := by
  intro c hc
  rw [idSegments] at hseg
  split at hseg
  · rcases List.mem_cons.mp hseg with rfl | hseg
    · exact hid c (List.takeWhile_subset _ hc)
    · rw [List.mem_singleton] at hseg
      subst hseg
      exact hid c (List.drop_subset _ _ (List.takeWhile_subset _ hc))
  · rw [List.mem_singleton] at hseg
    subst hseg
    exact hid c hc

/-- Two tests that each agree up to a divergence, and of which the first implies the second, agree
    together up to their divergences. -/
theorem and_agrees_iff {m₁ m₂ c₁ c₂ d₁ d₂ : Bool} (h₁ : m₁ = c₁ ↔ d₁ = false)
    (h₂ : m₂ = c₂ ↔ d₂ = false) (hsub₁ : m₁ = true → c₁ = true) (hsub₂ : m₂ = true → c₂ = true) :
    ((m₁ && m₂) = (c₁ && c₂)) ↔ ((c₁ && c₂) = true → (d₁ || d₂) = false) := by
  revert m₁ m₂ c₁ c₂ d₁ d₂
  decide

section Ids

variable {κ : Type} {ext : Externals}
  (hnorm : ∀ s : String, IsAsciiText s.toList → ext.normalizeFull s = toAsciiLowercase s)

include hnorm

/-- The two readings of an id agree on an action, unless the compiled one matches it and a segment is
    divergent. -/
theorem matchesAction_agrees_iff (action : Action) {policy : Policy} (hid : PlainId policy.id)
    {cp : CompiledPolicy κ} (hcp : cp.toolMatcher = .compile ext policy.id) :
    matchesAction ext action policy = cp.matchesAction ext action ↔
      (cp.matchesAction ext action = true → divergentId ext action policy.id = false) := by
  obtain ⟨hascii, hstars⟩ := hid
  have hagree : ∀ seg ∈ idSegments policy.id, ∀ name,
      matchPattern ext (String.ofList seg) name =
        (PatternMatcher.compile ext (String.ofList seg)).matchesValue (ext.normalizeFull name) ↔
      divergentSegment ext seg name = false := fun seg hseg name =>
    matchPattern_agrees_iff hnorm (ascii_of_mem_idSegments hascii hseg) (hstars seg hseg) name
  have hsub : ∀ seg ∈ idSegments policy.id, ∀ name,
      matchPattern ext (String.ofList seg) name = true →
        (PatternMatcher.compile ext (String.ofList seg)).matchesValue (ext.normalizeFull name) =
          true := fun seg hseg name =>
    compiled_of_matchPattern hnorm (ascii_of_mem_idSegments hascii hseg) (hstars seg hseg)
  rw [CompiledPolicy.matchesAction, hcp, matchesAction, CompiledToolMatcher.compile, divergentId]
  by_cases hstar : policy.id = "*"
  · rw [if_pos hstar, if_pos hstar]
    refine iff_of_true rfl fun _ => ?_
    rw [hstar]
    rfl
  rw [if_neg hstar, if_neg hstar]
  rw [idSegments] at hagree hsub ⊢
  by_cases hcolon : policy.id.toList.contains ':' = true
  · rw [if_pos hcolon] at hagree hsub ⊢
    rw [if_pos hcolon, if_pos hcolon]
    have htool := hagree _ List.mem_cons_self action.tool
    have hfunction := hagree _ (List.mem_cons_of_mem _ List.mem_cons_self) action.function
    have htool' := hsub _ List.mem_cons_self action.tool
    have hfunction' := hsub _ (List.mem_cons_of_mem _ List.mem_cons_self) action.function
    simp only [List.zip_cons_cons, List.zip_nil_right, List.any_cons, List.any_nil, Bool.or_false,
      CompiledToolMatcher.matchesNormalized]
    exact and_agrees_iff htool hfunction htool' hfunction'
  · rw [if_neg hcolon] at hagree hsub ⊢
    rw [if_neg hcolon, if_neg hcolon]
    have htool := hagree _ List.mem_cons_self action.tool
    have htool' := hsub _ List.mem_cons_self action.tool
    rw [String.ofList_toList] at htool htool'
    simp only [List.zip_cons_cons, List.zip_nil_left, List.any_cons, List.any_nil, Bool.or_false,
      CompiledToolMatcher.matchesNormalized]
    refine htool.trans ⟨fun hnot _ => hnot, fun hnot => ?_⟩
    -- where the compiled pattern does not match, neither reading does
    by_cases hcompiled :
        (PatternMatcher.compile ext policy.id).matchesValue (ext.normalizeFull action.tool) = true
    · exact hnot hcompiled
    · refine htool.mp ?_
      rw [Bool.eq_false_iff.mpr hcompiled, Bool.eq_false_iff]
      exact fun hmatch => hcompiled (htool' hmatch)

end Ids

/-! ## Rules

  Rules only deny, so they are compared by the KIND of what they return. -/

/-- What a check returns, up to the reason text. -/
abbrev kindOf (result : Option Verdict) : Option VerdictKind := result.map Verdict.kind

theorem kindOf_or (r s : Option Verdict) : kindOf (r.or s) = (kindOf r).or (kindOf s) :=
  Option.map_or

theorem kindOf_findSome_congr {α : Type} {f g : α → Option Verdict} {as : List α}
    (h : ∀ a ∈ as, kindOf (f a) = kindOf (g a)) :
    kindOf (as.findSome? f) = kindOf (as.findSome? g) := by
  rw [kindOf, kindOf, List.map_findSome?, List.map_findSome?]
  induction as with
  | nil => rfl
  | cons a as ih =>
    have ha := h a List.mem_cons_self
    have hrest := ih fun b hb => h b (List.mem_cons_of_mem a hb)
    rw [List.findSome?_cons, List.findSome?_cons, hrest]
    simp only [Function.comp_apply]
    rw [show Option.map Verdict.kind (f a) = Option.map Verdict.kind (g a) from ha]

theorem isEmpty_of_forall₂ {α β : Type} {R : α → β → Prop} {as : List α} {bs : List β}
    (h : List.Forall₂ R as bs) : as.isEmpty = bs.isEmpty := by
  cases h <;> rfl

theorem compileOptional_eq_ok {α β : Type} {compile : α → Except PolicyValidationError β}
    {a : Option α} {b : Option β} (h : compileOptional compile a = .ok b) :
    (a = none ∧ b = none) ∨ ∃ x y, a = some x ∧ b = some y ∧ compile x = .ok y := by
  cases a with
  | none => exact Or.inl ⟨rfl, (Except.ok.inj h).symm⟩
  | some x =>
    rw [compileOptional] at h
    cases hx : compile x with
    | error e =>
      rw [hx] at h
      cases h
    | ok y =>
      rw [hx] at h
      exact Or.inr ⟨x, y, rfl, (Except.ok.inj h).symm, hx⟩

section Rules

variable {κ : Type} (env : CompileEnv κ) (settings : Settings)

/-! ### Paths -/

/-- The globs of a path rule are the compiled patterns. -/
theorem globs_of_compilePathGlobs {policy : Policy} {which : String} {patterns : List String}
    {globs : List (String × TextMatcher)}
    (h : compilePathGlobs env policy which patterns = .ok globs) :
    List.Forall₂ (fun pattern g => env.globNew pattern = .ok g.2) patterns globs := by
  refine (forall₂_of_mapM_eq_ok h).imp fun pattern g hg => ?_
  cases hnew : env.globNew pattern with
  | ok m =>
    rw [hnew] at hg
    cases hg
    rfl
  | error e =>
    rw [hnew] at hg
    cases hg

theorem globIsMatch_eq {ext : Externals} {pattern input policyId : String} {matcher : TextMatcher}
    (h : ext.globNew pattern = .ok matcher) :
    globIsMatch ext pattern input policyId = .ok (matcher input) := by
  rw [globIsMatch, h]

theorem blocked_kind (policy : Policy) (normalized : String) {patterns : List String}
    {globs : List (String × TextMatcher)}
    (h : List.Forall₂ (fun pattern g => env.globNew pattern = .ok g.2) patterns globs) :
    kindOf (patterns.findSome? (checkBlockedGlob env.toExternals policy normalized)) =
      if globs.any fun g => g.2 normalized then some .deny else none := by
  induction h with
  | nil => rfl
  | @cons pattern g patterns globs hg _ ih =>
    rw [List.findSome?_cons, List.any_cons, checkBlockedGlob, globIsMatch_eq hg]
    cases g.2 normalized with
    | true => rfl
    | false =>
      rw [Bool.false_or]
      exact ih

theorem allowed_eq (policy : Policy) (normalized : String) {patterns : List String}
    {globs : List (String × TextMatcher)}
    (h : List.Forall₂ (fun pattern g => env.globNew pattern = .ok g.2) patterns globs) :
    patterns.findSome? (checkAllowedGlob env.toExternals policy normalized) =
      if globs.any fun g => g.2 normalized then some none else none := by
  induction h with
  | nil => rfl
  | @cons pattern g patterns globs hg _ ih =>
    rw [List.findSome?_cons, List.any_cons, checkAllowedGlob, globIsMatch_eq hg]
    cases g.2 normalized with
    | true => rfl
    | false =>
      rw [Bool.false_or]
      exact ih

theorem checkPath_agrees {policy : Policy} {rules : PathRules} {compiled : CompiledPathRules}
    (h : compilePathRules env policy rules = .ok compiled) (rawPath : String) :
    kindOf (checkPathLegacy env.toExternals settings policy rules rawPath) =
      kindOf (checkPath settings compiled policy.name rawPath) := by
  obtain ⟨allowed, hallowed, h⟩ := bind_eq_ok_iff.mp h
  obtain ⟨blocked, hblocked, h⟩ := bind_eq_ok_iff.mp h
  cases h
  have hbrel := globs_of_compilePathGlobs env hblocked
  have harel := globs_of_compilePathGlobs env hallowed
  rw [checkPathLegacy, checkPath]
  cases Path.normalizePathBounded rawPath settings.maxPathDecodeIterations with
  | error e => rfl
  | ok normalized =>
    dsimp only
    rw [kindOf_or, blocked_kind env policy normalized hbrel,
      allowed_eq env policy normalized harel, isEmpty_of_forall₂ harel]
    by_cases hb : (blocked.any fun g => g.2 normalized) = true
    · rw [if_pos hb, if_pos hb]
      rfl
    · rw [if_neg hb, if_neg hb, Option.none_or]
      cases allowed.isEmpty with
      | true => rfl
      | false =>
        cases allowed.any fun g => g.2 normalized <;> rfl

/-- Path rules deny the same actions. -/
theorem pathRules_agree {policy : Policy} {cp : CompiledPolicy κ} (hpolicy : cp.policy = policy)
    (h : compileOptional (compilePathRules env policy) policy.pathRules =
      .ok cp.compiledPathRules) (action : Action) :
    kindOf (checkPathRulesLegacy env.toExternals settings action policy) =
      kindOf (checkPathRules settings action cp) := by
  rw [checkPathRulesLegacy, checkPathRules]
  obtain ⟨hnone, hnone'⟩ | ⟨rules, compiled, hsome, hsome', hc⟩ := compileOptional_eq_ok h
  · rw [hnone, hnone']
  · rw [hsome, hsome', hpolicy]
    have hempty : rules.allowed.isEmpty = compiled.allowed.isEmpty ∧
        rules.blocked.isEmpty = compiled.blocked.isEmpty := by
      obtain ⟨allowed, hallowed, hc⟩ := bind_eq_ok_iff.mp hc
      obtain ⟨blocked, hblocked, hc⟩ := bind_eq_ok_iff.mp hc
      cases hc
      exact ⟨isEmpty_of_forall₂ (globs_of_compilePathGlobs env hallowed),
        isEmpty_of_forall₂ (globs_of_compilePathGlobs env hblocked)⟩
    dsimp only
    rw [hempty.1, hempty.2]
    split
    · rfl
    · split
      · rfl
      · exact kindOf_findSome_congr fun path _ => checkPath_agrees env settings hc path

/-! ### Domains -/

/-- Network rules without any domain, and a target domain that cannot be normalized. -/
def divergentNetwork (ext : Externals) (action : Action) (policy : Policy) : Bool :=
  match policy.networkRules with
  | none => false
  | some rules =>
    rules.allowedDomains.isEmpty && rules.blockedDomains.isEmpty &&
      action.targetDomains.any fun d =>
        (Domain.normalizeDomainForMatch ext (ext.toLowercase d)).isNone

theorem checkDomain_agrees (ext : Externals) (rules : NetworkRules) (policyName rawDomain : String) :
    kindOf (checkDomainLegacy ext rules rawDomain) =
      kindOf (checkDomain ext ⟨rules.allowedDomains, rules.blockedDomains⟩ policyName rawDomain) := by
  rw [checkDomainLegacy, checkDomain]
  dsimp only
  split
  · rfl
  · split
    · rfl
    · split <;> rfl

/-- Without any domain in the rules, only a domain that cannot be normalized is denied. -/
theorem checkDomain_empty (ext : Externals) (policyName rawDomain : String) :
    checkDomain ext ⟨[], []⟩ policyName rawDomain = none ↔
      (Domain.normalizeDomainForMatch ext (ext.toLowercase rawDomain)).isNone = false := by
  rw [checkDomain]
  cases (Domain.normalizeDomainForMatch ext (ext.toLowercase rawDomain)).isNone <;> simp

theorem compileNetworkRules_eq {policy : Policy} {rules : NetworkRules}
    {compiled : CompiledNetworkRules} (h : compileNetworkRules policy rules = .ok compiled) :
    compiled = ⟨rules.allowedDomains, rules.blockedDomains⟩ := by
  obtain ⟨-, -, h⟩ := bind_eq_ok_iff.mp h
  cases h
  rfl

/-- Network rules deny the same actions, unless they are divergent. -/
theorem networkRules_agree_iff {policy : Policy} {cp : CompiledPolicy κ}
    (hpolicy : cp.policy = policy)
    (h : compileOptional (compileNetworkRules policy) policy.networkRules =
      .ok cp.compiledNetworkRules) (ext : Externals) (action : Action) :
    kindOf (checkNetworkRulesLegacy ext action policy) = kindOf (checkNetworkRules ext action cp) ↔
      divergentNetwork ext action policy = false := by
  rw [checkNetworkRulesLegacy, checkNetworkRules, divergentNetwork]
  obtain ⟨hnone, hnone'⟩ | ⟨rules, compiled, hsome, hsome', hc⟩ := compileOptional_eq_ok h
  · rw [hnone, hnone']
    simp
  · rw [hsome, hsome', compileNetworkRules_eq hc, hpolicy]
    dsimp only
    cases hboth : rules.allowedDomains.isEmpty && rules.blockedDomains.isEmpty with
    | true =>
      -- skipped here; compiled, every domain is still normalized
      obtain ⟨hallowed, hblocked⟩ := Bool.and_eq_true_iff.mp hboth
      rw [List.isEmpty_iff] at hallowed hblocked
      rw [if_pos rfl, hallowed, hblocked, Bool.true_and, List.any_eq_false]
      have hpass : action.targetDomains.findSome? (checkDomain ext ⟨[], []⟩ policy.name) = none ↔
          ∀ d ∈ action.targetDomains,
            ¬(Domain.normalizeDomainForMatch ext (ext.toLowercase d)).isNone = true := by
        rw [List.findSome?_eq_none_iff]
        refine forall₂_congr fun d _ => ?_
        rw [checkDomain_empty, Bool.not_eq_true]
      rw [← hpass, kindOf, kindOf, Option.map_none, eq_comm, Option.map_eq_none_iff]
      cases htargets : action.targetDomains with
      | nil => simp
      | cons d ds => rfl
    | false =>
      refine iff_of_true ?_ (Bool.false_and _)
      rw [if_neg Bool.false_ne_true]
      split
      · rfl
      · exact kindOf_findSome_congr fun d _ => checkDomain_agrees ext rules policy.name d

/-! ### Addresses -/

theorem nets_of_compileCidrs {policy : Policy} {which : String} {cidrs : List String}
    {nets : List Ip.IpNet} (h : compileCidrs env policy which cidrs = .ok nets) :
    List.Forall₂ (fun cidr net => env.parseIpNet cidr = .ok net) cidrs nets := by
  refine (forall₂_of_mapM_eq_ok h).imp fun cidr net hnet => ?_
  cases hparse : env.parseIpNet cidr with
  | ok n =>
    rw [hparse] at hnet
    cases hnet
    rfl
  | error e =>
    rw [hparse] at hnet
    cases hnet

theorem blockedCidrs_kind (policy : Policy) (ip : Ip.IpAddr) {cidrs : List String}
    {nets : List Ip.IpNet}
    (h : List.Forall₂ (fun cidr net => env.parseIpNet cidr = .ok net) cidrs nets) :
    kindOf (cidrs.findSome? (checkBlockedCidr env.toExternals policy ip)) =
      if nets.any fun net => net.contains ip then some .deny else none := by
  induction h with
  | nil => rfl
  | @cons cidr net cidrs nets hnet _ ih =>
    rw [List.findSome?_cons, List.any_cons, checkBlockedCidr, hnet]
    cases hin : net.contains ip with
    | true =>
      simp only [hin, if_true]
      rfl
    | false =>
      simp only [hin, Bool.false_eq_true, if_false, Bool.false_or]
      exact ih

theorem allowedCidrs_eq (ip : Ip.IpAddr) {cidrs : List String} {nets : List Ip.IpNet}
    (h : List.Forall₂ (fun cidr net => env.parseIpNet cidr = .ok net) cidrs nets) :
    cidrs.any (cidrContains env.toExternals ip) = (nets.any fun net => net.contains ip) ∧
      (cidrs.any fun cidr => !(env.parseIpNet cidr).isOk) = false := by
  induction h with
  | nil => exact ⟨rfl, rfl⟩
  | @cons cidr net cidrs nets hnet _ ih =>
    rw [List.any_cons, List.any_cons, List.any_cons, ih.1, ih.2, cidrContains, hnet]
    exact ⟨rfl, rfl⟩

theorem checkIp_agrees {policy : Policy} {rules : IpRules} {compiled : CompiledIpRules}
    (h : compileIpRules env policy rules = .ok compiled) (ipStr : String) :
    kindOf (checkIpLegacy env.toExternals policy rules ipStr) =
      kindOf (checkIp env.toExternals compiled policy.name ipStr) := by
  obtain ⟨blocked, hblocked, h⟩ := bind_eq_ok_iff.mp h
  obtain ⟨allowed, hallowed, h⟩ := bind_eq_ok_iff.mp h
  cases h
  have hbrel := nets_of_compileCidrs env hblocked
  have harel := nets_of_compileCidrs env hallowed
  rw [checkIpLegacy, checkIp]
  cases env.parseIpAddr ipStr with
  | none => rfl
  | some rawIp =>
    obtain ⟨hcontains, hparse⟩ := allowedCidrs_eq env (canonicalIp rawIp) harel
    dsimp only
    split
    · rfl
    · rw [kindOf_or, blockedCidrs_kind env policy _ hbrel, hcontains, hparse,
        isEmpty_of_forall₂ harel]
      by_cases hb : (blocked.any fun net => net.contains (canonicalIp rawIp)) = true
      · rw [if_pos hb, if_pos hb]
        rfl
      · rw [if_neg hb, if_neg hb, Option.none_or]
        cases allowed.isEmpty with
        | true => rfl
        | false =>
          cases allowed.any fun net => net.contains (canonicalIp rawIp) <;> rfl

/-- IP rules deny the same actions. -/
theorem ipRules_agree {policy : Policy} {cp : CompiledPolicy κ} (hpolicy : cp.policy = policy)
    (h : compileOptional (compileIpRules env policy)
      (policy.networkRules.bind NetworkRules.ipRules) = .ok cp.compiledIpRules) (action : Action) :
    kindOf (checkIpRulesLegacy env.toExternals action policy) =
      kindOf (checkIpRules env.toExternals action cp) := by
  rw [checkIpRulesLegacy, checkIpRules]
  obtain ⟨hnone, hnone'⟩ | ⟨rules, compiled, hsome, hsome', hc⟩ := compileOptional_eq_ok h
  · rw [hnone, hnone']
  · rw [hsome, hsome', hpolicy]
    dsimp only
    split
    · rfl
    · exact kindOf_findSome_congr fun ip _ => checkIp_agrees env hc ip

end Rules

end Vellaveto.Legacy
