/-
  NOBODY DECIDES ON THEIR OWN REQUEST, or do they?

  PROGRAM.      `approve` and `deny` cut the names of the requester and of the resolver at the first
                ` (note:`, refuse a base with a parenthesis in it, normalize both bases (NFKC, lower
                case, look-alikes) and refuse equal ones, unless they are empty or `anonymous`.

  SPEC.         `SelfResolutionRefused`: in every state in which a request of `requester` is pending,
                whoever goes by that name, in whatever ASCII case or with whatever note, gets an error
                and the request stays pending.

  CORRECTNESS.
    1. `principalBase_append`        text without a parenthesis stays in front when a text is cut;
    2. `checkResolver_self`          the comparison refuses the names that normalize to the same base;
    3. `resolve_of_checks`           and what passes the checks is decided;
    4. `selfResolutionRefused_iff`   so the requester is refused exactly if the base has a parenthesis,
                                     or its normal form is not empty and does not depend on the case of
                                     its ASCII letters;
    5. `caseBlind_of_ascii`          the normal form of an ASCII base does not.
-/
import Vellaveto.Approval.Store
import Vellaveto.Lib.AsciiCase

namespace Vellaveto.Approval

open Vellaveto.Lib

/-! ## The base of a name -/

def noteMark : List Char := " (note:".toList

/-- No mark starts right before a character other than the parenthesis. -/
theorem not_noteMark {c : Char} {rest : List Char} (h : rest.head? ≠ some '(') :
    noteMark.isPrefixOf (c :: rest) = false := by
  cases rest with
  | nil =>
    show (' ' == c && false) = false
    exact Bool.and_false _
  | cons d rest =>
    have hd : ('(' == d) = false := beq_eq_false_iff_ne.mpr fun heq => h (by rw [heq]; rfl)
    show (' ' == c && ('(' == d && _)) = false
    rw [hd, Bool.false_and, Bool.and_false]

theorem principalBase_cons (c : Char) (rest : List Char) :
    principalBase (c :: rest) =
      if noteMark.isPrefixOf (c :: rest) then [] else c :: principalBase rest := rfl

/-- **Text without a parenthesis stays in front.** -/
theorem principalBase_append {front rest : List Char} (hfront : '(' ∉ front)
    (hrest : rest.head? ≠ some '(') : principalBase (front ++ rest) = front ++ principalBase rest := by
  induction front with
  | nil => rfl
  | cons c front ih =>
    have htail : '(' ∉ front := fun hmem => hfront (List.mem_cons_of_mem c hmem)
    have hhead : (front ++ rest).head? ≠ some '(' := by
      cases front with
      | nil => exact hrest
      | cons d front =>
        intro hd
        cases hd
        exact htail List.mem_cons_self
    have hnot : ¬noteMark.isPrefixOf (c :: (front ++ rest)) = true := by
      rw [not_noteMark hhead]
      exact Bool.false_ne_true
    rw [List.cons_append, principalBase_cons, if_neg hnot, ih htail]
    rfl

/-- Where a name ends or a note begins. -/
def AtNote (rest : List Char) : Prop := rest = [] ∨ noteMark <+: rest

theorem AtNote.head {rest : List Char} (h : AtNote rest) : rest.head? ≠ some '(' := by
  rcases h with rfl | ⟨note, rfl⟩
  · nofun
  · show some ' ' ≠ some '('
    decide

theorem AtNote.principalBase {rest : List Char} (h : AtNote rest) : principalBase rest = [] := by
  rcases h with rfl | hmark
  · rfl
  · cases rest with
    | nil => rfl
    | cons c rest => rw [principalBase_cons, if_pos (List.isPrefixOf_iff_prefix.mpr hmark)]

/-- A name is its base and then a note, or nothing. -/
theorem exists_base_append (cs : List Char) : ∃ rest, cs = principalBase cs ++ rest ∧ AtNote rest := by
  induction cs with
  | nil => exact ⟨[], rfl, Or.inl rfl⟩
  | cons c cs ih =>
    rw [principalBase_cons]
    split
    · rename_i hmark
      exact ⟨c :: cs, rfl, Or.inr (List.isPrefixOf_iff_prefix.mp hmark)⟩
    · obtain ⟨rest, hrest, hnote⟩ := ih
      refine ⟨rest, ?_, hnote⟩
      rw [List.cons_append, ← hrest]

/-- A base without a parenthesis, in front of where a note begins. -/
theorem principalBase_of_atNote {front rest : List Char} (hfront : '(' ∉ front) (hrest : AtNote rest) :
    principalBase (front ++ rest) = front := by
  rw [principalBase_append hfront hrest.head, hrest.principalBase, List.append_nil]

/-! ## The checks -/

/-- What is accepted as the name of a requester, in any case, is accepted as that of a resolver. -/
theorem checkResolvedBy_of_caseless {requester resolver : String}
    (hok : checkRequestedBy requester = .ok ())
    (hsame : SameCaseless resolver.toList requester.toList) : checkResolvedBy resolver = .ok () := by
  obtain ⟨hempty, hlen, hcontrol, hformat⟩ := checkNonEmptyText_ok.mp hok
  have hsize : resolver.utf8ByteSize = requester.utf8ByteSize := by
    rw [← String.ofList_toList (s := resolver), ← String.ofList_toList (s := requester),
      String.utf8ByteSize_ofList, String.utf8ByteSize_ofList, hsame.utf8Len_eq]
  refine checkNonEmptyText_ok.mpr ⟨?_, ?_, ?_, ?_⟩
  · rw [String.isEmpty, hsize]
    exact hempty
  · rw [hsize]
    exact hlen
  · rw [hsame.any_eq (b := false) fun c hc =>
      forall_letter (P := fun c => isControl c = false) (by decide) hc]
    exact hcontrol
  · rw [hsame.any_eq (b := false) fun c hc =>
      forall_letter (P := fun c => isUnicodeFormatChar c = false) (by decide) hc]
    exact hformat

section Resolver

variable {env : Env} {resolution : Resolution} {requester resolver : String}

/-- The base of a name. -/
def baseOf (name : String) : List Char := principalBase name.toList

/-- **What the comparison lets pass.** -/
theorem checkResolver_ok :
    checkResolver env resolution (some requester) resolver = .ok () ↔
      '(' ∉ baseOf requester ∧ '(' ∉ baseOf resolver ∧
        (normalizePrincipal env (baseOf requester) = [] ∨
          normalizePrincipal env (baseOf requester) = "anonymous".toList ∨
          normalizePrincipal env (baseOf requester) ≠ normalizePrincipal env (baseOf resolver)) := by
  simp only [checkResolver, baseOf]
  split
  · rename_i hparen
    refine iff_of_false nofun ?_
    rintro ⟨hrequester, hresolver, -⟩
    simp [hrequester, hresolver] at hparen
  · rename_i hparen
    simp only [Bool.or_eq_true, List.contains_iff_mem, not_or] at hparen
    split
    · rename_i hsame
      refine iff_of_false nofun ?_
      rintro ⟨-, -, hpass⟩
      simp only [Bool.and_eq_true, Bool.not_eq_true', List.isEmpty_eq_false_iff,
        decide_eq_true_eq] at hsame
      obtain ⟨⟨hne, hanonymous⟩, heq⟩ := hsame
      rcases hpass with hempty | hname | hdiffer
      · exact hne hempty
      · exact hanonymous hname
      · exact hdiffer heq
    · rename_i hpass
      refine iff_of_true rfl ⟨hparen.1, hparen.2, ?_⟩
      simp only [Bool.and_eq_true, Bool.not_eq_true', List.isEmpty_eq_false_iff,
        decide_eq_true_eq] at hpass
      by_contra hself
      rw [not_or, not_or, not_not] at hself
      exact hpass ⟨⟨hself.1, hself.2.1⟩, hself.2.2⟩

variable {st : State} {id : String} {a : PendingApproval} {now now' : Int} {outcome : PersistOutcome}

/-- What fails a check is refused. -/
theorem resolve_refused (ha : st.pending.lookup id = some a) (hpending : a.status = .pending)
    (hcheck : checkResolvedBy resolver = .ok () →
      checkResolver env resolution a.requestedBy resolver ≠ .ok ()) :
    ∃ e, st.resolve env resolution id resolver now now' outcome = (st, .error e) := by
  rw [State.resolve]
  split
  · rename_i e _
    exact ⟨e, rfl⟩
  · rename_i hresolver
    rw [ha]
    dsimp only
    rw [if_neg (fun hne => hne hpending)]
    split
    · rename_i e _
      exact ⟨e, rfl⟩
    · rename_i hok
      exact absurd hok (hcheck hresolver)

/-- **What passes the checks is decided.** -/
theorem resolve_of_checks (ha : st.pending.lookup id = some a) (hpending : a.status = .pending)
    (hresolver : checkResolvedBy resolver = .ok ())
    (hcheck : checkResolver env resolution a.requestedBy resolver = .ok ())
    (hfresh : ¬a.expiresAt < now) :
    ∃ b, (st.resolve env resolution id resolver now now' .ok).2 = .ok b := by
  rw [State.resolve, hresolver, ha]
  dsimp only
  rw [if_neg (fun hne => hne hpending), hcheck]
  dsimp only
  rw [if_neg hfresh]
  exact ⟨_, rfl⟩

end Resolver

/-! ## Own requests -/

/-- The names of a requester: its own name in any ASCII case, and its own name with a note. -/
inductive OwnName (requester resolver : String) : Prop
  | caseless (h : SameCaseless resolver.toList requester.toList)
  | noted (note : List Char) (hmark : noteMark <+: note)
      (h : resolver.toList = requester.toList ++ note)

/-- **The specification.** -/
def SelfResolutionRefused (env : Env) (requester : String) : Prop :=
  ∀ (st : State) (id : String) (a : PendingApproval) (resolution : Resolution) (resolver : String)
    (now now' : Int) (outcome : PersistOutcome),
    st.pending.lookup id = some a → a.status = .pending → a.requestedBy = some requester →
    OwnName requester resolver →
      ∃ st' e b, st.resolve env resolution id resolver now now' outcome = (st', .error e) ∧
        st'.pending.lookup id = some b ∧ b.status = .pending

/-- The normal form does not depend on the case of ASCII letters. -/
def CaseBlind (env : Env) (base : List Char) : Prop :=
  ∀ cs, SameCaseless cs base → normalizePrincipal env cs = normalizePrincipal env base

section Own

variable {env : Env} {requester resolver : String}

/-- A mark that is not in lower case is none, and leaves its parenthesis in the base. -/
theorem paren_mem_of_not_atNote {back note : List Char} (hback : SameCaseless back (noteMark ++ note))
    (hnot : ¬AtNote back) : back.head? ≠ some '(' ∧ '(' ∈ principalBase back := by
  cases back with
  | nil => exact absurd (Or.inl rfl) hnot
  | cons c back =>
    cases back with
    | nil => cases (List.cons.inj hback).2
    | cons d back =>
      obtain ⟨hc, htail⟩ := List.cons.inj hback
      obtain ⟨hd, -⟩ := List.cons.inj htail
      have hspace : c = ' ' := eq_of_toLower_eq rfl hc
      have hparen : d = '(' := eq_of_toLower_eq rfl hd
      subst hspace hparen
      have hmark : ¬noteMark.isPrefixOf (' ' :: '(' :: back) = true := fun hmark =>
        hnot (Or.inr (List.isPrefixOf_iff_prefix.mp hmark))
      have hmark' : ¬noteMark.isPrefixOf ('(' :: back) = true := Bool.false_ne_true
      refine ⟨(Option.some_injective _).ne (by decide), ?_⟩
      rw [principalBase_cons, if_neg hmark, principalBase_cons, if_neg hmark']
      exact List.mem_cons_of_mem _ List.mem_cons_self

/-- A name of the requester has a parenthesis in its base, or the same base but for the case. -/
theorem baseOf_ownName (hparen : '(' ∉ baseOf requester) (h : OwnName requester resolver) :
    '(' ∈ baseOf resolver ∨ SameCaseless (baseOf resolver) (baseOf requester) := by
  obtain ⟨rest, hrequester, hnote⟩ := exists_base_append requester.toList
  change requester.toList = baseOf requester ++ rest at hrequester
  cases h with
  | noted note hmark h =>
    -- what follows the base is still a note
    have hrest : AtNote (rest ++ note) := by
      rcases hnote with rfl | hmark'
      · exact Or.inr hmark
      · exact Or.inr (hmark'.trans (List.prefix_append rest note))
    have hbase : baseOf resolver = baseOf requester := by
      rw [baseOf, h, hrequester, List.append_assoc]
      exact principalBase_of_atNote hparen hrest
    rw [hbase]
    exact Or.inr (SameCaseless.refl _)
  | caseless h =>
    rw [hrequester] at h
    obtain ⟨front, back, hresolver, hfront, hback⟩ := h.exists_append
    have hparen' : '(' ∉ front := fun hmem => hparen (hfront.mem rfl hmem)
    by_cases hatNote : AtNote back
    · have hbase : baseOf resolver = front := by
        rw [baseOf, hresolver]
        exact principalBase_of_atNote hparen' hatNote
      rw [hbase]
      exact Or.inr hfront
    · -- there is a mark, but not in lower case
      rcases hnote with rfl | ⟨note, rfl⟩
      · exact absurd (Or.inl (List.map_eq_nil_iff.mp hback)) hatNote
      · obtain ⟨hhead, hmem⟩ := paren_mem_of_not_atNote hback hatNote
        refine Or.inl ?_
        rw [baseOf, hresolver, principalBase_append hparen' hhead]
        exact List.mem_append_right front hmem

end Own

/-- A store with one pending request. -/
def requestedState (requester : String) : State :=
  ⟨AList.insert "a" ({ sampleRequest with requestedBy := some requester }.approval sampleConfig "a" 0) ∅,
    ∅, .empty⟩

/-- What passes the checks is decided, in a store where the request is pending. -/
theorem not_refused_of_checks {env : Env} {requester resolver : String}
    (hown : OwnName requester resolver) (hresolver : checkResolvedBy resolver = .ok ())
    (hcheck : checkResolver env .approve (some requester) resolver = .ok ()) :
    ¬SelfResolutionRefused env requester := by
  intro h
  obtain ⟨st', e, b, herror, -⟩ :=
    h (requestedState requester) "a" _ .approve resolver 0 0 .ok (AList.lookup_insert _) rfl rfl hown
  have hdecided : ∃ c, ((requestedState requester).resolve env .approve "a" resolver 0 0 .ok).2 = .ok c :=
    resolve_of_checks (AList.lookup_insert _) rfl hresolver hcheck
      (show ¬0 + sampleConfig.defaultTtl < 0 by decide)
  obtain ⟨c, hc⟩ := hdecided
  rw [herror] at hc
  cases hc

/-- **Who may decide on their own request.** -/
theorem selfResolutionRefused_iff (env : Env) {requester : String}
    (hok : checkRequestedBy requester = .ok ())
    (hanonymous : normalizePrincipal env (baseOf requester) ≠ "anonymous".toList) :
    SelfResolutionRefused env requester ↔
      '(' ∈ baseOf requester ∨
        (normalizePrincipal env (baseOf requester) ≠ [] ∧ CaseBlind env (baseOf requester)) := by
  constructor
  · intro h
    by_cases hparen : '(' ∈ baseOf requester
    · exact Or.inl hparen
    · refine Or.inr ⟨fun hempty => ?_, fun cs hcs => ?_⟩
      · -- an empty normal form: the requester comes back under the same name
        refine not_refused_of_checks (.caseless (SameCaseless.refl _))
          (checkResolvedBy_of_caseless hok (SameCaseless.refl _)) ?_ h
        exact checkResolver_ok.mpr ⟨hparen, hparen, Or.inl hempty⟩
      · -- a base in another case that normalizes differently
        by_contra hdiffer
        obtain ⟨rest, hrequester, hnote⟩ := exists_base_append requester.toList
        change requester.toList = baseOf requester ++ rest at hrequester
        let resolver := String.ofList (cs ++ rest)
        have hlist : resolver.toList = cs ++ rest := String.toList_ofList
        have hsame : SameCaseless resolver.toList requester.toList := by
          rw [hlist, hrequester]
          exact hcs.append (SameCaseless.refl rest)
        have hparen' : '(' ∉ cs := fun hmem => hparen (hcs.mem rfl hmem)
        have hbase : baseOf resolver = cs := by
          rw [baseOf, hlist]
          exact principalBase_of_atNote hparen' hnote
        refine not_refused_of_checks (.caseless hsame) (checkResolvedBy_of_caseless hok hsame) ?_ h
        refine checkResolver_ok.mpr ⟨hparen, ?_, Or.inr (Or.inr ?_)⟩
        · rw [hbase]
          exact hparen'
        · rw [hbase]
          exact Ne.symm hdiffer
  · intro h st id a resolution resolver now now' outcome ha hpending hrequester hown
    have hrefused : ∃ e, st.resolve env resolution id resolver now now' outcome = (st, .error e) := by
      refine resolve_refused ha hpending fun _ hpass => ?_
      rw [hrequester] at hpass
      obtain ⟨hparen, hparen', hdiffer⟩ := checkResolver_ok.mp hpass
      rcases h with hmem | ⟨hne, hblind⟩
      · exact hparen hmem
      · rcases baseOf_ownName hparen hown with hmem | hsame
        · exact hparen' hmem
        · rcases hdiffer with hempty | hname | hdiffer
          · exact hne hempty
          · exact hanonymous hname
          · exact hdiffer (hblind _ hsame).symm
    obtain ⟨e, he⟩ := hrefused
    exact ⟨st, e, a, he, ha, hpending⟩

/-! ## ASCII names -/

section Ascii

variable {env : Env} {base : List Char}

theorem normalizePrincipal_ascii (hnfkc : ∀ cs, IsAsciiText cs → env.nfkc cs = cs)
    (hascii : IsAsciiText base) :
    normalizePrincipal env base = (base.map Char.toLower).map normalizeHomoglyph := by
  rw [normalizePrincipal, hnfkc base hascii]
  refine congrArg (List.map normalizeHomoglyph) ?_
  have hchars : ∀ c ∈ base, (if isAscii c then [c.toLower] else env.lowerChar c) = [c.toLower] :=
    fun c hc => if_pos (hascii c hc)
  rw [List.flatMap_congr hchars]
  exact List.map_eq_flatMap.symm

/-- **The case of an ASCII name does not matter**, as long as NFKC leaves ASCII text alone. -/
theorem caseBlind_of_ascii (hnfkc : ∀ cs, IsAsciiText cs → env.nfkc cs = cs)
    (hascii : IsAsciiText base) : CaseBlind env base := by
  intro cs hcs
  have hascii' : IsAsciiText cs := by
    have hany : cs.any (fun c => !isAscii c) = base.any (fun c => !isAscii c) :=
      hcs.any_eq (b := false) fun c hc => forall_letter (P := fun c => (!isAscii c) = false) (by decide) hc
    have hbase : base.any (fun c => !isAscii c) = false := by
      simpa [IsAsciiText] using hascii
    rw [hbase] at hany
    simpa [IsAsciiText] using hany
  rw [normalizePrincipal_ascii hnfkc hascii, normalizePrincipal_ascii hnfkc hascii', hcs]

end Ascii

theorem selfResolutionRefused_iff_alice :
    checkRequestedBy "alice" = .ok () ∧
      normalizePrincipal (plainEnv []) (baseOf "alice") ≠ "anonymous".toList ∧
      SelfResolutionRefused (plainEnv []) "alice" := by
  have hok : checkRequestedBy "alice" = .ok () := by decide
  have hanonymous : normalizePrincipal (plainEnv []) (baseOf "alice") ≠ "anonymous".toList := by decide
  refine ⟨hok, hanonymous, (selfResolutionRefused_iff (plainEnv []) hok hanonymous).mpr (Or.inr ?_)⟩
  refine ⟨by decide, caseBlind_of_ascii (fun cs _ => rfl) ?_⟩
  have hall : (baseOf "alice").all isAscii = true := by decide
  exact fun c hc => List.all_eq_true.mp hall c hc

/-- NFKC puts `h` and the line below it together; there is no such character for the capital letter. -/
def lineBelowEnv : Env :=
  { plainEnv [] with
    nfkc := fun cs => if cs = ['h', Char.ofNat 0x331] then [Char.ofNat 0x1E96] else cs }

/-- Two requesters who decide on their own request: one whose name is a note and nothing else, and one
    who comes back in capital letters. -/
theorem own_request_decided :
    (checkRequestedBy " (note:x" = .ok () ∧
      normalizePrincipal (plainEnv []) (baseOf " (note:x") ≠ "anonymous".toList ∧
      ¬SelfResolutionRefused (plainEnv []) " (note:x") ∧
    (checkRequestedBy (String.ofList ['h', Char.ofNat 0x331]) = .ok () ∧
      normalizePrincipal lineBelowEnv (baseOf (String.ofList ['h', Char.ofNat 0x331])) ≠
        "anonymous".toList ∧
      ¬SelfResolutionRefused lineBelowEnv (String.ofList ['h', Char.ofNat 0x331])) := by
  constructor
  · refine ⟨by decide, by decide, ?_⟩
    exact not_refused_of_checks (.caseless (SameCaseless.refl _)) (by decide) (by decide)
  · refine ⟨by decide, by decide, ?_⟩
    have hown : OwnName (String.ofList ['h', Char.ofNat 0x331])
        (String.ofList ['H', Char.ofNat 0x331]) := by
      refine .caseless ?_
      decide
    exact not_refused_of_checks hown (by decide) (by decide)

end Vellaveto.Approval
