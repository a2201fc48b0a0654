/-
  DOMAIN AND PATH PATTERNS OF ABAC RESOURCES (`compile_resource`, `matches_resource` of
  `vellaveto-engine/src/abac.rs`).

  A pattern is folded by `normalize_full` when the policy is compiled.  The domain of an action goes
  through IDNA instead, and its path through path normalization; neither is folded.  So pattern and value
  are compared in different normal forms.

    1. **Literal paths** — `literal_path_iff`: a pattern without wildcards matches its own path exactly if
       folding leaves it as it is.
    2. **Domains** — `domain_patterns_cover`: on which patterns a resource is never narrower than
       `match_domain_pattern` on the same text.  A wildcard `*.` must reach the apex, and a name its own
       ASCII form.
-/
import Vellaveto.Engine.ForbidInDoubt

namespace Vellaveto.Abac

open Vellaveto.Lib

theorem compile_of_no_star (ext : Externals) {pattern : String} (h : '*' ∉ pattern.toList) :
    PatternMatcher.compile ext pattern = .exact (ext.normalizeFull pattern) := by
  have hpre : stripPrefix ['*'] pattern.toList = none := by
    rw [stripPrefix_eq_none_iff]
    intro hpre
    exact h (hpre.subset List.mem_cons_self)
  have hsuf : stripSuffix ['*'] pattern.toList = none := by
    rw [stripSuffix, if_neg]
    intro hsuf
    exact h ((List.isSuffixOf_iff_suffix.mp hsuf).subset List.mem_cons_self)
  have hne : pattern.toList ≠ ['*'] := by
    intro heq
    rw [heq] at h
    exact h List.mem_cons_self
  rw [PatternMatcher.compile]
  simp [hne, hpre, hsuf, h]

/-! ### Literal paths -/

/-- An absolute path that is normalized and has no glob metacharacter. -/
structure LiteralPath (q : String) : Prop where
  absolute : q.toList.head? = some '/'
  normalized : Path.normalizePathBounded q Path.defaultMaxPathDecodeIterations = .ok q
  literal : hasGlobMeta q = false

/-- What a resource with this one path pattern asks of an action. -/
theorem matchesResource_literal {ext : AbacExternals} {q : String} (hq : LiteralPath q)
    (action : Action) :
    matchesResource ext (compileResource ext { pathPatterns := [q] }) action =
      action.targetPaths.any (pathMatches [.simple (.exact (ext.normalizeFull q))]) := by
  have hmeta := hq.literal
  rw [hasGlobMeta, Bool.or_eq_false_iff, Bool.or_eq_false_iff] at hmeta
  have hstar : '*' ∉ q.toList := by simpa using hmeta.1.1
  have hcompile : CompiledPathMatcher.compile ext q =
      some (.simple (.exact (ext.normalizeFull q))) := by
    rw [CompiledPathMatcher.compile, hq.literal, compile_of_no_star ext.toExternals hstar]
    rfl
  simp [matchesResource, compileResource, hcompile]

/-- **A literal path pattern** matches every action that has the path among its targets, exactly if
    `normalize_full` leaves it as it is. -/
theorem literal_path_iff (ext : AbacExternals) (q : String) (hq : LiteralPath q) :
    (∀ action : Action, q ∈ action.targetPaths →
        matchesResource ext (compileResource ext { pathPatterns := [q] }) action = true) ↔
      ext.normalizeFull q = q := by
  have hself : pathMatches [.simple (.exact (ext.normalizeFull q))] q =
      (ext.normalizeFull q == q) := by
    rw [pathMatches, hq.normalized]
    simp [CompiledPathMatcher.matchesPath, PatternMatcher.matchesValue]
  constructor
  · intro h
    have hmatch := h { Action.new "" "" .null with targetPaths := [q] } List.mem_cons_self
    rw [matchesResource_literal hq, List.any_cons, hself] at hmatch
    simpa using hmatch
  · intro hfold action hmem
    rw [matchesResource_literal hq, List.any_eq_true]
    exact ⟨q, hmem, by rw [hself, hfold, beq_self_eq_true]⟩

theorem literal_path_passwd :
    LiteralPath "/etc/passwd" ∧
      ((∀ action : Action, "/etc/passwd" ∈ action.targetPaths →
          matchesResource plainAbacExternals
            (compileResource plainAbacExternals { pathPatterns := ["/etc/passwd"] }) action = true) ↔
        plainAbacExternals.normalizeFull "/etc/passwd" = "/etc/passwd") := by
  have hq : LiteralPath "/etc/passwd" := ⟨by decide, by decide +kernel, by decide⟩
  exact ⟨hq, literal_path_iff plainAbacExternals "/etc/passwd" hq⟩

/-- A path with an upper-case letter is not matched by itself as a pattern. -/
theorem literal_path_upper_case :
    LiteralPath "/etc/Passwd" ∧
      ¬ ∀ action : Action, "/etc/Passwd" ∈ action.targetPaths →
        matchesResource plainAbacExternals
          (compileResource plainAbacExternals { pathPatterns := ["/etc/Passwd"] }) action = true := by
  refine ⟨⟨by decide, by decide +kernel, by decide⟩, fun h => ?_⟩
  have hmatch := h { Action.new "" "" .null with targetPaths := ["/etc/Passwd"] } List.mem_cons_self
  revert hmatch
  decide +kernel

/-! ### Domains -/

section Domains

variable (ext : AbacExternals) (p : String)

/-- A resource with this pattern matches every domain that `match_domain_pattern` matches with it. -/
def NeverNarrower : Prop :=
  ∀ (d : String) (action : Action), Domain.matchDomainPattern ext.toExternals d p = true →
    action.targetDomains = [d] →
    matchesResource ext (compileResource ext { domainPatterns := [p] }) action = true

/-- What the folded pattern has to do with the normal form of its text: without a wildcard it matches it,
    with one it is the end of the apex, or matches everything. -/
def Covered : Prop :=
  ∀ n, Domain.normalizeDomainForMatch ext.toExternals p = some n →
    match stripPrefix ['*', '.'] n.toList with
    | none => (PatternMatcher.compile ext.toExternals p).matchesValue n = true
    | some apex => PatternMatcher.compile ext.toExternals p = .any ∨
        ∃ s, PatternMatcher.compile ext.toExternals p = .endsWith s ∧ s.toList <:+ apex

/-- The wildcard of the normal form is written in the pattern. -/
def WildcardWritten : Prop :=
  ∀ n, Domain.normalizeDomainForMatch ext.toExternals p = some n → ['*', '.'] <+: n.toList →
    ['*', '.'] <+: p.toList

variable {ext p}

theorem matchesResource_domain {d : String} {action : Action} (h : action.targetDomains = [d]) :
    matchesResource ext (compileResource ext { domainPatterns := [p] }) action =
      domainMatches ext [.compile ext.toExternals p] d := by
  simp [matchesResource, compileResource, h]

/-- `match_domain_pattern` at normal forms. -/
theorem matchDomainPattern_eq_true_iff {d : String} :
    Domain.matchDomainPattern ext.toExternals d p = true ↔
      ∃ m n, Domain.normalizeDomainForMatch ext.toExternals d = some m ∧
        Domain.normalizeDomainForMatch ext.toExternals p = some n ∧
        match stripPrefix ['*', '.'] n.toList with
        | none => m = n
        | some apex => m.toList = apex ∨ '.' :: apex <:+ m.toList := by
  unfold Domain.matchDomainPattern
  cases Domain.normalizeDomainForMatch ext.toExternals d with
  | none => simp
  | some m =>
    cases Domain.normalizeDomainForMatch ext.toExternals p with
    | none => simp
    | some n =>
      cases hwild : stripPrefix ['*', '.'] n.toList with
      | none => simp [hwild]
      | some apex => simp [hwild]

/-- **A pattern that is covered is never narrower.** -/
theorem neverNarrower_of_covered (h : Covered ext p) : NeverNarrower ext p := by
  intro d action hmatch haction
  obtain ⟨m, n, hm, hn, hcase⟩ := matchDomainPattern_eq_true_iff.mp hmatch
  have hcovered := h n hn
  rw [matchesResource_domain haction, domainMatches, hm]
  dsimp only
  rw [List.any_cons, List.any_nil, Bool.or_false]
  cases hwild : stripPrefix ['*', '.'] n.toList with
  | none =>
    rw [hwild] at hcase hcovered
    rw [show m = n from hcase]
    exact hcovered
  | some apex =>
    rw [hwild] at hcase hcovered
    rcases hcovered with hany | ⟨s, hs, hsuffix⟩
    · rw [hany]
      rfl
    · rw [hs]
      apply List.isSuffixOf_iff_suffix.mpr
      rcases hcase with rfl | hend
      · exact hsuffix
      · exact hsuffix.trans ((List.suffix_cons '.' apex).trans hend)

/-- A wildcard stands aside while the rest of the pattern is normalized. -/
theorem normalizeDomainForMatch_wildcard (ext : Externals) {rest : List Char} (hstar : '*' ∉ rest)
    (hrest : trimEndMatches '.' rest ≠ []) :
    Domain.normalizeDomainForMatch ext (String.ofList ('*' :: '.' :: rest)) =
      (Domain.normalizeDomainForMatch ext (String.ofList rest)).map ("*." ++ ·) := by
  have htrim : trimEndMatches '.' ('*' :: '.' :: rest) = '*' :: '.' :: trimEndMatches '.' rest :=
    (trimEndMatches_append '.' ['*', '.'] rest).trans (if_neg hrest)
  have hstar' : '*' ∉ trimEndMatches '.' rest := fun hmem => hstar (trimEndMatches_subset '.' rest hmem)
  unfold Domain.normalizeDomainForMatch
  rw [String.toList_ofList, String.toList_ofList, htrim]
  generalize trimEndMatches '.' rest = r at hstar'
  have hnone : stripPrefix ['*', '.'] r = none := by
    rw [stripPrefix_eq_none_iff]
    intro hpre
    exact hstar' (hpre.subset List.mem_cons_self)
  have hsome : stripPrefix ['*', '.'] ('*' :: '.' :: r) = some r := stripPrefix_eq_some_iff.mpr rfl
  have hall : ('*' :: '.' :: r).all Domain.isAsciiLowerDomainChar =
      r.all Domain.isAsciiLowerDomainChar := rfl
  simp only [hnone, hsome, hall]
  by_cases hlower : r.all Domain.isAsciiLowerDomainChar = true
  · rw [if_pos hlower, if_pos hlower, Option.map_some]
    exact congrArg some (String.toList_inj.mp (by simp))
  · rw [if_neg hlower, if_neg hlower]
    split
    · rfl
    · cases ext.domainToAscii (String.ofList r) with
      | some ascii => simp
      | none =>
        dsimp only
        by_cases hascii : r.all isAscii = true
        · by_cases hchars : r.all Domain.isDomainChar = true
          · simp [hascii, hchars]
          · simp [hascii, hchars]
        · simp [hascii]

/-- The compiled form of a pattern that begins with `*.`. -/
theorem compile_wildcard (ext : Externals) {rest : List Char} (hp : p.toList = '*' :: '.' :: rest) :
    PatternMatcher.compile ext p = if '*' ∈ rest then .any
      else .endsWith (ext.normalizeFull (String.ofList ('.' :: rest))) := by
  rw [PatternMatcher.compile, hp]
  simp [stripPrefix_singleton]

/-- A pattern that has a normal form beginning with `*.`, and is written so, has the rest as apex. -/
theorem normalize_apex {n : String} {rest apex : List Char} (hstar : '*' ∉ rest)
    (hn : Domain.normalizeDomainForMatch ext.toExternals (String.ofList ('*' :: '.' :: rest)) = some n)
    (hapex : n.toList = '*' :: '.' :: apex) :
    Domain.normalizeDomainForMatch ext.toExternals (String.ofList rest) =
      some (String.ofList apex) := by
  have hrest : trimEndMatches '.' rest ≠ [] := by
    intro hnil
    have htrim : trimEndMatches '.' ('*' :: '.' :: rest) = ['*'] :=
      (trimEndMatches_append '.' ['*', '.'] rest).trans (if_pos hnil)
    unfold Domain.normalizeDomainForMatch at hn
    rw [String.toList_ofList, htrim] at hn
    have hstar : n = String.ofList ['*'] := (Option.some.inj hn).symm
    rw [hstar, String.toList_ofList] at hapex
    cases hapex
  rw [normalizeDomainForMatch_wildcard ext.toExternals hstar hrest] at hn
  obtain ⟨y, hy, rfl⟩ := Option.map_eq_some_iff.mp hn
  rw [hy]
  have hlist : y.toList = apex := by simpa using hapex
  rw [← hlist, String.ofList_toList]

/-- **A pattern that is never narrower is covered**, if its wildcard is written in it. -/
theorem covered_of_neverNarrower (hwritten : WildcardWritten ext p) (h : NeverNarrower ext p) :
    Covered ext p := by
  intro n hn
  have hmatches : ∀ d m, Domain.normalizeDomainForMatch ext.toExternals d = some m →
      Domain.matchDomainPattern ext.toExternals d p = true →
      (PatternMatcher.compile ext.toExternals p).matchesValue m = true := by
    intro d m hm hmatch
    have hresource := h d { Action.new "" "" .null with targetDomains := [d] } hmatch rfl
    rw [matchesResource_domain rfl, domainMatches, hm] at hresource
    simpa using hresource
  cases hwild : stripPrefix ['*', '.'] n.toList with
  | none =>
    -- the pattern is a domain that it matches
    refine hmatches p n hn (matchDomainPattern_eq_true_iff.mpr ⟨n, n, hn, hn, ?_⟩)
    rw [hwild]
  | some apex =>
    have hapex := stripPrefix_eq_some_iff.mp hwild
    obtain ⟨rest, hrest⟩ := hwritten n hn ⟨apex, hapex.symm⟩
    replace hrest : p.toList = '*' :: '.' :: rest := hrest.symm
    show PatternMatcher.compile ext.toExternals p = .any ∨ _
    rw [compile_wildcard ext.toExternals hrest]
    by_cases hstar : '*' ∈ rest
    · exact .inl (if_pos hstar)
    · -- the apex is a domain that it matches
      have hp : p = String.ofList ('*' :: '.' :: rest) := by rw [← hrest, String.ofList_toList]
      have hnormal := normalize_apex hstar (hp ▸ hn) hapex
      have hmatch := hmatches (String.ofList rest) _ hnormal (matchDomainPattern_eq_true_iff.mpr
        ⟨_, n, hnormal, hn, by rw [hwild]; exact .inl (String.toList_ofList)⟩)
      rw [compile_wildcard ext.toExternals hrest, if_neg hstar, PatternMatcher.matchesValue,
        String.toList_ofList] at hmatch
      exact .inr ⟨_, if_neg hstar, List.isSuffixOf_iff_suffix.mp hmatch⟩

end Domains

/-- **On which patterns a resource is never narrower** than `match_domain_pattern` on the same text: on
    those that are covered, and on no others whose wildcard is written in them. -/
theorem domain_patterns_cover (ext : AbacExternals) (p : String) :
    (Covered ext p → NeverNarrower ext p) ∧
      (WildcardWritten ext p → NeverNarrower ext p → Covered ext p) :=
  ⟨neverNarrower_of_covered, covered_of_neverNarrower⟩

/-- The externals, with the ASCII form of one internationalized name. -/
def muenchenExternals : AbacExternals :=
  { plainAbacExternals with
    domainToAscii := fun s => if s = "münchen.de" then some "xn--mnchen-3ya.de" else some (toAsciiLowercase s) }

/-- A name that is not ASCII does not match itself, and a wildcard does not match the apex. -/
theorem domain_patterns_narrower :
    ¬ NeverNarrower muenchenExternals "münchen.de" ∧
      ¬ NeverNarrower muenchenExternals "*.example.com" := by
  constructor
  · intro h
    have hmatch := h "münchen.de"
      { Action.new "http" "get" .null with targetDomains := ["münchen.de"] } (by decide +kernel) rfl
    revert hmatch
    decide +kernel
  · intro h
    have hmatch := h "example.com"
      { Action.new "http" "get" .null with targetDomains := ["example.com"] } (by decide +kernel) rfl
    revert hmatch
    decide +kernel

end Vellaveto.Abac
