/-
  WHICH PART OF A URL DECIDES THE DOMAIN (`extract_domain` of `vellaveto-engine/src/domain.rs`).

  `extract_domain` cuts the authority out of a URL before it looks for userinfo and port, so that nothing
  in the path, the query or the fragment is taken for them.  The scheme, however, is looked for in the
  WHOLE text: `find("://")`.  A URL that begins with a scheme has its first `://` there.  One that does
  not (`evil.com/?next=https://safe.com`) can have its first `://` behind the authority, and the domain
  is then that of whatever follows.

    1. **The scheme** — `afterScheme_append`: with a scheme in front, the first `://` is its end.
    2. **The authority** — `authority_append`: it ends where the tail begins.
    3. **The tail** — `tail_ignored_iff`: nothing behind the authority changes the domain exactly if
       there is a scheme, or no `://`.
-/
import Vellaveto.Engine.Domain

namespace Vellaveto.Domain

open Vellaveto.Lib

/-! ### Parts of a URL -/

/-- `://`. -/
def separator : List Char := [':', '/', '/']

/-- What ends an authority; a backslash counts as a slash. -/
def IsTerminator (c : Char) : Prop := c = '/' ∨ c = '?' ∨ c = '#' ∨ c = '\\'

instance : DecidablePred IsTerminator := fun _ => inferInstanceAs (Decidable (_ ∨ _ ∨ _ ∨ _))

/-- A text in which no authority ends. -/
def IsAuthority (a : List Char) : Prop := ∀ c ∈ a, ¬ IsTerminator c

/-- What can stand behind an authority. -/
def IsTail (tail : List Char) : Prop := ∀ c ∈ tail.head?, IsTerminator c

/-- A scheme with its `://`. -/
def IsSchemePrefix (pre : List Char) : Prop :=
  ∃ scheme, ¬ separator <:+: scheme ∧ pre = scheme ++ separator

/-- What can stand in front of an authority. -/
def IsUrlPrefix (pre : List Char) : Prop := pre = [] ∨ pre = ['/', '/'] ∨ IsSchemePrefix pre

/-- The text up to the end of the first `://`, or all of it. -/
def upToSeparator (cs : List Char) : List Char :=
  match afterScheme cs with
  | some rest => cs.take (cs.length - rest.length)
  | none => cs

/-! ### The scheme -/

section Scheme

variable {cs front rest : List Char}

theorem afterScheme_cons (c : Char) (cs : List Char) :
    afterScheme (c :: cs) =
      if separator <+: c :: cs then some (cs.drop 2) else afterScheme cs := by
  show (if separator.isPrefixOf (c :: cs) = true then _ else _) = _
  by_cases hstart : separator <+: c :: cs
  · rw [if_pos (List.isPrefixOf_iff_prefix.mpr hstart), if_pos hstart]
  · rw [if_neg (fun h => hstart (List.isPrefixOf_iff_prefix.mp h)), if_neg hstart]

/-- No scheme is found where there is no `://`. -/
theorem afterScheme_eq_none_iff : afterScheme cs = none ↔ ¬ separator <:+: cs := by
  induction cs with
  | nil => simp [afterScheme, separator]
  | cons c cs ih =>
    rw [afterScheme_cons, List.infix_cons_iff]
    split
    · rename_i hstart
      simp [hstart]
    · rename_i hstart
      simp [hstart, ih]

/-- A `://` that begins in a text in front of a `://` ends in it. -/
theorem not_starts_with_separator (h : ¬ separator <:+: front) (hne : front ≠ []) :
    ¬ separator <+: front ++ (separator ++ rest) := by
  intro hstart
  match front, hne with
  | [c], _ => simp [separator, List.cons_prefix_cons] at hstart
  | [c, d], _ => simp [separator, List.cons_prefix_cons] at hstart
  | c :: d :: e :: front, _ =>
    simp only [separator, List.cons_append, List.cons_prefix_cons, List.nil_prefix, and_true] at hstart
    obtain ⟨rfl, rfl, rfl⟩ := hstart
    exact h ⟨[], front, rfl⟩

/-- **A scheme in front** is the one that is found. -/
theorem afterScheme_append (h : ¬ separator <:+: front) :
    afterScheme (front ++ (separator ++ rest)) = some rest := by
  induction front with
  | nil => rfl
  | cons c front ih =>
    have hstart := @not_starts_with_separator _ rest h (List.cons_ne_nil c front)
    rw [List.cons_append] at hstart ⊢
    rw [afterScheme_cons, if_neg hstart]
    exact ih fun hin => h (List.infix_cons hin)

/-- The first `://` has none in front of it. -/
theorem exists_front_of_separator (h : separator <:+: cs) :
    ∃ front rest, cs = front ++ (separator ++ rest) ∧ ¬ separator <:+: front := by
  induction cs with
  | nil => simp [separator] at h
  | cons c cs ih =>
    by_cases hstart : separator <+: c :: cs
    · obtain ⟨rest, hrest⟩ := hstart
      exact ⟨[], rest, hrest.symm, by simp [separator]⟩
    · obtain ⟨front, rest, rfl, hfront⟩ := ih ((List.infix_cons_iff.mp h).resolve_left hstart)
      refine ⟨c :: front, rest, rfl, fun hin => ?_⟩
      rcases List.infix_cons_iff.mp hin with hprefixed | hin
      · exact hstart (hprefixed.trans (List.prefix_append (c :: front) _))
      · exact hfront hin

theorem upToSeparator_append (h : ¬ separator <:+: front) :
    upToSeparator (front ++ (separator ++ rest)) = front ++ separator := by
  unfold upToSeparator
  rw [afterScheme_append h]
  simp only
  rw [← List.append_assoc]
  have hlength : (front ++ separator ++ rest).length - rest.length = (front ++ separator).length := by
    rw [List.length_append, Nat.add_sub_cancel]
  rw [hlength, List.take_left]

theorem upToSeparator_of_none (h : ¬ separator <:+: cs) : upToSeparator cs = cs := by
  unfold upToSeparator
  rw [afterScheme_eq_none_iff.mpr h]

/-- Two slashes in front add no `://`. -/
theorem separator_not_infix_slashes (h : ¬ separator <:+: cs) : ¬ separator <:+: '/' :: '/' :: cs := by
  simp only [List.infix_cons_iff, not_or]
  refine ⟨?_, ?_, h⟩ <;> simp [separator, List.cons_prefix_cons]

end Scheme

/-! ### The authority -/

section Authority

variable {a tail tail' pre : List Char}

theorem backslashesToSlashes_eq_self {cs : List Char} (h : '\\' ∉ cs) : backslashesToSlashes cs = cs := by
  refine (List.map_congr_left fun c hc => ?_).trans (List.map_id cs)
  refine if_neg fun heq => ?_
  rw [heq] at hc
  exact h hc

/-- **The authority** ends where the tail begins. -/
theorem authority_append (ha : IsAuthority a) (htail : IsTail tail) :
    authority (backslashesToSlashes (a ++ tail)) = a := by
  have hkept : backslashesToSlashes a = a :=
    backslashesToSlashes_eq_self fun hmem => ha _ hmem (.inr (.inr (.inr rfl)))
  have hpass : ∀ c ∈ a, decide (c ≠ '/' ∧ c ≠ '?' ∧ c ≠ '#') = true := by
    intro c hc
    have hnot := ha c hc
    simp only [IsTerminator, not_or] at hnot
    exact decide_eq_true ⟨hnot.1, hnot.2.1, hnot.2.2.1⟩
  have hmap : backslashesToSlashes (a ++ tail) = a ++ backslashesToSlashes tail := by
    rw [backslashesToSlashes, List.map_append]
    exact congrArg (· ++ _) hkept
  rw [hmap, authority, List.takeWhile_append_of_pos hpass]
  cases tail with
  | nil => exact List.append_nil a
  | cons c tail =>
    have hstop : (backslashesToSlashes (c :: tail)).takeWhile
        (fun c => decide (c ≠ '/' ∧ c ≠ '?' ∧ c ≠ '#')) = [] := by
      rcases htail c rfl with rfl | rfl | rfl | rfl <;> rfl
    rw [hstop, List.append_nil]

/-- The domain is that of the authority. -/
theorem extractDomain_congr (ext : Externals) {u v : String}
    (h : authority (backslashesToSlashes (withoutScheme u.toList)) =
      authority (backslashesToSlashes (withoutScheme v.toList))) :
    extractDomain ext u = extractDomain ext v := by
  unfold extractDomain
  rw [h]

/-- With a scheme in front, the authority is the one behind it. -/
theorem authority_of_scheme (hpre : IsSchemePrefix pre) (ha : IsAuthority a) (htail : IsTail tail) :
    authority (backslashesToSlashes (withoutScheme (pre ++ (a ++ tail)))) = a := by
  obtain ⟨scheme, hscheme, rfl⟩ := hpre
  rw [withoutScheme, List.append_assoc, afterScheme_append hscheme, Option.getD_some]
  exact authority_append ha htail

/-- Without one, it is the text up to the tail, or nothing. -/
theorem authority_of_no_separator (hpre : pre = [] ∨ pre = ['/', '/']) (ha : IsAuthority a)
    (htail : IsTail tail) (hno : ¬ separator <:+: a ++ tail) :
    authority (backslashesToSlashes (withoutScheme (pre ++ (a ++ tail)))) =
      if pre = [] then a else [] := by
  rcases hpre with rfl | rfl
  · rw [List.nil_append, withoutScheme, afterScheme_eq_none_iff.mpr hno, Option.getD_none]
    exact authority_append ha htail
  · have hnone := afterScheme_eq_none_iff.mpr (separator_not_infix_slashes hno)
    rw [List.cons_append, List.cons_append, List.nil_append, withoutScheme, hnone]
    rfl

end Authority

/-! ### The tail -/

section Tail

variable {a tail front rest : List Char}

/-- The slashes of a `://` behind an authority are in the tail. -/
theorem exists_tail_of_separator (ha : IsAuthority a) (htail : IsTail tail)
    (h : a ++ tail = front ++ (separator ++ rest)) :
    ∃ start, front ++ separator = a ++ start ∧ ∀ behind, IsTail (start ++ behind) := by
  rcases List.append_eq_append_iff.mp h with ⟨between, rfl, rfl⟩ | ⟨beyond, rfl, hbeyond⟩
  · refine ⟨between ++ separator, by rw [List.append_assoc], fun behind c hc => htail c ?_⟩
    cases between with
    | nil => exact hc
    | cons d between => exact hc
  · -- the authority can only have the colon
    match beyond, hbeyond with
    | [], hbeyond =>
      rw [List.nil_append] at hbeyond
      rw [← hbeyond] at htail
      exact absurd (htail ':' rfl) (by decide)
    | [c], hbeyond =>
      obtain ⟨rfl, rfl⟩ := List.cons.inj hbeyond
      refine ⟨['/', '/'], by rw [List.append_assoc]; rfl, fun behind c hc => ?_⟩
      cases hc
      exact .inl rfl
    | c :: d :: beyond, hbeyond =>
      have hslash : '/' = d := (List.cons.inj (List.cons.inj hbeyond).2).1
      have hmem : d ∈ front ++ c :: d :: beyond := by simp
      exact absurd (.inl hslash.symm) (ha d hmem)

/-- A letter is its own domain. -/
theorem extractDomain_letter (ext : Externals) {c : Char} (hc : c = 'b' ∨ c = 'c') :
    extractDomain ext (String.ofList [c]) = String.ofList [c] := by
  have hraw : authority (backslashesToSlashes (withoutScheme [c])) = [c] := by
    rcases hc with rfl | rfl <;> decide
  have hdecoded : percentDecodeUtf8 [c] = some [c] := by
    rcases hc with rfl | rfl <;> decide +kernel
  have hhost : stripPort (beforeFirst '#' (beforeFirst '?' (beforeFirst '/'
      (backslashesToSlashes (afterLast '@' [c]))))) = [c] := by
    rcases hc with rfl | rfl <;> decide
  have hlower : ext.toLowercase (String.ofList [c]) = String.ofList [c] := by
    rw [Externals.toLowercase, String.toList_ofList]
    rcases hc with rfl | rfl <;> rfl
  have htrim : trimEndMatches '.' [c] = [c] := by
    rcases hc with rfl | rfl <;> decide
  unfold extractDomain
  rw [String.toList_ofList, hraw]
  simp only [hdecoded, hhost, hlower]
  rw [String.toList_ofList, htrim]

/-- Without a scheme, what stands behind the first `://` is the domain. -/
theorem extractDomain_behind (ext : Externals) {pre : List Char} {c : Char}
    (hpre : pre = [] ∨ pre = ['/', '/']) (hfront : ¬ separator <:+: front) (hc : c = 'b' ∨ c = 'c') :
    extractDomain ext (String.ofList (pre ++ (front ++ (separator ++ [c])))) = String.ofList [c] := by
  have hafter : withoutScheme (pre ++ (front ++ (separator ++ [c]))) = [c] := by
    rcases hpre with rfl | rfl
    · rw [List.nil_append, withoutScheme, afterScheme_append hfront, Option.getD_some]
    · have hslashes := @afterScheme_append _ [c] (separator_not_infix_slashes hfront)
      exact congrArg (Option.getD · _) hslashes
  rw [← extractDomain_letter ext hc]
  refine extractDomain_congr ext ?_
  rw [String.toList_ofList, String.toList_ofList, hafter]
  rcases hc with rfl | rfl <;> rfl

/-- Two tails with the same text up to the first `://` are the same, if there is none. -/
theorem eq_of_upToSeparator_eq {tail' : List Char} (hno : ¬ separator <:+: a ++ tail)
    (hsame : upToSeparator (a ++ tail') = upToSeparator (a ++ tail)) : tail' = tail := by
  rw [upToSeparator_of_none hno] at hsame
  by_cases hseparator : separator <:+: a ++ tail'
  · obtain ⟨front, rest, hsplit, hfront⟩ := exists_front_of_separator hseparator
    rw [hsplit, upToSeparator_append hfront] at hsame
    rw [← hsame] at hno
    exact absurd ⟨front, [], List.append_nil _⟩ hno
  · rw [upToSeparator_of_none hseparator] at hsame
    exact List.append_cancel_left hsame

end Tail

/-- **Only the authority decides the domain** of a URL, whatever stands behind the first `://` that follows,
    exactly if the URL begins with a scheme, or has no `://`. -/
theorem tail_ignored_iff (ext : Externals) (pre a tail : String) (hpre : IsUrlPrefix pre.toList)
    (ha : IsAuthority a.toList) (htail : IsTail tail.toList) :
    (∀ tail' : String, IsTail tail'.toList →
        upToSeparator (a ++ tail').toList = upToSeparator (a ++ tail).toList →
        extractDomain ext (pre ++ a ++ tail') = extractDomain ext (pre ++ a)) ↔
      IsSchemePrefix pre.toList ∨ ¬ separator <:+: (a ++ tail).toList := by
  constructor
  · intro hignored
    by_contra hcond
    obtain ⟨hscheme, hseparator⟩ := not_or.mp hcond
    rw [not_not, String.toList_append] at hseparator
    replace hpre : pre.toList = [] ∨ pre.toList = ['/', '/'] := by
      rcases hpre with h | h | h
      · exact .inl h
      · exact .inr h
      · exact absurd h hscheme
    obtain ⟨front, rest, hsplit, hfront⟩ := exists_front_of_separator hseparator
    obtain ⟨start, hstart, hbehind⟩ := exists_tail_of_separator ha htail hsplit
    -- what stands behind the `://` is the domain, so it can be either of two letters
    have hdomain : ∀ c : Char, c = 'b' ∨ c = 'c' →
        String.ofList [c] = extractDomain ext (pre ++ a) := by
      intro c hc
      have hlist : a.toList ++ (start ++ [c]) = front ++ (separator ++ [c]) := by
        rw [← List.append_assoc, ← hstart, List.append_assoc]
      have hsame := hignored (String.ofList (start ++ [c]))
      rw [String.toList_ofList, String.toList_append, String.toList_append, String.toList_ofList, hlist,
        hsplit, upToSeparator_append hfront, upToSeparator_append hfront] at hsame
      rw [← hsame (hbehind [c]) rfl, ← extractDomain_behind ext hpre hfront hc, ← hlist]
      congr 1
      apply String.toList_injective
      simp only [String.toList_append, String.toList_ofList, List.append_assoc]
    have hletters := (hdomain 'b' (.inl rfl)).trans (hdomain 'c' (.inr rfl)).symm
    exact absurd (String.ofList_injective hletters) (by decide)
  · rintro hcond tail' htail' hsame
    have hnil : IsTail [] := fun c hc => by cases hc
    refine extractDomain_congr ext ?_
    simp only [String.toList_append, List.append_assoc] at hsame hcond ⊢
    have hbare : pre.toList ++ a.toList = pre.toList ++ (a.toList ++ []) := by rw [List.append_nil]
    rw [hbare]
    rcases hcond with hscheme | hno
    · rw [authority_of_scheme hscheme ha htail', authority_of_scheme hscheme ha hnil]
    · rw [eq_of_upToSeparator_eq hno hsame]
      have hnone : ¬ separator <:+: a.toList ++ [] := by
        rw [List.append_nil]
        exact fun hin => hno (hin.trans (List.prefix_append _ _).isInfix)
      rcases hpre with hempty | hslashes | hscheme
      · rw [authority_of_no_separator (.inl hempty) ha htail hno,
          authority_of_no_separator (.inl hempty) ha hnil hnone]
      · rw [authority_of_no_separator (.inr hslashes) ha htail hno,
          authority_of_no_separator (.inr hslashes) ha hnil hnone]
      · rw [authority_of_scheme hscheme ha htail, authority_of_scheme hscheme ha hnil]

instance (cs : List Char) : Decidable (IsAuthority cs) := List.decidableBAll _ cs

instance (cs : List Char) : Decidable (IsTail cs) := Option.decidableForallMem cs.head?

/-- Behind a scheme the tail is ignored, also one with a `://`. -/
theorem tail_ignored_behind_https :
    extractDomain plainExternals ("https://" ++ "evil.com" ++ "/?next=https://safe.com") =
        extractDomain plainExternals ("https://" ++ "evil.com") ∧
      extractDomain plainExternals ("https://" ++ "evil.com") = "evil.com" := by
  have hscheme : IsSchemePrefix "https://".toList := ⟨"https".toList, by decide, rfl⟩
  have htail : IsTail "/?next=https://safe.com".toList := by decide +kernel
  have hignored := (tail_ignored_iff plainExternals "https://" "evil.com" "/?next=https://safe.com"
    (.inr (.inr hscheme)) (by decide +kernel) htail).mpr (.inl hscheme)
  exact ⟨hignored _ htail rfl, by decide +kernel⟩

/-- Without a scheme the domain is that of the URL in the query. -/
theorem query_decides_domain :
    IsUrlPrefix "".toList ∧ IsAuthority "evil.com".toList ∧ IsTail "/?next=https://safe.com".toList ∧
      extractDomain plainExternals ("" ++ "evil.com" ++ "/?next=https://safe.com") = "safe.com" ∧
      extractDomain plainExternals ("" ++ "evil.com" ++ "/?next=https://safe.com") ≠
        extractDomain plainExternals ("" ++ "evil.com") :=
  ⟨.inl rfl, by decide +kernel, by decide +kernel, by decide +kernel, by decide +kernel⟩

end Vellaveto.Domain
