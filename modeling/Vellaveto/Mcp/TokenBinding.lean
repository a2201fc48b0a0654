/-
  WHAT A TOKEN'S SIGNATURE COVERS (`build_canonical_content` of `capability_token.rs`).

  The signed text is eight fields, each after its own length.  The ids, names and timestamps are any
  text at all, so they may look like the start of another field; the lengths decide where a field ends
  (`Lib.Netstring`).  The grants are one of the fields, as JSON.

    1. `toJson_injective`             a grant can be read back from its JSON value;
    2. `canonicalContent_injective`   two tokens with the same signed text agree in every field of it.
       A parent id that is missing and one that is empty are signed alike.
-/
import Vellaveto.Lib.Netstring
import Vellaveto.Mcp.CapabilityToken

namespace Vellaveto.Capability

open Vellaveto.Lib

/-- What is signed of a token, and compared when it is verified. -/
def canonicalContent (env : TokenEnv) (t : CapabilityToken) : Except CapabilityError String :=
  buildCanonicalContent env t.tokenId t.parentTokenId t.issuer t.holder t.grants t.remainingDepth
    t.issuedAt t.expiresAt

/-- `serde_json` writes no two lists of grants alike. -/
def TokenEnv.GrantsTextInjective (env : TokenEnv) : Prop :=
  ∀ (grants grants' : List CapabilityGrant) (text : String),
    env.jsonText (.array (grants.map CapabilityGrant.toJson)) = .ok text →
    env.jsonText (.array (grants'.map CapabilityGrant.toJson)) = .ok text →
    grants.map CapabilityGrant.toJson = grants'.map CapabilityGrant.toJson

/-! ## Grants and their JSON -/

theorem string_injective : Function.Injective Json.string := by
  intro s t h
  cases h
  rfl

theorem key_of_mem_textsMember {key : String} {texts : List String} {m : String × Json}
    (h : m ∈ CapabilityGrant.textsMember key texts) : m.1 = key := by
  unfold CapabilityGrant.textsMember at h
  split at h
  · cases h
  · rw [List.mem_singleton.mp h]

/-- A list of texts that may be left out, in front of members that have other keys. -/
theorem textsMember_append_inj {key : String} {texts texts' : List String}
    {rest rest' : List (String × Json)} (hrest : ∀ m ∈ rest, m.1 ≠ key) (hrest' : ∀ m ∈ rest', m.1 ≠ key)
    (h : CapabilityGrant.textsMember key texts ++ rest =
      CapabilityGrant.textsMember key texts' ++ rest') : texts = texts' ∧ rest = rest' := by
  unfold CapabilityGrant.textsMember at h
  cases texts with
  | nil =>
    cases texts' with
    | nil => exact ⟨rfl, h⟩
    | cons t texts' =>
      have hmem : (key, Json.array ((t :: texts').map .string)) ∈ rest := by
        have hin : rest = [(key, Json.array ((t :: texts').map .string))] ++ rest' := h
        rw [hin]
        exact List.mem_cons_self
      exact absurd rfl (hrest _ hmem)
  | cons t texts =>
    cases texts' with
    | nil =>
      have hmem : (key, Json.array ((t :: texts).map .string)) ∈ rest' := by
        have hin : [(key, Json.array ((t :: texts).map .string))] ++ rest = rest' := h
        rw [← hin]
        exact List.mem_cons_self
      exact absurd rfl (hrest' _ hmem)
    | cons t' texts' =>
      obtain ⟨hmember, htail⟩ := List.cons.inj h
      have htexts : (t :: texts).map Json.string = (t' :: texts').map Json.string := by
        injection hmember with _ harray
        injection harray
      exact ⟨List.map_injective_iff.mpr string_injective htexts, htail⟩

/-- **A grant can be read back from its JSON value.** -/
theorem toJson_injective : Function.Injective CapabilityGrant.toJson := by
  intro g g' h
  obtain ⟨tool, function, paths, domains, invocations⟩ := g
  obtain ⟨tool', function', paths', domains', invocations'⟩ := g'
  have hmembers : ("tool_pattern", Json.string tool) :: ("function_pattern", Json.string function) ::
      (CapabilityGrant.textsMember "allowed_paths" paths ++
        (CapabilityGrant.textsMember "allowed_domains" domains ++
          [("max_invocations", Json.number (.posInt invocations))])) =
      ("tool_pattern", Json.string tool') :: ("function_pattern", Json.string function') ::
      (CapabilityGrant.textsMember "allowed_paths" paths' ++
        (CapabilityGrant.textsMember "allowed_domains" domains' ++
          [("max_invocations", Json.number (.posInt invocations'))])) := by
    injection h with hobject
    simpa only [List.append_assoc, List.cons_append, List.nil_append] using hobject
  obtain ⟨htool, hafterTool⟩ := List.cons.inj hmembers
  obtain ⟨hfunction, hafterFunction⟩ := List.cons.inj hafterTool
  have hkeys : ∀ (texts : List String) (n : Nat),
      ∀ m ∈ CapabilityGrant.textsMember "allowed_domains" texts ++
        [("max_invocations", Json.number (.posInt n))], m.1 ≠ "allowed_paths" := by
    intro texts n m hm
    rcases List.mem_append.mp hm with hm | hm
    · simp [key_of_mem_textsMember hm]
    · simp [List.mem_singleton.mp hm]
  have hlast : ∀ (n : Nat), ∀ m ∈ [("max_invocations", Json.number (.posInt n))],
      m.1 ≠ "allowed_domains" := by
    intro n m hm
    simp [List.mem_singleton.mp hm]
  obtain ⟨hpaths, hafterPaths⟩ := textsMember_append_inj (hkeys _ _) (hkeys _ _) hafterFunction
  obtain ⟨hdomains, hafterDomains⟩ := textsMember_append_inj (hlast _) (hlast _) hafterPaths
  simp only [Prod.mk.injEq, true_and, Json.string.injEq] at htool hfunction
  simp only [List.cons.injEq, Prod.mk.injEq, true_and, and_true, Json.number.injEq,
    JsonNumber.posInt.injEq] at hafterDomains
  rw [htool, hfunction, hpaths, hdomains, hafterDomains]

/-! ## The signed text -/

/-- The eight fields that are signed. -/
theorem canonicalContent_eq_ok {env : TokenEnv} {t : CapabilityToken} {content : String}
    (h : canonicalContent env t = .ok content) :
    ∃ grantsJson, env.jsonText (.array (t.grants.map CapabilityGrant.toJson)) = .ok grantsJson ∧
      content = String.join ([t.tokenId, t.parentTokenId.getD "", t.issuer, t.holder, grantsJson,
        toString t.remainingDepth, t.issuedAt, t.expiresAt].map netstring) := by
  unfold canonicalContent buildCanonicalContent at h
  split at h
  · cases h
  · rename_i grantsJson hgrants
    cases h
    exact ⟨grantsJson, hgrants, rfl⟩

/-- **Signatures bind every field.**  Two tokens with the same signed text agree in their ids, their
    parents' ids (none and an empty one being the same), issuers, holders, grants, depths and times. -/
theorem canonicalContent_injective {env : TokenEnv} (hjson : env.GrantsTextInjective)
    {t u : CapabilityToken} {content : String} (ht : canonicalContent env t = .ok content)
    (hu : canonicalContent env u = .ok content) :
    t.tokenId = u.tokenId ∧ t.parentTokenId.getD "" = u.parentTokenId.getD "" ∧
      t.issuer = u.issuer ∧ t.holder = u.holder ∧ t.grants = u.grants ∧
      t.remainingDepth = u.remainingDepth ∧ t.issuedAt = u.issuedAt ∧ t.expiresAt = u.expiresAt := by
  obtain ⟨grantsJson, hgrants, hcontent⟩ := canonicalContent_eq_ok ht
  obtain ⟨grantsJson', hgrants', hcontent'⟩ := canonicalContent_eq_ok hu
  have hfields := join_netstring_inj (hcontent.symm.trans hcontent')
  simp only [List.cons.injEq, and_true] at hfields
  obtain ⟨htoken, hparent, hissuer, hholder, rfl, hdepth, hissued, hexpires⟩ := hfields
  have hgrants : t.grants = u.grants :=
    List.map_injective_iff.mpr toJson_injective (hjson _ _ _ hgrants hgrants')
  have hdepth : t.remainingDepth = u.remainingDepth := by
    refine toDigits_inj ?_
    simpa using congrArg String.toList hdepth
  exact ⟨htoken, hparent, hissuer, hholder, hgrants, hdepth, hissued, hexpires⟩

/-- Libraries that know one grant, to read files. -/
def readOnlyEnv : TokenEnv where
  domainToAscii := fun domain => some domain
  parseRfc3339 := fun _ => .error "input contains invalid characters"
  toRfc3339 := fun _ => ""
  timestampInRange := fun _ => true
  hexDecode := fun _ => .error "Invalid character"
  hexEncode := fun _ => ""
  verifyingKey := fun _ => []
  sign := fun _ _ => []
  contentDigest := fun _ => []
  jsonText := fun
    | .array [.object [("tool_pattern", .string "file_system"),
        ("function_pattern", .string "read_file"), ("max_invocations", .number (.posInt 0))]] =>
      .ok ("[\x7b\"tool_pattern\":\"file_system\",\"function_pattern\":\"read_file\"," ++
        "\"max_invocations\":0\x7d]")
    | _ => .error "recursion limit exceeded"

theorem readOnlyEnv_grantsTextInjective : readOnlyEnv.GrantsTextInjective := by
  intro grants grants' text h h'
  have hone : ∀ v text, readOnlyEnv.jsonText v = .ok text →
      v = .array [.object [("tool_pattern", .string "file_system"),
        ("function_pattern", .string "read_file"), ("max_invocations", .number (.posInt 0))]] := by
    intro v text hv
    simp only [readOnlyEnv] at hv
    split at hv
    · rfl
    · cases hv
  have hsame := (hone _ _ h).trans (hone _ _ h').symm
  injection hsame

/-- A token whose id looks like a field of its own. -/
def rootToken (parentTokenId : Option String) : CapabilityToken where
  tokenId := "2:a1"
  parentTokenId := parentTokenId
  issuer := "operator"
  holder := "alice"
  grants := [⟨"file_system", "read_file", [], [], 0⟩]
  remainingDepth := 12
  issuedAt := "2026-01-01T00:00:00+00:00"
  expiresAt := "2026-01-02T00:00:00+00:00"
  signature := ""
  issuerPublicKey := ""

/-- Without a parent and with an empty parent id, the same text is signed. -/
theorem canonicalContent_injective_rootToken :
    ∃ content, canonicalContent readOnlyEnv (rootToken none) = .ok content ∧
      canonicalContent readOnlyEnv (rootToken (some "")) = .ok content ∧
      (rootToken none).grants = (rootToken (some "")).grants := by
  obtain ⟨content, hcontent⟩ : ∃ content,
      canonicalContent readOnlyEnv (rootToken none) = .ok content := ⟨_, rfl⟩
  have hcontent' : canonicalContent readOnlyEnv (rootToken (some "")) = .ok content := hcontent
  obtain ⟨-, -, -, -, hgrants, -⟩ :=
    canonicalContent_injective readOnlyEnv_grantsTextInjective hcontent hcontent'
  exact ⟨content, hcontent, hcontent', hgrants⟩

end Vellaveto.Capability
