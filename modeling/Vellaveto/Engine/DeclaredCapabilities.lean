/-
  DECLARED CAPABILITIES (`CompiledContextCondition::CapabilityRequired` in `check_context_conditions` of
  `vellaveto-engine/src/context_check.rs`).

  An identity declares its capabilities in ONE claim, an array of strings or a text with commas.  The check
  reads the first 256 of them, while the claim is bounded by 4096 bytes only, so that an accepted identity
  can declare several times as many; and it takes the blanks off the parts of a text, not off the strings
  of an array.  A blocked capability that stands behind 256 others, or with a blank in an array, is not
  seen.

    1. **The claim** — `declaredItems`, all of it, and `readCapabilities`, what the check sees of it.
    2. **The arm** — `checkCapabilityRequired_cases`: a denial, or nothing at all.
    3. **The check** — `denies_of_arm`: behind conditions that pass, the arm decides;
       `blocked_capability_seen_iff`.
-/
import Vellaveto.Engine.CacheTransparency

namespace Vellaveto

open Vellaveto.Lib Vellaveto.Cache

/-! ### The claim -/

/-- Everything the claim declares: the strings of an array, or the parts of a text between its commas. -/
def declaredItems (identity : AgentIdentity) : List String :=
  match identity.claims.lookup "capabilities" with
  | some (.array items) => items.filterMap Json.asStr
  | some (.string s) => (s.toList.splitOn ',').map String.ofList
  | _ => []

/-- A capability without the blanks around it. -/
def trimmed (item : String) : String := String.ofList (trim item.toList)

/-- One declared capability as the check reads it: the blanks go only where the claim is a text. -/
def readItem (identity : AgentIdentity) (item : String) : String :=
  match identity.claims.lookup "capabilities" with
  | some (.string _) => trimmed item
  | _ => item

/-- The capabilities the check sees. -/
def readCapabilities (ext : ContextExternals) (identity : AgentIdentity) : List String :=
  ((declaredItems identity).take maxDeclaredCapabilities).map fun item =>
    ext.normalizeFull (readItem identity item)

/-- A declared capability, trimmed and normalized, is a blocked one. -/
def DeclaresBlocked (ext : ContextExternals) (identity : AgentIdentity) (blocked : List String) : Prop :=
  ∃ item ∈ declaredItems identity, ext.normalizeFull (trimmed item) ∈ blocked

section Arm

variable {ext : ContextExternals} {context : ConditionContext} {identity : AgentIdentity}
  {required blocked : List String} {denyReason : String}

theorem declaredCapabilities_getD (ext : ContextExternals) (identity : AgentIdentity) :
    (declaredCapabilities ext identity).getD [] = readCapabilities ext identity := by
  unfold declaredCapabilities readCapabilities readItem declaredItems AgentIdentity.claimStrArray
    AgentIdentity.claimStr
  cases identity.claims.lookup "capabilities" with
  | none => rfl
  | some v =>
    cases v with
    | string s =>
      simp only [Option.bind_some, Json.asArray, Json.asStr, Option.map_none, Option.none_or,
        Option.map_some, Option.getD_some]
      rw [← List.map_take, List.map_map]
      refine List.map_congr_left fun p _ => ?_
      rw [Function.comp_apply, trimmed, String.toList_ofList]
    | array items => rfl
    | null => rfl
    | bool b => rfl
    | number n => rfl
    | object members => rfl

/-! ### The arm -/

/-- **The arm** denies if it sees a blocked capability or misses a required one, and passes otherwise. -/
theorem checkCapabilityRequired_cases (hidentity : context.agentIdentity = some identity) :
    (((∃ b ∈ blocked, b ∈ readCapabilities ext identity) ∨
        ∃ r ∈ required, r ∉ readCapabilities ext identity) ∧
      ∃ reason, checkCapabilityRequired ext context required blocked denyReason = some (.deny reason)) ∨
    (¬ ((∃ b ∈ blocked, b ∈ readCapabilities ext identity) ∨
        ∃ r ∈ required, r ∉ readCapabilities ext identity) ∧
      checkCapabilityRequired ext context required blocked denyReason = none) := by
  unfold checkCapabilityRequired
  rw [hidentity, Option.bind_some, declaredCapabilities_getD]
  generalize readCapabilities ext identity = declared
  have hany : ∀ c, (declared.any fun d => d == c) = true ↔ c ∈ declared := by
    intro c
    rw [List.any_beq', List.contains_iff_mem]
  simp only [Option.isNone_some, Bool.false_and, Bool.false_eq_true, if_false]
  cases hblocked : blocked.find? fun b => declared.any fun c => c == b with
  | some b =>
    left
    have hb := List.find?_some hblocked
    rw [hany] at hb
    exact ⟨.inl ⟨b, List.mem_of_find?_eq_some hblocked, hb⟩, _, rfl⟩
  | none =>
    have hnone : ¬ ∃ b ∈ blocked, b ∈ declared := by
      rintro ⟨b, hmem, hb⟩
      exact List.find?_eq_none.mp hblocked b hmem ((hany b).mpr hb)
    cases hrequired : required.find? fun r => !declared.any fun c => c == r with
    | some r =>
      left
      have hr := List.find?_some hrequired
      rw [Bool.not_eq_true', ← Bool.not_eq_true, hany] at hr
      exact ⟨.inr ⟨r, List.mem_of_find?_eq_some hrequired, hr⟩, _, rfl⟩
    | none =>
      right
      refine ⟨?_, rfl⟩
      rintro (hseen | ⟨r, hmem, hr⟩)
      · exact hnone hseen
      · refine List.find?_eq_none.mp hrequired r hmem ?_
        rw [Bool.not_eq_true', ← Bool.not_eq_true, hany]
        exact hr

/-! ### The check -/

theorem denyHolder_deny (reason : String) (holder : Option String) :
    ∃ r, denyHolder context reason holder = .deny r := by
  unfold denyHolder
  cases context.agentId with
  | none => exact ⟨_, rfl⟩
  | some agentId => exact ⟨_, rfl⟩

theorem combinedDenial_deny (deputy : DeputyValidation) (capability : RequireCapabilityToken) :
    ∃ r, combinedDenial ext context deputy capability = .deny r := by
  unfold combinedDenial
  simp only
  split
  · split
    · exact ⟨_, rfl⟩
    · split
      · exact ⟨_, rfl⟩
      · exact denyHolder_deny _ _
  · split
    · exact ⟨_, rfl⟩
    · split
      · exact ⟨_, rfl⟩
      · exact ⟨_, rfl⟩

/-- **Behind conditions that pass** a condition that denies decides, unless the pair of delegated conditions
    has denied before it. -/
theorem denies_of_arm {front behind : List CompiledContextCondition} {c : CompiledContextCondition}
    {currentTool : String} (hfront : ∀ d ∈ front, ∀ i, checkCondition ext context currentTool i d = none)
    (hc : c.isDelegated = false)
    (hdeny : ∃ r, checkCondition ext context currentTool front.length c = some (.deny r)) :
    ∃ r, checkContextConditions ext context (front ++ c :: behind) currentTool = some (.deny r) := by
  unfold checkContextConditions
  simp only
  generalize combinedDelegatedCapabilityConditions (front ++ c :: behind) = combined
  cases hpair : combined.bind fun pair => checkCombined ext context pair.1 pair.2 with
  | some v =>
    obtain ⟨pair, rfl, hv⟩ := Option.bind_eq_some_iff.mp hpair
    unfold checkCombined at hv
    split at hv
    · cases hv
      exact (combinedDenial_deny pair.1 pair.2).imp fun r hr => congrArg some hr
    · cases hv
  | none =>
    obtain ⟨r, hr⟩ := hdeny
    refine ⟨r, ?_⟩
    rw [Option.none_or, List.zipIdx_append, List.findSome?_append, List.zipIdx_cons, List.findSome?_cons]
    have hpass : (front.zipIdx.findSome? fun e =>
        if combined.isSome && e.1.isDelegated then none
        else checkCondition ext context currentTool e.2 e.1) = none := by
      rw [List.findSome?_eq_none_iff]
      intro e he
      split
      · rfl
      · exact hfront e.1 (List.fst_mem_of_mem_zipIdx he) e.2
    rw [hpass, Option.none_or, hc, Bool.and_false, if_neg Bool.false_ne_true, Nat.zero_add, hr]

end Arm

/-- Blocked capabilities are seen: an identity that declares one is denied, behind whatever conditions it
    passes and before whatever others. -/
def SeesBlocked (ext : ContextExternals) (context : ConditionContext) (identity : AgentIdentity)
    (required blocked : List String) (denyReason : String) : Prop :=
  DeclaresBlocked ext identity blocked →
    ∀ (front behind : List CompiledContextCondition) (currentTool : String),
      (∀ d ∈ front, ∀ i, checkCondition ext context currentTool i d = none) →
      ∃ r, checkContextConditions ext context
        (front ++ .capabilityRequired required blocked denyReason :: behind) currentTool = some (.deny r)

/-- The identity hides what it declares: none of its first 256 items, read as they stand, is blocked, and all
    required capabilities are among them. -/
def HidesBlocked (ext : ContextExternals) (identity : AgentIdentity) (required blocked : List String) :
    Prop :=
  DeclaresBlocked ext identity blocked ∧
    (∀ b ∈ blocked, b ∉ readCapabilities ext identity) ∧
    ∀ r ∈ required, r ∈ readCapabilities ext identity

/-- What is hidden passes. -/
theorem passes_of_hides {ext : ContextExternals} {context : ConditionContext} {identity : AgentIdentity}
    {required blocked : List String} (hidentity : context.agentIdentity = some identity)
    (hhides : HidesBlocked ext identity required blocked) (denyReason currentTool : String) :
    checkContextConditions ext context [.capabilityRequired required blocked denyReason] currentTool =
      none := by
  have hpass : checkCapabilityRequired ext context required blocked denyReason = none := by
    rcases @checkCapabilityRequired_cases ext context identity required blocked denyReason hidentity with
      ⟨⟨b, hb, hseen⟩ | ⟨q, hq, hmissing⟩, -⟩ | ⟨-, hnone⟩
    · exact absurd hseen (hhides.2.1 b hb)
    · exact absurd (hhides.2.2 q hq) hmissing
    · exact hnone
  unfold checkContextConditions
  simp only [List.zipIdx_singleton, List.findSome?_singleton]
  exact hpass

/-- **When blocked capabilities are seen**: unless the identity hides them. -/
theorem blocked_capability_seen_iff (ext : ContextExternals) (context : ConditionContext)
    (identity : AgentIdentity) (hidentity : context.agentIdentity = some identity)
    (required blocked : List String) (denyReason : String) :
    SeesBlocked ext context identity required blocked denyReason ↔
      ¬ HidesBlocked ext identity required blocked := by
  constructor
  · intro hsees hhides
    obtain ⟨r, hr⟩ := hsees hhides.1 [] [] "" (fun d hd => absurd hd List.not_mem_nil)
    rw [List.nil_append, passes_of_hides hidentity hhides] at hr
    cases hr
  · intro hhides hdeclares front behind currentTool hfront
    refine denies_of_arm hfront rfl ?_
    show ∃ r, checkCapabilityRequired ext context required blocked denyReason = some (.deny r)
    rcases @checkCapabilityRequired_cases ext context identity required blocked denyReason hidentity with
      ⟨-, hdeny⟩ | ⟨hpass, -⟩
    · exact hdeny
    · refine absurd ⟨hdeclares, fun b hb hseen => ?_, fun r hr => ?_⟩ hhides
      · exact hpass (.inl ⟨b, hb, hseen⟩)
      · by_contra hmissing
        exact hpass (.inr ⟨r, hr, hmissing⟩)

/-! ### Hidden capabilities -/

/-- An identity with one claim. -/
def declaring (claim : Json) : AgentIdentity where
  issuer := none
  subject := none
  audience := []
  claims := AList.insert "capabilities" claim ∅

/-- A call with this identity. -/
def declaringContext (claim : Json) : ConditionContext where
  callCounts := ∅
  previousActions := []
  timestamp := none
  agentId := none
  agentIdentity := some (declaring claim)
  callChainDepth := 0
  verificationTier := none
  capabilityToken := none
  sessionState := none

theorem blocked_capability_seen_iff_short :
    SeesBlocked plainContextExternals (declaringContext (.string "read, admin"))
        (declaring (.string "read, admin")) [] ["admin"] "denied" ↔
      ¬ HidesBlocked plainContextExternals (declaring (.string "read, admin")) [] ["admin"] :=
  blocked_capability_seen_iff plainContextExternals _ _ rfl [] ["admin"] "denied"

/-- 256 capabilities, and a blocked one behind them. -/
def crowdedClaim : Json := .array (List.replicate 256 (.string "a") ++ [.string "admin"])

section Crowded

theorem declaredItems_crowded :
    declaredItems (declaring crowdedClaim) = List.replicate 256 "a" ++ ["admin"] := by
  have ha : Json.asStr (.string "a") = some "a" := rfl
  have hadmin : Json.asStr (.string "admin") = some "admin" := rfl
  unfold declaredItems declaring crowdedClaim
  rw [AList.lookup_insert]
  simp only
  rw [List.filterMap_append, List.filterMap_replicate_of_some ha, List.filterMap_cons_some hadmin,
    List.filterMap_nil]

theorem hidesBlocked_crowded :
    HidesBlocked plainContextExternals (declaring crowdedClaim) [] ["admin"] := by
  refine ⟨⟨"admin", ?_, by decide +kernel⟩, fun b hb => ?_, fun r hr => absurd hr List.not_mem_nil⟩
  · rw [declaredItems_crowded]
    exact List.mem_append_right _ List.mem_cons_self
  · have hread : readCapabilities plainContextExternals (declaring crowdedClaim) =
        (List.replicate 256 "a").map fun item =>
          plainContextExternals.normalizeFull (readItem (declaring crowdedClaim) item) := by
      rw [readCapabilities, declaredItems_crowded,
        List.take_append_of_le_length (by rw [List.length_replicate]; rfl)]
      rw [List.take_of_length_le (by rw [List.length_replicate]; rfl)]
    have ha : plainContextExternals.normalizeFull (readItem (declaring crowdedClaim) "a") = "a" := by
      unfold readItem declaring
      rw [AList.lookup_insert]
      show plainContextExternals.normalizeFull "a" = "a"
      decide +kernel
    rw [hread, List.map_replicate, List.mem_singleton.mp hb, ha]
    exact fun hmem => absurd (List.eq_of_mem_replicate hmem) (by decide)

theorem utf8Len_moreItems (n : Nat) (items : List Json) :
    String.utf8Len (Json.moreItems Json.plainNumber (List.replicate n (.string "a") ++ items)) =
      4 * n + String.utf8Len (Json.moreItems Json.plainNumber items) := by
  induction n with
  | zero => rw [List.replicate_zero, List.nil_append, Nat.mul_zero, Nat.zero_add]
  | succ n ih =>
    have hitem : String.utf8Len (Json.jsonText Json.plainNumber (.string "a")) = 3 := by decide +kernel
    have hcomma : (',' : Char).utf8Size = 1 := by decide
    rw [List.replicate_succ, List.cons_append, Json.moreItems_cons, String.utf8Len_cons,
      String.utf8Len_append, ih, hitem, hcomma]
    omega

/-- The claim is far below the bound on its bytes. -/
theorem jsonText_crowded :
    (plainContextExternals.jsonText crowdedClaim).utf8ByteSize ≤ AgentIdentity.maxClaimValueLen := by
  have hbracket : ('[' : Char).utf8Size = 1 := by decide
  have hitem : String.utf8Len (Json.jsonText Json.plainNumber (.string "a")) = 3 := by decide +kernel
  have hlast : String.utf8Len (Json.moreItems Json.plainNumber [.string "admin"]) = 9 := by decide +kernel
  show (String.ofList (Json.jsonText Json.plainNumber crowdedClaim)).utf8ByteSize ≤ 4096
  rw [String.utf8ByteSize_ofList, crowdedClaim, List.replicate_succ, List.cons_append,
    Json.jsonText_array_cons, String.utf8Len_cons, String.utf8Len_append, utf8Len_moreItems, hitem,
    hlast, hbracket]
  decide

theorem validate_declaring {claim : Json}
    (h : (plainContextExternals.jsonText claim).utf8ByteSize ≤ AgentIdentity.maxClaimValueLen) :
    (declaring claim).validate plainContextExternals.toExternals = .ok () := by
  have hclaim : AgentIdentity.validateClaim plainContextExternals.toExternals "capabilities" claim =
      .ok () := by
    have hkey : ¬ AgentIdentity.maxClaimKeyLen < "capabilities".utf8ByteSize := by decide
    have hchars : hasDangerousChars "capabilities" = false := by decide +kernel
    unfold AgentIdentity.validateClaim
    simp only
    rw [if_neg hkey, hchars, if_neg Bool.false_ne_true, if_neg (Nat.not_lt.mpr h)]
  have hentries : (declaring claim).claims.entries = [⟨"capabilities", claim⟩] := rfl
  unfold AgentIdentity.validate
  rw [hentries]
  show (AgentIdentity.validateClaim plainContextExternals.toExternals "capabilities" claim).bind _ = _
  rw [hclaim]
  rfl

end Crowded

/-- **A blocked capability that is not seen**, in identities that are accepted: behind 256 others, and with a
    blank in an array. -/
theorem crowded_capability_not_seen :
    (∀ claim ∈ [crowdedClaim, Json.array [.string " admin"]],
      (declaring claim).validate plainContextExternals.toExternals = .ok () ∧
      DeclaresBlocked plainContextExternals (declaring claim) ["admin"] ∧
      checkContextConditions plainContextExternals (declaringContext claim)
        [.capabilityRequired [] ["admin"] "denied"] "" = none) ∧
    ∃ r, checkContextConditions plainContextExternals (declaringContext (.string "admin"))
      [.capabilityRequired [] ["admin"] "denied"] "" = some (.deny r) := by
  refine ⟨fun claim hclaim => ?_, ?_⟩
  · rcases List.mem_pair.mp hclaim with rfl | rfl
    · exact ⟨validate_declaring jsonText_crowded, hidesBlocked_crowded.1,
        passes_of_hides rfl hidesBlocked_crowded "denied" ""⟩
    · refine ⟨validate_declaring (by decide +kernel), ⟨" admin", by decide +kernel, by decide +kernel⟩, ?_⟩
      exact Option.isNone_iff_eq_none.mp (by decide +kernel)
  · exact ⟨"denied (blocked capability 'admin' is declared)", by decide +kernel⟩

end Vellaveto
