/-
  MONOTONIC ATTENUATION: what delegation does to the power of a token.

  SPEC.         Along a chain of delegations the covered actions only become fewer, the depth strictly
                falls and the expiry never moves back.

  CORRECTNESS.
    1. `attenuate_ok`                what a child token tells about its parent;
    2. `grantCovers_of_subset`       an action that a grant covers is covered by the grant it was cut
                                     from: tools, functions and domains by the checks of the code,
                                     paths when each child pattern is CONTAINED in a parent pattern;
    3. `grantCoversNoMore_iff`       the paths are all that can go wrong;
    4. `delegation_never_escalates`  the chain, by `run_rel`;
    5. `path_pattern_escalates`      without the condition on paths it fails.  Delegation compares a
                                     child path with a parent path as if the child were a plain text,
                                     but coverage reads it as a glob.
-/
import Vellaveto.Lib.Decision
import Vellaveto.Lib.Run
import Vellaveto.Mcp.CapabilityToken

namespace Vellaveto.Capability

open Vellaveto.Lib

/-! ## Coverage -/

section Coverage

variable {domainToAscii : String → Option String}

/-- A token covers an action exactly if one of its grants does. -/
theorem checkGrantCoverage_isSome (token : CapabilityToken) (action : Action) :
    (checkGrantCoverage domainToAscii token action).isSome = true ↔
      ∃ g ∈ token.grants, grantCoversAction domainToAscii g action = true := by
  -- over any tail of the grants: an index was selected before, or a grant of the tail covers
  have hloop : ∀ (grants : List CapabilityGrant) (first : Nat) (selected : Option Nat),
      ((grants.zipIdx first).foldl (fun selected g =>
        nextCoveringGrantIndex selected g.2 (grantCoversAction domainToAscii g.1 action))
          selected).isSome = true ↔
        selected.isSome = true ∨ ∃ g ∈ grants, grantCoversAction domainToAscii g action = true := by
    intro grants
    induction grants with
    | nil => intro first selected; simp
    | cons g grants ih =>
      intro first selected
      rw [List.zipIdx_cons, List.foldl_cons, ih, List.exists_mem_cons_iff, ← or_assoc]
      refine or_congr ?_ Iff.rfl
      cases selected with
      | some i => simp [nextCoveringGrantIndex]
      | none => cases hg : grantCoversAction domainToAscii g action <;> simp [nextCoveringGrantIndex]
  rw [checkGrantCoverage, hloop]
  simp

/-- A target path is covered when one of the patterns matches its normal form. -/
theorem targetPathCovered_iff (allowedPaths : List String) (path : String) :
    targetPathCovered allowedPaths path = true ↔
      ∃ n, normalizePathForGrant path = some n ∧
        ∃ pattern ∈ allowedPaths, patternMatches pattern n = true := by
  unfold targetPathCovered
  cases normalizePathForGrant path with
  | none => simp
  | some n => simp

/-- What it means that a grant covers an action. -/
theorem grantCoversAction_iff (g : CapabilityGrant) (action : Action) :
    grantCoversAction domainToAscii g action = true ↔
      patternMatches g.toolPattern action.tool = true ∧
      patternMatches g.functionPattern action.function = true ∧
      (g.allowedPaths = [] ∨ (action.targetPaths ≠ [] ∧
        ∀ path ∈ action.targetPaths, targetPathCovered g.allowedPaths path = true)) ∧
      (g.allowedDomains = [] ∨ (action.targetDomains ≠ [] ∧ ∀ domain ∈ action.targetDomains,
        targetDomainCovered domainToAscii g.allowedDomains domain = true)) := by
  unfold grantCoversAction grantRestrictionsCoverAction
  cases patternMatches g.toolPattern action.tool with
  | false => simp
  | true =>
    cases patternMatches g.functionPattern action.function with
    | false => simp
    | true =>
      cases hp : g.allowedPaths <;> cases hap : action.targetPaths <;>
        cases hd : g.allowedDomains <;> cases had : action.targetDomains <;> simp

/-- What a grant inside another one tells, paths apart. -/
theorem grantIsSubset_spec {g parent : CapabilityGrant}
    (h : grantIsSubset domainToAscii g parent = true) :
    patternIsSubset parent.toolPattern g.toolPattern = true ∧
      patternIsSubset parent.functionPattern g.functionPattern = true ∧
      (g.allowedPaths = [] → parent.allowedPaths = []) ∧
      (parent.allowedDomains = [] ∨ (g.allowedDomains ≠ [] ∧ ∀ domain ∈ g.allowedDomains,
        ∃ pd ∈ parent.allowedDomains, domainPatternIsSubset domainToAscii pd domain = true)) := by
  unfold grantIsSubset at h
  split at h
  · cases h
  · rename_i htool
    split at h
    · cases h
    · rename_i hfunction
      split at h
      · cases h
      · rename_i hrestrict
        split at h
        · cases h
        · split at h
          · cases h
          · rename_i hdomains
            refine ⟨by simpa using htool, by simpa using hfunction, ?_, ?_⟩
            · intro hpaths
              simp [grantRestrictionsAttenuated, hpaths] at hrestrict
              exact hrestrict.1.1
            · by_cases hparent : parent.allowedDomains = []
              · exact Or.inl hparent
              · refine Or.inr ⟨?_, by simpa [hparent] using hdomains⟩
                intro hchild
                simp [grantRestrictionsAttenuated, hchild, hparent] at hrestrict

/-- Every path pattern of `g` that matches the normal form of any path at all is contained in a path
    pattern of `parent`: the test that the code makes for tools and functions. -/
def PathsContained (parent g : CapabilityGrant) : Prop :=
  parent.allowedPaths = [] ∨ ∀ c ∈ g.allowedPaths,
    (∃ path n, normalizePathForGrant path = some n ∧ patternMatches c n = true) →
      ∃ p ∈ parent.allowedPaths, patternIsSubset p c = true

/-- Every path that the patterns of `g` cover is covered by the patterns of `parent`. -/
def PathsCoverNoMore (parent g : CapabilityGrant) : Prop :=
  parent.allowedPaths = [] ∨ ∀ path, targetPathCovered g.allowedPaths path = true →
    targetPathCovered parent.allowedPaths path = true

theorem pathsCoverNoMore_of_contained {parent g : CapabilityGrant} (h : PathsContained parent g) :
    PathsCoverNoMore parent g := by
  rcases h with hparent | hcontained
  · exact Or.inl hparent
  · refine Or.inr fun path hpath => ?_
    obtain ⟨n, hn, c, hc, hmatch⟩ := (targetPathCovered_iff _ _).mp hpath
    obtain ⟨p, hp, hpc⟩ := hcontained c hc ⟨path, n, hn, hmatch⟩
    exact (targetPathCovered_iff _ _).mpr ⟨n, hn, p, hp, patternIsSubset_sound hpc hmatch⟩

/-- **One grant inside another.**  What the smaller one covers, the larger one covers, if its paths
    do not cover more. -/
theorem grantCovers_of_subset {g parent : CapabilityGrant} {action : Action}
    (hsub : grantIsSubset domainToAscii g parent = true) (hpaths : PathsCoverNoMore parent g)
    (hcovers : grantCoversAction domainToAscii g action = true) :
    grantCoversAction domainToAscii parent action = true := by
  obtain ⟨htool, hfunction, hnonempty, hdomains⟩ := grantIsSubset_spec hsub
  rw [grantCoversAction_iff] at hcovers ⊢
  obtain ⟨hatool, hafunction, hapaths, hadomains⟩ := hcovers
  refine ⟨patternIsSubset_sound htool hatool, patternIsSubset_sound hfunction hafunction, ?_, ?_⟩
  · rcases hpaths with hparent | hcontained
    · exact Or.inl hparent
    · rcases hapaths with hg | ⟨hne, hall⟩
      · exact Or.inl (hnonempty hg)
      · exact Or.inr ⟨hne, fun path hpath => hcontained path (hall path hpath)⟩
  · rcases hdomains with hparent | ⟨hg, hcontained⟩
    · exact Or.inl hparent
    · rcases hadomains with hg' | ⟨hne, hall⟩
      · exact absurd hg' hg
      · refine Or.inr ⟨hne, fun domain hdomain => ?_⟩
        obtain ⟨c, hc, hmatch⟩ := List.any_eq_true.mp (hall domain hdomain)
        obtain ⟨pd, hpd, hsubset⟩ := hcontained c hc
        exact List.any_eq_true.mpr
          ⟨pd, hpd, domainPatternIsSubset_sound domainToAscii hsubset hmatch⟩

/-- The paths are all that can go wrong: a grant that the code accepts inside another one, and that
    covers anything, covers no more than it exactly when its paths do not. -/
theorem grantCoversNoMore_iff {g parent : CapabilityGrant} {known : Action}
    (hsub : grantIsSubset domainToAscii g parent = true)
    (hsome : grantCoversAction domainToAscii g known = true) :
    (∀ action, grantCoversAction domainToAscii g action = true →
      grantCoversAction domainToAscii parent action = true) ↔ PathsCoverNoMore parent g := by
  constructor
  · intro hall
    by_cases hparent : parent.allowedPaths = []
    · exact Or.inl hparent
    · refine Or.inr fun path hpath => ?_
      -- the action that is known to be covered, aimed at this one path
      let action : Action := { known with targetPaths := [path] }
      have haction : grantCoversAction domainToAscii g action = true := by
        obtain ⟨htool, hfunction, -, hdomains⟩ := (grantCoversAction_iff _ _).mp hsome
        refine (grantCoversAction_iff _ _).mpr ⟨htool, hfunction, Or.inr ⟨by simp [action], ?_⟩, hdomains⟩
        intro p hp
        rw [List.mem_singleton.mp hp]
        exact hpath
      obtain ⟨-, -, hpaths, -⟩ := (grantCoversAction_iff _ _).mp (hall action haction)
      rcases hpaths with hempty | ⟨-, hcovered⟩
      · exact absurd hempty hparent
      · exact hcovered path (List.mem_singleton.mpr rfl)
  · intro hpaths action
    exact grantCovers_of_subset hsub hpaths

end Coverage

/-! ## One delegation -/

/-- The child's expiry is not after the parent's. -/
theorem clampedExpiry_le {env : TokenEnv} {parentExpires now expires : Instant} {ttlSecs : Nat}
    (h : clampedExpiry env parentExpires now ttlSecs = .ok expires) : expires ≤ parentExpires := by
  unfold clampedExpiry at h
  obtain ⟨nowEpoch, -, h⟩ := bind_eq_ok_iff.mp h
  obtain ⟨parentEpoch, hparent, h⟩ := bind_eq_ok_iff.mp h
  have hepoch : (parentEpoch : Int) = parentExpires.timestamp := by
    unfold epochSeconds at hparent
    split at hparent
    · cases hparent
    · cases hparent
      omega
  split at h
  · cases h
  · rename_i clamped hclamped
    have hle : clamped ≤ parentEpoch := by
      unfold attenuatedExpiryEpoch at hclamped
      split at hclamped
      · cases hclamped
      · obtain ⟨requested, -, rfl⟩ := Option.map_eq_some_iff.mp hclamped
        exact Nat.min_le_right _ _
    have hcast : asI64 clamped ≤ parentExpires.timestamp := by
      unfold asI64
      split <;> omega
    unfold fromTimestamp at h
    split at h
    · cases h
    · rename_i t ht
      split at ht
      · cases ht
        cases h
        rw [Instant.le_def]
        show asI64 clamped < parentExpires.timestamp ∨ (asI64 clamped = _ ∧ 0 ≤ _)
        omega
      · cases ht

/-- What a child token tells about its parent. -/
theorem attenuate_ok {env : TokenEnv} {parent child : CapabilityToken} {d : Delegation}
    (h : attenuateCapabilityToken env parent d = .ok child) :
    child.remainingDepth < parent.remainingDepth ∧ child.grants = d.newGrants ∧
      (∃ parentExpires expires, env.parseRfc3339 parent.expiresAt = .ok parentExpires ∧
        child.expiresAt = env.toRfc3339 expires ∧ expires ≤ parentExpires) := by
  unfold attenuateCapabilityToken at h
  obtain ⟨newDepth, hdepth, h⟩ := bind_eq_ok_iff.mp h
  obtain ⟨-, -, h⟩ := bind_eq_ok_iff.mp h
  obtain ⟨-, -, h⟩ := bind_eq_ok_iff.mp h
  obtain ⟨parentExpires, hparent, h⟩ := bind_eq_ok_iff.mp h
  obtain ⟨-, -, h⟩ := bind_eq_ok_iff.mp h
  obtain ⟨signingKey, -, h⟩ := bind_eq_ok_iff.mp h
  obtain ⟨expires, hexpires, h⟩ := bind_eq_ok_iff.mp h
  obtain ⟨canonical, -, h⟩ := bind_eq_ok_iff.mp h
  obtain ⟨-, -, h⟩ := bind_eq_ok_iff.mp h
  obtain ⟨-, -, h⟩ := bind_eq_ok_iff.mp h
  cases h
  refine ⟨?_, rfl, parentExpires, expires, ?_, rfl, clampedExpiry_le hexpires⟩
  · show newDepth < parent.remainingDepth
    unfold newRemainingDepth attenuatedRemainingDepth at hdepth
    split at hdepth
    · rename_i depth hd
      split at hd
      · cases hd
      · cases hd
        cases hdepth
        omega
    · cases hdepth
  · unfold parentExpiry at hparent
    split at hparent
    · cases hparent
    · rename_i t ht
      split at hparent
      · cases hparent
      · cases hparent
        exact ht

theorem delegate_eq_some {env : TokenEnv} {parent child : CapabilityToken} {d : Delegation} :
    delegate env parent d = some child ↔ attenuateCapabilityToken env parent d = .ok child := by
  unfold delegate
  cases attenuateCapabilityToken env parent d with
  | error e =>
    constructor
    · intro h
      cases h
    · intro h
      cases h
  | ok t =>
    constructor
    · intro h
      cases h
      rfl
    · intro h
      cases h
      rfl

/-! ## Chains of delegations -/

/-- The child covers nothing that the parent does not cover. -/
def CoversNoMore (env : TokenEnv) (parent child : CapabilityToken) : Prop :=
  ∀ action, (checkGrantCoverage env.domainToAscii child action).isSome = true →
    (checkGrantCoverage env.domainToAscii parent action).isSome = true

/-- The child does not expire after the parent. -/
def ExpiresNoLater (env : TokenEnv) (parent child : CapabilityToken) : Prop :=
  ∀ t, env.parseRfc3339 child.expiresAt = .ok t →
    ∃ u, env.parseRfc3339 parent.expiresAt = .ok u ∧ t ≤ u

/-- Every new grant lies inside a grant of the parent with its paths contained. -/
def GrantsContained (env : TokenEnv) (parent : CapabilityToken) (d : Delegation) : Prop :=
  ∀ g ∈ d.newGrants, ∃ p ∈ parent.grants,
    grantIsSubset env.domainToAscii g p = true ∧ PathsContained p g

/-- **Step lemma**, coverage. -/
theorem delegate_coversNoMore {env : TokenEnv} {parent child : CapabilityToken} {d : Delegation}
    (h : delegate env parent d = some child) (hgrants : GrantsContained env parent d) :
    CoversNoMore env parent child := by
  obtain ⟨-, hchild, -⟩ := attenuate_ok (delegate_eq_some.mp h)
  intro action haction
  rw [checkGrantCoverage_isSome] at haction ⊢
  obtain ⟨g, hg, hcovers⟩ := haction
  obtain ⟨p, hp, hsub, hpaths⟩ := hgrants g (hchild ▸ hg)
  exact ⟨p, hp, grantCovers_of_subset hsub (pathsCoverNoMore_of_contained hpaths) hcovers⟩

/-- **Step lemma**, expiry. -/
theorem delegate_expiresNoLater {env : TokenEnv} (hclock : env.ClockRoundTrips)
    {parent child : CapabilityToken} {d : Delegation} (h : delegate env parent d = some child) :
    ExpiresNoLater env parent child := by
  obtain ⟨-, -, u, e, hu, hexpires, hle⟩ := attenuate_ok (delegate_eq_some.mp h)
  intro t ht
  rw [hexpires] at ht
  rw [hclock e t ht]
  exact ⟨u, hu, hle⟩

/-- **Monotonic attenuation.**  Along every chain of delegations the depth falls at every step and
    the expiry never moves back; and where every new grant lies inside a parent grant with its paths
    contained, the covered actions only become fewer. -/
theorem delegation_never_escalates (env : TokenEnv) (hclock : env.ClockRoundTrips)
    (parent child : CapabilityToken) (chain : List Delegation)
    (hrun : run (delegate env) parent chain = some child) :
    (EachStep (delegate env) (fun p d _ => GrantsContained env p d) parent chain →
      CoversNoMore env parent child) ∧
    child.remainingDepth + chain.length ≤ parent.remainingDepth ∧
    ExpiresNoLater env parent child := by
  refine ⟨fun hgrants => ?_, ?_, ?_⟩
  · refine run_rel (fun _ _ h => h) (fun s t u hst htu action h => hst action (htu action h)) ?_ hrun
    exact EachStep.mono (I := fun _ => True) (fun _ _ _ _ _ => trivial)
      (fun s d s' _ _ hs' hd => delegate_coversNoMore hs' hd) trivial hgrants
  · induction chain generalizing parent with
    | nil => cases hrun; exact Nat.le_refl _
    | cons d chain ih =>
      obtain ⟨next, hnext, hrest⟩ := run_cons_eq_some.mp hrun
      have hstep := (attenuate_ok (delegate_eq_some.mp hnext)).1
      have htail := ih next hrest
      rw [List.length_cons]
      omega
  · refine run_rel (fun _ t ht => ⟨t, ht, Instant.le_refl t⟩) ?_ ?_ hrun
    · intro s t u hst htu i hi
      obtain ⟨j, hj, hij⟩ := htu i hi
      obtain ⟨k, hk, hjk⟩ := hst j hj
      exact ⟨k, hk, Instant.le_trans hij hjk⟩
    · refine eachStep_of_step ?_
      intro s d s' hs'
      exact delegate_expiresNoLater hclock hs'

/-! ## Two chains

    Cryptography with short outputs, which nothing here looks into, and a clock library that knows
    three instants. -/

/-- The instants and their texts. -/
def plainTimes : List (Instant × String) :=
  [(⟨1767225600, 0⟩, "2026-01-01T00:00:00+00:00"), (⟨1767229200, 0⟩, "2026-01-01T01:00:00+00:00"),
   (⟨1767312000, 0⟩, "2026-01-02T00:00:00+00:00")]

/-- `hex::decode` on bytes. -/
def plainHexDecode : List UInt8 → Except String (List UInt8)
  | [] => .ok []
  | [_] => .error "Odd number of digits"
  | hi :: lo :: rest =>
    match hexDigit hi, hexDigit lo with
    | some h, some l => (plainHexDecode rest).map ((h * 16 + l) :: ·)
    | _, _ => .error "Invalid character"

/-- `hex::encode` of zero bytes; keys and signatures below have no others. -/
def plainHexEncode (bytes : List UInt8) : String :=
  String.ofList (List.replicate (2 * bytes.length) '0')

def plainEnv : TokenEnv where
  domainToAscii := fun domain => some (toAsciiLowercase domain)
  parseRfc3339 := fun text =>
    match plainTimes.find? fun e => e.2 == text with
    | some e => .ok e.1
    | none => .error "input contains invalid characters"
  toRfc3339 := fun t => ((plainTimes.find? fun e => e.1 == t).map Prod.snd).getD ""
  timestampInRange := fun seconds => decide (seconds < 8210266876800)
  hexDecode := fun text => plainHexDecode (asBytes text)
  hexEncode := plainHexEncode
  verifyingKey := fun _ => [0, 0, 0, 0]
  sign := fun _ digest => digest
  contentDigest := fun _ => [0, 0, 0, 0]
  jsonText := fun v => .ok (plainJsonText v)

theorem plainEnv_clockRoundTrips : plainEnv.ClockRoundTrips := by
  have hread : ∀ e ∈ plainTimes, plainEnv.parseRfc3339 e.2 = .ok e.1 := by decide +kernel
  have hempty : plainEnv.parseRfc3339 "" = .error "input contains invalid characters" := by
    decide +kernel
  intro t r hr
  cases hfind : plainTimes.find? fun e => e.1 == t with
  | none =>
    have hprint : plainEnv.toRfc3339 t = "" := by simp only [plainEnv, hfind, Option.map_none]; rfl
    rw [hprint, hempty] at hr
    cases hr
  | some e =>
    have hprint : plainEnv.toRfc3339 t = e.2 := by simp only [plainEnv, hfind, Option.map_some]; rfl
    have he : e.1 = t := by simpa using List.find?_some hfind
    rw [hprint, hread e (List.mem_of_find?_eq_some hfind), he] at hr
    cases hr
    rfl

/-- A grant to read files under the given paths. -/
def readGrant (paths : List String) : CapabilityGrant := ⟨"file_system", "read_file", paths, [], 0⟩

/-- A token of the operator for Alice, good for a day. -/
def aliceToken (paths : List String) : CapabilityToken where
  tokenId := "a1"
  parentTokenId := none
  issuer := "operator"
  holder := "alice"
  grants := [readGrant paths]
  remainingDepth := 3
  issuedAt := "2026-01-01T00:00:00+00:00"
  expiresAt := "2026-01-02T00:00:00+00:00"
  signature := "00000000"
  issuerPublicKey := "00000000"

/-- Hand on a token for an hour. -/
def handOn (holder tokenId : String) (paths : List String) (now : Instant) : Delegation :=
  ⟨holder, [readGrant paths], plainHexEncode (List.replicate 32 0), 3600, now, tokenId⟩

def toBob (paths : List String) : Delegation := handOn "bob" "b1" paths ⟨1767225600, 0⟩

def toCarol (paths : List String) : Delegation := handOn "carol" "c1" paths ⟨1767225600, 0⟩

theorem delegation_never_escalates_reports :
    ∃ child, run (delegate plainEnv) (aliceToken ["/r/*"])
        [toBob ["/r/q?"], toCarol ["/r/q1"]] = some child ∧
      CoversNoMore plainEnv (aliceToken ["/r/*"]) child ∧ child.remainingDepth + 2 ≤ 3 ∧
      ExpiresNoLater plainEnv (aliceToken ["/r/*"]) child := by
  have hsome : (run (delegate plainEnv) (aliceToken ["/r/*"])
      [toBob ["/r/q?"], toCarol ["/r/q1"]]).isSome = true := by decide +kernel
  obtain ⟨child, hrun⟩ := Option.isSome_iff_exists.mp hsome
  obtain ⟨hcovers, hdepth, hexpires⟩ := delegation_never_escalates plainEnv plainEnv_clockRoundTrips
    (aliceToken ["/r/*"]) child [toBob ["/r/q?"], toCarol ["/r/q1"]] hrun
  -- a grant for one path inside a grant for another
  have hgrant : ∀ p c, grantIsSubset plainEnv.domainToAscii (readGrant [c]) (readGrant [p]) = true →
      patternIsSubset p c = true → ∀ parent : CapabilityToken, parent.grants = [readGrant [p]] →
      ∀ holder tokenId now, GrantsContained plainEnv parent (handOn holder tokenId [c] now) := by
    intro p c hsub hpc parent hparent holder tokenId now g hg
    obtain rfl : g = readGrant [c] := List.mem_singleton.mp hg
    refine ⟨readGrant [p], by simp [hparent], hsub, Or.inr fun c' hc' _ => ⟨p, by simp [readGrant], ?_⟩⟩
    rw [List.mem_singleton.mp hc']
    exact hpc
  refine ⟨child, hrun, hcovers ?_, hdepth, hexpires⟩
  intro bob hbob
  have hgrants : bob.grants = [readGrant ["/r/q?"]] :=
    (attenuate_ok (delegate_eq_some.mp hbob)).2.1
  refine ⟨hgrant _ _ (by decide +kernel) (by decide +kernel) _ rfl _ _ _, fun carol _ => ?_⟩
  exact ⟨hgrant _ _ (by decide +kernel) (by decide +kernel) _ hgrants _ _ _, trivial⟩

/-- `/a/?` matches the TEXT `/a/*`, so a holder of `/a/?` can hand on `/a/*` and with it every file
    below `/a`. -/
theorem path_pattern_escalates :
    ∃ child, attenuateCapabilityToken plainEnv (aliceToken ["/a/?"]) (toBob ["/a/*"]) = .ok child ∧
      checkGrantCoverage plainEnv.domainToAscii child
        ⟨"file_system", "read_file", .object [], ["/a/secret"], [], []⟩ = some 0 ∧
      checkGrantCoverage plainEnv.domainToAscii (aliceToken ["/a/?"])
        ⟨"file_system", "read_file", .object [], ["/a/secret"], [], []⟩ = none := by
  have hsome : (delegate plainEnv (aliceToken ["/a/?"]) (toBob ["/a/*"])).isSome = true := by
    decide +kernel
  obtain ⟨child, hchild⟩ := Option.isSome_iff_exists.mp hsome
  have hok := delegate_eq_some.mp hchild
  refine ⟨child, hok, ?_, by decide +kernel⟩
  rw [checkGrantCoverage, (attenuate_ok hok).2.1]
  decide +kernel

end Vellaveto.Capability
