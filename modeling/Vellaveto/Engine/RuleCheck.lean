/-
  PATH, NETWORK AND IP RULES of a compiled policy (`vellaveto-engine/src/rule_check.rs`).

  PROGRAM.  Before a matching policy is applied, the targets of the action are checked against its
  rules.  Each check goes over the targets in order and DENIES at the first one that is malformed,
  blocked, or missing from a non-empty allowlist.

  CORRECTNESS.  A check only ever denies (`denies_checkRules`), and a path that a blocked glob matches
  after normalization is always denied (`checkPathRules_of_blocked`).
-/
import Vellaveto.Engine.Compile
import Vellaveto.Engine.Path

namespace Vellaveto

open Vellaveto.Lib

/-- The settings of an engine that evaluation reads. -/
structure Settings where
  strictMode : Bool
  maxPathDecodeIterations : Nat

section RuleCheck

variable {κ : Type} (ext : Externals) (settings : Settings)

/-! ## Paths -/

/-- The check of one path. -/
def checkPath (rules : CompiledPathRules) (policyName rawPath : String) : Option Verdict :=
  match Path.normalizePathBounded rawPath settings.maxPathDecodeIterations with
  | .error e => some (.deny s!"Path normalization failed: {e.display}")
  | .ok normalized =>
    if rules.blocked.any fun g => g.2 normalized then
      some (.deny s!"Path blocked by policy '{policyName}'")
    else if !rules.allowed.isEmpty && !rules.allowed.any fun g => g.2 normalized then
      some (.deny s!"Path not in allowed paths for policy '{policyName}'")
    else none

/-- `check_path_rules`. -/
def checkPathRules (action : Action) (cp : CompiledPolicy κ) : Option Verdict :=
  match cp.compiledPathRules with
  | none => none
  | some rules =>
    if rules.allowed.isEmpty && rules.blocked.isEmpty then none
    else if action.targetPaths.isEmpty then
      if !rules.allowed.isEmpty then
        some (.deny <| "No target paths provided but path allowlist is configured for policy " ++
          s!"'{cp.policy.name}'")
      else none
    else action.targetPaths.findSome? (checkPath settings rules cp.policy.name)

/-! ## Domains -/

/-- The check of one domain. -/
def checkDomain (rules : CompiledNetworkRules) (policyName rawDomain : String) : Option Verdict :=
  let domain := ext.toLowercase rawDomain
  if (Domain.normalizeDomainForMatch ext domain).isNone then
    some (.deny <| "Domain cannot be normalized (IDNA failure) — blocked by policy " ++
      s!"'{policyName}'")
  else if rules.blockedDomains.any fun p => Domain.matchDomainPattern ext domain p then
    some (.deny s!"Domain blocked by policy '{policyName}'")
  else if !rules.allowedDomains.isEmpty &&
      !rules.allowedDomains.any fun p => Domain.matchDomainPattern ext domain p then
    some (.deny s!"Domain not in allowed domains for policy '{policyName}'")
  else none

/-- `check_network_rules`. -/
def checkNetworkRules (action : Action) (cp : CompiledPolicy κ) : Option Verdict :=
  match cp.compiledNetworkRules with
  | none => none
  | some rules =>
    if action.targetDomains.isEmpty then
      if !rules.allowedDomains.isEmpty then
        some (.deny <| "No target domains provided but domain allowlist is configured for policy " ++
          s!"'{cp.policy.name}'")
      else none
    else action.targetDomains.findSome? (checkDomain ext rules cp.policy.name)

/-! ## Addresses -/

/-- The address that is compared: an IPv6 transition address stands for the IPv4 address in it. -/
def canonicalIp : Ip.IpAddr → Ip.IpAddr
  | .v6 v6 =>
    match Ip.extractEmbeddedIpv4 v6 with
    | some v4 => .v4 v4
    | none => .v6 v6
  | ip => ip

/-- The check of one resolved address. -/
def checkIp (rules : CompiledIpRules) (policyName ipStr : String) : Option Verdict :=
  match ext.parseIpAddr ipStr with
  | none => some (.deny s!"Invalid resolved IP '{ipStr}'")
  | some rawIp =>
    let ip := canonicalIp rawIp
    let text := ext.displayIp ip
    if rules.blockPrivate && Ip.isPrivateIp ip then
      some (.deny <| s!"Resolved IP '{text}' is a private/reserved address " ++
        s!"(DNS rebinding protection) in policy '{policyName}'")
    else if rules.blockedCidrs.any fun cidr => cidr.contains ip then
      some (.deny s!"Resolved IP '{text}' in blocked CIDR for policy '{policyName}'")
    else if !rules.allowedCidrs.isEmpty && !rules.allowedCidrs.any fun cidr => cidr.contains ip then
      some (.deny s!"Resolved IP '{text}' not in allowed CIDRs for policy '{policyName}'")
    else none

/-- `check_ip_rules`. -/
def checkIpRules (action : Action) (cp : CompiledPolicy κ) : Option Verdict :=
  match cp.compiledIpRules with
  | none => none
  | some rules =>
    if action.resolvedIps.isEmpty && !action.targetDomains.isEmpty then
      some (.deny s!"IP rules configured but no resolved IPs provided for policy '{cp.policy.name}'")
    else action.resolvedIps.findSome? (checkIp ext rules cp.policy.name)

/-- The three checks in the order in which a policy is applied. -/
def checkRules (action : Action) (cp : CompiledPolicy κ) : Option Verdict :=
  (checkPathRules settings action cp).or <|
    (checkNetworkRules ext action cp).or (checkIpRules ext action cp)

/-! ## What a check can return -/

/-- A check passes or denies. -/
def Denies (result : Option Verdict) : Prop := ∀ v ∈ result, v.kind = .deny

@[simp] theorem denies_none : Denies none := by
  intro v hv
  cases hv

@[simp] theorem denies_deny (reason : String) : Denies (some (.deny reason)) := by
  intro v hv
  cases hv
  rfl

theorem denies_findSome {α : Type} {check : α → Option Verdict} (hcheck : ∀ a, Denies (check a))
    (as : List α) : Denies (as.findSome? check) := by
  intro v hv
  obtain ⟨a, -, ha⟩ := List.exists_of_findSome?_eq_some hv
  exact hcheck a v ha

theorem denies_or {r s : Option Verdict} (hr : Denies r) (hs : Denies s) : Denies (r.or s) := by
  cases r with
  | none => exact hs
  | some v => exact hr

theorem denies_checkPath (rules : CompiledPathRules) (policyName rawPath : String) :
    Denies (checkPath settings rules policyName rawPath) := by
  rw [checkPath]
  split
  · exact denies_deny _
  · split
    · exact denies_deny _
    · split
      · exact denies_deny _
      · exact denies_none

theorem denies_checkPathRules (action : Action) (cp : CompiledPolicy κ) :
    Denies (checkPathRules settings action cp) := by
  rw [checkPathRules]
  split
  · exact denies_none
  · split
    · exact denies_none
    · split
      · split
        · exact denies_deny _
        · exact denies_none
      · exact denies_findSome (denies_checkPath settings _ _) _

theorem denies_checkDomain (rules : CompiledNetworkRules) (policyName rawDomain : String) :
    Denies (checkDomain ext rules policyName rawDomain) := by
  rw [checkDomain]
  split
  · exact denies_deny _
  · split
    · exact denies_deny _
    · split
      · exact denies_deny _
      · exact denies_none

theorem denies_checkNetworkRules (action : Action) (cp : CompiledPolicy κ) :
    Denies (checkNetworkRules ext action cp) := by
  rw [checkNetworkRules]
  split
  · exact denies_none
  · split
    · split
      · exact denies_deny _
      · exact denies_none
    · exact denies_findSome (denies_checkDomain ext _ _) _

theorem denies_checkIp (rules : CompiledIpRules) (policyName ipStr : String) :
    Denies (checkIp ext rules policyName ipStr) := by
  rw [checkIp]
  split
  · exact denies_deny _
  · dsimp only
    split
    · exact denies_deny _
    · split
      · exact denies_deny _
      · split
        · exact denies_deny _
        · exact denies_none

theorem denies_checkIpRules (action : Action) (cp : CompiledPolicy κ) :
    Denies (checkIpRules ext action cp) := by
  rw [checkIpRules]
  split
  · exact denies_none
  · split
    · exact denies_deny _
    · exact denies_findSome (denies_checkIp ext _ _) _

/-- The rules of a policy can only deny. -/
theorem denies_checkRules (action : Action) (cp : CompiledPolicy κ) :
    Denies (checkRules ext settings action cp) :=
  denies_or (denies_checkPathRules settings action cp)
    (denies_or (denies_checkNetworkRules ext action cp) (denies_checkIpRules ext action cp))

/-- A target path that a blocked glob matches after normalization makes the check deny, whatever
    the other targets and the allowlist are. -/
theorem checkPathRules_of_blocked {action : Action} {cp : CompiledPolicy κ}
    {rules : CompiledPathRules} (hrules : cp.compiledPathRules = some rules)
    {path normalized : String} (hpath : path ∈ action.targetPaths)
    (hnorm : Path.normalizePathBounded path settings.maxPathDecodeIterations = .ok normalized)
    (hblocked : ∃ g ∈ rules.blocked, g.2 normalized = true) :
    ∃ reason, checkPathRules settings action cp = some (.deny reason) := by
  obtain ⟨g, hg, hmatch⟩ := hblocked
  have hany : (rules.blocked.any fun g => g.2 normalized) = true :=
    List.any_eq_true.mpr ⟨g, hg, hmatch⟩
  have hthis : (checkPath settings rules cp.policy.name path).isSome = true := by
    rw [checkPath, hnorm]
    simp only [hany, ↓reduceIte, Option.isSome_some]
  have hsome : (action.targetPaths.findSome? (checkPath settings rules cp.policy.name)).isSome := by
    rw [List.findSome?_isSome_iff]
    exact ⟨path, hpath, hthis⟩
  have hne : action.targetPaths.isEmpty = false := by
    rw [List.isEmpty_eq_false_iff]
    exact List.ne_nil_of_mem hpath
  have hnotboth : (rules.allowed.isEmpty && rules.blocked.isEmpty) = false := by
    rw [List.isEmpty_eq_false_iff.mpr (List.ne_nil_of_mem hg), Bool.and_false]
  have hcheck : checkPathRules settings action cp =
      action.targetPaths.findSome? (checkPath settings rules cp.policy.name) := by
    rw [checkPathRules, hrules]
    simp only [hnotboth, hne, Bool.false_eq_true, ↓reduceIte]
  obtain ⟨v, hv⟩ := Option.isSome_iff_exists.mp hsome
  have hkind := denies_findSome (denies_checkPath settings rules cp.policy.name) _ v hv
  cases v with
  | deny reason => exact ⟨reason, by rw [hcheck, hv]⟩
  | allow => cases hkind
  | requireApproval reason => cases hkind

end RuleCheck

end Vellaveto
