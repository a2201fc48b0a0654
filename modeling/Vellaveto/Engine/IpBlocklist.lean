/-
  WHAT AN IP BLOCKLIST KEEPS OUT (`check_ip_rules` of `rule_check.rs`, `extract_embedded_ipv4` of
  `ip.rs`).

  An IPv6 transition address (mapped, compatible, 6to4, Teredo, NAT64) stands for the IPv4 address in
  it, and `check_ip_rules` goes on with that IPv4 address ONLY.  For `block_private` nothing is lost:
  `is_private_ip` looks into transition addresses itself (`isPrivateIp_canonicalIp`).  For the blocked
  networks something is: a blocked IPv6 network is never compared with the address as it was written.

    1. `checkIpRules_eq_none_iff`   the check passes exactly if no address is refused in the form in
                                    which it is compared;
    2. `blocklistHolds_iff`         so the blocklist holds exactly if the action is refused anyway, or
                                    none of its transition addresses lies in a blocked network.
-/
import Vellaveto.Engine.RuleCheck
import Vellaveto.Engine.Transition

namespace Vellaveto

open Vellaveto.Ip

variable {κ : Type} (ext : Externals)

/-- The rules refuse an address in this form. -/
def CompiledIpRules.Refuses (rules : CompiledIpRules) (ip : IpAddr) : Prop :=
  (rules.blockPrivate = true ∧ isPrivateIp ip = true) ∨ ∃ cidr ∈ rules.blockedCidrs, cidr.contains ip = true

/-- The rules have an allowlist and this form is not on it. -/
def CompiledIpRules.Omits (rules : CompiledIpRules) (ip : IpAddr) : Prop :=
  rules.allowedCidrs ≠ [] ∧ ∀ cidr ∈ rules.allowedCidrs, cidr.contains ip = false

/-- The action is refused for what the check does look at: it names domains and brings no addresses,
    or one of its addresses is no address, or is refused or not listed in the form that is compared. -/
def RefusedAnyway (rules : CompiledIpRules) (action : Action) : Prop :=
  (action.resolvedIps = [] ∧ action.targetDomains ≠ []) ∨
    ∃ ipStr ∈ action.resolvedIps, ∀ ip, ext.parseIpAddr ipStr = some ip →
      rules.Refuses (canonicalIp ip) ∨ rules.Omits (canonicalIp ip)

/-- No transition address of the action lies, as it is written, in a blocked network. -/
def NoTransitionBlocked (rules : CompiledIpRules) (action : Action) : Prop :=
  ∀ ipStr ∈ action.resolvedIps, ∀ v6 v4, ext.parseIpAddr ipStr = some (.v6 v6) →
    extractEmbeddedIpv4 v6 = some v4 → ∀ cidr ∈ rules.blockedCidrs, cidr.contains (.v6 v6) = false

/-- The blocklist holds: if the check passes, no resolved address is refused, neither as it is written
    nor in the IPv4 form that it embeds. -/
def BlocklistHolds (rules : CompiledIpRules) (cp : CompiledPolicy κ) (action : Action) : Prop :=
  checkIpRules ext action { cp with compiledIpRules := some rules } = none →
    ∀ ipStr ∈ action.resolvedIps, ∀ ip, ext.parseIpAddr ipStr = some ip →
      ¬rules.Refuses ip ∧ ¬rules.Refuses (canonicalIp ip)

theorem canonicalIp_of_none {v6 : Ipv6Addr} (h : extractEmbeddedIpv4 v6 = none) :
    canonicalIp (.v6 v6) = .v6 v6 := by
  simp [canonicalIp, h]

/-! ## Private addresses -/

/-- What is compared is private if what was written is. -/
theorem isPrivateIp_canonicalIp {ip : IpAddr} (h : isPrivateIp ip = true) :
    isPrivateIp (canonicalIp ip) = true := by
  unfold canonicalIp
  cases ip with
  | v4 v4 => exact h
  | v6 v6 =>
    dsimp only
    split
    · rename_i v4 hembedded
      rwa [← isPrivateIp_of_extractEmbeddedIpv4 hembedded]
    · exact h

/-! ## The check -/

/-- One address passes. -/
theorem checkIp_eq_none_iff {rules : CompiledIpRules} {policyName ipStr : String} :
    checkIp ext rules policyName ipStr = none ↔
      ∃ ip, ext.parseIpAddr ipStr = some ip ∧ ¬rules.Refuses (canonicalIp ip) ∧
        ¬rules.Omits (canonicalIp ip) := by
  unfold checkIp
  cases hparse : ext.parseIpAddr ipStr with
  | none => simp
  | some ip =>
    have hrefuses : rules.Refuses (canonicalIp ip) ↔
        (rules.blockPrivate && isPrivateIp (canonicalIp ip)) = true ∨
          (rules.blockedCidrs.any fun cidr => cidr.contains (canonicalIp ip)) = true := by
      rw [CompiledIpRules.Refuses, Bool.and_eq_true, List.any_eq_true]
    have homits : rules.Omits (canonicalIp ip) ↔
        (!rules.allowedCidrs.isEmpty &&
          !rules.allowedCidrs.any fun cidr => cidr.contains (canonicalIp ip)) = true := by
      simp [CompiledIpRules.Omits]
    simp only [Option.some.injEq, exists_eq_left', hrefuses, homits]
    split
    · rename_i hprivate
      simp [hprivate]
    · rename_i hprivate
      split
      · rename_i hblocked
        simp [hblocked]
      · rename_i hblocked
        split
        · rename_i hallowed
          simp [hallowed]
        · rename_i hallowed
          exact iff_of_true rfl ⟨not_or.mpr ⟨hprivate, hblocked⟩, hallowed⟩

/-- The check passes exactly if it finds nothing to refuse in the forms that it compares. -/
theorem checkIpRules_eq_none_iff (rules : CompiledIpRules) (cp : CompiledPolicy κ) (action : Action) :
    checkIpRules ext action { cp with compiledIpRules := some rules } = none ↔
      ¬RefusedAnyway ext rules action := by
  have hempty : (action.resolvedIps.isEmpty && !action.targetDomains.isEmpty) = true ↔
      action.resolvedIps = [] ∧ action.targetDomains ≠ [] := by
    simp
  unfold checkIpRules RefusedAnyway
  dsimp only
  rw [not_or, ← hempty]
  split
  · rename_i hcond
    simp [hcond]
  · rename_i hcond
    rw [List.findSome?_eq_none_iff]
    simp only [hcond, Bool.false_eq_true, not_false_eq_true, true_and, not_exists, not_and]
    refine forall₂_congr fun ipStr _ => ?_
    rw [checkIp_eq_none_iff]
    constructor
    · rintro ⟨ip, hparse, hrefuses, homits⟩ hall
      rcases hall ip hparse with h | h
      · exact hrefuses h
      · exact homits h
    · intro hnot
      simpa only [not_forall, not_or, exists_prop] using hnot

/-- **Where a blocklist holds.**  For every rule set and every action: the blocklist holds exactly if
    the action is refused anyway, or none of its transition addresses lies, as it is written, in a
    blocked network. -/
theorem blocklistHolds_iff (rules : CompiledIpRules) (cp : CompiledPolicy κ) (action : Action) :
    BlocklistHolds ext rules cp action ↔
      RefusedAnyway ext rules action ∨ NoTransitionBlocked ext rules action := by
  unfold BlocklistHolds
  rw [checkIpRules_eq_none_iff]
  by_cases hrefused : RefusedAnyway ext rules action
  · exact iff_of_true (fun h => absurd hrefused h) (Or.inl hrefused)
  have hcompared : ∀ ipStr ∈ action.resolvedIps, ∀ ip, ext.parseIpAddr ipStr = some ip →
      ¬rules.Refuses (canonicalIp ip) := by
    intro ipStr hmem ip hparse hrefuses
    refine hrefused (Or.inr ⟨ipStr, hmem, fun ip' hparse' => ?_⟩)
    cases hparse.symm.trans hparse'
    exact Or.inl hrefuses
  constructor
  · intro hholds
    refine Or.inr fun ipStr hmem v6 v4 hparse _ cidr hcidr => ?_
    by_contra hin
    have hin' : cidr.contains (.v6 v6) = true := by simpa using hin
    exact (hholds hrefused ipStr hmem _ hparse).1 (Or.inr ⟨cidr, hcidr, hin'⟩)
  · rintro (h | hnone)
    · exact absurd h hrefused
    · intro _ ipStr hmem ip hparse
      have hcanonical := hcompared ipStr hmem ip hparse
      refine ⟨?_, hcanonical⟩
      rintro (⟨hblock, hprivate⟩ | ⟨cidr, hcidr, hin⟩)
      · exact hcanonical (Or.inl ⟨hblock, isPrivateIp_canonicalIp hprivate⟩)
      · -- an address that is compared as it is written is not in the network either
        cases ip with
        | v4 v4 => exact hcanonical (Or.inr ⟨cidr, hcidr, hin⟩)
        | v6 v6 =>
          cases hembedded : extractEmbeddedIpv4 v6 with
          | some v4 =>
            rw [hnone ipStr hmem v6 v4 hparse hembedded cidr hcidr] at hin
            cases hin
          | none =>
            rw [canonicalIp_of_none hembedded] at hcanonical
            exact hcanonical (Or.inr ⟨cidr, hcidr, hin⟩)

/-! ## A blocked network that is not blocked -/

/-- No 6to4 addresses: `2002::/16`. -/
def noSixToFour : CompiledIpRules where
  blockPrivate := true
  blockedCidrs := [⟨.v6 ⟨0x2002, 0, 0, 0, 0, 0, 0, 0⟩, 16⟩]
  allowedCidrs := []

/-- A policy that allows what these rules let through. -/
def noSixToFourPolicy : CompiledPolicy Empty where
  policy := ⟨"http:get", "no 6to4", .allow, 100, none, none⟩
  toolMatcher := .universal
  conditions := ⟨false, [], [], [], false, []⟩
  compiledPathRules := none
  compiledNetworkRules := none
  compiledIpRules := some noSixToFour

/-- `2002:808:808::1` is the 6to4 address of `8.8.8.8`. -/
def sixToFourExternals : Externals :=
  { plainExternals with
    parseIpAddr := fun text =>
      if text = "2002:808:808::1" then some (.v6 ⟨0x2002, 0x0808, 0x0808, 0, 0, 0, 0, 1⟩) else none }

def fetchSixToFour : Action :=
  ⟨"http", "get", .null, [], ["relay.example.com"], ["2002:808:808::1"]⟩

/-- The address lies in the blocked network, and the check lets it pass. -/
theorem blocklist_misses_six_to_four :
    ¬BlocklistHolds sixToFourExternals noSixToFour noSixToFourPolicy fetchSixToFour := by
  intro hholds
  have hpasses : checkIpRules sixToFourExternals fetchSixToFour noSixToFourPolicy = none := by decide
  have hparse : sixToFourExternals.parseIpAddr "2002:808:808::1" =
      some (.v6 ⟨0x2002, 0x0808, 0x0808, 0, 0, 0, 0, 1⟩) := by decide
  refine (hholds hpasses "2002:808:808::1" (by decide) _ hparse).1 (Or.inr ⟨_, List.mem_cons_self, ?_⟩)
  decide

end Vellaveto
