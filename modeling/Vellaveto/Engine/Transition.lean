/-
  TRANSITION ADDRESSES AND PRIVATE ADDRESSES (`vellaveto-engine/src/ip.rs`).

  `is_private_ip` and `extract_embedded_ipv4` each have tests of their own for the six formats in which
  an IPv6 address embeds an IPv4 address.  Here the two sets of tests are compared, over all addresses.

    1. **Formats** — `TransitionFormat`: the prefix of each format and where the IPv4 address stands.
       `::` and `::1` have the prefix of the compatible format, and nothing is extracted from them;
       the address in them is reserved, as they are themselves.
    2. **Agreement** — `isPrivateIp_commutes`: an address is private exactly if the address that is extracted
       from it is, or, where there is none, if it lies in one of the native ranges.
-/
import Mathlib.Tactic.Tauto
import Vellaveto.Engine.Ip

namespace Vellaveto.Ip

/-! ### Formats -/

/-- The formats that embed an IPv4 address. -/
inductive TransitionFormat where
  | mapped
  | compatible
  | sixToFour
  | teredo
  | nat64
  | nat64Local
deriving DecidableEq, Repr

/-- The prefix: `::ffff:0:0/96`, `::/96`, `2002::/16`, `2001::/32`, `64:ff9b::/96`, `64:ff9b:1::/48`. -/
def TransitionFormat.covers (v : Ipv6Addr) : TransitionFormat → Bool
  | .mapped => v.leadingZeros && v.s5 == 0xffff
  | .compatible => v.leadingZeros && v.s5 == 0
  | .sixToFour => v.s0 == 0x2002
  | .teredo => v.s0 == 0x2001 && v.s1 == 0
  | .nat64 => isNat64 v
  | .nat64Local => isNat64Local v

/-- The IPv4 address that the format puts there. -/
def TransitionFormat.embedded (v : Ipv6Addr) : TransitionFormat → Ipv4Addr
  | .mapped | .compatible | .nat64 | .nat64Local => ofSegments v.s6 v.s7
  | .sixToFour => ofSegments v.s1 v.s2
  | .teredo => ofInvertedSegments v.s6 v.s7

/-- The special ranges of IPv6 itself: loopback, unspecified, unique local, link-local, multicast,
    documentation and discard. -/
def isNativeSpecial (v : Ipv6Addr) : Bool :=
  v.isLoopback || v.isUnspecified
    || v.s0 &&& 0xfe00 == 0xfc00
    || v.s0 &&& 0xffc0 == 0xfe80
    || v.s0 &&& 0xff00 == 0xff00
    || (v.s0 == 0x2001 && v.s1 == 0x0db8)
    || (v.s0 == 0x0100 && v.s1 == 0 && v.s2 == 0 && v.s3 == 0)

/-! ### Agreement -/

section Agreement

variable {v : Ipv6Addr} {v4 : Ipv4Addr} {f g : TransitionFormat}

/-- The prefixes have no address in common. -/
theorem format_eq_of_covers (hf : f.covers v = true) (hg : g.covers v = true) : f = g := by
  obtain ⟨s0, s1, s2, s3, s4, s5, s6, s7⟩ := v
  cases f <;> cases g <;> first
    | rfl
    | (simp only [TransitionFormat.covers, Ipv6Addr.leadingZeros, isNat64, isNat64Local,
        Bool.and_eq_true, beq_iff_eq] at hf hg
       simp_all)

theorem le_one_iff {s : UInt16} : s ≤ 1 ↔ s = 0 ∨ s = 1 := by
  rw [UInt16.le_iff_toNat_le, ← UInt16.toNat_inj, ← UInt16.toNat_inj]
  show s.toNat ≤ 1 ↔ s.toNat = 0 ∨ s.toNat = 1
  omega

/-- The compatible format of the source is the prefix without `::` and `::1`. -/
theorem isIpv4Compatible_iff (v : Ipv6Addr) :
    isIpv4Compatible v = true ↔
      TransitionFormat.compatible.covers v = true ∧ v.isLoopback = false ∧ v.isUnspecified = false := by
  unfold isIpv4Compatible TransitionFormat.covers Ipv6Addr.isLoopback Ipv6Addr.isUnspecified
  cases hzeros : v.leadingZeros && v.s5 == 0 with
  | false => simp
  | true =>
    simp only [Bool.true_and, Bool.not_eq_true', Bool.and_eq_false_iff, decide_eq_false_iff_not,
      le_one_iff, beq_eq_false_iff_ne, true_and]
    tauto

/-- The native ranges come first, then the address in the format. -/
theorem isPrivateIp_eq_true_iff (v : Ipv6Addr) :
    isPrivateIp (.v6 v) = true ↔ isNativeSpecial v = true ∨
      ∃ f : TransitionFormat, f.covers v = true ∧ isPrivateIp (.v4 (f.embedded v)) = true := by
  have hprivate : isPrivateIp (.v6 v) = (isNativeSpecial v
      || v.toIpv4Mapped.any isEmbeddedIpv4Reserved
      || (isIpv4Compatible v && isEmbeddedIpv4Reserved (ofSegments v.s6 v.s7))
      || (v.s0 == 0x2002 && isEmbeddedIpv4Reserved (ofSegments v.s1 v.s2))
      || (v.s0 == 0x2001 && v.s1 == 0 && isEmbeddedIpv4Reserved (ofInvertedSegments v.s6 v.s7))
      || (isNat64 v && isEmbeddedIpv4Reserved (ofSegments v.s6 v.s7))
      || (isNat64Local v && isEmbeddedIpv4Reserved (ofSegments v.s6 v.s7))) := rfl
  have hmapped : v.toIpv4Mapped.any isEmbeddedIpv4Reserved = true ↔
      TransitionFormat.mapped.covers v = true ∧
        isEmbeddedIpv4Reserved (ofSegments v.s6 v.s7) = true := by
    unfold Ipv6Addr.toIpv4Mapped TransitionFormat.covers
    cases v.leadingZeros && v.s5 == 0xffff <;> simp
  simp only [hprivate, Bool.or_eq_true, hmapped, Bool.and_eq_true]
  constructor
  · rintro ((((((hnative | hm) | hc) | h6) | ht) | hn) | hl)
    · exact .inl hnative
    · exact .inr ⟨.mapped, hm⟩
    · exact .inr ⟨.compatible, ((isIpv4Compatible_iff v).mp hc.1).1, hc.2⟩
    · exact .inr ⟨.sixToFour, h6⟩
    · exact .inr ⟨.teredo, Bool.and_eq_true_iff.mpr ht.1, ht.2⟩
    · exact .inr ⟨.nat64, hn⟩
    · exact .inr ⟨.nat64Local, hl⟩
  · rintro (hnative | ⟨f, hcovers, hreserved⟩)
    · simp only [hnative, true_or]
    · cases f with
      | mapped => exact .inl (.inl (.inl (.inl (.inl (.inr ⟨hcovers, hreserved⟩)))))
      | compatible =>
        -- `::` and `::1` are native
        by_cases hlocal : v.isLoopback = true ∨ v.isUnspecified = true
        · have hnative : isNativeSpecial v = true := by
            rcases hlocal with h | h <;> simp [isNativeSpecial, h]
          simp only [hnative, true_or]
        · simp only [not_or, Bool.not_eq_true] at hlocal
          have hcompatible := (isIpv4Compatible_iff v).mpr ⟨hcovers, hlocal⟩
          exact .inl (.inl (.inl (.inl (.inr ⟨hcompatible, hreserved⟩))))
      | sixToFour => exact .inl (.inl (.inl (.inr ⟨hcovers, hreserved⟩)))
      | teredo => exact .inl (.inl (.inr ⟨Bool.and_eq_true_iff.mp hcovers, hreserved⟩))
      | nat64 => exact .inl (.inr ⟨hcovers, hreserved⟩)
      | nat64Local => exact .inr ⟨hcovers, hreserved⟩

/-- The first segment of a transition address is that of no reserved IPv6 range. -/
theorem not_reserved_of_transition {s0 : UInt16}
    (h : s0 = 0 ∨ s0 = 0x2002 ∨ s0 = 0x2001 ∨ s0 = 0x0064) :
    (s0 &&& 0xfe00 == 0xfc00) = false ∧ (s0 &&& 0xffc0 == 0xfe80) = false ∧
      (s0 &&& 0xff00 == 0xff00) = false ∧ (s0 == 0x0100) = false := by
  rcases h with rfl | rfl | rfl | rfl <;> decide

/-- The format of `::` and `::1`. -/
theorem covers_of_local (h : v.isLoopback = true ∨ v.isUnspecified = true) :
    TransitionFormat.compatible.covers v = true ∧ v.s6 = 0 ∧ (v.s7 = 0 ∨ v.s7 = 1) := by
  unfold TransitionFormat.covers
  rcases h with h | h
  · simp only [Ipv6Addr.isLoopback, Bool.and_eq_true, beq_iff_eq] at h
    simp [h]
  · simp only [Ipv6Addr.isUnspecified, Bool.and_eq_true, beq_iff_eq] at h
    simp [h]

/-- Where a format reaches into the native ranges, the address in it is reserved as well. -/
theorem isPrivateIp_embedded_of_native (hf : f.covers v = true) (hnative : isNativeSpecial v = true) :
    isPrivateIp (.v4 (f.embedded v)) = true := by
  have hfirst : v.s0 = 0 ∨ v.s0 = 0x2002 ∨ v.s0 = 0x2001 ∨ v.s0 = 0x0064 := by
    cases f <;> simp_all [TransitionFormat.covers, Ipv6Addr.leadingZeros, isNat64, isNat64Local]
  obtain ⟨hula, hlink, hmulticast, hdiscard⟩ := not_reserved_of_transition hfirst
  simp only [isNativeSpecial, hula, hlink, hmulticast, hdiscard, Bool.false_and, Bool.or_false,
    Bool.or_eq_true] at hnative
  rcases hnative with hlocal | hdocumentation
  · -- `::` and `::1` have the compatible format
    obtain ⟨hcompatible, h6, h7⟩ := covers_of_local hlocal
    obtain rfl := format_eq_of_covers hf hcompatible
    show isEmbeddedIpv4Reserved (ofSegments v.s6 v.s7) = true
    rw [h6]
    rcases h7 with h7 | h7 <;> rw [h7] <;> decide
  · simp only [Bool.and_eq_true, beq_iff_eq] at hdocumentation
    have hteredo : v.s1 = 0 := by
      cases f <;> simp_all [TransitionFormat.covers, Ipv6Addr.leadingZeros, isNat64, isNat64Local]
    rw [hdocumentation.2] at hteredo
    exact absurd hteredo (by decide)

theorem isPrivateIp_of_covers (hf : f.covers v = true) :
    isPrivateIp (.v6 v) = isPrivateIp (.v4 (f.embedded v)) := by
  rw [Bool.eq_iff_iff, isPrivateIp_eq_true_iff]
  constructor
  · rintro (hnative | ⟨g, hg, hreserved⟩)
    · exact isPrivateIp_embedded_of_native hf hnative
    · rw [format_eq_of_covers hf hg]
      exact hreserved
  · intro hreserved
    exact .inr ⟨f, hf, hreserved⟩

/-- The six ways in which an IPv6 address embeds an IPv4 address. -/
theorem extractEmbeddedIpv4_eq_some (h : extractEmbeddedIpv4 v = some v4) :
    (v.leadingZeros = true ∧ v.s5 = 0xffff ∧ v4 = ofSegments v.s6 v.s7) ∨
      (isIpv4Compatible v = true ∧ v4 = ofSegments v.s6 v.s7) ∨
      (v.s0 = 0x2002 ∧ v4 = ofSegments v.s1 v.s2) ∨
      (v.s0 = 0x2001 ∧ v.s1 = 0 ∧ v4 = ofInvertedSegments v.s6 v.s7) ∨
      (isNat64 v = true ∧ v4 = ofSegments v.s6 v.s7) ∨
      (isNat64Local v = true ∧ v4 = ofSegments v.s6 v.s7) := by
  unfold extractEmbeddedIpv4 Ipv6Addr.toIpv4Mapped at h
  split at h
  · rename_i v hmapped
    cases h
    split at hmapped
    · rename_i hcond
      simp only [Bool.and_eq_true, beq_iff_eq] at hcond
      cases hmapped
      exact Or.inl ⟨hcond.1, hcond.2, rfl⟩
    · cases hmapped
  · split at h
    · rename_i hcond
      cases h
      exact Or.inr (Or.inl ⟨hcond, rfl⟩)
    · split at h
      · rename_i hcond
        cases h
        exact Or.inr (Or.inr (Or.inl ⟨beq_iff_eq.mp hcond, rfl⟩))
      · split at h
        · rename_i hcond
          simp only [Bool.and_eq_true, beq_iff_eq] at hcond
          cases h
          exact Or.inr (Or.inr (Or.inr (Or.inl ⟨hcond.1, hcond.2, rfl⟩)))
        · split at h
          · rename_i hcond
            cases h
            exact Or.inr (Or.inr (Or.inr (Or.inr (Or.inl ⟨hcond, rfl⟩))))
          · split at h
            · rename_i hcond
              cases h
              exact Or.inr (Or.inr (Or.inr (Or.inr (Or.inr ⟨hcond, rfl⟩))))
            · cases h

/-- What is extracted is what a format puts there. -/
theorem covers_of_extractEmbeddedIpv4 (h : extractEmbeddedIpv4 v = some v4) :
    ∃ f : TransitionFormat, f.covers v = true ∧ f.embedded v = v4 := by
  rcases extractEmbeddedIpv4_eq_some h with
    ⟨hzeros, h5, rfl⟩ | ⟨hcond, rfl⟩ | ⟨h0, rfl⟩ | ⟨h0, h1, rfl⟩ | ⟨hcond, rfl⟩ | ⟨hcond, rfl⟩
  · exact ⟨.mapped, by simp [TransitionFormat.covers, hzeros, h5], rfl⟩
  · exact ⟨.compatible, ((isIpv4Compatible_iff v).mp hcond).1, rfl⟩
  · exact ⟨.sixToFour, by simp [TransitionFormat.covers, h0], rfl⟩
  · exact ⟨.teredo, by simp [TransitionFormat.covers, h0, h1], rfl⟩
  · exact ⟨.nat64, hcond, rfl⟩
  · exact ⟨.nat64Local, hcond, rfl⟩

theorem ite_some_eq_none {α : Type} {b : Bool} {x : α} {o : Option α} :
    (if b then some x else o) = none ↔ b = false ∧ o = none := by
  cases b <;> simp

theorem isPrivateIp_of_extractEmbeddedIpv4 (h : extractEmbeddedIpv4 v = some v4) :
    isPrivateIp (.v6 v) = isPrivateIp (.v4 v4) := by
  obtain ⟨f, hf, rfl⟩ := covers_of_extractEmbeddedIpv4 h
  exact isPrivateIp_of_covers hf

/-- Nothing is extracted only where no test succeeds. -/
theorem tests_of_extractEmbeddedIpv4_none (h : extractEmbeddedIpv4 v = none) :
    (v.leadingZeros && v.s5 == 0xffff) = false ∧ isIpv4Compatible v = false ∧
      (v.s0 == 0x2002) = false ∧ (v.s0 == 0x2001 && v.s1 == 0) = false ∧ isNat64 v = false ∧
      isNat64Local v = false := by
  unfold extractEmbeddedIpv4 Ipv6Addr.toIpv4Mapped at h
  cases hmapped : v.leadingZeros && v.s5 == 0xffff with
  | true => simp [hmapped] at h
  | false =>
    simp only [hmapped, Bool.false_eq_true, if_false, ite_some_eq_none, and_true] at h
    exact ⟨rfl, h⟩

/-- So an address with a format from which nothing is extracted is `::` or `::1`. -/
theorem isNativeSpecial_of_covers (h : extractEmbeddedIpv4 v = none) (hf : f.covers v = true) :
    isNativeSpecial v = true := by
  obtain ⟨hmapped, hcompatible, h6to4, hteredo, hnat64, hnat64Local⟩ :=
    tests_of_extractEmbeddedIpv4_none h
  unfold TransitionFormat.covers at hf
  cases f with
  | mapped => exact absurd hf (Bool.not_eq_true _ ▸ hmapped)
  | compatible =>
    by_contra hnot
    simp only [isNativeSpecial, Bool.or_eq_true, not_or, Bool.not_eq_true] at hnot
    rw [(isIpv4Compatible_iff v).mpr ⟨hf, hnot.1.1.1.1.1⟩] at hcompatible
    cases hcompatible
  | sixToFour => exact absurd hf (Bool.not_eq_true _ ▸ h6to4)
  | teredo => exact absurd hf (Bool.not_eq_true _ ▸ hteredo)
  | nat64 => exact absurd hf (Bool.not_eq_true _ ▸ hnat64)
  | nat64Local => exact absurd hf (Bool.not_eq_true _ ▸ hnat64Local)

end Agreement

/-- **The two sets of tests agree.**  An address is classified as the IPv4 address that is extracted from it,
    and by the native ranges where there is none; an address of any of the six formats is classified as
    the IPv4 address in it; and no address has two formats. -/
theorem isPrivateIp_commutes (v : Ipv6Addr) :
    (isPrivateIp (.v6 v) =
      match extractEmbeddedIpv4 v with
      | some v4 => isPrivateIp (.v4 v4)
      | none => isNativeSpecial v) ∧
    (∀ f : TransitionFormat, f.covers v = true →
      isPrivateIp (.v6 v) = isPrivateIp (.v4 (f.embedded v))) ∧
    (∀ f g : TransitionFormat, f.covers v = true → g.covers v = true → f = g) := by
  refine ⟨?_, fun f hf => isPrivateIp_of_covers hf, fun f g hf hg => format_eq_of_covers hf hg⟩
  · split
    · rename_i v4 hembedded
      exact isPrivateIp_of_extractEmbeddedIpv4 hembedded
    · rename_i hnone
      rw [Bool.eq_iff_iff, isPrivateIp_eq_true_iff]
      constructor
      · rintro (hnative | ⟨f, hf, -⟩)
        · exact hnative
        · exact isNativeSpecial_of_covers hnone hf
      · exact .inl

end Vellaveto.Ip
