/-
  PROVENANCE: trust tiers, sinks and the security context of a request
  (`vellaveto-types/src/provenance.rs`, `minja.rs`).

  Trust tiers are totally ordered by `rank`, with `Quarantined` and `Unknown` deliberately below
  `Untrusted`; `meet` is the lower of two tiers.
-/
import Mathlib.Order.Basic

namespace Vellaveto

/-- `TrustTier`, in declaration order. -/
inductive TrustTier where
  | unknown
  | untrusted
  | low
  | medium
  | high
  | verified
  | quarantined
deriving DecidableEq, Repr

namespace TrustTier

/-- `TrustTier::rank`. -/
def rank : TrustTier → Nat
  | quarantined => 0
  | unknown => 1
  | untrusted => 2
  | low => 3
  | medium => 4
  | high => 5
  | verified => 6

/-- `TrustTier::meet`. -/
def meet (a b : TrustTier) : TrustTier := if a.rank ≤ b.rank then a else b

theorem rank_le_verified (a : TrustTier) : a.rank ≤ verified.rank := by
  cases a <;> decide

theorem rank_meet (a b : TrustTier) : (a.meet b).rank = min a.rank b.rank := by
  by_cases h : a.rank ≤ b.rank
  · rw [meet, if_pos h, Nat.min_eq_left h]
  · rw [meet, if_neg h, Nat.min_eq_right (Nat.le_of_not_le h)]

/-- Only `Quarantined` is as low as `Quarantined`. -/
theorem rank_le_quarantined {a : TrustTier} : a.rank ≤ quarantined.rank ↔ a = quarantined := by
  cases a <;> decide

end TrustTier

/-- `SinkClass`. -/
inductive SinkClass where
  | readOnly
  | lowRiskWrite
  | filesystemWrite
  | networkEgress
  | codeExecution
  | memoryWrite
  | approvalUi
  | credentialAccess
  | policyMutation
deriving DecidableEq, Repr

/-- `SinkClass::rank`. -/
def SinkClass.rank : SinkClass → Nat
  | readOnly => 0
  | lowRiskWrite => 1
  | filesystemWrite => 2
  | networkEgress => 3
  | memoryWrite => 4
  | approvalUi => 5
  | codeExecution => 6
  | credentialAccess => 7
  | policyMutation => 8

/-- `minimum_trust_tier_for_sink`. -/
def minimumTrustTierForSink : SinkClass → TrustTier
  | .readOnly => .unknown
  | .lowRiskWrite => .low
  | .filesystemWrite | .networkEgress => .medium
  | .memoryWrite | .approvalUi => .high
  | .codeExecution | .credentialAccess | .policyMutation => .verified

/-- `TaintLabel`, which the source also calls `SemanticTaint`. -/
inductive TaintLabel where
  | untrusted
  | sanitized
  | quarantined
  | sensitive
  | crossAgent
  | replayed
  | mixedProvenance
  | integrityFailed
deriving DecidableEq, Repr

/-- `ContextChannel`. -/
inductive ContextChannel where
  | data
  | freeText
  | url
  | commandLike
  | toolOutput
  | resourceContent
  | approvalPrompt
  | memory
deriving DecidableEq, Repr

/-- `ContainmentMode`. -/
inductive ContainmentMode where
  | disabled
  | observe
  | enforce
  | sanitize
  | quarantine
  | requireApproval
deriving DecidableEq, Repr

/-- `LineageRef`: where a piece of context came from. -/
structure LineageRef where
  id : String
  channel : ContextChannel
  contentHash : Option String
  source : Option String
  trustTier : Option TrustTier
deriving DecidableEq, Repr

/-- `ClientProvenance`, with the one field the relay fills in itself. -/
structure ClientProvenance where
  sessionScopeBinding : Option String
deriving DecidableEq, Repr

/-- `RuntimeSecurityContext`. -/
structure RuntimeSecurityContext where
  clientProvenance : Option ClientProvenance
  semanticTaint : List TaintLabel
  effectiveTrustTier : Option TrustTier
  sinkClass : Option SinkClass
  lineageRefs : List LineageRef
  containmentMode : Option ContainmentMode
  semanticRiskScore : Option UInt8
deriving DecidableEq, Repr

/-- `RuntimeSecurityContext::default`. -/
def RuntimeSecurityContext.default : RuntimeSecurityContext where
  clientProvenance := none
  semanticTaint := []
  effectiveTrustTier := none
  sinkClass := none
  lineageRefs := []
  containmentMode := none
  semanticRiskScore := none

end Vellaveto
