/-
  SESSION SEMANTICS of the stdio relay: what a session remembers about the outputs it has seen and
  how that enters the security context of later requests
  (`vellaveto-mcp/src/proxy/bridge/relay.rs`, `SessionSemanticState`).

  PROGRAM.  `recordOutputWithHash` appends a lineage reference with the output's trust tier to a
  WINDOW of `maxSessionLineageRefs` entries and collects the taint labels of all outputs.
  `mergeInto` adds both to a request's context and lowers its effective trust tier to the session's
  floor, unless the request already carries a full set of lineage references: then it returns early.

  SPEC.  `FloorApplied`: once an output was recorded, the effective tier of every later request is
  at most `Untrusted`; once a quarantined one was, it is `Quarantined` and the lineage says so too.

  CORRECTNESS.  The taint labels are a faithful summary of the WHOLE history
  (`mem_taint_afterOutputs`), the window only of its end (`tiers_afterOutputs`).  The exact condition
  for the spec follows, for every history and every request (`floorApplied_iff`).
-/
import Mathlib.Data.List.MinMax
import Vellaveto.Lib.Window
import Vellaveto.Types.Chars
import Vellaveto.Types.Provenance

namespace Vellaveto.SessionSemantics

open Vellaveto.Lib

/-- Most lineage references a session, or a merged request, holds. -/
def maxSessionLineageRefs : Nat := 64

/-- `SessionSemanticState`; the references are listed oldest first. -/
structure SessionSemanticState where
  taint : List TaintLabel
  lineageRefs : List LineageRef
  nextLineageSeq : UInt64
deriving DecidableEq, Repr

/-- `SessionSemanticState::default`. -/
def SessionSemanticState.default : SessionSemanticState := ⟨[], [], 0⟩

/-- One call of `record_output_with_hash`. -/
structure Output where
  source : String
  channel : ContextChannel
  taints : List TaintLabel
  contentHash : Option String
deriving DecidableEq, Repr

/-- The trust tier of an output's lineage reference. -/
def Output.trustTier (o : Output) : TrustTier :=
  if o.taints.contains .quarantined then .quarantined
  else if o.taints.contains .integrityFailed then .low
  else .untrusted

/-- `u64::saturating_add(1)`. -/
def saturatingSucc (n : UInt64) : UInt64 := if n = 0xFFFFFFFFFFFFFFFF then n else n + 1

/-- `relay-session-` and the sequence number in 16 lower-case hexadecimal digits. -/
def lineageId (seq : UInt64) : String :=
  "relay-session-" ++ String.ofList ((Nat.toDigits 16 seq.toNat).leftpad 16 '0')

/-- Add the labels that are not there yet, in order. -/
def pushNewTaints (present new : List TaintLabel) : List TaintLabel :=
  new.foldl (fun acc taint => if acc.contains taint then acc else acc ++ [taint]) present

/-- `record_output_with_hash`. -/
def recordOutputWithHash (st : SessionSemanticState) (o : Output) : SessionSemanticState :=
  let seq := saturatingSucc st.nextLineageSeq
  { nextLineageSeq := seq
    lineageRefs := pushBounded maxSessionLineageRefs st.lineageRefs
      { id := lineageId seq
        channel := o.channel
        contentHash := o.contentHash
        source := some (sanitizeForLog o.source 256)
        trustTier := some o.trustTier }
    taint := pushNewTaints st.taint o.taints }

/-- `trust_tier_ord`, the relay's own order of the tiers. -/
def trustTierOrd : TrustTier → Nat
  | .quarantined => 0
  | .untrusted | .unknown => 1
  | .low => 2
  | .medium => 3
  | .high => 4
  | .verified => 5

/-- `min_lineage_trust_tier`. -/
def minLineageTrustTier (st : SessionSemanticState) : Option TrustTier :=
  (st.lineageRefs.filterMap LineageRef.trustTier).argmin trustTierOrd

/-- The floor a session imposes on its requests. -/
def sessionTrustFloor (st : SessionSemanticState) : Option TrustTier :=
  if st.taint.contains .quarantined then some .quarantined
  else if !st.lineageRefs.isEmpty then some .untrusted
  else none

/-- `merge_into`. -/
def mergeInto (st : SessionSemanticState) (securityContext : RuntimeSecurityContext) :
    RuntimeSecurityContext :=
  let tainted :=
    { securityContext with
      semanticTaint := pushNewTaints securityContext.semanticTaint st.taint }
  let remaining := maxSessionLineageRefs - tainted.lineageRefs.length
  if remaining = 0 then tainted
  else
    { tainted with
      lineageRefs :=
        tainted.lineageRefs ++ st.lineageRefs.drop (st.lineageRefs.length - remaining)
      effectiveTrustTier :=
        match tainted.effectiveTrustTier, sessionTrustFloor st with
        | some explicit, some sessionFloor => some (explicit.meet sessionFloor)
        | some explicit, none => some explicit
        | none, some sessionFloor => some sessionFloor
        | none, none => none }

/-- The client provenance with the session's scope binding filled in, if the client sent none. -/
def bindProvenance (sessionScopeBinding : String) (provenance : Option ClientProvenance) :
    ClientProvenance :=
  let p := provenance.getD ⟨none⟩
  if p.sessionScopeBinding.isNone then { p with sessionScopeBinding := some sessionScopeBinding }
  else p

/-- `runtime_security_context`. -/
def runtimeSecurityContext (sessionScopeBinding : String) (st : SessionSemanticState)
    (securityContext : Option RuntimeSecurityContext) : Option RuntimeSecurityContext :=
  let ctx := securityContext.getD .default
  let bound :=
    { ctx with clientProvenance := some (bindProvenance sessionScopeBinding ctx.clientProvenance) }
  let merged := mergeInto st bound
  if merged = .default then none else some merged

/-- The session after a history of outputs. -/
def afterOutputs (outs : List Output) : SessionSemanticState :=
  outs.foldl recordOutputWithHash .default

/-! ## What the state remembers of the history -/

theorem mem_pushNewTaints {present new : List TaintLabel} {τ : TaintLabel} :
    τ ∈ pushNewTaints present new ↔ τ ∈ present ∨ τ ∈ new := by
  induction new generalizing present with
  | nil => simp [pushNewTaints]
  | cons a new ih =>
    have hstep : pushNewTaints present (a :: new) =
        pushNewTaints (if present.contains a then present else present ++ [a]) new := rfl
    rw [hstep, ih, List.mem_cons]
    by_cases ha : a ∈ present
    · rw [if_pos (List.contains_iff_mem.mpr ha)]
      constructor
      · rintro (h | h)
        · exact Or.inl h
        · exact Or.inr (Or.inr h)
      · rintro (h | rfl | h)
        · exact Or.inl h
        · exact Or.inl ha
        · exact Or.inr h
    · rw [if_neg (fun h => ha (List.contains_iff_mem.mp h)), List.mem_append, List.mem_singleton,
        or_assoc]

/-- **The labels summarize the whole history**: a label is remembered exactly when some output
    carried it, however long ago. -/
theorem mem_taint_afterOutputs {outs : List Output} {τ : TaintLabel} :
    τ ∈ (afterOutputs outs).taint ↔ ∃ o ∈ outs, τ ∈ o.taints := by
  induction outs using List.reverseRecOn with
  | nil => simp [afterOutputs, SessionSemanticState.default]
  | append_singleton outs o ih =>
    have hstep : (afterOutputs (outs ++ [o])).taint =
        pushNewTaints (afterOutputs outs).taint o.taints := by
      rw [afterOutputs, List.foldl_append]; rfl
    rw [hstep, mem_pushNewTaints, ih]
    simp only [List.mem_append, List.mem_singleton, or_and_right, exists_or, exists_eq_left]

/-- **The window only summarizes the end**: the references carry the tiers of the last
    `maxSessionLineageRefs` outputs. -/
theorem tiers_afterOutputs (outs : List Output) :
    (afterOutputs outs).lineageRefs.map LineageRef.trustTier =
      (outs.map fun o => some o.trustTier).rtake maxSessionLineageRefs := by
  induction outs using List.reverseRecOn with
  | nil => rfl
  | append_singleton outs o ih =>
    have hstep : (afterOutputs (outs ++ [o])).lineageRefs.map LineageRef.trustTier =
        pushBounded maxSessionLineageRefs
          ((afterOutputs outs).lineageRefs.map LineageRef.trustTier) (some o.trustTier) := by
      rw [afterOutputs, List.foldl_append]
      exact map_pushBounded _ _ _ _
    rw [hstep, ih, List.map_append, List.map_singleton]
    exact pushBounded_rtake (by decide) _ _

/-- The tiers the lineage reports are those of the last outputs. -/
theorem reportedTiers_afterOutputs (outs : List Output) :
    (afterOutputs outs).lineageRefs.filterMap LineageRef.trustTier =
      (outs.rtake maxSessionLineageRefs).map Output.trustTier := by
  have hid : (afterOutputs outs).lineageRefs.filterMap LineageRef.trustTier =
      ((afterOutputs outs).lineageRefs.map LineageRef.trustTier).filterMap id := by
    rw [List.filterMap_map]; rfl
  rw [hid, tiers_afterOutputs, List.rtake, List.rtake, List.length_map, ← List.map_drop,
    List.filterMap_map]
  exact congrFun List.filterMap_eq_map' _

theorem trustTier_eq_quarantined {o : Output} :
    o.trustTier = .quarantined ↔ .quarantined ∈ o.taints := by
  rw [← List.contains_iff_mem, Output.trustTier]
  split
  · rename_i h; exact iff_of_true rfl h
  · rename_i h
    refine iff_of_false (fun hq => ?_) h
    split at hq <;> cases hq

/-- The lineage reports `Quarantined` exactly when one of the outputs still in the window was. -/
theorem minLineageTrustTier_eq_quarantined (outs : List Output) :
    minLineageTrustTier (afterOutputs outs) = some .quarantined ↔
      ∃ o ∈ outs.rtake maxSessionLineageRefs, .quarantined ∈ o.taints := by
  rw [minLineageTrustTier, reportedTiers_afterOutputs]
  constructor
  · intro hmin
    obtain ⟨o, ho, htier⟩ := List.mem_map.mp (List.argmin_mem (Option.mem_def.mpr hmin))
    exact ⟨o, ho, trustTier_eq_quarantined.mp htier⟩
  · rintro ⟨o, ho, htaint⟩
    have hmem : TrustTier.quarantined ∈
        (outs.rtake maxSessionLineageRefs).map Output.trustTier :=
      List.mem_map.mpr ⟨o, ho, trustTier_eq_quarantined.mpr htaint⟩
    cases hmin : ((outs.rtake maxSessionLineageRefs).map Output.trustTier).argmin trustTierOrd with
    | none =>
      rw [List.argmin_eq_none.mp hmin] at hmem
      cases hmem
    | some tier =>
      -- only `Quarantined` is as low as `Quarantined` in the relay's order
      have hle : trustTierOrd tier ≤ trustTierOrd .quarantined :=
        List.le_of_mem_argmin hmem (Option.mem_def.mpr hmin)
      cases tier <;> first | rfl | exact absurd hle (by decide)

/-- The floor the history calls for. -/
def historyFloor (outs : List Output) : Option TrustTier :=
  if ∃ o ∈ outs, .quarantined ∈ o.taints then some .quarantined
  else if outs ≠ [] then some .untrusted
  else none

/-- The session's floor is the one its whole history calls for. -/
theorem sessionTrustFloor_afterOutputs (outs : List Output) :
    sessionTrustFloor (afterOutputs outs) = historyFloor outs := by
  have hrefs : (afterOutputs outs).lineageRefs = [] ↔ outs = [] := by
    rw [← List.map_eq_nil_iff (f := LineageRef.trustTier), tiers_afterOutputs]
    constructor
    · intro h
      have hlen := congrArg List.length h
      rw [List.rtake, List.length_drop, List.length_map, List.length_nil] at hlen
      have hcap : maxSessionLineageRefs = 64 := rfl
      exact List.length_eq_zero_iff.mp (by omega)
    · rintro rfl; rfl
  have htaint : (afterOutputs outs).taint.contains .quarantined = true ↔
      ∃ o ∈ outs, .quarantined ∈ o.taints := by
    rw [List.contains_iff_mem, mem_taint_afterOutputs]
  simp only [sessionTrustFloor, historyFloor, htaint, Bool.not_eq_true', List.isEmpty_eq_false_iff,
    ne_eq, hrefs]

/-! ## Merging into a request -/

/-- Merging puts a request at or below the session's floor exactly when there is room for a lineage
    reference, or the request is that low already. -/
theorem mergeInto_le_floor_iff {st : SessionSemanticState} {ctx : RuntimeSecurityContext}
    {floor : TrustTier} (hfloor : sessionTrustFloor st = some floor) :
    (∃ tier, (mergeInto st ctx).effectiveTrustTier = some tier ∧ tier.rank ≤ floor.rank) ↔
      ctx.lineageRefs.length < maxSessionLineageRefs ∨
        ∃ tier, ctx.effectiveTrustTier = some tier ∧ tier.rank ≤ floor.rank := by
  by_cases hroom : ctx.lineageRefs.length < maxSessionLineageRefs
  · refine iff_of_true ?_ (Or.inl hroom)
    have hrem : maxSessionLineageRefs - ctx.lineageRefs.length ≠ 0 := by omega
    cases hctx : ctx.effectiveTrustTier with
    | none => exact ⟨floor, by simp [mergeInto, hrem, hctx, hfloor], Nat.le_refl _⟩
    | some explicit =>
      refine ⟨explicit.meet floor, by simp [mergeInto, hrem, hctx, hfloor], ?_⟩
      rw [TrustTier.rank_meet]
      exact Nat.min_le_right _ _
  · -- the early return leaves the request's own tier
    have hrem : maxSessionLineageRefs - ctx.lineageRefs.length = 0 := by omega
    have hkept : (mergeInto st ctx).effectiveTrustTier = ctx.effectiveTrustTier := by
      simp [mergeInto, hrem]
    rw [hkept]
    exact ⟨Or.inr, fun h => h.resolve_left hroom⟩

/-- The session trust floor applies to the request. -/
structure FloorApplied (outs : List Output) (ctx : RuntimeSecurityContext) : Prop where
  untrusted : outs ≠ [] →
    ∃ tier, (mergeInto (afterOutputs outs) ctx).effectiveTrustTier = some tier ∧
      tier.rank ≤ TrustTier.untrusted.rank
  quarantined : (∃ o ∈ outs, .quarantined ∈ o.taints) →
    (mergeInto (afterOutputs outs) ctx).effectiveTrustTier = some .quarantined ∧
      minLineageTrustTier (afterOutputs outs) = some .quarantined

/-- The history and the request leave the merge able to apply the floor: the request has room for a
    lineage reference or is low enough by itself, and a quarantined output, if there was one, is
    still among the last `maxSessionLineageRefs`. -/
structure FloorReaches (outs : List Output) (ctx : RuntimeSecurityContext) : Prop where
  merged : ∀ floor, historyFloor outs = some floor →
    ctx.lineageRefs.length < maxSessionLineageRefs ∨
      ∃ tier, ctx.effectiveTrustTier = some tier ∧ tier.rank ≤ floor.rank
  inWindow : (∃ o ∈ outs, .quarantined ∈ o.taints) →
    ∃ o ∈ outs.rtake maxSessionLineageRefs, .quarantined ∈ o.taints

/-- **The session floor, exactly.**  For every history of recorded outputs and every later request,
    the session trust floor applies to the request if and only if `FloorReaches` holds. -/
theorem floorApplied_iff (outs : List Output) (ctx : RuntimeSecurityContext) :
    FloorApplied outs ctx ↔ FloorReaches outs ctx := by
  have hmerge : ∀ floor, historyFloor outs = some floor →
      ((∃ tier, (mergeInto (afterOutputs outs) ctx).effectiveTrustTier = some tier ∧
          tier.rank ≤ floor.rank) ↔
        ctx.lineageRefs.length < maxSessionLineageRefs ∨
          ∃ tier, ctx.effectiveTrustTier = some tier ∧ tier.rank ≤ floor.rank) := by
    intro floor hfloor
    exact mergeInto_le_floor_iff ((sessionTrustFloor_afterOutputs outs).trans hfloor)
  by_cases hq : ∃ o ∈ outs, .quarantined ∈ o.taints
  · have hfloor : historyFloor outs = some .quarantined := if_pos hq
    constructor
    · intro happ
      obtain ⟨htier, hmin⟩ := happ.quarantined hq
      refine ⟨fun floor hfl => ?_, fun _ => (minLineageTrustTier_eq_quarantined outs).mp hmin⟩
      cases hfloor.symm.trans hfl
      exact (hmerge _ hfloor).mp ⟨.quarantined, htier, Nat.le_refl _⟩
    · intro hreach
      obtain ⟨tier, htier, hle⟩ := (hmerge _ hfloor).mpr (hreach.merged _ hfloor)
      cases TrustTier.rank_le_quarantined.mp hle
      refine ⟨fun _ => ⟨.quarantined, htier, by decide⟩, fun _ => ⟨htier, ?_⟩⟩
      exact (minLineageTrustTier_eq_quarantined outs).mpr (hreach.inWindow hq)
  · by_cases hne : outs = []
    · have hfloor : historyFloor outs = none := by subst hne; rfl
      refine iff_of_true ⟨fun h => absurd hne h, fun h => absurd h hq⟩ ⟨fun floor hfl => ?_, ?_⟩
      · rw [hfloor] at hfl; cases hfl
      · exact fun h => absurd h hq
    · have hfloor : historyFloor outs = some .untrusted := by
        rw [historyFloor, if_neg hq, if_pos hne]
      constructor
      · intro happ
        refine ⟨fun floor hfl => ?_, fun h => absurd h hq⟩
        cases hfloor.symm.trans hfl
        exact (hmerge _ hfloor).mp (happ.untrusted hne)
      · intro hreach
        refine ⟨fun _ => ?_, fun h => absurd h hq⟩
        exact (hmerge _ hfloor).mpr (hreach.merged _ hfloor)

/-- An output without any taint label. -/
def plainOutput : Output := ⟨"search", .toolOutput, [], none⟩

/-- A request that claims the tier `Verified` and already carries as many lineage references as a
    merged request may hold. -/
def fullRequest : RuntimeSecurityContext :=
  { RuntimeSecurityContext.default with
    effectiveTrustTier := some .verified
    lineageRefs := List.replicate maxSessionLineageRefs
      ⟨"client", .data, none, none, some .verified⟩ }

/-- **The floor can be missed**, in both ways.  After a quarantined output a request with 64 lineage
    references of its own keeps its claimed tier `Verified`; and once 64 further outputs have been
    recorded, the lineage no longer reports `Quarantined`. -/
theorem floor_missed_by_full_request :
    let quarantinedOutput : Output := { plainOutput with taints := [.quarantined] }
    (mergeInto (afterOutputs [quarantinedOutput]) fullRequest).effectiveTrustTier =
      some .verified ∧
    minLineageTrustTier (afterOutputs (quarantinedOutput :: List.replicate 64 plainOutput)) =
      some .untrusted ∧
    ¬ FloorApplied [quarantinedOutput] fullRequest ∧
    ¬ FloorApplied (quarantinedOutput :: List.replicate 64 plainOutput) .default := by
  intro quarantinedOutput
  have htier : (mergeInto (afterOutputs [quarantinedOutput]) fullRequest).effectiveTrustTier =
      some .verified := by decide +kernel
  have hmin : minLineageTrustTier
      (afterOutputs (quarantinedOutput :: List.replicate 64 plainOutput)) = some .untrusted := by
    decide +kernel
  have hq : TaintLabel.quarantined ∈ quarantinedOutput.taints := by decide
  refine ⟨htier, hmin, fun happ => ?_, fun happ => ?_⟩
  · have hmerged := (happ.quarantined ⟨quarantinedOutput, List.mem_cons_self, hq⟩).1
    rw [htier] at hmerged
    cases hmerged
  · have hreported := (happ.quarantined ⟨quarantinedOutput, List.mem_cons_self, hq⟩).2
    rw [hmin] at hreported
    cases hreported

/-! ## The relay's wrapper -/

/-- The provenance of a request has no influence on the merged trust tier. -/
theorem effectiveTrustTier_mergeInto_provenance (st : SessionSemanticState)
    (ctx : RuntimeSecurityContext) (p : Option ClientProvenance) :
    (mergeInto st { ctx with clientProvenance := p }).effectiveTrustTier =
      (mergeInto st ctx).effectiveTrustTier := by
  unfold mergeInto
  dsimp only
  split <;> rfl

/-- `runtime_security_context` always returns a context, and its tier is the merged one: the scope
    binding it fills in keeps the result apart from the default context. -/
theorem runtimeSecurityContext_tier (binding : String) (st : SessionSemanticState)
    (securityContext : Option RuntimeSecurityContext) :
    ∃ merged, runtimeSecurityContext binding st securityContext = some merged ∧
      merged.effectiveTrustTier =
        (mergeInto st (securityContext.getD .default)).effectiveTrustTier := by
  have hprov : ∀ ctx : RuntimeSecurityContext,
      (mergeInto st ctx).clientProvenance = ctx.clientProvenance := by
    intro ctx
    unfold mergeInto
    dsimp only
    split <;> rfl
  refine ⟨_, if_neg fun hdefault => ?_, effectiveTrustTier_mergeInto_provenance st _
    (some (bindProvenance binding (securityContext.getD .default).clientProvenance))⟩
  have hnone := congrArg RuntimeSecurityContext.clientProvenance hdefault
  rw [hprov] at hnone
  cases hnone

end Vellaveto.SessionSemantics
