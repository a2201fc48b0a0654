/-
  DELEGATION CHAINS (`vellaveto-engine/src/delegation.rs`).

  PROGRAM.      A session keeps the chain of its delegation links.  `check_delegation` refuses a link whose target
                is blocked, whose chain is full, whose target the chain has visited, or that raises the
                trust; `record_delegation` adds a link that was allowed.  The two have limits of their
                own: recording does nothing for a new session when 10,000 sessions are tracked.

  SPEC.         A link is recorded exactly when it was allowed.  The links of a session then form a graph without
                cycles, and a session gets at most `max_depth` allowed links before it is cleared.

  CORRECTNESS.  The target of a link that is allowed is new to the chain, so a cycle through it can only be the
                link itself: the source is not compared with the target.  And a link that is allowed but
                not recorded is not counted.
    1. `acyclic_push_iff`      a new target closes a cycle exactly if it is the source;
    2. `step_cases`            what a step does to the chain of each session;
    3. `chains_acyclic_iff`    the chains stay acyclic exactly as long as no self-link is recorded;
    4. `allowed_bounded`       below the limit of sessions, the allowed links are the recorded ones;
    5. `delegation_chains`     the two, put together.
-/
import Vellaveto.Lib.Explore
import Vellaveto.Lib.Run
import Vellaveto.Lib.Table
import Vellaveto.Lib.Text
import Vellaveto.Types.Provenance

namespace Vellaveto.Delegation

open Vellaveto.Lib

/-! ### The tracker -/

/-- `MAX_CHAIN_DEPTH`. -/
def maxChainDepth : Nat := 10

/-- `MAX_TRACKED_CHAINS`. -/
def maxTrackedChains : Nat := 10000

/-- `DelegationLink`. -/
structure DelegationLink where
  source : String
  target : String
  sourceTrust : TrustTier
  targetTrust : TrustTier
  tool : String
deriving DecidableEq, Repr

/-- `DelegationVerdict`. -/
inductive DelegationVerdict where
  | allowed
  | tooDeep (depth max : Nat)
  | cycleDetected (cycleAt : String)
  | trustEscalation (sourceTrust targetTrust : TrustTier)
  | targetNotAllowed (target : String)
deriving DecidableEq, Repr

/-- `DelegationTracker`. -/
structure DelegationTracker where
  chains : AList fun _ : String => List DelegationLink
  maxDepth : Nat
  allowedTargets : List String
  blockedTargets : List String
  forbidTrustEscalation : Bool

/-- `pattern_matches`: one star stands for any text. -/
def patternMatches (pattern value : String) : Bool :=
  if pattern = "*" then true
  else if '*' ∈ pattern.toList then
    let front := beforeFirst '*' pattern.toList
    front.isPrefixOf value.toList && (pattern.toList.drop (front.length + 1)).isSuffixOf value.toList
  else pattern == value

namespace DelegationTracker

/-- `DelegationTracker::new`. -/
def new (maxDepth : Nat) (allowedTargets blockedTargets : List String) (forbidTrustEscalation : Bool) :
    DelegationTracker where
  chains := ∅
  maxDepth := min maxDepth maxChainDepth
  allowedTargets := allowedTargets
  blockedTargets := blockedTargets
  forbidTrustEscalation := forbidTrustEscalation

/-- The links that are recorded for a session. -/
def chainOf (t : DelegationTracker) (session : String) : List DelegationLink := (t.chains.lookup session).getD []

/-- The agents on a chain. -/
def visited (chain : List DelegationLink) : List String := chain.flatMap fun l => [l.source, l.target]

/-- `check_delegation`. -/
def checkDelegation (t : DelegationTracker) (session : String) (link : DelegationLink) : DelegationVerdict :=
  if t.blockedTargets.any (patternMatches · link.target) then .targetNotAllowed link.target
  else if !t.allowedTargets.isEmpty && !t.allowedTargets.any (patternMatches · link.target) then
    .targetNotAllowed link.target
  else
    let currentDepth := ((t.chains.lookup session).map List.length).getD 0
    if t.maxDepth ≤ currentDepth then .tooDeep (currentDepth + 1) t.maxDepth
    else if (t.chains.lookup session).any (fun chain => decide (link.target ∈ visited chain)) then
      .cycleDetected link.target
    else if t.forbidTrustEscalation && decide (link.sourceTrust.rank < link.targetTrust.rank) then
      .trustEscalation link.sourceTrust link.targetTrust
    else .allowed

/-- Does `record_delegation` keep a link of the session, as far as the number of sessions goes? -/
def hasRoom (t : DelegationTracker) (session : String) : Bool :=
  (t.chains.lookup session).isSome || decide (t.chains.entries.length < maxTrackedChains)

/-- `record_delegation`. -/
def recordDelegation (t : DelegationTracker) (session : String) (link : DelegationLink) : DelegationTracker :=
  if !t.hasRoom session then t
  else if (t.chains.lookup session).any (fun chain => decide (t.maxDepth ≤ chain.length)) then t
  else { t with chains := t.chains.insert session (t.chainOf session ++ [link]) }

/-- `clear_session`. -/
def clearSession (t : DelegationTracker) (session : String) : DelegationTracker :=
  { t with chains := t.chains.erase session }

end DelegationTracker

open DelegationTracker

/-! ### Runs -/

/-- What happens to a tracker: a link is checked, and recorded if it is allowed, or a session ends. -/
inductive Event where
  | delegate (session : String) (link : DelegationLink)
  | clear (session : String)
deriving DecidableEq

/-- A tracker, and how many links each session was allowed since it was last cleared. -/
structure Observed where
  tracker : DelegationTracker
  allowed : String → Nat

/-- One event. -/
def step (o : Observed) : Event → Observed
  | .delegate session link =>
    if o.tracker.checkDelegation session link = .allowed then
      { tracker := o.tracker.recordDelegation session link
        allowed := Function.update o.allowed session (o.allowed session + 1) }
    else o
  | .clear session =>
    { tracker := o.tracker.clearSession session, allowed := Function.update o.allowed session 0 }

/-- Events in a run; none panics. -/
def stepRun (o : Observed) (e : Event) : Option Observed := some (step o e)

/-- Before any event. -/
def start (t : DelegationTracker) : Observed := ⟨t, fun _ => 0⟩

/-- The graph of the links. -/
def Delegates (chain : List DelegationLink) (a b : String) : Prop :=
  ∃ l ∈ chain, l.source = a ∧ l.target = b

/-- The chains of all sessions are without cycles. -/
def ChainsAcyclic (o : Observed) : Prop := ∀ session, Acyclic (Delegates (o.tracker.chainOf session))

/-- The link of an event is allowed, and it is recorded. -/
def Records (o : Observed) (session : String) (link : DelegationLink) : Prop :=
  o.tracker.checkDelegation session link = .allowed ∧ o.tracker.hasRoom session = true

instance (o : Observed) (session : String) (link : DelegationLink) : Decidable (Records o session link) :=
  inferInstanceAs (Decidable (_ ∧ _))

/-- **No self-link is recorded.** -/
def RecordsNoSelfLink (o : Observed) : Event → Prop
  | .delegate session link => Records o session link → link.source ≠ link.target
  | .clear _ => True

/-- **What is allowed is recorded**: the session is tracked, or fewer than 10,000 are. -/
def RecordsAllowed (o : Observed) : Event → Prop
  | .delegate session link =>
    o.tracker.checkDelegation session link = .allowed → o.tracker.hasRoom session = true
  | .clear _ => True

instance (o : Observed) : (e : Event) → Decidable (RecordsNoSelfLink o e)
  | .delegate _ _ => inferInstanceAs (Decidable (_ → _))
  | .clear _ => inferInstanceAs (Decidable True)

instance (o : Observed) : (e : Event) → Decidable (RecordsAllowed o e)
  | .delegate _ _ => inferInstanceAs (Decidable (_ → _))
  | .clear _ => inferInstanceAs (Decidable True)

/-! ### One link -/

theorem mem_visited {chain : List DelegationLink} {l : DelegationLink} (hl : l ∈ chain) :
    l.source ∈ visited chain ∧ l.target ∈ visited chain := by
  refine ⟨List.mem_flatMap.mpr ⟨l, hl, List.mem_cons_self⟩, List.mem_flatMap.mpr ⟨l, hl, ?_⟩⟩
  exact List.mem_cons_of_mem _ List.mem_cons_self

/-- **A new target** closes a cycle exactly if it is the source. -/
theorem acyclic_push_iff {chain : List DelegationLink} {link : DelegationLink}
    (hnew : link.target ∉ visited chain) (hchain : Acyclic (Delegates chain)) :
    Acyclic (Delegates (chain ++ [link])) ↔ link.source ≠ link.target := by
  constructor
  · intro h heq
    refine h link.source (.single ⟨link, List.mem_append_right _ List.mem_cons_self, rfl, heq.symm⟩)
  · intro hne
    refine hchain.add_edge (u := link.source) (v := link.target) ?_ ?_
    · rintro a b ⟨l, hl, hsource, htarget⟩
      rcases List.mem_append.mp hl with hl | hl
      · exact Or.inl ⟨l, hl, hsource, htarget⟩
      · rw [List.mem_singleton.mp hl] at hsource htarget
        exact Or.inr ⟨hsource.symm, htarget.symm⟩
    · -- no link of the chain leaves the new target
      intro hback
      rcases Relation.ReflTransGen.cases_head hback with heq | ⟨b, ⟨l, hl, hsource, -⟩, -⟩
      · exact hne heq.symm
      · exact hnew (hsource ▸ (mem_visited hl).1)

/-- What an allowed link has passed. -/
theorem of_allowed {t : DelegationTracker} {session : String} {link : DelegationLink}
    (h : t.checkDelegation session link = .allowed) :
    (t.chainOf session).length < t.maxDepth ∧ link.target ∉ visited (t.chainOf session) := by
  unfold checkDelegation at h
  dsimp only at h
  split at h
  · cases h
  · split at h
    · cases h
    · split at h
      · cases h
      · rename_i hdepth
        split at h
        · cases h
        · rename_i hcycle
          unfold chainOf
          cases hchain : t.chains.lookup session with
          | none =>
            rw [hchain] at hdepth
            exact ⟨Nat.lt_of_not_le hdepth, List.not_mem_nil⟩
          | some chain =>
            rw [hchain] at hdepth hcycle
            exact ⟨Nat.lt_of_not_le hdepth, fun hmem => hcycle (decide_eq_true hmem)⟩

@[simp] theorem maxDepth_recordDelegation (t : DelegationTracker) (session : String) (link : DelegationLink) :
    (t.recordDelegation session link).maxDepth = t.maxDepth := by
  unfold recordDelegation
  split
  · rfl
  · split <;> rfl

/-- A link that is recorded goes to the end of its chain; no other chain changes. -/
theorem chainOf_recordDelegation {t : DelegationTracker} {session : String} {link : DelegationLink}
    (hroom : t.hasRoom session = true) (hdepth : (t.chainOf session).length < t.maxDepth) (session' : String) :
    (t.recordDelegation session link).chainOf session' =
      if session' = session then t.chainOf session ++ [link] else t.chainOf session' := by
  have hopen : ¬(t.chains.lookup session).any (fun chain => decide (t.maxDepth ≤ chain.length)) = true := by
    unfold chainOf at hdepth
    cases hchain : t.chains.lookup session with
    | none => exact Bool.false_ne_true
    | some chain =>
      rw [hchain] at hdepth
      intro hfull
      exact absurd (of_decide_eq_true hfull) (Nat.not_le_of_lt hdepth)
  unfold recordDelegation
  rw [hroom, if_neg (by decide), if_neg hopen]
  show (AList.lookup session' (t.chains.insert session _)).getD [] = _
  rw [lookup_insert_eq]
  split <;> rfl

theorem recordDelegation_of_not_hasRoom {t : DelegationTracker} {session : String} (link : DelegationLink)
    (hroom : ¬t.hasRoom session = true) : t.recordDelegation session link = t := by
  rw [recordDelegation, if_pos (by simpa using hroom)]

theorem chainOf_clearSession (t : DelegationTracker) (session session' : String) :
    (t.clearSession session).chainOf session' = if session' = session then [] else t.chainOf session' := by
  show (AList.lookup session' (t.chains.erase session)).getD [] = _
  rw [lookup_erase_eq]
  split <;> rfl

/-! ### Steps and runs -/

/-- **What a step does** to the chains: it records an allowed link, it clears a session, or it changes nothing. -/
theorem step_cases (o : Observed) (e : Event) :
    (∃ session link, e = .delegate session link ∧ Records o session link ∧
      ∀ session', (step o e).tracker.chainOf session' =
        if session' = session then o.tracker.chainOf session ++ [link] else o.tracker.chainOf session') ∨
    (∃ session, e = .clear session ∧ ∀ session', (step o e).tracker.chainOf session' =
        if session' = session then [] else o.tracker.chainOf session') ∨
    ((∀ session link, e = .delegate session link → ¬Records o session link) ∧ (∀ session, e ≠ .clear session) ∧
      (step o e).tracker = o.tracker) := by
  cases e with
  | clear session =>
    exact Or.inr (Or.inl ⟨session, rfl, chainOf_clearSession o.tracker session⟩)
  | delegate session link =>
    by_cases hallowed : o.tracker.checkDelegation session link = .allowed
    · by_cases hroom : o.tracker.hasRoom session = true
      · refine Or.inl ⟨session, link, rfl, ⟨hallowed, hroom⟩, ?_⟩
        rw [step, if_pos hallowed]
        exact chainOf_recordDelegation hroom (of_allowed hallowed).1
      · refine Or.inr (Or.inr ⟨?_, nofun, ?_⟩)
        · rintro _ _ ⟨⟩ h
          exact hroom h.2
        · rw [step, if_pos hallowed]
          exact recordDelegation_of_not_hasRoom link hroom
    · refine Or.inr (Or.inr ⟨?_, nofun, ?_⟩)
      · rintro _ _ ⟨⟩ h
        exact hallowed h.1
      · rw [step, if_neg hallowed]

/-- One step keeps the chains acyclic exactly if it records no self-link. -/
theorem chainsAcyclic_step_iff {o : Observed} (h : ChainsAcyclic o) (e : Event) :
    ChainsAcyclic (step o e) ↔ RecordsNoSelfLink o e := by
  rcases step_cases o e with ⟨session, link, rfl, hrecords, hchains⟩ | ⟨session, rfl, hchains⟩ | ⟨hno, hclear, heq⟩
  · have hpush := acyclic_push_iff (of_allowed hrecords.1).2 (h session)
    constructor
    · intro hafter _
      have hsession := hafter session
      rw [hchains, if_pos rfl] at hsession
      exact hpush.mp hsession
    · intro hne session'
      rw [hchains]
      split
      · exact hpush.mpr (hne hrecords)
      · exact h session'
  · refine iff_of_true (fun session' => ?_) trivial
    rw [hchains]
    split
    · exact (h session).mono fun a b hab => by
        obtain ⟨l, hl, -⟩ := hab
        cases hl
    · exact h session'
  · constructor
    · intro _
      cases e with
      | delegate session link => exact fun hrecords => absurd hrecords (hno session link rfl)
      | clear session => trivial
    · intro _ session'
      rw [heq]
      exact h session'

theorem chainsAcyclic_start {t : DelegationTracker} (h : t.chains = ∅) : ChainsAcyclic (start t) := by
  intro session a hcycle
  obtain ⟨b, ⟨l, hl, -⟩, -⟩ := Relation.TransGen.head'_iff.mp hcycle
  have hnone : (start t).tracker.chainOf session = [] := by
    show (AList.lookup session t.chains).getD [] = []
    rw [h]
    rfl
  rw [hnone] at hl
  cases hl

/-- **The chains stay acyclic** exactly as long as no self-link is recorded. -/
theorem chains_acyclic_iff {t : DelegationTracker} (h : t.chains = ∅) (events : List Event) :
    EachStep stepRun (fun _ _ o => ChainsAcyclic o) (start t) events ↔
      EachStep stepRun (fun o e _ => RecordsNoSelfLink o e) (start t) events := by
  refine eachStep_iff (I := fun _ => True) (fun _ _ _ _ _ => trivial) ?_ trivial (chainsAcyclic_start h)
  intro o e o' _ hacyclic hstep
  cases hstep
  exact chainsAcyclic_step_iff hacyclic e

/-- Every allowed link was recorded, within the depth. -/
def CountsRecorded (depth : Nat) (o : Observed) : Prop :=
  o.tracker.maxDepth = depth ∧
    ∀ session, o.allowed session = (o.tracker.chainOf session).length ∧ o.allowed session ≤ depth

theorem countsRecorded_step {depth : Nat} {o : Observed} (h : CountsRecorded depth o) {e : Event}
    (hrecords : RecordsAllowed o e) : CountsRecorded depth (step o e) := by
  obtain ⟨hdepth, hcounts⟩ := h
  cases e with
  | clear session =>
    refine ⟨hdepth, fun session' => ?_⟩
    show Function.update o.allowed session 0 session' = _ ∧ Function.update o.allowed session 0 session' ≤ _
    rw [Function.update_apply]
    show _ = ((o.tracker.clearSession session).chainOf session').length ∧ _
    rw [chainOf_clearSession]
    split
    · exact ⟨rfl, Nat.zero_le _⟩
    · exact hcounts session'
  | delegate session link =>
    by_cases hallowed : o.tracker.checkDelegation session link = .allowed
    · have hlt := (of_allowed hallowed).1
      rw [step, if_pos hallowed]
      refine ⟨(maxDepth_recordDelegation _ _ _).trans hdepth, fun session' => ?_⟩
      show Function.update o.allowed session _ session' = _ ∧ Function.update o.allowed session _ session' ≤ _
      rw [Function.update_apply]
      show _ = ((o.tracker.recordDelegation session link).chainOf session').length ∧ _
      rw [chainOf_recordDelegation (hrecords hallowed) hlt]
      split
      · rw [List.length_append, List.length_singleton, (hcounts session).1]
        exact ⟨rfl, hdepth ▸ hlt⟩
      · exact hcounts session'
    · rw [step, if_neg hallowed]
      exact ⟨hdepth, hcounts⟩

/-- **Allowed links are bounded** as long as what is allowed is recorded. -/
theorem allowed_bounded {t : DelegationTracker} (h : t.chains = ∅) {events : List Event}
    (hrecords : EachStep stepRun (fun o e _ => RecordsAllowed o e) (start t) events) :
    EachStep stepRun (fun _ _ o => ∀ session, o.allowed session ≤ t.maxDepth) (start t)
      events := by
  refine EachStep.of_invariant (I := CountsRecorded t.maxDepth) ?_ hrecords ?_
  · intro o e o' _ hcounts hallowed hstep
    cases hstep
    have hafter := countsRecorded_step hcounts hallowed
    exact ⟨hafter, fun session => (hafter.2 session).2⟩
  · refine ⟨rfl, fun session => ⟨?_, Nat.zero_le _⟩⟩
    show 0 = ((AList.lookup session t.chains).getD []).length
    rw [h]
    rfl

/-- **Delegation chains.**  For every tracker and every run of checked links and ends of sessions: the recorded links
    of every session are without cycles in every state exactly if no recorded link leads from an agent to
    itself; and if no link is allowed to an untracked session while 10,000 sessions are tracked, no
    session is ever allowed more than `max_depth` links since it was last cleared. -/
theorem delegation_chains (maxDepth : Nat) (allowedTargets blockedTargets : List String)
    (forbidTrustEscalation : Bool) (events : List Event) :
    (EachStep stepRun (fun _ _ o => ChainsAcyclic o)
        (start (.new maxDepth allowedTargets blockedTargets forbidTrustEscalation)) events ↔
      EachStep stepRun (fun o e _ => RecordsNoSelfLink o e)
        (start (.new maxDepth allowedTargets blockedTargets forbidTrustEscalation)) events) ∧
    (EachStep stepRun (fun o e _ => RecordsAllowed o e)
        (start (.new maxDepth allowedTargets blockedTargets forbidTrustEscalation)) events →
      EachStep stepRun (fun _ _ o => ∀ session, o.allowed session ≤ min maxDepth maxChainDepth)
        (start (.new maxDepth allowedTargets blockedTargets forbidTrustEscalation)) events) :=
  ⟨chains_acyclic_iff rfl events, fun h => allowed_bounded rfl h⟩

/-! ### Two runs -/

/-- A link between two agents of medium trust. -/
def plainLink (source target : String) : DelegationLink := ⟨source, target, .medium, .medium, "search"⟩

/-- A chain of two links, another session, and the end of the first one. -/
def plainEvents : List Event :=
  [.delegate "s" (plainLink "a" "b"), .delegate "s" (plainLink "b" "c"), .delegate "s" (plainLink "c" "a"),
    .delegate "u" (plainLink "c" "a"), .clear "s", .delegate "s" (plainLink "c" "a")]

/-- The chain of the first session is refused a way back, and starts anew after its end. -/
theorem delegation_chains_plain :
    EachStep stepRun (fun _ _ o => ChainsAcyclic o) (start (.new 5 [] [] true)) plainEvents ∧
    EachStep stepRun (fun _ _ o => ∀ session, o.allowed session ≤ 5) (start (.new 5 [] [] true)) plainEvents := by
  obtain ⟨hacyclic, hbounded⟩ := delegation_chains 5 [] [] true plainEvents
  exact ⟨hacyclic.mpr (by decide +kernel), hbounded (by decide +kernel)⟩

section Full

/-- The name of the `n`th session. -/
def sessionName (n : Nat) : String := String.ofList (List.replicate n 'a')

theorem sessionName_inj {m n : Nat} (h : sessionName m = sessionName n) : m = n := by
  have hlen := congrArg List.length (String.ofList_injective h)
  rwa [List.length_replicate, List.length_replicate] at hlen

/-- A tracker for chains of one link, after the first `n` sessions have delegated once. -/
def oneLinkEach (n : Nat) : List Event :=
  (List.range n).map fun i => .delegate (sessionName i) (plainLink "a" "b")

/-- Each of the sessions is tracked, and no other. -/
theorem run_oneLinkEach {n : Nat} (hn : n ≤ maxTrackedChains) :
    ∃ o, run stepRun (start (.new 1 [] [] true)) (oneLinkEach n) = some o ∧
      o.tracker.chains.entries.length = n ∧ o.tracker.maxDepth = 1 ∧ o.tracker.allowedTargets = [] ∧
      o.tracker.blockedTargets = [] ∧
      ∀ session, (∀ i < n, session ≠ sessionName i) →
        o.tracker.chains.lookup session = none ∧ o.allowed session = 0 := by
  induction n with
  | zero => exact ⟨_, rfl, rfl, rfl, rfl, rfl, fun session _ => ⟨rfl, rfl⟩⟩
  | succ n ih =>
    obtain ⟨o, hrun, hlen, hdepth, hallow, hblock, hnone⟩ := ih (by omega)
    obtain ⟨hfree, -⟩ := hnone (sessionName n) fun i hi heq => by
      have := sessionName_inj heq
      omega
    have hallowed : o.tracker.checkDelegation (sessionName n) (plainLink "a" "b") = .allowed := by
      unfold checkDelegation
      rw [hfree, hdepth, hallow, hblock]
      simp [plainLink]
    have hroom : o.tracker.hasRoom (sessionName n) = true := by
      rw [hasRoom, hlen, decide_eq_true (by omega), Bool.or_true]
    have hrecord : o.tracker.recordDelegation (sessionName n) (plainLink "a" "b") =
        { o.tracker with chains := o.tracker.chains.insert (sessionName n) [plainLink "a" "b"] } := by
      unfold recordDelegation chainOf
      rw [hroom, hfree]
      rfl
    refine ⟨step o (.delegate (sessionName n) (plainLink "a" "b")), ?_, ?_⟩
    · rw [oneLinkEach, List.range_succ, List.map_append, run_append_eq_some]
      exact ⟨o, hrun, rfl⟩
    · rw [step, if_pos hallowed, hrecord]
      refine ⟨?_, hdepth, hallow, hblock, fun session hsession => ?_⟩
      · show (AList.insert _ _ _).entries.length = _
        have hnot : sessionName n ∉ o.tracker.chains := AList.lookup_eq_none.mp hfree
        rw [AList.entries_insert_of_notMem hnot, List.length_cons, hlen]
      · have hother := hnone session fun i hi => hsession i (by omega)
        have hne : session ≠ sessionName n := hsession n (by omega)
        refine ⟨(AList.lookup_insert_ne hne).trans hother.1, ?_⟩
        show Function.update _ _ _ session = 0
        rw [Function.update_apply, if_neg hne]
        exact hother.2

/-- **Two ways past the checks.**  A link from an agent to itself is allowed and recorded.  And with 10,000 tracked
    sessions, one more session is allowed a second link although chains have one link at most. -/
theorem self_link_and_full_table :
    (EachStep stepRun (fun o e o' => e = .delegate "s" (plainLink "a" "a") ∧
        o.tracker.checkDelegation "s" (plainLink "a" "a") = .allowed ∧
        o'.tracker.chainOf "s" = [plainLink "a" "a"] ∧ ¬ChainsAcyclic o')
      (start (.new 5 [] [] true)) [.delegate "s" (plainLink "a" "a")]) ∧
    ∃ o, run stepRun (start (.new 1 [] [] true))
        (oneLinkEach 10000 ++ [.delegate "s" (plainLink "a" "b"), .delegate "s" (plainLink "a" "b")]) = some o ∧
      o.tracker.maxDepth = 1 ∧ o.allowed "s" = 2 := by
  constructor
  · rintro o' ⟨⟩
    refine ⟨⟨rfl, by decide +kernel, by decide +kernel, fun hacyclic => ?_⟩, trivial⟩
    have hchain : (step (start (.new 5 [] [] true)) (.delegate "s" (plainLink "a" "a"))).tracker.chainOf "s" =
        [plainLink "a" "a"] := by decide +kernel
    have hsession := hacyclic "s"
    rw [hchain] at hsession
    exact hsession "a" (.single ⟨plainLink "a" "a", List.mem_cons_self, rfl, rfl⟩)
  · obtain ⟨o, hrun, hlen, hdepth, hallow, hblock, hnone⟩ := run_oneLinkEach (Nat.le_refl maxTrackedChains)
    obtain ⟨hfree, hzero⟩ := hnone "s" fun i _ heq => by
      have hmem : 's' ∈ List.replicate i 'a' := by
        have hchars : "s".toList = List.replicate i 'a' :=
          (congrArg String.toList heq).trans String.toList_ofList
        exact hchars ▸ List.mem_cons_self
      exact absurd (List.eq_of_mem_replicate hmem) (by decide)
    have hallowed : o.tracker.checkDelegation "s" (plainLink "a" "b") = .allowed := by
      unfold checkDelegation
      rw [hfree, hdepth, hallow, hblock]
      simp [plainLink]
    have hroom : ¬o.tracker.hasRoom "s" = true := by
      rw [hasRoom, hfree, hlen]
      simp
    -- the link is allowed, nothing is recorded, and so it is allowed again
    have hstep : ∀ allowed, step { o with allowed := allowed } (.delegate "s" (plainLink "a" "b")) =
        { o with allowed := Function.update allowed "s" (allowed "s" + 1) } := by
      intro allowed
      rw [step, if_pos hallowed, recordDelegation_of_not_hasRoom _ hroom]
    have htwice : run stepRun o [.delegate "s" (plainLink "a" "b"), .delegate "s" (plainLink "a" "b")] =
        some ⟨o.tracker, Function.update (Function.update o.allowed "s" (o.allowed "s" + 1)) "s"
          (Function.update o.allowed "s" (o.allowed "s" + 1) "s" + 1)⟩ := by
      show some (step (step { o with allowed := o.allowed } _) _) = _
      rw [hstep, hstep]
    refine ⟨_, run_append_eq_some.mpr ⟨o, hrun, htwice⟩, hdepth, ?_⟩
    simp [hzero]

end Full

end Vellaveto.Delegation
