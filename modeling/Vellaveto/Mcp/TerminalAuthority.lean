/-
  TERMINAL AGENTS HOLD NO LIVE AUTHORITY.

  PROGRAM.      The interleavings of `NhiSystem`.

  SPEC.         No live link has a revoked or expired agent at one of its ends, and no chain that is
                resolved runs through one.

  CORRECTNESS.  Invariant (`TerminalDue`): an active link at a terminal agent has run out by the time of
                a cleanup under way, which is still to deactivate it.
    1. `terminalDue_step`     a step keeps the invariant, unless it inserts a link between agents that
                              became terminal since they were checked, or expires an agent that is an end
                              of a live link;
    2. `no_live_authority`    so in every run without such steps terminal agents hold no authority;
    3. `cleanup_leaves_live_link`, `insertion_after_revocation`   the two kinds of steps at work.
-/
import Vellaveto.Mcp.NhiSystem

namespace Vellaveto.Nhi

open Vellaveto.Lib
open Vellaveto.Capability (Instant)

/-! ## The invariant -/

/-- An active link at a terminal agent ran out before one of the cleanups under way began. -/
def TerminalDue (env : Env) (m : NhiManager) (cleanups : List Instant) : Prop :=
  ∀ key link expires agent, m.delegations.lookup key = some link → link.active = true →
    env.parseRfc3339 link.expiresAt = some expires → link.touches agent → m.isTerminal agent = true →
    ∃ began ∈ cleanups, expires ≤ began

/-- The condition of a step.  An insertion must find both agents as the check found them, and a cleanup
    must not expire an agent that is an end of a live link. -/
def KeepsAuthority (env : Env) (s : NhiSystem) : NhiAction → Prop
  | .insertDelegation req _ =>
    s.manager.isTerminal req.fromAgent = false ∧ s.manager.isTerminal req.toAgent = false
  | .expireIdentities now =>
    ∀ e ∈ s.manager.delegations.entries, e.2.liveAt env now = true →
      ∀ a ∈ s.manager.identities.entries, a.2.expiresBy env now = true → ¬e.2.touches a.1
  | _ => True

instance KeepsAuthority.decidable (env : Env) (s : NhiSystem) :
    (a : NhiAction) → Decidable (KeepsAuthority env s a)
  | .insertDelegation _ _ => inferInstanceAs (Decidable (_ ∧ _))
  | .expireIdentities now => inferInstanceAs (Decidable (∀ e ∈ s.manager.delegations.entries,
      e.2.liveAt env now = true → ∀ a ∈ s.manager.identities.entries, a.2.expiresBy env now = true →
        ¬e.2.touches a.1))
  | .registerIdentity _ _ _ | .checkDelegation _ | .revokeDelegation _ _ | .updateStatus _ _
  | .deactivateExpired _ | .rehash _ => isTrue trivial

section Invariant

variable {env : Env} {cfg : NhiConfig} {m m' : NhiManager} {cleanups cleanups' : List Instant}

/-- A step that inserts nothing and makes no agent terminal that still has an active link. -/
theorem TerminalDue.mono (h : TerminalDue env m cleanups)
    (hlinks : OnlyDeactivates m.delegations m'.delegations)
    (hterminal : ∀ key link agent, m'.delegations.lookup key = some link → link.active = true →
      link.touches agent → m'.isTerminal agent = true → m.isTerminal agent = true) :
    TerminalDue env m' cleanups := by
  intro key link expires agent hlink hactive hexpires htouches hagent
  refine h key link expires agent (hlinks key link hlink hactive) hactive hexpires htouches ?_
  exact hterminal key link agent hlink hactive htouches hagent

/-! ## One step -/

theorem terminalDue_insertDelegation {req : DelegationRequest} {link : NhiDelegationLink}
    {now : Instant} (h : TerminalDue env m cleanups) (hfrom : m.isTerminal req.fromAgent = false)
    (hto : m.isTerminal req.toAgent = false)
    (hinsert : insertDelegation env cfg m req now = some (.ok (link, m'))) :
    TerminalDue env m' cleanups := by
  obtain ⟨hlinkFrom, hlinkTo, hidentities, hdelegations⟩ := insertDelegation_spec hinsert
  intro key other expires agent hother hactive hexpires htouches hagent
  rw [isTerminal_congr hidentities] at hagent
  rw [hdelegations, lookup_insert_eq] at hother
  split at hother
  · -- the new link has two agents that are not terminal
    cases hother
    rcases htouches with rfl | rfl
    · rw [hlinkFrom, hfrom] at hagent
      cases hagent
    · rw [hlinkTo, hto] at hagent
      cases hagent
  · exact h key other expires agent hother hactive hexpires htouches hagent

theorem terminalDue_expireIdentities {now : Instant} (h : TerminalDue env m cleanups)
    (hlive : ∀ e ∈ m.delegations.entries, e.2.liveAt env now = true →
      ∀ a ∈ m.identities.entries, a.2.expiresBy env now = true → ¬e.2.touches a.1) :
    TerminalDue env (expireIdentities env m now) (now :: cleanups) := by
  intro key link expires agent hlink hactive hexpires htouches hagent
  rcases isTerminal_expireIdentities hagent with hbefore | ⟨identity, hidentity, hran⟩
  · obtain ⟨began, hbegan, hle⟩ := h key link expires agent hlink hactive hexpires htouches hbefore
    exact ⟨began, List.mem_cons_of_mem now hbegan, hle⟩
  · -- the agent expires now, so the link is not live and has run out by now
    refine ⟨now, List.mem_cons_self, ?_⟩
    by_contra hahead
    have hlinkLive : link.liveAt env now = true := liveAt_eq_true.mpr ⟨hactive, expires, hexpires, hahead⟩
    exact hlive ⟨key, link⟩ (mem_entries_iff.mpr hlink) hlinkLive ⟨agent, identity⟩
      (mem_entries_iff.mpr hidentity) hran htouches

theorem terminalDue_deactivateExpired {now : Instant} (h : TerminalDue env m cleanups) :
    TerminalDue env (deactivateExpired env m now) (cleanups.erase now) := by
  intro key link expires agent hlink hactive hexpires htouches hagent
  have hagent : m.isTerminal agent = true := hagent
  obtain ⟨hbefore, hkept⟩ := lookup_deactivate hlink hactive
  obtain ⟨began, hbegan, hle⟩ := h key link expires agent hbefore hactive hexpires htouches hagent
  have hne : began ≠ now := by
    rintro rfl
    rw [NhiDelegationLink.expiredBy, hexpires] at hkept
    exact hkept (decide_eq_true hle)
  exact ⟨began, (List.mem_erase_of_ne hne).mpr hbegan, hle⟩

/-- A step that meets its condition keeps the invariant. -/
theorem terminalDue_step {s s' : NhiSystem} {a : NhiAction}
    (h : TerminalDue env s.manager s.cleanups) (hkeeps : KeepsAuthority env s a)
    (hstep : step env cfg s a = some s') : TerminalDue env s'.manager s'.cleanups := by
  cases a with
  | registerIdentity req id now =>
    cases hstep
    dsimp only
    unfold NhiManager.after
    split
    · rename_i answer m' hregister
      obtain ⟨hdelegations, hterminal⟩ := registerIdentity_spec hregister
      refine h.mono (hdelegations ▸ OnlyDeactivates.refl _) ?_
      intro key link agent _ _ _ hagent
      exact hterminal agent hagent
    · exact h
    · exact h
  | checkDelegation req =>
    simp only [step] at hstep
    split at hstep
    · cases hstep
      exact h
    · cases hstep
      exact h
  | insertDelegation req now =>
    simp only [step] at hstep
    split at hstep
    · cases hstep
      dsimp only
      unfold NhiManager.after
      split
      · rename_i link m' hinsert
        exact terminalDue_insertDelegation h hkeeps.1 hkeeps.2 hinsert
      · exact h
      · exact h
    · cases hstep
  | revokeDelegation fromAgent toAgent =>
    cases hstep
    dsimp only
    cases hrevoke : revokeDelegation s.manager fromAgent toAgent with
    | error e => exact h
    | ok m' =>
      obtain ⟨hlinks, hidentities⟩ := onlyDeactivates_revokeDelegation hrevoke
      refine h.mono hlinks ?_
      intro key link agent _ _ _ hagent
      exact (isTerminal_congr hidentities agent) ▸ hagent
  | updateStatus id newStatus =>
    cases hstep
    dsimp only
    cases hupdate : updateStatus s.manager id newStatus with
    | error e => exact h
    | ok m' =>
      obtain ⟨hlinks, hterminal⟩ := updateStatus_spec hupdate
      exact h.mono hlinks hterminal
  | expireIdentities now =>
    cases hstep
    exact terminalDue_expireIdentities h hkeeps
  | deactivateExpired now =>
    simp only [step] at hstep
    split at hstep
    · cases hstep
      exact terminalDue_deactivateExpired h
    · cases hstep
  | rehash delegations =>
    simp only [step] at hstep
    split at hstep
    · rename_i hperm
      cases hstep
      refine h.mono ?_ fun _ _ _ _ _ _ hagent => hagent
      intro key link hlink _
      exact (AList.perm_lookup hperm).symm.trans hlink
    · cases hstep

/-! ## Resolution -/

theorem effectiveForChain_eq (toMatches : Bool) (link : NhiDelegationLink) (now : Instant) :
    delegationLinkEffectiveForChain toMatches link.active (link.expiryFlags env now).1
      (link.expiryFlags env now).2 = (toMatches && link.liveAt env now) := by
  rw [NhiDelegationLink.expiryFlags, NhiDelegationLink.liveAt, delegationLinkEffectiveForChain]
  cases env.parseRfc3339 link.expiresAt with
  | none => simp
  | some expires => simp [Bool.and_assoc]

/-- The link that the walk follows is in the table and live. -/
theorem incomingLink_spec {d : Delegations} {now : Instant} {current : String}
    {link : NhiDelegationLink} (h : incomingLink env d now current = some link) :
    (∃ key, d.lookup key = some link) ∧ link.liveAt env now = true := by
  rw [incomingLink] at h
  have hfound := List.find?_some h
  obtain ⟨⟨key, value⟩, he, rfl⟩ := List.mem_map.mp (List.mem_of_find?_eq_some h)
  rw [effectiveForChain_eq, Bool.and_eq_true] at hfound
  exact ⟨⟨key, mem_entries_iff.mp he⟩, hfound.2⟩

theorem walkBack_live {d : Delegations} {now : Instant} {links : Nat} {current : String}
    {visited : List String} {chain : List NhiDelegationLink}
    (hchain : ∀ link ∈ chain, (∃ key, d.lookup key = some link) ∧ link.liveAt env now = true) :
    ∀ link ∈ walkBack env d now links current visited chain,
      (∃ key, d.lookup key = some link) ∧ link.liveAt env now = true := by
  induction links generalizing current visited chain with
  | zero => exact hchain
  | succ links ih =>
    rw [walkBack]
    split
    · exact hchain
    · rename_i next hnext
      split
      · exact hchain
      · refine ih fun link hlink => ?_
        rcases List.mem_cons.mp hlink with rfl | hlink
        · exact incomingLink_spec hnext
        · exact hchain link hlink

/-- A resolved chain is made of live links. -/
theorem resolveDelegationChain_live {agentId : String} {now resolvedAt : Instant}
    {link : NhiDelegationLink}
    (hlink : link ∈ (resolveDelegationChain env cfg m agentId now resolvedAt).chain) :
    (∃ key, m.delegations.lookup key = some link) ∧ link.liveAt env now = true := by
  unfold resolveDelegationChain at hlink
  dsimp only at hlink
  split at hlink
  · cases hlink
  · exact walkBack_live (fun link hlink => absurd hlink List.not_mem_nil) link hlink

end Invariant

/-! ## Runs -/

section Runs

variable {env : Env} {cfg : NhiConfig} {m : NhiManager} {cleanups : List Instant}

theorem not_isTerminal_of_terminalDue (h : TerminalDue env m cleanups) {now : Instant}
    (hnow : ∀ began ∈ cleanups, began ≤ now) {key : String × String} {link : NhiDelegationLink}
    (hlink : m.delegations.lookup key = some link) (hlive : link.liveAt env now = true) :
    m.isTerminal link.fromAgent = false ∧ m.isTerminal link.toAgent = false := by
  obtain ⟨hactive, expires, hexpires, hahead⟩ := liveAt_eq_true.mp hlive
  have hclean : ∀ agent, link.touches agent → m.isTerminal agent = false := by
    intro agent htouches
    rw [← Bool.not_eq_true]
    intro hagent
    obtain ⟨began, hbegan, hle⟩ := h key link expires agent hlink hactive hexpires htouches hagent
    exact hahead (Instant.le_trans hle (hnow began hbegan))
  exact ⟨hclean link.fromAgent (Or.inl rfl), hclean link.toAgent (Or.inr rfl)⟩

/-- **Terminal agents hold no live authority.**  In every state of every run whose steps meet their
    condition, no live link has a revoked or expired agent at one of its ends, and no resolved chain
    contains one.  The clock is read after the cleanups under way began. -/
theorem no_live_authority {s : NhiSystem} {as : List NhiAction}
    (hrun : run (step env cfg) NhiSystem.new as = some s)
    (hkeeps : EachStep (step env cfg) (fun s a _ => KeepsAuthority env s a) NhiSystem.new as)
    (now : Instant) (hnow : ∀ began ∈ s.cleanups, began ≤ now) :
    (∀ key link, s.manager.delegations.lookup key = some link → link.liveAt env now = true →
      s.manager.isTerminal link.fromAgent = false ∧ s.manager.isTerminal link.toAgent = false) ∧
    ∀ agentId resolvedAt,
      ∀ link ∈ (resolveDelegationChain env cfg s.manager agentId now resolvedAt).chain,
        s.manager.isTerminal link.fromAgent = false ∧ s.manager.isTerminal link.toAgent = false := by
  have hstart : TerminalDue env NhiSystem.new.manager NhiSystem.new.cleanups := by
    intro key link expires agent hlink
    cases hlink
  have hinv : TerminalDue env s.manager s.cleanups := by
    refine run_invariant_of_eachStep (I := fun s => TerminalDue env s.manager s.cleanups) ?_ hkeeps
      hstart hrun
    intro t a t' _ ht hcond hstep
    exact terminalDue_step ht hcond hstep
  constructor
  · intro key link hlink hlive
    exact not_isTerminal_of_terminalDue hinv hnow hlink hlive
  · intro agentId resolvedAt link hlink
    obtain ⟨⟨key, hkey⟩, hlive⟩ := resolveDelegationChain_live hlink
    exact not_isTerminal_of_terminalDue hinv hnow hkey hlive

/-- The planner is revoked, which cuts its link to the worker, before the worker's credential runs out. -/
def orderlyRun : List NhiAction :=
  [.registerIdentity (plainRegistration "planner" 50) plannerId (atSecond 0),
    .registerIdentity (plainRegistration "worker" 10) workerId (atSecond 0),
    .checkDelegation (plainRequest plannerId workerId 30),
    .insertDelegation (plainRequest plannerId workerId 30) (atSecond 1),
    .updateStatus plannerId .revoked, .expireIdentities (atSecond 20), .deactivateExpired (atSecond 20)]

theorem no_live_authority_orderly :
    ∃ s ∈ run (step minuteClock plainConfig) NhiSystem.new orderlyRun,
      s.manager.isTerminal plannerId = true ∧ s.manager.isTerminal workerId = true ∧
      (∀ key link, s.manager.delegations.lookup key = some link →
        link.liveAt minuteClock (atSecond 21) = true →
        s.manager.isTerminal link.fromAgent = false ∧ s.manager.isTerminal link.toAgent = false) ∧
      ∀ agentId resolvedAt,
        ∀ link ∈ (resolveDelegationChain minuteClock plainConfig s.manager agentId (atSecond 21)
          resolvedAt).chain,
          s.manager.isTerminal link.fromAgent = false ∧ s.manager.isTerminal link.toAgent = false := by
  -- one evaluation for both, since the run is the same
  have horderly : (∃ s ∈ run (step minuteClock plainConfig) NhiSystem.new orderlyRun,
        s.manager.isTerminal plannerId = true ∧ s.manager.isTerminal workerId = true ∧
        s.cleanups = []) ∧
      EachStep (step minuteClock plainConfig) (fun s a _ => KeepsAuthority minuteClock s a)
        NhiSystem.new orderlyRun := by
    decide +kernel
  obtain ⟨⟨s, hs, hplanner, hworker, hcleanups⟩, hkeeps⟩ := horderly
  refine ⟨s, hs, hplanner, hworker, ?_⟩
  refine no_live_authority hs hkeeps (atSecond 21) ?_
  rw [hcleanups]
  intro began hbegan
  cases hbegan

/-- Cleanup does leave authority behind: if an agent whose credential ran out is an end of a live link,
    the link is as live as before and the agent is terminal. -/
theorem live_link_of_expired_agent {key : String × String} {link : NhiDelegationLink} {agent : String}
    {identity : NhiAgentIdentity} {now : Instant} (hlink : m.delegations.lookup key = some link)
    (hlive : link.liveAt env now = true) (hidentity : m.identities.lookup agent = some identity)
    (hexpires : identity.expiresBy env now = true) :
    let cleaned := deactivateExpired env (expireIdentities env m now) now
    cleaned.delegations.lookup key = some link ∧ cleaned.isTerminal agent = true := by
  obtain ⟨hactive, expires, hparsed, hahead⟩ := liveAt_eq_true.mp hlive
  have hkept : link.expiredBy env now = false := by
    rw [NhiDelegationLink.expiredBy, hparsed]
    exact decide_eq_false hahead
  constructor
  · rw [deactivateExpired, lookup_mapValues]
    show (m.delegations.lookup key).map _ = some link
    rw [hlink, Option.map_some, hkept, if_neg Bool.false_ne_true]
  · refine isTerminal_eq_true.mpr ⟨{ identity with status := .expired }, ?_, rfl⟩
    show (expireIdentities env m now).identities.lookup agent = _
    rw [expireIdentities, lookup_mapValues, hidentity, Option.map_some, if_pos hexpires]

end Runs

/-- The worker's credential runs out and is cleaned up; the link to it runs on. -/
def cleanupRun : List NhiAction :=
  [.registerIdentity (plainRegistration "planner" 50) plannerId (atSecond 0),
    .registerIdentity (plainRegistration "worker" 10) workerId (atSecond 0),
    .checkDelegation (plainRequest plannerId workerId 30),
    .insertDelegation (plainRequest plannerId workerId 30) (atSecond 1),
    .expireIdentities (atSecond 20), .deactivateExpired (atSecond 20)]

/-- After a complete cleanup, a live link leads to an expired agent, and it is resolved. -/
theorem cleanup_leaves_live_link :
    ∃ s ∈ run (step minuteClock plainConfig) NhiSystem.new cleanupRun, s.cleanups = [] ∧
      ∃ link ∈ s.manager.delegations.lookup (plannerId, workerId),
        link.liveAt minuteClock (atSecond 20) = true ∧ s.manager.isTerminal link.toAgent = true ∧
        link ∈ (resolveDelegationChain minuteClock plainConfig s.manager workerId (atSecond 20)
          (atSecond 20)).chain := by
  decide +kernel

/-- The worker is revoked between the check and the insertion. -/
theorem insertion_after_revocation :
    ∃ s ∈ run (step minuteClock plainConfig) NhiSystem.new
        [.registerIdentity (plainRegistration "planner" 50) plannerId (atSecond 0),
          .registerIdentity (plainRegistration "worker" 50) workerId (atSecond 0),
          .checkDelegation (plainRequest plannerId workerId 30), .updateStatus workerId .revoked,
          .insertDelegation (plainRequest plannerId workerId 30) (atSecond 1)],
      ∃ link ∈ s.manager.delegations.lookup (plannerId, workerId),
        link.liveAt minuteClock (atSecond 2) = true ∧ s.manager.isTerminal link.toAgent = true ∧
        link ∈ (resolveDelegationChain minuteClock plainConfig s.manager workerId (atSecond 2)
          (atSecond 2)).chain := by
  decide +kernel

end Vellaveto.Nhi
