/-
  LIVE DELEGATIONS STAY ACYCLIC.

  PROGRAM.      The interleavings of `NhiSystem`.  Before a link is inserted, breadth-first search looks
                for a live path from its target back to its source.

  SPEC.         At any time that is not before a reading of the clock, the graph of the live links has
                no cycle.

  CORRECTNESS.  Fix the time.  Links are only taken away, except for the one that is inserted, and what
                is live at the fixed time was live when the search was made.
    1. `no_path_of_search`          a search that finds nothing has seen every path;
    2. `acyclic_insertDelegation`   so the new link closes no cycle;
    3. `live_delegations_acyclic`   along every run.
-/
import Vellaveto.Mcp.NhiSystem

namespace Vellaveto.Nhi

open Vellaveto.Lib
open Vellaveto.Capability (Instant)

/-- One agent delegates to another by a live link. -/
def LiveEdge (env : Env) (d : Delegations) (now : Instant) (source target : String) : Prop :=
  ∃ key link, d.lookup key = some link ∧ link.liveAt env now = true ∧ link.fromAgent = source ∧
    link.toAgent = target

/-- The reading of the clock that a step makes; the second half of a cleanup goes on with the reading of
    the first. -/
def NhiAction.reading : NhiAction → Option Instant
  | .registerIdentity _ _ now => some now
  | .insertDelegation _ now => some now
  | .expireIdentities now => some now
  | .checkDelegation _ | .revokeDelegation _ _ | .updateStatus _ _ | .deactivateExpired _
  | .rehash _ => none

section Search

variable {env : Env} {d : Delegations} {now : Instant}

theorem effectiveForSuccessor_eq (fromMatches : Bool) (link : NhiDelegationLink) :
    delegationLinkEffectiveForSuccessor fromMatches link.active (link.expiryFlags env now).1
      (link.expiryFlags env now).2 = (fromMatches && link.liveAt env now) := by
  rw [NhiDelegationLink.expiryFlags, NhiDelegationLink.liveAt, delegationLinkEffectiveForSuccessor]
  cases env.parseRfc3339 link.expiresAt with
  | none => simp
  | some expires => simp [Bool.and_assoc]

/-- The search follows the live links. -/
theorem mem_liveSuccessors {source target : String} :
    target ∈ liveSuccessors env d now source ↔ LiveEdge env d now source target := by
  simp only [liveSuccessors, List.mem_map, List.mem_filter, effectiveForSuccessor_eq, Bool.and_eq_true,
    beq_iff_eq]
  constructor
  · rintro ⟨⟨key, link⟩, ⟨he, hfrom, hlive⟩, hto⟩
    exact ⟨key, link, mem_entries_iff.mp he, hlive, hfrom, hto⟩
  · rintro ⟨key, link, hlink, hlive, hfrom, hto⟩
    exact ⟨⟨key, link⟩, ⟨mem_entries_iff.mpr hlink, hfrom, hlive⟩, hto⟩

/-- **The search is complete.**  If it finds nothing, no path of live links leads to the target. -/
theorem no_path_of_search {startAgent targetAgent : String}
    (h : liveDelegationPathExists env d startAgent targetAgent now = false) :
    ¬Relation.TransGen (LiveEdge env d now) startAgent targetAgent := by
  intro hpath
  have hanswer : explore (fun current => (liveSuccessors env d now current).contains targetAgent)
      (liveSuccessors env d now) (d.entries.length + 2) [startAgent] [startAgent] = some true := by
    obtain ⟨answer, hanswer⟩ :=
      Option.isSome_iff_exists.mp (exploration_ends env d startAgent targetAgent now)
    rw [liveDelegationPathExists, hanswer] at h
    cases answer with
    | true => exact hanswer
    | false => simp at h
  obtain ⟨last, hreach, hlast⟩ := Relation.TransGen.tail'_iff.mp hpath
  have hgood := explore_sound hanswer (Relation.ReflTransGen.mono (fun a b hab =>
    mem_liveSuccessors.mpr hab) _ _ hreach)
  have hfound : targetAgent ∈ liveSuccessors env d now last := mem_liveSuccessors.mpr hlast
  rw [← List.contains_iff_mem, hgood] at hfound
  cases hfound

/-- What is live was live before. -/
theorem LiveEdge.earlier {t : Instant} (ht : now ≤ t) {source target : String}
    (h : LiveEdge env d t source target) : LiveEdge env d now source target := by
  obtain ⟨key, link, hlink, hlive, hends⟩ := h
  obtain ⟨hactive, expires, hexpires, hahead⟩ := liveAt_eq_true.mp hlive
  have hbefore : ¬expires ≤ now := fun hle => hahead (Instant.le_trans hle ht)
  exact ⟨key, link, hlink, liveAt_eq_true.mpr ⟨hactive, expires, hexpires, hbefore⟩, hends⟩

end Search

/-! ## Insertion -/

section Insertion

variable {env : Env} {cfg : NhiConfig} {m m' : NhiManager} {req : DelegationRequest}
  {link : NhiDelegationLink} {now : Instant}

/-- A link that passes its check has two ends. -/
theorem ends_ne_of_validate (h : link.validate env = .ok ()) : link.fromAgent ≠ link.toAgent := by
  intro heq
  rw [NhiDelegationLink.validate, heq] at h
  by_cases hdangerous : hasDangerousChars link.toAgent = true
  · rw [if_pos hdangerous] at h
    cases h
  · simp only [if_neg hdangerous, if_true] at h
    cases h

/-- What was checked before a link went in. -/
theorem insertDelegation_checks (h : insertDelegation env cfg m req now = some (.ok (link, m'))) :
    liveDelegationPathExists env m.delegations req.toAgent req.fromAgent now = false ∧
      req.fromAgent ≠ req.toAgent := by
  unfold insertDelegation at h
  split at h
  · cases h
  · split at h
    · cases h
    · rename_i hcycle
      split at h
      · cases h
      · dsimp only at h
        split at h
        · cases h
        · rename_i hvalid
          exact ⟨by simpa [delegationEdgePreservesAcyclicity] using hcycle, ends_ne_of_validate hvalid⟩

/-- **The new link closes no cycle**, now or later. -/
theorem acyclic_insertDelegation (h : insertDelegation env cfg m req now = some (.ok (link, m')))
    {t : Instant} (ht : now ≤ t) (hacyclic : Acyclic (LiveEdge env m.delegations t)) :
    Acyclic (LiveEdge env m'.delegations t) := by
  obtain ⟨hfrom, hto, -, hdelegations⟩ := insertDelegation_spec h
  obtain ⟨hsearch, hne⟩ := insertDelegation_checks h
  refine hacyclic.add_edge (u := req.fromAgent) (v := req.toAgent) ?_ ?_
  · rintro a b ⟨key, other, hother, hlive, hends⟩
    rw [hdelegations, lookup_insert_eq] at hother
    split at hother
    · cases hother
      exact Or.inr ⟨hends.1.symm.trans hfrom, hends.2.symm.trans hto⟩
    · exact Or.inl ⟨key, other, hother, hlive, hends⟩
  · -- a way back at `t` would have been a live path when the search was made
    intro hback
    rcases Relation.reflTransGen_iff_eq_or_transGen.mp hback with heq | hpath
    · exact hne heq
    · refine no_path_of_search hsearch ?_
      exact Relation.TransGen.mono (fun a b hab => LiveEdge.earlier ht hab) _ _ hpath

/-- A step keeps the graph acyclic at all times that are not before its reading of the clock. -/
theorem acyclic_step {s s' : NhiSystem} {a : NhiAction} (hstep : step env cfg s a = some s')
    {t : Instant} (ht : ∀ now, a.reading = some now → now ≤ t)
    (hacyclic : Acyclic (LiveEdge env s.manager.delegations t)) :
    Acyclic (LiveEdge env s'.manager.delegations t) := by
  rcases step_links hstep with hlinks | ⟨req, now, link, rfl, hinsert⟩
  · refine hacyclic.mono ?_
    rintro a b ⟨key, link, hlink, hlive, hends⟩
    have hactive : link.active = true := (liveAt_eq_true.mp hlive).1
    exact ⟨key, link, hlinks key link hlink hactive, hlive, hends⟩
  · exact acyclic_insertDelegation hinsert (ht now rfl) hacyclic

end Insertion

/-! ## Runs -/

/-- **Live delegations stay acyclic.**  After every run, at every time that is not before a reading of
    the clock in the run, the live links form no cycle. -/
theorem live_delegations_acyclic {env : Env} {cfg : NhiConfig} {s : NhiSystem} {as : List NhiAction}
    (hrun : run (step env cfg) NhiSystem.new as = some s) (now : Instant)
    (hclock : ∀ t ∈ as.filterMap NhiAction.reading, t ≤ now) :
    Acyclic (LiveEdge env s.manager.delegations now) := by
  have hstart : Acyclic (LiveEdge env NhiSystem.new.manager.delegations now) := by
    intro a hcycle
    obtain ⟨b, -, key, link, hlink, -⟩ := Relation.TransGen.tail'_iff.mp hcycle
    cases hlink
  refine run_invariant_mem (I := fun s => Acyclic (LiveEdge env s.manager.delegations now)) ?_ hstart
    hrun
  intro t a t' ha hacyclic hstep
  refine acyclic_step hstep (fun reading hreading => ?_) hacyclic
  exact hclock reading (List.mem_filterMap.mpr ⟨a, ha, hreading⟩)

/-- One agent delegates to another; the link back is refused. -/
def backRun : List NhiAction :=
  [.registerIdentity (plainRegistration "planner" 50) plannerId (atSecond 0),
    .registerIdentity (plainRegistration "worker" 50) workerId (atSecond 0),
    .checkDelegation (plainRequest plannerId workerId 30),
    .insertDelegation (plainRequest plannerId workerId 30) (atSecond 1),
    .checkDelegation (plainRequest workerId plannerId 30),
    .insertDelegation (plainRequest workerId plannerId 30) (atSecond 2)]

theorem live_delegations_acyclic_back_refused :
    ∃ s ∈ run (step minuteClock plainConfig) NhiSystem.new backRun,
      s.manager.delegations.entries.length = 1 ∧
      (∀ t ∈ backRun.filterMap NhiAction.reading, t ≤ atSecond 3) ∧
      Acyclic (LiveEdge minuteClock s.manager.delegations (atSecond 3)) := by
  have hrun : ∃ s ∈ run (step minuteClock plainConfig) NhiSystem.new backRun,
      s.manager.delegations.entries.length = 1 := by
    decide +kernel
  have hclock : ∀ t ∈ backRun.filterMap NhiAction.reading, t ≤ atSecond 3 := by
    decide
  obtain ⟨s, hs, hcount⟩ := hrun
  exact ⟨s, hs, hcount, hclock, live_delegations_acyclic hs (atSecond 3) hclock⟩

end Vellaveto.Nhi
