/-
  WHAT A TRANSITIVE REVOCATION CUTS.

  PROGRAM.      `transitiveRevoke`: breadth-first search from the revoked agent.  A visit reads whom the
                agent delegates to, deactivates every link of the agent, in either direction, and queues
                the agents that were not seen before.  The search changes the graph that it explores,
                and it makes at most `maxTransitiveRevokeDepth` visits.

  SPEC.         `Reaches`: reachability by the links that were active BEFORE the revocation.

  CORRECTNESS.  Links are stored under their ends (`Keyed`, in every reachable state).
    1. `Cascade`                  the loop invariant: what has been cut are the links of the agents
                                  visited so far, and these have had all their delegates queued;
    2. `cascade_visit`            a visit keeps it.  The links it no longer sees are those that an
                                  earlier visit cut, and they lead to agents visited already;
    3. `cascade_revokeLoop`       the loop ends with an empty frontier, or with all its visits used up;
    4. `transitiveRevoke_exact`   the links of the agent are cut, links that no reachable agent has a
                                  part in are kept, and if the reachable agents are no more than the
                                  visits, exactly the links of reachable agents are cut.
-/
import Vellaveto.Mcp.NhiSystem

namespace Vellaveto.Nhi

open Vellaveto.Lib

/-- An active link is stored under its two ends. -/
def Keyed (d : Delegations) : Prop :=
  ∀ key link, d.lookup key = some link → link.active = true → key = (link.fromAgent, link.toAgent)

/-- One agent delegates to another by an active link. -/
def Delegates (d : Delegations) (source target : String) : Prop :=
  ∃ key link, d.lookup key = some link ∧ link.active = true ∧ link.fromAgent = source ∧
    link.toAgent = target

/-- An agent is the first one, or active links lead to it. -/
def Reaches (d : Delegations) : String → String → Prop := Relation.ReflTransGen (Delegates d)

/-! ## Links under their ends -/

section Runs

variable {env : Env} {cfg : NhiConfig}

theorem keyed_step {s s' : NhiSystem} {a : NhiAction} (hkeyed : Keyed s.manager.delegations)
    (hstep : step env cfg s a = some s') : Keyed s'.manager.delegations := by
  rcases step_links hstep with hlinks | ⟨req, now, new, -, hinsert⟩
  · intro key link hlink hactive
    exact hkeyed key link (hlinks key link hlink hactive) hactive
  · obtain ⟨hfrom, hto, -, hdelegations⟩ := insertDelegation_spec hinsert
    intro key link hlink hactive
    rw [hdelegations, lookup_insert_eq] at hlink
    split at hlink
    · rename_i hkey
      cases hlink
      rw [hkey, hfrom, hto]
    · exact hkeyed key link hlink hactive

/-- In every state of every run, links are stored under their ends. -/
theorem keyed_of_run {s : NhiSystem} {as : List NhiAction}
    (hrun : run (step env cfg) NhiSystem.new as = some s) : Keyed s.manager.delegations := by
  refine run_invariant (I := fun s => Keyed s.manager.delegations) ?_ ?_ hrun
  · intro t a t' hkeyed hstep
    exact keyed_step hkeyed hstep
  · intro key link hlink
    cases hlink

end Runs

/-! ## The search -/

/-- A link after visits to these agents. -/
def cutLink (done : List String) (link : NhiDelegationLink) : NhiDelegationLink :=
  if ∃ b ∈ done, link.touches b then link.deactivate else link

/-- Visits change no link but in whether it is active. -/
theorem cutLink_eq (done : List String) (link : NhiDelegationLink) :
    cutLink done link = link ∨ cutLink done link = link.deactivate := by
  rw [cutLink]
  split
  · exact Or.inr rfl
  · exact Or.inl rfl

theorem cutLink_active {done : List String} {link : NhiDelegationLink} :
    (cutLink done link).active = true ↔ link.active = true ∧ ∀ b ∈ done, ¬link.touches b := by
  rw [cutLink]
  split
  · rename_i hcut
    obtain ⟨b, hb, htouches⟩ := hcut
    refine iff_of_false (by simp [NhiDelegationLink.deactivate]) ?_
    rintro ⟨-, hnone⟩
    exact hnone b hb htouches
  · rename_i hcut
    refine ⟨fun hactive => ⟨hactive, fun b hb htouches => hcut ⟨b, hb, htouches⟩⟩, And.left⟩

/-- A link that is not active stays as it is. -/
theorem deactivate_of_inactive {link : NhiDelegationLink} (h : link.active = false) :
    link.deactivate = link := by
  rw [NhiDelegationLink.deactivate, ← h]

/-- One visit more. -/
theorem cutLink_snoc (done : List String) (current : String) (link : NhiDelegationLink) :
    (if cutBy current (cutLink done link) then (cutLink done link).deactivate else cutLink done link) =
      cutLink (done ++ [current]) link := by
  by_cases hdone : ∃ b ∈ done, link.touches b
  · -- cut before: it is not cut again
    obtain ⟨b, hb, htouches⟩ := hdone
    have hcut : cutLink done link = link.deactivate := if_pos ⟨b, hb, htouches⟩
    have hcut' : cutLink (done ++ [current]) link = link.deactivate :=
      if_pos ⟨b, List.mem_append_left _ hb, htouches⟩
    have hnot : ¬cutBy current link.deactivate = true := by
      intro hby
      cases (cutBy_eq_true.mp hby).2
    rw [hcut, hcut', if_neg hnot]
  · have hkept : cutLink done link = link := if_neg hdone
    rw [hkept]
    by_cases htouches : link.touches current
    · have hcut : cutLink (done ++ [current]) link = link.deactivate :=
        if_pos ⟨current, by simp, htouches⟩
      rw [hcut]
      cases hactive : link.active with
      | true => rw [if_pos (cutBy_eq_true.mpr ⟨htouches, hactive⟩)]
      | false => rw [deactivate_of_inactive hactive, ite_self]
    · have hcut : cutLink (done ++ [current]) link = link := by
        refine if_neg ?_
        rintro ⟨b, hb, hb'⟩
        rcases List.mem_append.mp hb with hb | hb
        · exact hdone ⟨b, hb, hb'⟩
        · exact htouches (List.mem_singleton.mp hb ▸ hb')
      have hnot : ¬cutBy current link = true := fun hby => htouches (cutBy_eq_true.mp hby).1
      rw [hcut, if_neg hnot]

/-- The state of the search: the agents visited so far, those that wait, and the links as they are. -/
structure Cascade (d : Delegations) (agent : String) (done frontier visited : List String)
    (links : Delegations) : Prop where
  cut : ∀ key, links.lookup key = (d.lookup key).map (cutLink done)
  perm : visited.Perm (done ++ frontier)
  nodup : visited.Nodup
  start : agent ∈ visited
  reached : ∀ b ∈ visited, Reaches d agent b
  closed : ∀ b ∈ done, ∀ c, Delegates d b c → c ∈ visited

theorem cascade_start (d : Delegations) (agent : String) : Cascade d agent [] [agent] [agent] d where
  cut key := by
    have hnone : cutLink [] = id := by
      funext link
      exact if_neg (by simp)
    rw [hnone, Option.map_id, id]
  perm := List.Perm.refl _
  nodup := List.nodup_singleton agent
  start := List.mem_cons_self
  reached b hb := by
    rw [List.mem_singleton.mp hb]
    exact .refl
  closed b hb := by cases hb

section Visit

variable {d links : Delegations} {agent current : String} {done frontier visited : List String}

theorem mem_nextHops {b : String} :
    b ∈ nextHops links current ↔
      ∃ link, links.lookup (current, b) = some link ∧ link.active = true := by
  simp only [nextHops, List.mem_map, List.mem_filter, Bool.and_eq_true, beq_iff_eq]
  constructor
  · rintro ⟨⟨⟨a, b'⟩, link⟩, ⟨he, rfl, hactive⟩, rfl⟩
    exact ⟨link, mem_entries_iff.mp he, hactive⟩
  · rintro ⟨link, hlink, hactive⟩
    exact ⟨⟨(current, b), link⟩, ⟨mem_entries_iff.mpr hlink, rfl, hactive⟩, rfl⟩

/-- Whom a visit finds, the agent delegated to from the start. -/
theorem delegates_of_mem_nextHops (hkeyed : Keyed d)
    (h : Cascade d agent done (current :: frontier) visited links) {b : String}
    (hb : b ∈ nextHops links current) : Delegates d current b := by
  obtain ⟨link, hlink, hactive⟩ := mem_nextHops.mp hb
  rw [h.cut, Option.map_eq_some_iff] at hlink
  obtain ⟨before, hbefore, rfl⟩ := hlink
  have hactive' := (cutLink_active.mp hactive).1
  have hends := Prod.mk.inj (hkeyed _ before hbefore hactive')
  exact ⟨_, before, hbefore, hactive', hends.1.symm, hends.2.symm⟩

/-- Whom the agent delegated to, a visit finds or has been visited. -/
theorem mem_nextHops_or_done (hkeyed : Keyed d)
    (h : Cascade d agent done (current :: frontier) visited links) {b : String}
    (hb : Delegates d current b) : b ∈ nextHops links current ∨ b ∈ done := by
  obtain ⟨key, link, hlink, hactive, rfl, rfl⟩ := hb
  have hkey : key = (link.fromAgent, link.toAgent) := hkeyed key link hlink hactive
  rw [hkey] at hlink
  have hcurrent : link.fromAgent ∉ done := by
    have hnodup := h.perm.nodup_iff.mp h.nodup
    intro hmem
    exact List.disjoint_of_nodup_append hnodup hmem List.mem_cons_self
  by_cases hto : link.toAgent ∈ done
  · exact Or.inr hto
  · refine Or.inl (mem_nextHops.mpr ⟨cutLink done link, ?_, ?_⟩)
    · rw [h.cut, hlink, Option.map_some]
    · refine cutLink_active.mpr ⟨hactive, ?_⟩
      rintro b hb (rfl | rfl)
      · exact hcurrent hb
      · exact hto hb

/-- **A visit keeps the invariant.** -/
theorem cascade_visit (hkeyed : Keyed d)
    (h : Cascade d agent done (current :: frontier) visited links) :
    Cascade d agent (done ++ [current]) (enqueueNew (nextHops links current) frontier visited).1
      (enqueueNew (nextHops links current) frontier visited).2
      (mapValues (fun _ link => if cutBy current link then link.deactivate else link) links) := by
  obtain ⟨new, hqueue, hvisited, hsub, hnodup, hall⟩ :=
    enqueueNew_spec (nextHops links current) frontier visited
  have hcurrent : current ∈ visited :=
    h.perm.mem_iff.mpr (List.mem_append_right _ List.mem_cons_self)
  rw [hqueue, hvisited]
  constructor
  case cut =>
    intro key
    rw [lookup_mapValues, h.cut, Option.map_map]
    refine congrArg (fun f => (d.lookup key).map f) (funext fun link => ?_)
    exact cutLink_snoc done current link
  case perm =>
    have hfront : (new.reverse ++ visited).Perm (new ++ (done ++ current :: frontier)) :=
      (List.reverse_perm new).append h.perm
    have hback : (new ++ (done ++ current :: frontier)).Perm
        (done ++ [current] ++ (frontier ++ new)) := by
      refine List.perm_append_comm.trans ?_
      rw [List.append_assoc, List.append_assoc, List.singleton_append, List.cons_append]
    exact hfront.trans hback
  case nodup => exact hnodup h.nodup
  case start => exact List.mem_append_right _ h.start
  case reached =>
    intro b hb
    rcases List.mem_append.mp hb with hb | hb
    · have hhop : b ∈ nextHops links current := hsub (List.mem_reverse.mp hb)
      exact (h.reached current hcurrent).tail (delegates_of_mem_nextHops hkeyed h hhop)
    · exact h.reached b hb
  case closed =>
    intro b hb c hbc
    rcases List.mem_append.mp hb with hb | hb
    · exact List.mem_append_right _ (h.closed b hb c hbc)
    · cases List.mem_singleton.mp hb
      rcases mem_nextHops_or_done hkeyed h hbc with hhop | hdone
      · exact hall c hhop
      · exact List.mem_append_right _ (h.perm.mem_iff.mpr (List.mem_append_left _ hdone))

/-- **The loop** ends with nobody left to visit, or when its visits are used up. -/
theorem cascade_revokeLoop (hkeyed : Keyed d) (visits : Nat) (deactivated : List (String × String))
    (h : Cascade d agent done frontier visited links) :
    ∃ done' frontier' visited', Cascade d agent done' frontier' visited'
        (revokeLoop visits frontier visited links deactivated).1 ∧
      (frontier' = [] ∨ done'.length = done.length + visits) := by
  induction visits generalizing done frontier visited links deactivated with
  | zero => exact ⟨done, frontier, visited, h, Or.inr rfl⟩
  | succ visits ih =>
    cases frontier with
    | nil => exact ⟨done, [], visited, h, Or.inl rfl⟩
    | cons current frontier =>
      rw [revokeLoop]
      obtain ⟨done', frontier', visited', h', hend⟩ := ih _ (cascade_visit hkeyed h)
      refine ⟨done', frontier', visited', h', hend.imp_right fun hlen => ?_⟩
      rw [hlen, List.length_append, List.length_singleton]
      omega

/-- When nobody is left to visit, every reachable agent was visited. -/
theorem Cascade.mem_done_of_reaches (h : Cascade d agent done [] visited links) {b : String}
    (hb : Reaches d agent b) : b ∈ done := by
  have hmem : ∀ c, c ∈ visited ↔ c ∈ done := by
    intro c
    rw [h.perm.mem_iff, List.append_nil]
  induction hb with
  | refl => exact (hmem agent).mp h.start
  | tail _ hbc ih => exact (hmem _).mp (h.closed _ ih _ hbc)

/-- As many agents as are reachable have been visited: these are all. -/
theorem Cascade.mem_done_of_length (h : Cascade d agent done frontier visited links)
    {agents : Finset String} (hagents : ∀ b, Reaches d agent b → b ∈ agents)
    (hlen : agents.card ≤ done.length) {b : String} (hb : Reaches d agent b) : b ∈ done := by
  have hmem : ∀ c ∈ done, c ∈ visited := fun c hc => h.perm.mem_iff.mpr (List.mem_append_left _ hc)
  have hnodup : done.Nodup := (h.perm.nodup_iff.mp h.nodup).of_append_left
  have hsub : done.toFinset ⊆ agents := by
    intro c hc
    exact hagents c (h.reached c (hmem c (List.mem_toFinset.mp hc)))
  have hcard : agents.card ≤ done.toFinset.card := by
    rw [List.toFinset_card_of_nodup hnodup]
    exact hlen
  have heq : done.toFinset = agents := Finset.eq_of_subset_of_card_le hsub hcard
  exact List.mem_toFinset.mp (heq ▸ hagents b hb)

end Visit

/-! ## The revocation -/

/-- **What a revocation cuts.**  The links of the agent itself are cut, and no link is cut but those of
    agents that the agent reaches.  If it reaches no more agents than the search visits, itself
    included, exactly the links of these agents are cut.  A link that is not cut is as it was. -/
theorem transitiveRevoke_exact {d : Delegations} (hkeyed : Keyed d) (agent : String)
    {key : String × String} {link : NhiDelegationLink} (hlink : d.lookup key = some link)
    (hactive : link.active = true) :
    ∃ link', (transitiveRevoke d agent).1.lookup key = some link' ∧
      (link' = link ∨ link' = link.deactivate) ∧
      (link.touches agent → link'.active = false) ∧
      (link'.active = false → ∃ b, Reaches d agent b ∧ link.touches b) ∧
      ((∃ agents : Finset String, agents.card ≤ maxTransitiveRevokeDepth ∧
          ∀ b, Reaches d agent b → b ∈ agents) →
        (link'.active = false ↔ ∃ b, Reaches d agent b ∧ link.touches b)) := by
  obtain ⟨done, frontier, visited, h, hend⟩ :=
    cascade_revokeLoop hkeyed maxTransitiveRevokeDepth [] (cascade_start d agent)
  have hlink' : (transitiveRevoke d agent).1.lookup key = some (cutLink done link) := by
    rw [transitiveRevoke, h.cut, hlink, Option.map_some]
  have hreached : ∀ b ∈ done, Reaches d agent b := fun b hb =>
    h.reached b (h.perm.mem_iff.mpr (List.mem_append_left _ hb))
  have hcut : (cutLink done link).active = false ↔ ∃ b ∈ done, link.touches b := by
    rw [← Bool.not_eq_true, cutLink_active]
    simp [hactive]
  have hsound : (cutLink done link).active = false → ∃ b, Reaches d agent b ∧ link.touches b := by
    intro hfalse
    obtain ⟨b, hb, htouches⟩ := hcut.mp hfalse
    exact ⟨b, hreached b hb, htouches⟩
  refine ⟨cutLink done link, hlink', cutLink_eq done link, ?_, hsound, ?_⟩
  · intro htouches
    refine Bool.eq_false_iff.mpr fun htrue => ?_
    have htouches' : (cutLink done link).touches agent := by
      rcases cutLink_eq done link with heq | heq
      · rw [heq]
        exact htouches
      · rw [heq]
        exact htouches
    exact transitiveRevoke_cuts hlink' htrue htouches'
  · rintro ⟨agents, hcard, hagents⟩
    refine ⟨hsound, ?_⟩
    rintro ⟨b, hb, htouches⟩
    refine hcut.mpr ⟨b, ?_, htouches⟩
    rcases hend with rfl | hlen
    · exact h.mem_done_of_reaches hb
    · refine h.mem_done_of_length hagents ?_ hb
      rw [hlen, List.length_nil, Nat.zero_add]
      exact hcard

/-! ## Two graphs -/

def plainLink (fromAgent toAgent : String) : NhiDelegationLink where
  fromAgent := fromAgent
  toAgent := toAgent
  permissions := ["read"]
  scopeConstraints := []
  createdAt := minuteText 0
  expiresAt := minuteText 50
  active := true
  reason := none

/-- A table of such links. -/
def plainGraph (ends : List (String × String)) : Delegations :=
  insertAll ∅ (ends.map fun e => (e, plainLink e.1 e.2))

theorem lookup_plainGraph {ends : List (String × String)} {key : String × String}
    {link : NhiDelegationLink} :
    (plainGraph ends).lookup key = some link ↔ key ∈ ends ∧ link = plainLink key.1 key.2 := by
  let entries := ends.map fun e => (e, plainLink e.1 e.2)
  have hlast : (plainGraph ends).lookup key = lastOf key entries := by
    refine (lookup_insertAll ∅ entries key).trans ?_
    rw [AList.lookup_empty, Option.or_none]
  rw [hlast]
  constructor
  · intro h
    obtain ⟨e, he, heq⟩ := List.mem_map.mp (mem_of_lastOf_eq_some h)
    cases heq
    exact ⟨he, rfl⟩
  · rintro ⟨hkey, rfl⟩
    obtain ⟨link, hlink⟩ := exists_lastOf_of_mem
      (List.mem_map.mpr ⟨key, hkey, rfl⟩ : (key, plainLink key.1 key.2) ∈ entries)
    obtain ⟨e, -, heq⟩ := List.mem_map.mp (mem_of_lastOf_eq_some hlink)
    cases heq
    exact hlink

theorem keyed_plainGraph (ends : List (String × String)) : Keyed (plainGraph ends) := by
  intro key link hlink _
  rw [(lookup_plainGraph.mp hlink).2]
  rfl

theorem delegates_plainGraph {ends : List (String × String)} {source target : String} :
    Delegates (plainGraph ends) source target ↔ (source, target) ∈ ends := by
  constructor
  · rintro ⟨key, link, hlink, -, rfl, rfl⟩
    obtain ⟨hkey, rfl⟩ := lookup_plainGraph.mp hlink
    exact hkey
  · intro hmem
    exact ⟨(source, target), plainLink source target, lookup_plainGraph.mpr ⟨hmem, rfl⟩, rfl, rfl, rfl⟩

/-- Two agents that delegate to the same agent. -/
def sharedDelegate : Delegations := plainGraph [("planner", "worker"), ("auditor", "worker")]

/-- The first of them does not reach the other. -/
theorem planner_reaches {b : String} (h : Reaches sharedDelegate "planner" b) :
    b = "planner" ∨ b = "worker" := by
  induction h with
  | refl => exact Or.inl rfl
  | tail _ hstep _ =>
    have hmem := delegates_plainGraph.mp hstep
    simp only [List.mem_cons, Prod.mk.injEq, List.not_mem_nil, or_false] at hmem
    rcases hmem with ⟨-, rfl⟩ | ⟨-, rfl⟩
    · exact Or.inr rfl
    · exact Or.inr rfl

theorem transitiveRevoke_exact_shared :
    Keyed sharedDelegate ∧
      (∃ agents : Finset String, agents.card ≤ maxTransitiveRevokeDepth ∧
        ∀ b, Reaches sharedDelegate "planner" b → b ∈ agents) ∧
      ∃ link', (transitiveRevoke sharedDelegate "planner").1.lookup ("planner", "worker") = some link' ∧
        link'.active = false := by
  have hkeyed : Keyed sharedDelegate := keyed_plainGraph _
  have hagents : ∃ agents : Finset String, agents.card ≤ maxTransitiveRevokeDepth ∧
      ∀ b, Reaches sharedDelegate "planner" b → b ∈ agents := by
    refine ⟨{"planner", "worker"}, by decide, fun b hb => ?_⟩
    rcases planner_reaches hb with rfl | rfl
    · decide
    · decide
  have hlink : sharedDelegate.lookup ("planner", "worker") = some (plainLink "planner" "worker") :=
    lookup_plainGraph.mpr ⟨by decide, rfl⟩
  obtain ⟨link', hlink', -, -, -, hexact⟩ := transitiveRevoke_exact hkeyed "planner" hlink rfl
  refine ⟨hkeyed, hagents, link', hlink', ?_⟩
  exact (hexact hagents).mpr ⟨"planner", .refl, Or.inl rfl⟩

/-- A chain of agents, each delegating to the next. -/
def longChain : Delegations :=
  plainGraph ((List.range 51).map fun i => (toString i, toString (i + 1)))

/-- The first agent reaches all of them. -/
theorem longChain_reaches {i : Nat} (hi : i ≤ 51) : Reaches longChain (toString 0) (toString i) := by
  induction i with
  | zero => exact .refl
  | succ i ih =>
    refine (ih (by omega)).tail (delegates_plainGraph.mpr ?_)
    exact List.mem_map.mpr ⟨i, List.mem_range.mpr (by omega), rfl⟩

/-- Revoking `planner` also cuts the link from `auditor`, whom it does not reach, to the shared
    delegate.  Revoking the first agent of the chain leaves the link of the 51st to the 52nd. -/
theorem transitiveRevoke_not_by_source :
    (∃ link link', sharedDelegate.lookup ("auditor", "worker") = some link ∧ link.active = true ∧
      ¬link.touches "planner" ∧ ¬Reaches sharedDelegate "planner" link.fromAgent ∧
      (transitiveRevoke sharedDelegate "planner").1.lookup ("auditor", "worker") = some link' ∧
      link'.active = false) ∧
    ∃ link, longChain.lookup ("50", "51") = some link ∧ link.active = true ∧
      Reaches longChain "0" link.fromAgent ∧
      (transitiveRevoke longChain "0").1.lookup ("50", "51") = some link := by
  constructor
  · refine ⟨plainLink "auditor" "worker", (plainLink "auditor" "worker").deactivate, ?_, rfl, ?_, ?_, ?_,
      rfl⟩
    · exact lookup_plainGraph.mpr ⟨by decide, rfl⟩
    · decide
    · intro hreach
      rcases planner_reaches hreach with h | h
      · exact absurd h (by decide)
      · exact absurd h (by decide)
    · decide +kernel
  · have hreach : Reaches longChain (toString 0) (toString 50) := longChain_reaches (by omega)
    refine ⟨plainLink "50" "51", ?_, rfl, hreach, ?_⟩
    · exact lookup_plainGraph.mpr ⟨by decide +kernel, rfl⟩
    · decide +kernel

end Vellaveto.Nhi
