/-
  THE IDENTITY MANAGER UNDER CONCURRENT CALLS.

  Any interleaving of the manager's operations.  `create_delegation` checks the two agents under one
  lock and inserts the link under another, and `cleanup_expired` does the identities before the
  delegations: each is two steps, and anything may happen between them.  `update_status` holds the lock
  of the identities throughout and is one step, at the time at which it holds the lock of the
  delegations.  A table that is a `HashMap` may list its entries in another order at any time
  (`rehash`).

    1. `OnlyDeactivates`         all operations but the insertion only take links away;
    2. `transitiveRevoke_cuts`   revocation takes away every link of the agent, whatever the depth;
    3. `registerIdentity_spec`, `insertDelegation_spec`, `updateStatus_spec`   what a call does to the
                                 links and to the agents that are terminal;
    4. `step_links`              what a step does to the links.
-/
import Vellaveto.Lib.Run
import Vellaveto.Mcp.Nhi

namespace Vellaveto.Nhi

open Vellaveto.Lib
open Vellaveto.Capability (Instant)

/-! ## Interleavings -/

/-- The manager, and the calls that are between their two halves. -/
structure NhiSystem where
  manager : NhiManager
  /-- delegations whose agents were checked -/
  checked : List DelegationRequest
  /-- the times at which the cleanups under way began -/
  cleanups : List Instant
deriving DecidableEq

def NhiSystem.new : NhiSystem := ⟨NhiManager.new, [], []⟩

inductive NhiAction where
  | registerIdentity (req : Registration) (id : String) (now : Instant)
  | checkDelegation (req : DelegationRequest)
  | insertDelegation (req : DelegationRequest) (now : Instant)
  | revokeDelegation (fromAgent toAgent : String)
  | updateStatus (id : String) (newStatus : NhiIdentityStatus)
  | expireIdentities (now : Instant)
  | deactivateExpired (now : Instant)
  | rehash (delegations : Delegations)

/-- The manager after a call: only a call that returns `Ok` changes it. -/
def NhiManager.after {α : Type} (m : NhiManager) : Option (Except NhiError (α × NhiManager)) → NhiManager
  | some (.ok (_, m')) => m'
  | some (.error _) => m
  | none => m

/-- One step; `none` when there is no call that could take it. -/
def step (env : Env) (cfg : NhiConfig) (s : NhiSystem) : NhiAction → Option NhiSystem
  | .registerIdentity req id now =>
    some { s with manager := s.manager.after (registerIdentity env cfg s.manager req id now) }
  | .checkDelegation req =>
    match checkDelegation cfg s.manager req with
    | .ok () => some { s with checked := req :: s.checked }
    | .error _ => some s
  | .insertDelegation req now =>
    if req ∈ s.checked then
      some { s with
        manager := s.manager.after (insertDelegation env cfg s.manager req now)
        checked := s.checked.erase req }
    else none
  | .revokeDelegation fromAgent toAgent =>
    some { s with
      manager := (revokeDelegation s.manager fromAgent toAgent).toOption.getD s.manager }
  | .updateStatus id newStatus =>
    some { s with manager := (updateStatus s.manager id newStatus).toOption.getD s.manager }
  | .expireIdentities now =>
    some { s with manager := expireIdentities env s.manager now, cleanups := now :: s.cleanups }
  | .deactivateExpired now =>
    if now ∈ s.cleanups then
      some { s with
        manager := deactivateExpired env s.manager now
        cleanups := s.cleanups.erase now }
    else none
  | .rehash delegations =>
    if delegations.entries.Perm s.manager.delegations.entries then
      some { s with manager := { s.manager with delegations := delegations } }
    else none

/-! ## Links that are taken away -/

/-- An agent at one of the two ends. -/
def NhiDelegationLink.touches (link : NhiDelegationLink) (agent : String) : Prop :=
  link.fromAgent = agent ∨ link.toAgent = agent

instance (link : NhiDelegationLink) (agent : String) : Decidable (link.touches agent) :=
  inferInstanceAs (Decidable (_ ∨ _))

/-- What is active in the second table was there, and active, in the first. -/
def OnlyDeactivates (before after : Delegations) : Prop :=
  ∀ key link, after.lookup key = some link → link.active = true → before.lookup key = some link

theorem OnlyDeactivates.refl (d : Delegations) : OnlyDeactivates d d := fun _ _ h _ => h

theorem OnlyDeactivates.trans {d e f : Delegations} (hde : OnlyDeactivates d e)
    (hef : OnlyDeactivates e f) : OnlyDeactivates d f := by
  intro key link hlink hactive
  exact hde key link (hef key link hlink hactive) hactive

/-- Links that are deactivated are not active, and the others are as they were. -/
theorem lookup_deactivate {d : Delegations} {c : String × String → NhiDelegationLink → Prop}
    [∀ key link, Decidable (c key link)] {key : String × String} {link : NhiDelegationLink}
    (hlink : (mapValues (fun key link => if c key link then link.deactivate else link) d).lookup key =
      some link) (hactive : link.active = true) : d.lookup key = some link ∧ ¬c key link := by
  rw [lookup_mapValues, Option.map_eq_some_iff] at hlink
  obtain ⟨before, hbefore, heq⟩ := hlink
  split at heq
  · subst heq
    cases hactive
  · rename_i hc
    subst heq
    exact ⟨hbefore, hc⟩

/-- A visit cuts the active links of the agent. -/
theorem cutBy_eq_true {agent : String} {link : NhiDelegationLink} :
    cutBy agent link = true ↔ link.touches agent ∧ link.active = true := by
  simp only [cutBy, noCollateral, linkShouldDeactivate, NhiDelegationLink.touches]
  by_cases hfrom : link.fromAgent = agent <;> by_cases hto : link.toAgent = agent <;> simp [hfrom, hto]

theorem onlyDeactivates_revokeLoop (visits : Nat) (frontier visited : List String) (d : Delegations)
    (deactivated : List (String × String)) :
    OnlyDeactivates d (revokeLoop visits frontier visited d deactivated).1 := by
  induction visits generalizing frontier visited d deactivated with
  | zero => exact OnlyDeactivates.refl d
  | succ visits ih =>
    cases frontier with
    | nil => exact OnlyDeactivates.refl d
    | cons current frontier =>
      refine OnlyDeactivates.trans ?_ (ih _ _ _ _)
      intro key link hlink hactive
      exact (lookup_deactivate hlink hactive).1

/-- Revocation only takes links away. -/
theorem onlyDeactivates_transitiveRevoke (d : Delegations) (agent : String) :
    OnlyDeactivates d (transitiveRevoke d agent).1 :=
  onlyDeactivates_revokeLoop _ _ _ d _

/-- The revoked agent is visited first, so none of its links stays active. -/
theorem transitiveRevoke_cuts {d : Delegations} {agent : String} {key : String × String}
    {link : NhiDelegationLink} (hlink : (transitiveRevoke d agent).1.lookup key = some link)
    (hactive : link.active = true) : ¬link.touches agent := by
  intro htouches
  rw [transitiveRevoke, maxTransitiveRevokeDepth, revokeLoop] at hlink
  have hfirst := onlyDeactivates_revokeLoop _ _ _ _ _ key link hlink hactive
  exact (lookup_deactivate hfirst hactive).2 (cutBy_eq_true.mpr ⟨htouches, hactive⟩)

theorem onlyDeactivates_revokeDelegation {m m' : NhiManager} {fromAgent toAgent : String}
    (h : revokeDelegation m fromAgent toAgent = .ok m') :
    OnlyDeactivates m.delegations m'.delegations ∧ m'.identities = m.identities := by
  rw [revokeDelegation] at h
  split at h
  · cases h
    exact ⟨fun key link hlink hactive => (lookup_deactivate hlink hactive).1, rfl⟩
  · cases h

/-! ## What a call does -/

section Calls

variable {env : Env} {cfg : NhiConfig} {m m' : NhiManager}

theorem isTerminal_congr (h : m'.identities = m.identities) (agent : String) :
    m'.isTerminal agent = m.isTerminal agent := by
  rw [NhiManager.isTerminal, NhiManager.isTerminal, h]

theorem isTerminal_eq_true {agent : String} :
    m.isTerminal agent = true ↔
      ∃ identity, m.identities.lookup agent = some identity ∧ identity.status.isTerminal = true := by
  rw [NhiManager.isTerminal]
  cases m.identities.lookup agent with
  | none => simp
  | some identity => simp

/-- A registered agent is on probation. -/
theorem registerIdentity_spec {req : Registration} {id answer : String} {now : Instant}
    (h : registerIdentity env cfg m req id now = some (.ok (answer, m'))) :
    m'.delegations = m.delegations ∧
      ∀ agent, m'.isTerminal agent = true → m.isTerminal agent = true := by
  unfold registerIdentity at h
  split at h
  · cases h
  · split at h
    · cases h
    · dsimp only at h
      split at h
      · cases h
      · split at h
        · cases h
        · cases h
          refine ⟨rfl, fun agent hagent => ?_⟩
          obtain ⟨identity, hidentity, hstatus⟩ := isTerminal_eq_true.mp hagent
          rw [lookup_insert_eq] at hidentity
          split at hidentity
          · cases hidentity
            cases hstatus
          · exact isTerminal_eq_true.mpr ⟨identity, hidentity, hstatus⟩

/-- An insertion adds one link, between the two agents of the request. -/
theorem insertDelegation_spec {req : DelegationRequest} {link : NhiDelegationLink} {now : Instant}
    (h : insertDelegation env cfg m req now = some (.ok (link, m'))) :
    link.fromAgent = req.fromAgent ∧ link.toAgent = req.toAgent ∧ m'.identities = m.identities ∧
      m'.delegations = m.delegations.insert (req.fromAgent, req.toAgent) link := by
  unfold insertDelegation at h
  split at h
  · cases h
  · split at h
    · cases h
    · split at h
      · cases h
      · dsimp only at h
        split at h
        · cases h
        · cases h
          exact ⟨rfl, rfl, rfl, rfl⟩

/-- A change of status makes no agent terminal that keeps an active link. -/
theorem updateStatus_spec {id : String} {newStatus : NhiIdentityStatus}
    (h : updateStatus m id newStatus = .ok m') :
    OnlyDeactivates m.delegations m'.delegations ∧
      ∀ key link agent, m'.delegations.lookup key = some link → link.active = true →
        link.touches agent → m'.isTerminal agent = true → m.isTerminal agent = true := by
  unfold updateStatus at h
  split at h
  · cases h
  · split at h
    · cases h
    · split at h
      · cases h
      · cases h
        constructor
        · dsimp only
          split
          · exact onlyDeactivates_transitiveRevoke _ id
          · exact OnlyDeactivates.refl _
        · intro key link agent hlink hactive htouches hagent
          obtain ⟨identity, hidentity, hstatus⟩ := isTerminal_eq_true.mp hagent
          rw [lookup_modifyValue, Option.map_eq_some_iff] at hidentity
          obtain ⟨before, hbefore, heq⟩ := hidentity
          split at heq
          · -- the agent itself: its links are cut if the new status is terminal
            rename_i hid
            subst hid heq
            dsimp only at hlink hstatus
            rw [if_pos hstatus] at hlink
            exact absurd htouches (transitiveRevoke_cuts hlink hactive)
          · subst heq
            exact isTerminal_eq_true.mpr ⟨before, hbefore, hstatus⟩

/-- Cleanup makes those agents terminal whose credentials ran out. -/
theorem isTerminal_expireIdentities {now : Instant} {agent : String}
    (h : (expireIdentities env m now).isTerminal agent = true) :
    m.isTerminal agent = true ∨
      ∃ identity, m.identities.lookup agent = some identity ∧ identity.expiresBy env now = true := by
  obtain ⟨identity, hidentity, hstatus⟩ := isTerminal_eq_true.mp h
  rw [expireIdentities, lookup_mapValues, Option.map_eq_some_iff] at hidentity
  obtain ⟨before, hbefore, heq⟩ := hidentity
  split at heq
  · rename_i hexpires
    exact Or.inr ⟨before, hbefore, hexpires⟩
  · subst heq
    exact Or.inl (isTerminal_eq_true.mpr ⟨before, hbefore, hstatus⟩)

theorem liveAt_eq_true {link : NhiDelegationLink} {now : Instant} :
    link.liveAt env now = true ↔
      link.active = true ∧ ∃ expires, env.parseRfc3339 link.expiresAt = some expires ∧ ¬expires ≤ now := by
  rw [NhiDelegationLink.liveAt]
  cases env.parseRfc3339 link.expiresAt with
  | none => simp
  | some expires => simp

/-- A step inserts a link, or it only takes links away. -/
theorem step_links {s s' : NhiSystem} {a : NhiAction} (hstep : step env cfg s a = some s') :
    OnlyDeactivates s.manager.delegations s'.manager.delegations ∨
      ∃ req now link, a = .insertDelegation req now ∧
        insertDelegation env cfg s.manager req now = some (.ok (link, s'.manager)) := by
  cases a with
  | registerIdentity req id now =>
    cases hstep
    dsimp only
    unfold NhiManager.after
    split
    · rename_i answer m' hregister
      rw [(registerIdentity_spec hregister).1]
      exact Or.inl (OnlyDeactivates.refl _)
    · exact Or.inl (OnlyDeactivates.refl _)
    · exact Or.inl (OnlyDeactivates.refl _)
  | checkDelegation req =>
    simp only [step] at hstep
    split at hstep
    · cases hstep
      exact Or.inl (OnlyDeactivates.refl _)
    · cases hstep
      exact Or.inl (OnlyDeactivates.refl _)
  | insertDelegation req now =>
    simp only [step] at hstep
    split at hstep
    · cases hstep
      dsimp only
      unfold NhiManager.after
      split
      · rename_i link m' hinsert
        exact Or.inr ⟨req, now, link, rfl, hinsert⟩
      · exact Or.inl (OnlyDeactivates.refl _)
      · exact Or.inl (OnlyDeactivates.refl _)
    · cases hstep
  | revokeDelegation fromAgent toAgent =>
    cases hstep
    dsimp only
    cases hrevoke : revokeDelegation s.manager fromAgent toAgent with
    | error e => exact Or.inl (OnlyDeactivates.refl _)
    | ok m' => exact Or.inl (onlyDeactivates_revokeDelegation hrevoke).1
  | updateStatus id newStatus =>
    cases hstep
    dsimp only
    cases hupdate : updateStatus s.manager id newStatus with
    | error e => exact Or.inl (OnlyDeactivates.refl _)
    | ok m' => exact Or.inl (updateStatus_spec hupdate).1
  | expireIdentities now =>
    cases hstep
    exact Or.inl (OnlyDeactivates.refl _)
  | deactivateExpired now =>
    simp only [step] at hstep
    split at hstep
    · cases hstep
      exact Or.inl fun key link hlink hactive => (lookup_deactivate hlink hactive).1
    · cases hstep
  | rehash delegations =>
    simp only [step] at hstep
    split at hstep
    · rename_i hperm
      cases hstep
      exact Or.inl fun key link hlink _ => (AList.perm_lookup hperm).symm.trans hlink
    · cases hstep

end Calls

/-! ## Concrete inputs

  The clock of the first minute of 2026, which prints and reads whole seconds.  Agent ids are lower-case
  ASCII. -/

def minuteText (sec : Nat) : String :=
  "2026-01-01T00:00:" ++ (if sec < 10 then "0" else "") ++ toString sec ++ "+00:00"

def atSecond (sec : Nat) : Instant := ⟨1767225600 + sec, 0⟩

def minuteClock : Env where
  parseRfc3339 ts :=
    let digit := fun i => ((strBytes ts).getD i 48).toNat - 48
    let sec := 10 * digit 17 + digit 18
    if sec < 60 ∧ minuteText sec = ts then some (atSecond sec) else none
  toRfc3339 t := minuteText (t.timestamp - 1767225600).toNat
  addSeconds t secs := some ⟨t.timestamp + secs, t.nanos⟩
  toLowercase := id

def plainConfig : NhiConfig where
  enabled := true
  attestationTypes := ["jwt"]
  credentialTtlSecs := 50
  maxCredentialTtlSecs := 86400
  maxIdentities := 100
  maxDelegations := 100
  maxDelegationChainDepth := 5

def plainRegistration (name : String) (ttlSecs : Nat) : Registration where
  name := name
  attestationType := .jwt
  spiffeId := none
  publicKey := none
  keyAlgorithm := none
  ttlSecs := some ttlSecs
  tags := []
  metadata := []

def plainRequest (fromAgent toAgent : String) (ttlSecs : Nat) : DelegationRequest where
  fromAgent := fromAgent
  toAgent := toAgent
  permissions := ["read"]
  scopeConstraints := []
  ttlSecs := ttlSecs
  reason := none

def plannerId : String := "3f0c9f0a-0b61-4b6e-9d52-0b2f6a6c1a01"
def workerId : String := "7d2e41c8-5a37-4f09-8c16-94d0be52f302"

end Vellaveto.Nhi
