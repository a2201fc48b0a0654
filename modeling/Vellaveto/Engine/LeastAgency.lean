/-
  LEAST AGENCY (`vellaveto-engine/src/least_agency.rs`).

  For each agent session the tracker keeps the granted permissions, when each was granted or last used,
  and the permissions that were used.  A usage is recorded only for a granted permission, so the used
  ones are within the granted ones, until `revoke_stale_permissions` in `Enforce` mode takes a permission
  out of the grants that has been used: it stays in the map of used ones.

  `used_within_granted_iff` says that this is the only way: the used permissions of every session are
  within the granted ones in EVERY state of a run exactly if no revocation of the run hits a used
  permission.

  Times are nanoseconds of a monotonic clock.  The vectors of permissions that the source collects from
  a hash set are sets here, and the order in which a hash map lists its sessions is a parameter.
-/
import Mathlib.Algebra.Order.Ring.Rat
import Mathlib.Data.Finset.Card
import Mathlib.Data.List.MinMax
import Vellaveto.Types.Chars
import Vellaveto.Lib.Run
import Vellaveto.Lib.Counters
import Vellaveto.Lib.Table

namespace Vellaveto.LeastAgency

open Vellaveto.Lib

/-- `MAX_TRACKED_SESSIONS`. -/
def maxTrackedSessions : Nat := 4096

/-- `MAX_GRANTS_PER_SESSION`. -/
def maxGrantsPerSession : Nat := 1000

/-- `EnforcementMode`. -/
inductive EnforcementMode where
  | monitor
  | enforce
deriving DecidableEq

/-- `AgencyRecommendation`. -/
inductive AgencyRecommendation where
  | optimal
  | reviewGrants
  | narrowScope
  | critical
deriving DecidableEq

/-- `PermissionUsage`. -/
structure PermissionUsage where
  toolPattern : String
  functionPattern : String
  usedCount : Nat
  lastUsed : Option String

/-- `PermissionTracker`. -/
structure PermissionTracker where
  granted : Finset String
  grantedLastUsed : AList fun _ : String => Nat
  used : AList fun _ : String => PermissionUsage
  sessionStart : Nat

/-- The sessions, by their keys. -/
abbrev Trackers := AList fun _ : String => PermissionTracker

/-- `LeastAgencyTracker`, without the threshold of its recommendations. -/
structure LeastAgencyTracker where
  enforcementMode : EnforcementMode
  autoRevokeAfterSecs : Nat
  trackers : Trackers

/-- `LeastAgencyTracker::new_with_config`; `new` is the same with `Monitor` and 3600. -/
def LeastAgencyTracker.newWithConfig (mode : EnforcementMode) (autoRevokeAfterSecs : Nat) :
    LeastAgencyTracker := ⟨mode, autoRevokeAfterSecs, ∅⟩

/-- The order in which a hash map lists its sessions. -/
structure HashOrder where
  entries : Trackers → List (Σ _ : String, PermissionTracker)
  perm : ∀ trackers, (entries trackers).Perm trackers.entries

/-- `LeastAgencyReport`. -/
structure LeastAgencyReport where
  agentId : String
  sessionId : String
  grantedPermissions : Nat
  usedPermissions : Nat
  unusedPermissions : Finset String
  usageRatio : Rat
  recommendation : AgencyRecommendation

/-! ## One session -/

/-- A session that was just registered. -/
def PermissionTracker.fresh (now : Nat) : PermissionTracker := ⟨∅, ∅, ∅, now⟩

/-- One grant: the time of a permission that was granted before is kept. -/
def grant (t : PermissionTracker) (id : String) (now : Nat) : PermissionTracker :=
  { t with
    granted := insert id t.granted
    grantedLastUsed :=
      match t.grantedLastUsed.lookup id with
      | some _ => t.grantedLastUsed
      | none => t.grantedLastUsed.insert id now }

/-- The loop of `register_grants`, which stops at the limit. -/
def grantAll (now : Nat) (t : PermissionTracker) : List String → PermissionTracker
  | [] => t
  | id :: ids =>
    if maxGrantsPerSession ≤ t.granted.card then t else grantAll now (grant t id now) ids

/-- The number of used permissions: `used.len()`. -/
def usedCount (t : PermissionTracker) : Nat := t.used.keys.length

/-- What `record_usage` does to the session. -/
def use (t : PermissionTracker) (policyId tool function : String) (now : Nat) (wallClock : String) :
    PermissionTracker :=
  if policyId ∉ t.granted then t
  else if maxGrantsPerSession ≤ usedCount t ∧ policyId ∉ t.used then t
  else
    let usage := (t.used.lookup policyId).getD ⟨tool, function, 0, none⟩
    { t with
      used := t.used.insert policyId { usage with
        usedCount := saturatingAdd (2 ^ 64 - 1) usage.usedCount 1
        lastUsed := some wallClock }
      grantedLastUsed := t.grantedLastUsed.insert policyId now }

/-- The permissions that were granted and never used. -/
def unused (t : PermissionTracker) : Finset String := t.granted.filter (· ∉ t.used)

/-- The permissions that were not used for longer than the threshold. -/
def stale (autoRevokeAfterSecs : Nat) (t : PermissionTracker) (now : Nat) : Finset String :=
  t.granted.filter fun id =>
    autoRevokeAfterSecs * 1000000000 < now - (t.grantedLastUsed.lookup id).getD t.sessionStart

/-- The loop that revokes: the permissions leave the grants and their times, and nothing else. -/
def revoke (t : PermissionTracker) (ids : Finset String) : PermissionTracker :=
  { t with
    granted := t.granted \ ids
    grantedLastUsed := retain (fun id _ => id ∉ ids) t.grantedLastUsed }

/-! ## The tracker -/

section Tracker

-- any function may stand for `normalize_full`, and any order for that of the hash map
variable (normalizeFull : String → String) (order : HashOrder)

/-- `session_key`. -/
def sessionKey (agentId sessionId : String) : String :=
  let normAgent := normalizeFull agentId
  let normSession := normalizeFull sessionId
  toString normAgent.utf8ByteSize ++ ":" ++ normAgent ++ "::" ++ normSession

/-- `validate_ids`. -/
def validateIds (agentId sessionId : String) : Bool :=
  !hasDangerousChars agentId && !hasDangerousChars sessionId

/-- `min_by_key` over the start of the sessions, the first one on a tie. -/
def oldestSession (trackers : Trackers) : Option String :=
  ((order.entries trackers).argmin fun e => e.2.sessionStart).map (·.1)

/-- A new session pushes the oldest one out of a full table. -/
def makeRoom (trackers : Trackers) (key : String) : Trackers :=
  if maxTrackedSessions ≤ trackers.keys.length ∧ key ∉ trackers then
    match oldestSession order trackers with
    | some oldest => trackers.erase oldest
    | none => trackers
  else trackers

/-- `register_grants`. -/
def registerGrants (t : LeastAgencyTracker) (agentId sessionId : String) (policyIds : List String)
    (now : Nat) : LeastAgencyTracker :=
  if validateIds agentId sessionId then
    let key := sessionKey normalizeFull agentId sessionId
    let trackers := makeRoom order t.trackers key
    let session := (trackers.lookup key).getD (.fresh now)
    { t with trackers := trackers.insert key (grantAll now session policyIds) }
  else t

/-- `record_usage`. -/
def recordUsage (t : LeastAgencyTracker) (agentId sessionId policyId tool function : String)
    (now : Nat) (wallClock : String) : LeastAgencyTracker :=
  if validateIds agentId sessionId then
    let key := sessionKey normalizeFull agentId sessionId
    let record := fun session => use session policyId tool function now wallClock
    { t with trackers := modifyValue key record t.trackers }
  else t

/-- The recommendation for a usage ratio. -/
def recommendationFor (ratio : Rat) : AgencyRecommendation :=
  if 4 / 5 < ratio then .optimal
  else if 1 / 2 ≤ ratio then .reviewGrants
  else if 1 / 5 ≤ ratio then .narrowScope
  else .critical

/-- The report on a session. -/
def reportOn (session : PermissionTracker) (agentId sessionId : String) : LeastAgencyReport :=
  let ratio : Rat :=
    if 0 < session.granted.card then (usedCount session : Rat) / session.granted.card else 1
  { agentId := agentId
    sessionId := sessionId
    grantedPermissions := session.granted.card
    usedPermissions := usedCount session
    unusedPermissions := unused session
    usageRatio := ratio
    recommendation := recommendationFor ratio }

/-- `generate_report`. -/
def generateReport (t : LeastAgencyTracker) (agentId sessionId : String) :
    Option LeastAgencyReport :=
  if validateIds agentId sessionId then
    (t.trackers.lookup (sessionKey normalizeFull agentId sessionId)).map fun session =>
      reportOn session agentId sessionId
  else none

/-- The permissions of a session that `revoke_stale_permissions` answers with. -/
def staleIn (t : LeastAgencyTracker) (agentId sessionId : String) (now : Nat) : Finset String :=
  if validateIds agentId sessionId then
    match t.trackers.lookup (sessionKey normalizeFull agentId sessionId) with
    | some session => stale t.autoRevokeAfterSecs session now
    | none => ∅
  else ∅

/-- `revoke_stale_permissions`: in `Monitor` mode it only answers. -/
def revokeStalePermissions (t : LeastAgencyTracker) (agentId sessionId : String) (now : Nat) :
    Finset String × LeastAgencyTracker :=
  (staleIn normalizeFull t agentId sessionId now,
    if validateIds agentId sessionId ∧ t.enforcementMode = .enforce then
      let key := sessionKey normalizeFull agentId sessionId
      let revokeStale := fun session => revoke session (stale t.autoRevokeAfterSecs session now)
      { t with trackers := modifyValue key revokeStale t.trackers }
    else t)

/-- A call on the tracker, with the times it reads. -/
inductive AgencyCall where
  | registerGrants (agentId sessionId : String) (policyIds : List String) (now : Nat)
  | recordUsage (agentId sessionId policyId tool function : String) (now : Nat) (wallClock : String)
  | revokeStalePermissions (agentId sessionId : String) (now : Nat)

/-- The tracker after a call. -/
def step (t : LeastAgencyTracker) : AgencyCall → Option LeastAgencyTracker
  | .registerGrants agentId sessionId policyIds now =>
    some (registerGrants normalizeFull order t agentId sessionId policyIds now)
  | .recordUsage agentId sessionId policyId tool function now wallClock =>
    some (recordUsage normalizeFull t agentId sessionId policyId tool function now wallClock)
  | .revokeStalePermissions agentId sessionId now =>
    some (revokeStalePermissions normalizeFull t agentId sessionId now).2

end Tracker

/-! ## Used permissions are granted -/

/-- The used permissions of a session are granted. -/
def UsedGranted (session : PermissionTracker) : Prop := ∀ id ∈ session.used, id ∈ session.granted

theorem usedGranted_fresh (now : Nat) : UsedGranted (.fresh now) := fun id hid => by cases hid

theorem UsedGranted.grantAll {session : PermissionTracker} (h : UsedGranted session) (now : Nat)
    (ids : List String) : UsedGranted (grantAll now session ids) := by
  induction ids generalizing session with
  | nil => exact h
  | cons id ids ih =>
    rw [LeastAgency.grantAll]
    split
    · exact h
    · refine ih fun used hused => ?_
      exact Finset.mem_insert_of_mem (h used hused)

theorem UsedGranted.use {session : PermissionTracker} (h : UsedGranted session)
    (policyId tool function : String) (now : Nat) (wallClock : String) :
    UsedGranted (use session policyId tool function now wallClock) := by
  unfold LeastAgency.use
  split
  · exact h
  · rename_i hgranted
    split
    · exact h
    · intro id hid
      rcases AList.mem_insert _ |>.mp hid with rfl | hid
      · exact not_not.mp hgranted
      · exact h id hid

/-- Revoking keeps the used permissions granted exactly if it revokes none of them. -/
theorem usedGranted_revoke {session : PermissionTracker} (h : UsedGranted session)
    (ids : Finset String) :
    UsedGranted (revoke session ids) ↔ ∀ id ∈ session.used, id ∉ ids := by
  constructor
  · intro hafter id hid
    exact (Finset.mem_sdiff.mp (hafter id hid)).2
  · intro hnone id hid
    exact Finset.mem_sdiff.mpr ⟨h id hid, hnone id hid⟩

/-- The names of the used permissions. -/
def usedNames (session : PermissionTracker) : Finset String := session.used.keys.toFinset

theorem card_usedNames (session : PermissionTracker) : (usedNames session).card = usedCount session :=
  List.toFinset_card_of_nodup session.used.keys_nodup

/-- **The sums of a report.**  They add up exactly if the used permissions are granted. -/
theorem report_adds_up_iff (session : PermissionTracker) (agentId sessionId : String) :
    (reportOn session agentId sessionId).grantedPermissions =
        (reportOn session agentId sessionId).usedPermissions +
          (reportOn session agentId sessionId).unusedPermissions.card ↔
      UsedGranted session := by
  show session.granted.card = usedCount session + (unused session).card ↔ _
  have hunused : unused session = session.granted \ usedNames session := by
    ext id
    simp [unused, usedNames, AList.mem_keys]
  have hsplit := Finset.card_sdiff_add_card_inter session.granted (usedNames session)
  have hsub : (session.granted ∩ usedNames session).card ≤ (usedNames session).card :=
    Finset.card_le_card Finset.inter_subset_right
  rw [hunused, ← card_usedNames]
  constructor
  · intro hsum id hid
    have hall : session.granted ∩ usedNames session = usedNames session :=
      Finset.eq_of_subset_of_card_le Finset.inter_subset_right (by omega)
    have hmem : id ∈ session.granted ∩ usedNames session := by
      rw [hall]
      exact List.mem_toFinset.mpr (AList.mem_keys.mp hid)
    exact (Finset.mem_inter.mp hmem).1
  · intro h
    have hall : session.granted ∩ usedNames session = usedNames session := by
      refine Finset.inter_eq_right.mpr fun id hid => h id ?_
      exact AList.mem_keys.mpr (List.mem_toFinset.mp hid)
    rw [hall] at hsplit
    omega

/-! ## Over whole runs -/

section Runs

variable {normalizeFull : String → String} {order : HashOrder}

/-- In every tracked session the used permissions are granted. -/
def AllUsedGranted (t : LeastAgencyTracker) : Prop :=
  ∀ key session, t.trackers.lookup key = some session → UsedGranted session

/-- … and in every report the numbers add up. -/
def Consistent (normalizeFull : String → String) (t : LeastAgencyTracker) : Prop :=
  AllUsedGranted t ∧
    ∀ agentId sessionId report, generateReport normalizeFull t agentId sessionId = some report →
      report.usedPermissions ≤ report.grantedPermissions ∧
        report.grantedPermissions = report.usedPermissions + report.unusedPermissions.card

/-- The call is not a revocation that hits a permission which was used: no permission in the used map
    of the session has been idle for longer than the threshold. -/
def RevokesNoUsed (normalizeFull : String → String) (t : LeastAgencyTracker) : AgencyCall → Prop
  | .revokeStalePermissions agentId sessionId now =>
    validateIds agentId sessionId = true → t.enforcementMode = .enforce →
      ∀ session, t.trackers.lookup (sessionKey normalizeFull agentId sessionId) = some session →
        ∀ id ∈ session.used, id ∉ stale t.autoRevokeAfterSecs session now
  | _ => True

theorem consistent_iff {t : LeastAgencyTracker} : Consistent normalizeFull t ↔ AllUsedGranted t := by
  refine ⟨fun h => h.1, fun h => ⟨h, fun agentId sessionId report hreport => ?_⟩⟩
  unfold generateReport at hreport
  split at hreport
  · obtain ⟨session, hlookup, rfl⟩ := Option.map_eq_some_iff.mp hreport
    have hsum := (report_adds_up_iff session agentId sessionId).mpr (h _ session hlookup)
    exact ⟨by omega, hsum⟩
  · cases hreport

theorem AllUsedGranted.makeRoom {t : LeastAgencyTracker} (h : AllUsedGranted t) (key : String)
    {other : String} {session : PermissionTracker}
    (hlookup : (makeRoom order t.trackers key).lookup other = some session) :
    UsedGranted session := by
  unfold LeastAgency.makeRoom at hlookup
  split at hlookup
  · split at hlookup
    · rw [lookup_erase_eq] at hlookup
      split at hlookup
      · cases hlookup
      · exact h other session hlookup
    · exact h other session hlookup
  · exact h other session hlookup

theorem AllUsedGranted.registerGrants {t : LeastAgencyTracker} (h : AllUsedGranted t)
    (agentId sessionId : String) (policyIds : List String) (now : Nat) :
    AllUsedGranted (registerGrants normalizeFull order t agentId sessionId policyIds now) := by
  unfold LeastAgency.registerGrants
  split
  · intro key session hlookup
    dsimp only at hlookup
    rw [lookup_insert_eq] at hlookup
    split at hlookup
    · cases hlookup
      refine UsedGranted.grantAll ?_ now policyIds
      cases hold : (LeastAgency.makeRoom order t.trackers
          (sessionKey normalizeFull agentId sessionId)).lookup
          (sessionKey normalizeFull agentId sessionId) with
      | none => exact usedGranted_fresh now
      | some old => exact h.makeRoom _ hold
    · exact h.makeRoom _ hlookup
  · exact h

theorem AllUsedGranted.recordUsage {t : LeastAgencyTracker} (h : AllUsedGranted t)
    (agentId sessionId policyId tool function : String) (now : Nat) (wallClock : String) :
    AllUsedGranted
      (recordUsage normalizeFull t agentId sessionId policyId tool function now wallClock) := by
  unfold LeastAgency.recordUsage
  split
  · intro key session hlookup
    dsimp only at hlookup
    rw [lookup_modifyValue] at hlookup
    obtain ⟨old, hold, rfl⟩ := Option.map_eq_some_iff.mp hlookup
    split
    · exact (h key old hold).use policyId tool function now wallClock
    · exact h key old hold
  · exact h

/-- A revocation keeps the used permissions granted exactly if it hits none of them. -/
theorem allUsedGranted_revoke {t : LeastAgencyTracker} (h : AllUsedGranted t)
    (agentId sessionId : String) (now : Nat) :
    AllUsedGranted (revokeStalePermissions normalizeFull t agentId sessionId now).2 ↔
      RevokesNoUsed normalizeFull t (.revokeStalePermissions agentId sessionId now) := by
  unfold revokeStalePermissions
  dsimp only
  by_cases hrevokes : validateIds agentId sessionId = true ∧ t.enforcementMode = .enforce
  · rw [if_pos hrevokes]
    constructor
    · intro hafter _ _ session hlookup
      refine (usedGranted_revoke (h _ session hlookup) _).mp
        (hafter (sessionKey normalizeFull agentId sessionId) _ ?_)
      exact (lookup_modifyValue _ _ _ _).trans (by rw [hlookup, Option.map_some, if_pos rfl])
    · intro hnone key session hlookup
      dsimp only at hlookup
      rw [lookup_modifyValue] at hlookup
      obtain ⟨old, hold, rfl⟩ := Option.map_eq_some_iff.mp hlookup
      split
      · rename_i hkey
        subst hkey
        refine (usedGranted_revoke (h _ old hold) _).mpr ?_
        exact hnone hrevokes.1 hrevokes.2 old hold
      · exact h key old hold
  · rw [if_neg hrevokes]
    exact ⟨fun _ hvalid hmode => absurd ⟨hvalid, hmode⟩ hrevokes, fun _ => h⟩

/-- **Step lemma.**  A call keeps the used permissions granted exactly if it is not a revocation that
    hits one of them. -/
theorem allUsedGranted_step {t t' : LeastAgencyTracker} {call : AgencyCall} (h : AllUsedGranted t)
    (hstep : step normalizeFull order t call = some t') :
    AllUsedGranted t' ↔ RevokesNoUsed normalizeFull t call := by
  cases call with
  | registerGrants agentId sessionId policyIds now =>
    cases hstep
    exact ⟨fun _ => trivial, fun _ => h.registerGrants agentId sessionId policyIds now⟩
  | recordUsage agentId sessionId policyId tool function now wallClock =>
    cases hstep
    exact ⟨fun _ => trivial,
      fun _ => h.recordUsage agentId sessionId policyId tool function now wallClock⟩
  | revokeStalePermissions agentId sessionId now =>
    cases hstep
    exact allUsedGranted_revoke h agentId sessionId now

/-- **When used permissions stay within granted ones.**  In either mode, at any times and for any calls:
    in every state of the run the used permissions of every session are granted, and the numbers of every
    report add up, EXACTLY IF no revocation of the run hits a permission that was used. -/
theorem used_within_granted_iff (normalizeFull : String → String) (order : HashOrder)
    (mode : EnforcementMode) (autoRevokeAfterSecs : Nat) (calls : List AgencyCall) :
    EachStep (step normalizeFull order) (fun _ _ t' => Consistent normalizeFull t')
        (.newWithConfig mode autoRevokeAfterSecs) calls ↔
      EachStep (step normalizeFull order) (fun t call _ => RevokesNoUsed normalizeFull t call)
        (.newWithConfig mode autoRevokeAfterSecs) calls := by
  have hempty : AllUsedGranted (.newWithConfig mode autoRevokeAfterSecs) := by
    intro key session hlookup
    cases hlookup
  simp only [consistent_iff]
  exact eachStep_iff (I := fun _ => True) (fun _ _ _ _ _ => trivial)
    (fun t call t' _ ht hstep => allUsedGranted_step ht hstep) trivial hempty

end Runs

/-- The table listed as it is. -/
def plainOrder : HashOrder := ⟨AList.entries, fun _ => List.Perm.refl _⟩

/-- A permission that was used and then idle for two hours is revoked and stays in the used map: the
    report counts no grant and one used permission. -/
theorem revoked_permission_stays_used :
    ((run (step (fun name => name) plainOrder) (.newWithConfig .enforce 3600)
      [.registerGrants "agent" "session" ["policy"] 0,
        .recordUsage "agent" "session" "policy" "fs" "read" 0 "2026-01-01T00:00:00+00:00",
        .revokeStalePermissions "agent" "session" 7200000000000]).bind fun t =>
      (generateReport (fun name => name) t "agent" "session").map fun report =>
        (report.grantedPermissions, report.usedPermissions, report.unusedPermissions.card)) =
      some (0, 1, 0) := by
  decide +kernel

end Vellaveto.LeastAgency
