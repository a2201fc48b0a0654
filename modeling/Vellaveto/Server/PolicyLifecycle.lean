/-
  POLICY LIFECYCLE (`vellaveto-server/src/policy_lifecycle.rs`: `InMemoryPolicyVersionStore`).

  PROGRAM.  A policy is changed by writing a DRAFT of a new version, having it approved by people other than
  its author, promoting it to STAGING and, when the staging period has passed, to ACTIVE; the version that
  was active is ARCHIVED.  Old archived versions are pruned.

  SPEC.
    `VersionsOk`   version numbers rise, at most one version is active, nobody approved a version twice or
                   approved their own, and what is active has enough approvals and was staged long enough;
    `Extends`      a number that is still there names the version it always named.

  CORRECTNESS.  `Change` says everything a call can do to the versions of a policy (`change_apply`).
  `VersionsOk` and `Extends` are shown of each such change once, and carried over whole runs by
  `run_invariant` and `run_rel`.
-/
import Mathlib.Data.List.AList
import Mathlib.Data.List.MinMax
import Vellaveto.Engine.Evaluate
import Vellaveto.Lib.Run
import Vellaveto.Types.Chars
import Vellaveto.Types.Unicode

namespace Vellaveto

/-! ## Policies that are well formed -/

namespace Policy

def maxPolicyIdLen : Nat := 256
def maxPolicyNameLen : Nat := 512
def maxPathRules : Nat := 1000
def maxDomainRules : Nat := 1000
def maxCidrRules : Nat := 500

/-- A list of rules is not too long. -/
def checkCount (id field : String) (max : Nat) (entries : List String) : Except String Unit :=
  if max < entries.length then
    .error s!"Policy '{id}' {field} exceeds {max} entries (got {entries.length})"
  else .ok ()

/-- No rule of a list hides characters. -/
def checkEntries (id field : String) (entries : List String) : Except String Unit :=
  match entries.findIdx? hasDangerousChars with
  | some i => .error s!"Policy '{id}' {field}[{i}] contains control or format characters"
  | none => .ok ()

/-- Two lists under their field names: the lengths of both, then the entries of both. -/
def checkLists (id : String) (max : Nat) (first second : String × List String) : Except String Unit := do
  checkCount id first.1 max first.2
  checkCount id second.1 max second.2
  checkEntries id first.1 first.2
  checkEntries id second.1 second.2

/-- The rules on addresses. -/
def checkIpRules (id : String) (rules : Option IpRules) : Except String Unit :=
  match rules with
  | none => .ok ()
  | some ip =>
    checkLists id maxCidrRules ("ip_rules.blocked_cidrs", ip.blockedCidrs) ("ip_rules.allowed_cidrs", ip.allowedCidrs)

/-- `Policy::validate`; `jsonTextLen` is the byte length of the compact JSON text of a value. -/
def validate (jsonTextLen : Json → Nat) (p : Policy) : Except String Unit := do
  if p.id.isEmpty then throw "Policy id must not be empty"
  if maxPolicyIdLen < p.id.utf8ByteSize then
    throw s!"Policy id length {p.id.utf8ByteSize} exceeds max {maxPolicyIdLen}"
  if hasDangerousChars p.id then throw "Policy id contains control or format characters"
  if p.name.isEmpty then throw s!"Policy '{p.id}' name must not be empty"
  if maxPolicyNameLen < p.name.utf8ByteSize then
    throw s!"Policy '{p.id}' name length {p.name.utf8ByteSize} exceeds max {maxPolicyNameLen}"
  if hasDangerousChars p.name then throw s!"Policy '{p.id}' name contains control or format characters"
  match p.policyType with
  | .conditional conditions =>
    if maxConditionsSize < jsonTextLen conditions then
      throw <| s!"Policy '{p.id}' Conditional conditions exceed {maxConditionsSize} bytes " ++
        s!"(got {jsonTextLen conditions})"
  | .allow => pure ()
  | .deny => pure ()
  match p.pathRules with
  | some pr =>
    checkLists p.id maxPathRules ("path_rules.allowed", pr.allowed) ("path_rules.blocked", pr.blocked)
  | none => pure ()
  match p.networkRules with
  | some nr =>
    checkLists p.id maxDomainRules ("network_rules.allowed_domains", nr.allowedDomains)
      ("network_rules.blocked_domains", nr.blockedDomains)
    checkIpRules p.id nr.ipRules
  | none => pure ()

end Policy

namespace Lifecycle

open Lib

/-! ## Types -/

/-- What the code outside the repository computes, and JSON printing. -/
structure Env where
  nfkc : List Char → List Char
  lowerChar : Char → List Char
  jsonTextLen : Json → Nat

/-- How `approve_version` compares names: NFKC, lower case, look-alikes. -/
def Env.normalize (env : Env) (name : String) : String :=
  String.ofList <| ((env.nfkc name.toList).flatMap fun c => if isAscii c then [c.toLower] else env.lowerChar c).map
    normalizeHomoglyph

/-- `PolicyVersionStatus`. -/
inductive PolicyVersionStatus where
  | draft
  | staging
  | active
  | archived
deriving DecidableEq, Repr

def PolicyVersionStatus.name : PolicyVersionStatus → String
  | .draft => "draft"
  | .staging => "staging"
  | .active => "active"
  | .archived => "archived"

/-- `PolicyApproval`; a time is the second it names. -/
structure PolicyApproval where
  approvedBy : String
  approvedAt : Nat
  comment : Option String
deriving DecidableEq, Repr

/-- `PolicyVersion`. -/
structure PolicyVersion where
  versionId : String
  policyId : String
  version : Nat
  policy : Policy
  createdBy : String
  createdAt : Nat
  status : PolicyVersionStatus
  comment : Option String
  approvals : List PolicyApproval
  requiredApprovals : Nat
  previousVersionId : Option String
  stagedAt : Option Nat
deriving DecidableEq, Repr

/-- `PolicyLifecycleConfig`, with the fields the store reads. -/
structure PolicyLifecycleConfig where
  requiredApprovals : Nat
  stagingPeriodSecs : Nat
  maxVersionsPerPolicy : Nat
deriving DecidableEq, Repr

/-- `LifecycleError`. -/
inductive LifecycleError where
  | policyNotFound (policyId : String)
  | versionNotFound (policyId : String) (version : Nat)
  | invalidTransition (message : String)
  | approvalRequired (message : String)
  | capacityExceeded (message : String)
  | validation (message : String)
deriving DecidableEq, Repr

def maxTotalVersions : Nat := 10000
def maxTrackedPolicies : Nat := 1000
def maxVersionCommentLen : Nat := 4096
def maxApprovalsPerVersion : Nat := 50

/-- The map of `InMemoryPolicyVersionStore`. -/
abbrev Store := AList fun _ : String => List PolicyVersion

/-- The versions of a policy. -/
def versions (store : Store) (policyId : String) : List PolicyVersion := (store.lookup policyId).getD []

/-! ## The store -/

/-- `prune_archived`. -/
def pruneArchived (max : Nat) (vs : List PolicyVersion) : List PolicyVersion :=
  if _h : max < vs.length ∧ vs.any (·.status = .archived) then pruneArchived max (vs.eraseP (·.status = .archived))
  else vs
termination_by vs.length
decreasing_by
  obtain ⟨v, hv, hstatus⟩ := List.any_eq_true.mp _h.2
  rw [List.length_eraseP_of_mem hv hstatus]
  have hpos := List.length_pos_of_mem hv
  omega

/-- `total_versions`. -/
def totalVersions (store : Store) : Nat := (store.entries.map fun e => e.2.length).sum

/-- The number after the largest in use; `none` when there is none left. -/
def nextVersion (vs : List PolicyVersion) : Option Nat :=
  let maxVer := (vs.map (·.version)).foldr max 0
  if maxVer = u64Max then none else some (maxVer + 1)

/-- `make_version_id`. -/
def makeVersionId (policyId : String) (version : Nat) : String := s!"{policyId}-v{version}"

section Operations

variable (env : Env) (config : PolicyLifecycleConfig)

/-- The check of a person's name. -/
def checkIdentity (what name : String) : Except LifecycleError Unit :=
  if name.isEmpty || hasDangerousChars name then .error (.validation s!"Invalid {what}") else .ok ()

/-- The checks of `create_version`. -/
def checkCreate (store : Store) (policyId : String) (policy : Policy) (createdBy : String)
    (comment : Option String) : Except LifecycleError Unit := do
  if policyId.isEmpty || hasDangerousChars policyId then throw (.validation "Invalid policy_id")
  checkIdentity "created_by" createdBy
  if comment.any (maxVersionCommentLen < ·.utf8ByteSize) then throw (.validation "Comment too long")
  if comment.any hasDangerousChars then throw (.validation "Comment contains invalid characters")
  match policy.validate env.jsonTextLen with
  | .error e => throw (.validation s!"Policy validation: {e}")
  | .ok () => pure ()
  if maxTotalVersions ≤ totalVersions store then
    throw (.capacityExceeded s!"Total version limit ({maxTotalVersions}) reached")
  if policyId ∉ store ∧ maxTrackedPolicies ≤ store.keys.length then
    throw (.capacityExceeded s!"Tracked policy limit ({maxTrackedPolicies}) reached")

/-- A draft under the next number. -/
def newDraft (now : Nat) (store : Store) (policyId : String) (policy : Policy) (createdBy : String)
    (comment previousVersionId : Option String) : Except LifecycleError (PolicyVersion × Store) :=
  match nextVersion (versions store policyId) with
  | none => .error (.capacityExceeded "Maximum version number reached")
  | some next =>
    let draft : PolicyVersion :=
      { versionId := makeVersionId policyId next
        policyId
        version := next
        policy
        createdBy
        createdAt := now
        status := .draft
        comment
        approvals := []
        requiredApprovals := config.requiredApprovals
        previousVersionId
        stagedAt := none }
    .ok (draft,
      store.insert policyId (pruneArchived config.maxVersionsPerPolicy (versions store policyId ++ [draft])))

/-- `create_version`. -/
def createVersion (now : Nat) (store : Store) (policyId : String) (policy : Policy) (createdBy : String)
    (comment : Option String) : Except LifecycleError (PolicyVersion × Store) :=
  match checkCreate env store policyId policy createdBy comment with
  | .error e => .error e
  | .ok () =>
    newDraft config now store policyId policy createdBy comment
      ((versions store policyId).getLast?.map (·.versionId))

/-- The checks of `rollback`. -/
def checkRollback (store : Store) (createdBy : String) : Except LifecycleError Unit := do
  checkIdentity "created_by" createdBy
  if maxTotalVersions ≤ totalVersions store then
    throw (.capacityExceeded s!"Total version limit ({maxTotalVersions}) reached")

/-- `rollback`: a new draft with the policy of an old version. -/
def rollback (now : Nat) (store : Store) (policyId : String) (toVersion : Nat) (createdBy : String) :
    Except LifecycleError (PolicyVersion × Store) :=
  match checkRollback store createdBy with
  | .error e => .error e
  | .ok () =>
    match store.lookup policyId with
    | none => .error (.policyNotFound policyId)
    | some vs =>
      match vs.find? (·.version = toVersion) with
      | none => .error (.versionNotFound policyId toVersion)
      | some source =>
        newDraft config now store policyId source.policy createdBy (some s!"Rollback from version {toVersion}")
          (some source.versionId)

/-- `get_mut` and `iter_mut().find`: change one version of a policy in place. -/
def modifyVersion (store : Store) (policyId : String) (version : Nat)
    (change : PolicyVersion → Except LifecycleError PolicyVersion) : Except LifecycleError (PolicyVersion × Store) :=
  match store.lookup policyId with
  | none => .error (.policyNotFound policyId)
  | some vs =>
    match vs.findIdx? (·.version = version) with
    | none => .error (.versionNotFound policyId version)
    | some idx =>
      match vs[idx]? with
      | none => .error (.versionNotFound policyId version)
      | some pv =>
        (change pv).map fun pv' => (pv', store.insert policyId (vs.set idx pv'))

/-- The checks on an approval's own fields. -/
def checkApproval (approvedBy : String) (comment : Option String) : Except LifecycleError Unit := do
  checkIdentity "approved_by" approvedBy
  if comment.any fun c => decide (maxVersionCommentLen < c.utf8ByteSize) || hasDangerousChars c then
    throw (.validation "Invalid comment")

/-- `approve_version`. -/
def approveVersion (now : Nat) (store : Store) (policyId : String) (version : Nat) (approvedBy : String)
    (comment : Option String) : Except LifecycleError (PolicyVersion × Store) :=
  match checkApproval approvedBy comment with
  | .error e => .error e
  | .ok () =>
    modifyVersion store policyId version fun pv =>
      if pv.status ≠ .draft ∧ pv.status ≠ .staging then
        .error (.invalidTransition s!"Cannot approve version in {pv.status.name} status")
      else if env.normalize approvedBy = env.normalize pv.createdBy then
        .error (.validation "Self-approval is not allowed")
      else if pv.approvals.any fun a => env.normalize a.approvedBy = env.normalize approvedBy then
        .error (.validation "Already approved by this approver")
      else if maxApprovalsPerVersion ≤ pv.approvals.length then
        .error (.capacityExceeded "Maximum approvals reached")
      else .ok { pv with approvals := pv.approvals ++ [⟨approvedBy, now, comment⟩] }

/-- `archive_version`. -/
def archiveVersion (store : Store) (policyId : String) (version : Nat) :
    Except LifecycleError (PolicyVersion × Store) :=
  modifyVersion store policyId version fun pv =>
    match pv.status with
    | .draft => .ok { pv with status := .archived }
    | .staging => .ok { pv with status := .archived }
    | .active =>
      .error (.invalidTransition "Cannot directly archive an active version — promote a replacement first")
    | .archived => .error (.invalidTransition "Version is already archived")

/-- `revert_promotion`. -/
def revertPromotion (store : Store) (policyId : String) (version : Nat) (originalStatus : PolicyVersionStatus) :
    Except LifecycleError (PolicyVersion × Store) :=
  if originalStatus ≠ .draft ∧ originalStatus ≠ .staging then
    .error (.invalidTransition <| s!"Cannot revert to {originalStatus.name} status — only Draft or Staging are " ++
      "valid revert targets")
  else modifyVersion store policyId version fun pv => .ok { pv with status := originalStatus }

/-- What was active is archived. -/
def archiveActive (pv : PolicyVersion) : PolicyVersion :=
  if pv.status = .active then { pv with status := .archived } else pv

/-- The version at `idx` becomes the active one. -/
def activate (vs : List PolicyVersion) (idx : Nat) (pv : PolicyVersion) : List PolicyVersion :=
  (vs.map archiveActive).set idx { pv with status := .active }

/-- The list of versions after a promotion of the one at `idx`. -/
def promoteAt (now : Nat) (vs : List PolicyVersion) (idx : Nat) (pv : PolicyVersion) :
    Except LifecycleError (List PolicyVersion) :=
  if 0 < config.requiredApprovals ∧ pv.approvals.length % 2 ^ 32 < config.requiredApprovals then
    .error (.approvalRequired s!"Need {config.requiredApprovals} approvals, have {pv.approvals.length}")
  else
    match pv.status with
    | .draft =>
      if config.stagingPeriodSecs = 0 then .ok (activate vs idx pv)
      else if vs.any (·.status = .staging) then
        .error (.invalidTransition "Another version is already in staging")
      else .ok (vs.set idx { pv with status := .staging, stagedAt := some now })
    | .staging =>
      if 0 < config.stagingPeriodSecs then
        match pv.stagedAt with
        | none =>
          .error (.invalidTransition
            "Cannot promote: staged_at timestamp missing (staging period not tracked)")
        | some stagedAt =>
          let elapsed := now - stagedAt
          if elapsed < config.stagingPeriodSecs then
            .error (.invalidTransition <| s!"Staging period not yet elapsed: {config.stagingPeriodSecs - elapsed} " ++
              s!"seconds remaining (required: {config.stagingPeriodSecs}s)")
          else .ok (activate vs idx pv)
      else .ok (activate vs idx pv)
    | .active => .error (.invalidTransition "Version is already active")
    | .archived => .error (.invalidTransition "Cannot promote an archived version — use rollback instead")

/-- `promote_version`: the status of the version after it, and the store. -/
def promoteVersion (now : Nat) (store : Store) (policyId : String) (version : Nat) :
    Except LifecycleError (Option PolicyVersion × Store) :=
  match store.lookup policyId with
  | none => .error (.policyNotFound policyId)
  | some vs =>
    match vs.findIdx? (·.version = version) with
    | none => .error (.versionNotFound policyId version)
    | some idx =>
      match vs[idx]? with
      | none => .error (.versionNotFound policyId version)
      | some pv => (promoteAt config now vs idx pv).map fun vs' => (vs'[idx]?, store.insert policyId vs')

end Operations

/-! ## What a call does to the versions of a policy -/

/-- A call that changes the store. -/
inductive Call where
  | create (policyId : String) (policy : Policy) (createdBy : String) (comment : Option String)
  | approve (policyId : String) (version : Nat) (approvedBy : String) (comment : Option String)
  | promote (policyId : String) (version : Nat)
  | revert (policyId : String) (version : Nat) (originalStatus : PolicyVersionStatus)
  | archive (policyId : String) (version : Nat)
  | rollback (policyId : String) (toVersion : Nat) (createdBy : String)

/-- The store after an operation; an error leaves it as it is. -/
def storeAfter {α : Type} (store : Store) (result : Except LifecycleError (α × Store)) : Store :=
  match result with
  | .ok (_, store') => store'
  | .error _ => store

section Changes

variable (env : Env) (config : PolicyLifecycleConfig)

def apply (now : Nat) (store : Store) : Call → Store
  | .create policyId policy createdBy comment =>
    storeAfter store (createVersion env config now store policyId policy createdBy comment)
  | .approve policyId version approvedBy comment =>
    storeAfter store (approveVersion env now store policyId version approvedBy comment)
  | .promote policyId version => storeAfter store (promoteVersion config now store policyId version)
  | .revert policyId version originalStatus =>
    storeAfter store (revertPromotion store policyId version originalStatus)
  | .archive policyId version => storeAfter store (archiveVersion store policyId version)
  | .rollback policyId toVersion createdBy =>
    storeAfter store (rollback config now store policyId toVersion createdBy)

/-- **Everything a call at time `now` can do** to the versions of a policy. -/
inductive Change (now : Nat) (vs : List PolicyVersion) : List PolicyVersion → Prop
  | same : Change now vs vs
  | append (draft : PolicyVersion) (hstatus : draft.status = .draft) (happrovals : draft.approvals = [])
      (hnext : nextVersion vs = some draft.version) :
      Change now vs (pruneArchived config.maxVersionsPerPolicy (vs ++ [draft]))
  | approve (idx : Nat) (pv : PolicyVersion) (a : PolicyApproval) (hget : vs[idx]? = some pv)
      (hself : env.normalize a.approvedBy ≠ env.normalize pv.createdBy)
      (hnew : ∀ b ∈ pv.approvals, env.normalize b.approvedBy ≠ env.normalize a.approvedBy)
      (hroom : pv.approvals.length < maxApprovalsPerVersion) :
      Change now vs (vs.set idx { pv with approvals := pv.approvals ++ [a] })
  | move (idx : Nat) (pv : PolicyVersion) (status : PolicyVersionStatus) (stagedAt : Option Nat)
      (hget : vs[idx]? = some pv) (hstatus : status ≠ .active) : Change now vs (vs.set idx { pv with status, stagedAt })
  | activate (idx : Nat) (pv : PolicyVersion) (hget : vs[idx]? = some pv)
      (happroved : 0 < config.requiredApprovals → config.requiredApprovals ≤ pv.approvals.length % 2 ^ 32)
      (hstaged : 0 < config.stagingPeriodSecs →
        ∃ stagedAt, pv.stagedAt = some stagedAt ∧ config.stagingPeriodSecs ≤ now - stagedAt) :
      Change now vs (activate vs idx pv)

variable {env config} {now : Nat} {store : Store}

theorem versions_of_lookup {policyId : String} {vs : List PolicyVersion} (h : store.lookup policyId = some vs) :
    versions store policyId = vs := by
  rw [versions, h]
  rfl

/-- The versions of one policy are replaced, those of the others stay. -/
theorem change_insert {policyId : String} {vs : List PolicyVersion}
    (h : Change env config now (versions store policyId) vs) (other : String) :
    Change env config now (versions store other) (versions (store.insert policyId vs) other) := by
  by_cases hother : other = policyId
  · rw [hother, versions_of_lookup (AList.lookup_insert store)]
    exact h
  · rw [versions, versions, AList.lookup_insert_ne hother]
    exact .same

/-- A version that is changed in place. -/
theorem change_modifyVersion {policyId : String} {version : Nat}
    {change : PolicyVersion → Except LifecycleError PolicyVersion}
    (h : ∀ vs idx pv pv', vs[idx]? = some pv → change pv = .ok pv' → Change env config now vs (vs.set idx pv'))
    (other : String) :
    Change env config now (versions store other)
      (versions (storeAfter store (modifyVersion store policyId version change)) other) := by
  rw [modifyVersion]
  cases hlookup : store.lookup policyId with
  | none => exact .same
  | some vs =>
    dsimp only
    cases vs.findIdx? (·.version = version) with
    | none => exact .same
    | some idx =>
      dsimp only
      cases hget : vs[idx]? with
      | none => exact .same
      | some pv =>
        dsimp only
        cases hchange : change pv with
        | error e => exact .same
        | ok pv' => exact change_insert (versions_of_lookup hlookup ▸ h vs idx pv pv' hget hchange) other

theorem change_newDraft {policyId createdBy : String} {policy : Policy} {comment previousVersionId : Option String}
    (other : String) :
    Change env config now (versions store other)
      (versions (storeAfter store (newDraft config now store policyId policy createdBy comment previousVersionId))
        other) := by
  rw [newDraft]
  cases hnext : nextVersion (versions store policyId) with
  | none => exact .same
  | some next => exact change_insert (.append _ rfl rfl hnext) other

theorem change_promoteAt {vs vs' : List PolicyVersion} {idx : Nat} {pv : PolicyVersion} (hget : vs[idx]? = some pv)
    (h : promoteAt config now vs idx pv = .ok vs') : Change env config now vs vs' := by
  rw [promoteAt] at h
  split at h
  · cases h
  · rename_i happrovals
    have happroved : 0 < config.requiredApprovals → config.requiredApprovals ≤ pv.approvals.length % 2 ^ 32 :=
      fun hpos => not_lt.mp fun hlt => happrovals ⟨hpos, hlt⟩
    split at h
    · split at h
      · rename_i hzero
        cases h
        exact .activate idx pv hget happroved fun hpos => absurd hzero (Nat.pos_iff_ne_zero.mp hpos)
      · split at h
        · cases h
        · cases h
          exact .move idx pv .staging (some now) hget (by decide)
    · split at h
      · split at h
        · cases h
        · rename_i stagedAt hstaged
          dsimp only at h
          split at h
          · cases h
          · rename_i helapsed
            cases h
            exact .activate idx pv hget happroved fun _ => ⟨stagedAt, hstaged, not_lt.mp helapsed⟩
      · rename_i hzero
        cases h
        exact .activate idx pv hget happroved fun hpos => absurd hpos hzero
    · cases h
    · cases h

theorem change_promoteVersion {policyId : String} {version : Nat} (other : String) :
    Change env config now (versions store other)
      (versions (storeAfter store (promoteVersion config now store policyId version)) other) := by
  rw [promoteVersion]
  cases hlookup : store.lookup policyId with
  | none => exact .same
  | some vs =>
    dsimp only
    cases vs.findIdx? (·.version = version) with
    | none => exact .same
    | some idx =>
      dsimp only
      cases hget : vs[idx]? with
      | none => exact .same
      | some pv =>
        dsimp only
        cases hpromote : promoteAt config now vs idx pv with
        | error e => exact .same
        | ok vs' => exact change_insert (versions_of_lookup hlookup ▸ change_promoteAt hget hpromote) other

theorem change_approveVersion {policyId approvedBy : String} {version : Nat} {comment : Option String}
    (other : String) :
    Change env config now (versions store other)
      (versions (storeAfter store (approveVersion env now store policyId version approvedBy comment)) other) := by
  rw [approveVersion]
  split
  · exact .same
  · refine change_modifyVersion (fun vs idx pv pv' hget hchange => ?_) other
    split at hchange
    · cases hchange
    split at hchange
    · cases hchange
    split at hchange
    · cases hchange
    split at hchange
    · cases hchange
    · rename_i hself hnew hroom
      cases hchange
      refine .approve idx pv ⟨approvedBy, now, comment⟩ hget hself ?_ (not_le.mp hroom)
      simpa using hnew

/-- **Every call** is one of the changes, for each policy. -/
theorem change_apply (call : Call) (other : String) :
    Change env config now (versions store other) (versions (apply env config now store call) other) := by
  cases call with
  | create policyId policy createdBy comment =>
    rw [apply, createVersion]
    split
    · exact .same
    · exact change_newDraft other
  | approve policyId version approvedBy comment => exact change_approveVersion other
  | promote policyId version => exact change_promoteVersion other
  | revert policyId version originalStatus =>
    rw [apply, revertPromotion]
    split
    · exact .same
    · rename_i hstatus
      refine change_modifyVersion (fun vs idx pv pv' hget hchange => ?_) other
      cases hchange
      refine .move idx pv originalStatus pv.stagedAt hget fun hactive => hstatus ?_
      rw [hactive]
      decide
  | archive policyId version =>
    rw [apply, archiveVersion]
    refine change_modifyVersion (fun vs idx pv pv' hget hchange => ?_) other
    have harchived : pv' = { pv with status := .archived } := by
      split at hchange
      · exact (Except.ok.inj hchange).symm
      · exact (Except.ok.inj hchange).symm
      · cases hchange
      · cases hchange
    rw [harchived]
    exact .move idx pv .archived pv.stagedAt hget (by decide)
  | rollback policyId toVersion createdBy =>
    rw [apply, rollback]
    split
    · exact .same
    · split
      · exact .same
      · split
        · exact .same
        · exact change_newDraft other

end Changes

/-! ## What a version keeps -/

/-- The same version later on: everything but its status and staging time, and the approvals it had. -/
structure SameVersion (v w : PolicyVersion) : Prop where
  fields : w = { v with status := w.status, stagedAt := w.stagedAt, approvals := w.approvals }
  approvals : v.approvals <+: w.approvals

namespace SameVersion

theorem refl (v : PolicyVersion) : SameVersion v v := ⟨rfl, List.prefix_rfl⟩

theorem trans {u v w : PolicyVersion} (huv : SameVersion u v) (hvw : SameVersion v w) : SameVersion u w := by
  refine ⟨?_, huv.approvals.trans hvw.approvals⟩
  have hfields := hvw.fields
  rw [huv.fields] at hfields
  exact hfields

theorem version {v w : PolicyVersion} (h : SameVersion v w) : w.version = v.version := by
  rw [h.fields]

theorem archiveActive (v : PolicyVersion) : SameVersion v (archiveActive v) := by
  rw [Lifecycle.archiveActive]
  split
  · exact ⟨rfl, List.prefix_rfl⟩
  · exact refl v

end SameVersion

/-! ## The lists a call leaves -/

/-- The number of active versions. -/
def activeCount (vs : List PolicyVersion) : Nat := vs.countP (·.status = .active)

theorem lt_of_nextVersion {vs : List PolicyVersion} {n : Nat} (h : nextVersion vs = some n) :
    ∀ v ∈ vs, v.version < n := by
  rw [nextVersion] at h
  split at h
  · cases h
  · obtain rfl := Option.some.inj h
    exact fun v hv => Nat.lt_succ_of_le (List.le_max_of_le' 0 (List.mem_map_of_mem hv) le_rfl)

theorem sublist_pruneArchived (max : Nat) (vs : List PolicyVersion) : (pruneArchived max vs).Sublist vs := by
  fun_induction pruneArchived max vs with
  | case1 vs _ ih => exact ih.trans List.eraseP_sublist
  | case2 vs _ => exact List.Sublist.refl vs

/-- Only archived versions are pruned. -/
theorem mem_pruneArchived {max : Nat} {vs : List PolicyVersion} {v : PolicyVersion} (hv : v ∈ vs)
    (hstatus : v.status ≠ .archived) : v ∈ pruneArchived max vs := by
  fun_induction pruneArchived max vs with
  | case1 vs _ ih => exact ih ((List.mem_eraseP_of_neg (by simpa using hstatus)).mpr hv)
  | case2 vs _ => exact hv

theorem map_set_of_eq {β : Type} {f : PolicyVersion → β} {vs : List PolicyVersion} {idx : Nat}
    {pv pv' : PolicyVersion} (hget : vs[idx]? = some pv) (heq : f pv' = f pv) :
    (vs.set idx pv').map f = vs.map f := by
  obtain ⟨hlt, rfl⟩ := List.getElem?_eq_some_iff.mp hget
  have hmap : (vs.map f)[idx]? = some (f vs[idx]) := by simp [hlt]
  rw [List.map_set, heq]
  obtain ⟨hlt', hself⟩ := List.getElem?_eq_some_iff.mp hmap
  rw [← hself, List.set_getElem_self hlt']

theorem activeCount_set {vs : List PolicyVersion} {idx : Nat} {pv pv' : PolicyVersion} (hget : vs[idx]? = some pv)
    (h : pv'.status = .active → pv.status = .active) : activeCount (vs.set idx pv') ≤ activeCount vs := by
  obtain ⟨hlt, rfl⟩ := List.getElem?_eq_some_iff.mp hget
  rw [activeCount, List.countP_set hlt]
  by_cases hactive : pv'.status = .active
  · have hpos : 0 < activeCount vs :=
      List.countP_pos_iff.mpr ⟨vs[idx], List.getElem_mem hlt, decide_eq_true (h hactive)⟩
    simp only [h hactive, hactive, decide_true, if_true]
    rw [activeCount] at hpos ⊢
    omega
  · rw [activeCount]
    simp [hactive]

theorem archiveActive_status (pv : PolicyVersion) : (archiveActive pv).status ≠ .active := by
  rw [archiveActive]
  split
  · exact fun h => PolicyVersionStatus.noConfusion h
  · assumption

theorem activeCount_activate {vs : List PolicyVersion} {idx : Nat} {pv : PolicyVersion} (hget : vs[idx]? = some pv) :
    activeCount (activate vs idx pv) = 1 := by
  obtain ⟨hlt, -⟩ := List.getElem?_eq_some_iff.mp hget
  have hnone : (vs.map archiveActive).countP (·.status = .active) = 0 := by
    refine List.countP_eq_zero.mpr fun v hv => ?_
    obtain ⟨w, -, rfl⟩ := List.mem_map.mp hv
    simpa using archiveActive_status w
  rw [activeCount, activate, List.countP_set (by rwa [List.length_map]), hnone]
  simp

/-- The numbers stay when a version becomes the active one. -/
theorem map_version_activate {vs : List PolicyVersion} {idx : Nat} {pv : PolicyVersion} (hget : vs[idx]? = some pv) :
    (activate vs idx pv).map (·.version) = vs.map (·.version) := by
  have hat : (vs.map archiveActive)[idx]? = some (archiveActive pv) := by
    rw [List.getElem?_map, hget]
    rfl
  have hset := @map_set_of_eq _ (·.version) _ idx _ { pv with status := .active } hat
    (SameVersion.archiveActive pv).version.symm
  rw [activate, hset, List.map_map]
  exact List.map_congr_left fun v _ => (SameVersion.archiveActive v).version

/-! ## The invariant -/

section Invariant

variable (env : Env) (config : PolicyLifecycleConfig)

/-- The author and those who approved, as names are compared, are all different. -/
def FourEyes (v : PolicyVersion) : Prop :=
  ((v.createdBy :: v.approvals.map (·.approvedBy)).map env.normalize).Nodup ∧
    v.approvals.length ≤ maxApprovalsPerVersion

/-- Enough approvals, and a staging period that was over at time `clock`. -/
def Released (clock : Nat) (v : PolicyVersion) : Prop :=
  config.requiredApprovals ≤ v.approvals.length ∧
    (0 < config.stagingPeriodSecs →
      ∃ stagedAt, v.stagedAt = some stagedAt ∧ stagedAt + config.stagingPeriodSecs ≤ clock)

/-- **What holds of the versions of a policy.** -/
structure VersionsOk (clock : Nat) (vs : List PolicyVersion) : Prop where
  numbers : (vs.map (·.version)).Pairwise (· < ·)
  oneActive : activeCount vs ≤ 1
  fourEyes : ∀ v ∈ vs, FourEyes env v
  released : ∀ v ∈ vs, v.status = .active → Released config clock v

variable {env config} {clock now : Nat} {vs vs' : List PolicyVersion}

theorem Released.mono {clock' : Nat} (hle : clock ≤ clock') {v : PolicyVersion} (h : Released config clock v) :
    Released config clock' v := by
  refine ⟨h.1, fun hpos => ?_⟩
  obtain ⟨stagedAt, hstaged, hperiod⟩ := h.2 hpos
  exact ⟨stagedAt, hstaged, hperiod.trans hle⟩

theorem VersionsOk.mono {clock' : Nat} (hle : clock ≤ clock') (h : VersionsOk env config clock vs) :
    VersionsOk env config clock' vs :=
  ⟨h.numbers, h.oneActive, h.fourEyes, fun v hv hactive => (h.released v hv hactive).mono hle⟩

theorem VersionsOk.sublist (hsub : vs'.Sublist vs) (h : VersionsOk env config clock vs) :
    VersionsOk env config clock vs' where
  numbers := h.numbers.sublist (hsub.map _)
  oneActive := (hsub.countP_le).trans h.oneActive
  fourEyes v hv := h.fourEyes v (hsub.subset hv)
  released v hv := h.released v (hsub.subset hv)

/-- One version is replaced by another with the same number. -/
theorem VersionsOk.set {idx : Nat} {pv pv' : PolicyVersion} (h : VersionsOk env config clock vs)
    (hget : vs[idx]? = some pv) (hversion : pv'.version = pv.version)
    (hactive : pv'.status = .active → pv.status = .active ∧ Released config clock pv')
    (heyes : FourEyes env pv') : VersionsOk env config clock (vs.set idx pv') where
  numbers := by
    rw [map_set_of_eq hget hversion]
    exact h.numbers
  oneActive := (activeCount_set hget fun ha => (hactive ha).1).trans h.oneActive
  fourEyes v hv := by
    rcases List.mem_or_eq_of_mem_set hv with hv | rfl
    · exact h.fourEyes v hv
    · exact heyes
  released v hv ha := by
    rcases List.mem_or_eq_of_mem_set hv with hv | rfl
    · exact h.released v hv ha
    · exact (hactive ha).2

/-- A draft under a new number. -/
theorem VersionsOk.append {draft : PolicyVersion} (h : VersionsOk env config clock vs) (hstatus : draft.status = .draft)
    (happrovals : draft.approvals = []) (hnext : nextVersion vs = some draft.version) :
    VersionsOk env config clock (vs ++ [draft]) where
  numbers := by
    rw [List.map_append, List.pairwise_append]
    refine ⟨h.numbers, List.pairwise_singleton _ _, fun n hn m hm => ?_⟩
    obtain ⟨v, hv, rfl⟩ := List.mem_map.mp hn
    obtain rfl := List.mem_singleton.mp hm
    exact lt_of_nextVersion hnext v hv
  oneActive := by
    have hdraft : [draft].countP (·.status = .active) = 0 := by simp [hstatus]
    rw [activeCount, List.countP_append, hdraft]
    exact h.oneActive
  fourEyes v hv := by
    rcases List.mem_append.mp hv with hv | hv
    · exact h.fourEyes v hv
    · obtain rfl := List.mem_singleton.mp hv
      rw [FourEyes, happrovals]
      simp
  released v hv hactive := by
    rcases List.mem_append.mp hv with hv | hv
    · exact h.released v hv hactive
    · obtain rfl := List.mem_singleton.mp hv
      rw [hstatus] at hactive
      cases hactive

/-- Another pair of eyes. -/
theorem FourEyes.approve {pv : PolicyVersion} {a : PolicyApproval} (h : FourEyes env pv)
    (hself : env.normalize a.approvedBy ≠ env.normalize pv.createdBy)
    (hnew : ∀ b ∈ pv.approvals, env.normalize b.approvedBy ≠ env.normalize a.approvedBy)
    (hroom : pv.approvals.length < maxApprovalsPerVersion) :
    FourEyes env { pv with approvals := pv.approvals ++ [a] } := by
  refine ⟨?_, by rw [List.length_append]; exact hroom⟩
  have hmap : (pv.createdBy :: (pv.approvals ++ [a]).map (·.approvedBy)).map env.normalize =
      (pv.createdBy :: pv.approvals.map (·.approvedBy)).map env.normalize ++ [env.normalize a.approvedBy] := by
    simp
  rw [hmap, List.nodup_append]
  refine ⟨h.1, List.nodup_singleton _, fun name hname other hother => ?_⟩
  obtain rfl := List.mem_singleton.mp hother
  rw [List.map_cons, List.mem_cons, List.map_map, List.mem_map] at hname
  rcases hname with rfl | ⟨b, hb, rfl⟩
  · exact hself.symm
  · exact hnew b hb

/-- A version that was approved and staged becomes the active one. -/
theorem VersionsOk.activate {idx : Nat} {pv : PolicyVersion} (h : VersionsOk env config clock vs)
    (hget : vs[idx]? = some pv) (hreleased : Released config clock pv) :
    VersionsOk env config clock (activate vs idx pv) where
  numbers := by
    rw [map_version_activate hget]
    exact h.numbers
  oneActive := (activeCount_activate hget).le
  fourEyes v hv := by
    rcases List.mem_or_eq_of_mem_set hv with hv | rfl
    · obtain ⟨w, hw, rfl⟩ := List.mem_map.mp hv
      rw [archiveActive]
      split
      · exact h.fourEyes w hw
      · exact h.fourEyes w hw
    · exact h.fourEyes pv (List.mem_of_getElem? hget)
  released v hv hactive := by
    rcases List.mem_or_eq_of_mem_set hv with hv | rfl
    · obtain ⟨w, -, rfl⟩ := List.mem_map.mp hv
      exact absurd hactive (archiveActive_status w)
    · exact hreleased

/-- **One call keeps the invariant.** -/
theorem VersionsOk.change (h : VersionsOk env config clock vs) (hnow : now ≤ clock)
    (hchange : Change env config now vs vs') : VersionsOk env config clock vs' := by
  cases hchange with
  | same => exact h
  | append draft hstatus happrovals hnext => exact (h.append hstatus happrovals hnext).sublist (sublist_pruneArchived _ _)
  | approve idx pv a hget hself hnew hroom =>
    have hpv := List.mem_of_getElem? hget
    refine h.set hget rfl (fun hactive => ⟨hactive, ?_⟩) ((h.fourEyes pv hpv).approve hself hnew hroom)
    obtain ⟨hcount, hstaged⟩ := h.released pv hpv hactive
    refine ⟨hcount.trans ?_, hstaged⟩
    rw [List.length_append]
    exact Nat.le_add_right _ _
  | move idx pv status stagedAt hget hstatus =>
    exact h.set hget rfl (fun hactive => absurd hactive hstatus) (h.fourEyes pv (List.mem_of_getElem? hget))
  | activate idx pv hget happroved hstaged =>
    refine h.activate hget ⟨?_, fun hpos => ?_⟩
    · by_cases hzero : config.requiredApprovals = 0
      · omega
      · exact (happroved (Nat.pos_of_ne_zero hzero)).trans (Nat.mod_le _ _)
    · obtain ⟨stagedAt, hat, hperiod⟩ := hstaged hpos
      exact ⟨stagedAt, hat, by omega⟩

end Invariant

/-! ## What a list keeps -/

/-- The list later on: what is there is a version of before, or has a number no version had. -/
structure Extends (vs vs' : List PolicyVersion) : Prop where
  top : ∀ v ∈ vs, ∃ w ∈ vs', v.version ≤ w.version
  kept : ∀ w ∈ vs', (∃ v ∈ vs, SameVersion v w) ∨ ∀ v ∈ vs, v.version < w.version

section Extends

variable {env : Env} {config : PolicyLifecycleConfig} {now : Nat} {vs vs' vs'' : List PolicyVersion}

theorem Extends.refl (vs : List PolicyVersion) : Extends vs vs :=
  ⟨fun v hv => ⟨v, hv, le_rfl⟩, fun w hw => .inl ⟨w, hw, SameVersion.refl w⟩⟩

/-- A pruned number stays below the largest one, so it does not come back. -/
theorem Extends.trans (h : Extends vs vs') (h' : Extends vs' vs'') : Extends vs vs'' where
  top v hv := by
    obtain ⟨w, hw, hle⟩ := h.top v hv
    obtain ⟨x, hx, hle'⟩ := h'.top w hw
    exact ⟨x, hx, hle.trans hle'⟩
  kept x hx := by
    rcases h'.kept x hx with ⟨w, hw, hsame⟩ | hnew
    · rcases h.kept w hw with ⟨v, hv, hsame'⟩ | hnew
      · exact .inl ⟨v, hv, hsame'.trans hsame⟩
      · exact .inr fun v hv => hsame.version.symm ▸ hnew v hv
    · refine .inr fun v hv => ?_
      obtain ⟨w, hw, hle⟩ := h.top v hv
      exact hle.trans_lt (hnew w hw)

/-- The versions are changed in place. -/
theorem Extends.of_map (hmap : vs'.map (·.version) = vs.map (·.version))
    (hkept : ∀ w ∈ vs', ∃ v ∈ vs, SameVersion v w) : Extends vs vs' where
  top v hv := by
    have hmem : v.version ∈ vs'.map (·.version) := hmap ▸ List.mem_map_of_mem hv
    obtain ⟨w, hw, heq⟩ := List.mem_map.mp hmem
    exact ⟨w, hw, heq.ge⟩
  kept w hw := .inl (hkept w hw)

theorem Extends.set {idx : Nat} {pv pv' : PolicyVersion} (hget : vs[idx]? = some pv) (hsame : SameVersion pv pv') :
    Extends vs (vs.set idx pv') := by
  refine .of_map (map_set_of_eq hget hsame.version) fun w hw => ?_
  rcases List.mem_or_eq_of_mem_set hw with hw | rfl
  · exact ⟨w, hw, SameVersion.refl w⟩
  · exact ⟨pv, List.mem_of_getElem? hget, hsame⟩

theorem Extends.change (hchange : Change env config now vs vs') : Extends vs vs' := by
  cases hchange with
  | same => exact Extends.refl vs
  | append draft hstatus happrovals hnext =>
    have hlt := lt_of_nextVersion hnext
    have hdraft : draft ∈ pruneArchived config.maxVersionsPerPolicy (vs ++ [draft]) := by
      refine mem_pruneArchived (List.mem_append_right _ List.mem_cons_self) ?_
      rw [hstatus]
      decide
    refine ⟨fun v hv => ⟨draft, hdraft, (hlt v hv).le⟩, fun w hw => ?_⟩
    rcases List.mem_append.mp ((sublist_pruneArchived _ _).subset hw) with hw | hw
    · exact .inl ⟨w, hw, SameVersion.refl w⟩
    · obtain rfl := List.mem_singleton.mp hw
      exact .inr hlt
  | approve idx pv a hget => exact Extends.set hget ⟨rfl, List.prefix_append _ _⟩
  | move idx pv status stagedAt hget => exact Extends.set hget ⟨rfl, List.prefix_rfl⟩
  | activate idx pv hget =>
    refine .of_map (map_version_activate hget) fun w hw => ?_
    rcases List.mem_or_eq_of_mem_set hw with hw | rfl
    · obtain ⟨v, hv, rfl⟩ := List.mem_map.mp hw
      exact ⟨v, hv, SameVersion.archiveActive v⟩
    · exact ⟨pv, List.mem_of_getElem? hget, rfl, List.prefix_rfl⟩

/-- Where numbers rise, a number names one version for good. -/
theorem Extends.same (h : Extends vs vs') (hnumbers : (vs.map (·.version)).Pairwise (· < ·)) {v w : PolicyVersion}
    (hv : v ∈ vs) (hw : w ∈ vs') (heq : w.version = v.version) : SameVersion v w := by
  rcases h.kept w hw with ⟨u, hu, hsame⟩ | hnew
  · have huv : u = v :=
      List.inj_on_of_nodup_map (hnumbers.imp fun hlt => hlt.ne) hu hv (hsame.version.symm.trans heq)
    exact huv ▸ hsame
  · exact absurd heq (hnew v hv).ne'

end Extends

/-! ## Runs -/

section Runs

variable (env : Env) (config : PolicyLifecycleConfig)

/-- The store and the latest time a call was made at; the clock may also be set back. -/
structure System where
  store : Store
  clock : Nat

def System.new : System := ⟨∅, 0⟩

/-- A call at a time. -/
def step (s : System) (call : Nat × Call) : Option System :=
  some ⟨apply env config call.1 s.store call.2, max s.clock call.1⟩

/-- The invariant, for every policy. -/
def Ok (s : System) : Prop := ∀ policyId, VersionsOk env config s.clock (versions s.store policyId)

variable {env config}

theorem Ok.step {s s' : System} {call : Nat × Call} (h : Ok env config s) (hstep : step env config s call = some s') :
    Ok env config s' := by
  obtain rfl := Option.some.inj hstep
  intro policyId
  exact ((h policyId).mono (le_max_left _ _)).change (le_max_right _ _) (change_apply call.2 policyId)

theorem ok_new : Ok env config System.new := fun _ =>
  ⟨List.Pairwise.nil, Nat.zero_le _, fun _ hv => absurd hv List.not_mem_nil, fun _ hv => absurd hv List.not_mem_nil⟩

theorem ok_run {calls : List (Nat × Call)} {s : System}
    (hrun : run (step env config) System.new calls = some s) : Ok env config s :=
  run_invariant (fun _ _ _ => Ok.step) ok_new hrun

/-- **The versions of every policy are in order after every run**: the numbers rise, at most one version is
active, no one approved a version twice or their own, and an active version was approved often enough and was
staged for as long as is asked. -/
theorem versions_ok {calls : List (Nat × Call)} {s : System}
    (hrun : run (step env config) System.new calls = some s) (policyId : String) :
    VersionsOk env config s.clock (versions s.store policyId) :=
  ok_run hrun policyId

/-- **A number names one version for good**: as long as it is there, the policy, the author and the approvals given
under it are those they were, whatever was pruned, rolled back or promoted in between. -/
theorem version_named_for_good {calls later : List (Nat × Call)} {s t : System}
    (hrun : run (step env config) System.new calls = some s) (hlater : run (step env config) s later = some t)
    (policyId : String) : ∀ v ∈ versions s.store policyId, ∀ w ∈ versions t.store policyId,
      w.version = v.version → SameVersion v w := by
  have heach : EachStep (step env config)
      (fun s _ s' => Extends (versions s.store policyId) (versions s'.store policyId)) s later := by
    refine eachStep_of_step fun s call s' hstep => ?_
    obtain rfl := Option.some.inj hstep
    exact Extends.change (change_apply call.2 policyId)
  have hextends := @run_rel System _ _ (fun s s' => Extends (versions s.store policyId) (versions s'.store policyId))
    (fun _ => Extends.refl _) (fun _ _ _ => Extends.trans) _ _ _ heach hlater
  exact fun v hv w hw heq => hextends.same (ok_run hrun policyId).numbers hv hw heq

/-- Letters as they are, and no JSON. -/
def asciiEnv : Env where
  nfkc := id
  lowerChar c := [c]
  jsonTextLen _ := 4

/-- One approval, ten seconds of staging, two versions of a policy. -/
def exampleConfig : PolicyLifecycleConfig := ⟨1, 10, 2⟩

def examplePolicy (id name : String) : Policy :=
  { id, name, policyType := .deny, priority := 1, pathRules := none, networkRules := none }

/-- A first version on its way to being the active one. -/
def exampleCalls : List (Nat × Call) :=
  [(1, .create "files:*" (examplePolicy "files:*" "first") "ann" none), (2, .approve "files:*" 1 "bob" none),
    (3, .promote "files:*" 1), (13, .promote "files:*" 1)]

/-- A second version replaces it; a third, rolled back from the first, prunes it. -/
def exampleLater : List (Nat × Call) :=
  [(14, .create "files:*" (examplePolicy "files:*" "second") "ann" none), (15, .approve "files:*" 2 "bob" none),
    (16, .promote "files:*" 2), (26, .promote "files:*" 2), (27, .rollback "files:*" 1 "cat")]

theorem versions_ok_promoted : ∃ s,
    run (step asciiEnv exampleConfig) System.new (exampleCalls ++ exampleLater) = some s ∧
    (versions s.store "files:*").map (fun v => (v.version, v.status)) = [(2, .active), (3, .draft)] ∧
    VersionsOk asciiEnv exampleConfig s.clock (versions s.store "files:*") :=
  ⟨_, rfl, by decide +kernel, @versions_ok _ _ (exampleCalls ++ exampleLater) _ rfl "files:*"⟩

theorem version_named_for_good_first : ∃ s t, run (step asciiEnv exampleConfig) System.new exampleCalls = some s ∧
    run (step asciiEnv exampleConfig) s (exampleLater.take 4) = some t ∧
    (∃ v ∈ versions s.store "files:*", ∃ w ∈ versions t.store "files:*",
      w.version = v.version ∧ w.status ≠ v.status) ∧
    ∀ v ∈ versions s.store "files:*", ∀ w ∈ versions t.store "files:*", w.version = v.version → SameVersion v w :=
  ⟨_, _, rfl, rfl, by decide +kernel,
    @version_named_for_good _ _ exampleCalls (exampleLater.take 4) _ _ rfl rfl "files:*"⟩

end Runs

end Lifecycle

end Vellaveto
