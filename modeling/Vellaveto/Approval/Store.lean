/-
  THE APPROVAL STORE (`ApprovalStore` of `vellaveto-approval/src/lib.rs`).

  PROGRAM.  A map of approvals, an index from dedup key to the pending approval with that key, and an
  append-only file with one line for each state change.  Every operation changes the memory first,
  then appends its line, and takes the change back when that fails.  `approve`, `deny` and
  `consume_approved` hold the lock of the map all the time, so each is ONE atomic section;
  `create_with_context` and `expire_stale` release the locks before they write, so each is several:

    create   `findExisting` | `createInsert` | `persistApproval` | `createRollback`
    expire   `expireMark`   | `persistApproval` for each approval | `expireRollback`

  Each section is a function on `State`, with the readings of the clock and the outcome of the write as
  arguments; one lemma for each says what it does (`change_ok`, `resolve_cases`, `consume_cases`, …).
-/
import Mathlib.Tactic.Common
import Vellaveto.Approval.Types
import Vellaveto.Lib.Table

namespace Vellaveto.Approval

open Vellaveto.Lib

/-! ## The file -/

/-- The persistence file: its complete lines, and what stands after the last line break. -/
structure LogFile where
  lines : List (List Char)
  tail : List Char
deriving DecidableEq, Repr

namespace LogFile

def empty : LogFile := ⟨[], []⟩

/-- Append a line and a line break. -/
def append (f : LogFile) (line : List Char) : LogFile := ⟨f.lines ++ [f.tail ++ line], []⟩

/-- A write that stops after `n` characters of the line and its line break. -/
def appendPart (f : LogFile) (line : List Char) (n : Nat) : LogFile :=
  if line.length < n then f.append line else ⟨f.lines, f.tail ++ line.take n⟩

/-- `str::lines` of the file. -/
def content (f : LogFile) : List (List Char) :=
  f.lines ++ (if f.tail = [] then [] else [f.tail])

end LogFile

/-- How a write ends: well, or with an error after some characters. -/
inductive PersistOutcome where
  | ok
  | failed (written : Nat)
deriving DecidableEq, Repr

/-! ## State -/

abbrev PendingMap := AList fun _ : String => PendingApproval
abbrev DedupIndex := AList fun _ : String => String

/-- The memory of the store and the file behind it. -/
structure State where
  pending : PendingMap
  dedupIndex : DedupIndex
  file : LogFile

/-- `ApprovalStore::new` on a file. -/
def State.fresh (file : LogFile) : State := ⟨∅, ∅, file⟩

structure Config where
  defaultTtl : Int
  maxPending : Nat
deriving DecidableEq, Repr

section Operations

variable (env : Env)

/-- `persist_approval`: the new file, and whether the write went well. -/
def persistApproval (file : LogFile) (a : PendingApproval) : PersistOutcome → LogFile × Bool
  | .ok => (file.append (env.toLine a), true)
  | .failed n => (file.appendPart (env.toLine a) n, false)

/-! ## Validation -/

def maxIdentityLen : Nat := 512
def maxReasonLen : Nat := 4096
def maxSessionIdLen : Nat := 512
def minFingerprintLen : Nat := 32
def maxFingerprintLen : Nat := 128

/-- Length and characters of a text. -/
def checkText (field : String) (max : Nat) (text : String) : Except ApprovalError Unit :=
  if max < text.utf8ByteSize then
    .error (.validation s!"{field} exceeds maximum length of {max} bytes")
  else if text.toList.any isControl then
    .error (.validation s!"{field} contains control characters")
  else if text.toList.any isUnicodeFormatChar then
    .error (.validation s!"{field} contains Unicode format characters")
  else .ok ()

/-- A text that must not be empty. -/
def checkNonEmptyText (field : String) (max : Nat) (text : String) : Except ApprovalError Unit :=
  if text.isEmpty then .error (.validation s!"{field} must not be empty")
  else checkText field max text

theorem checkNonEmptyText_ok {field text : String} {max : Nat} :
    checkNonEmptyText field max text = .ok () ↔
      text.isEmpty = false ∧ text.utf8ByteSize ≤ max ∧ text.toList.any isControl = false ∧
        text.toList.any isUnicodeFormatChar = false := by
  rw [checkNonEmptyText, checkText]
  split
  · rename_i hempty
    simp [hempty]
  · rename_i hempty
    split
    · rename_i hlong
      exact iff_of_false nofun fun h => absurd h.2.1 (by omega)
    · rename_i hlong
      split
      · rename_i hcontrol
        simp [hcontrol]
      · rename_i hcontrol
        split
        · rename_i hformat
          simp [hformat]
        · rename_i hformat
          refine iff_of_true rfl ⟨?_, by omega, ?_, ?_⟩
          · exact Bool.eq_false_iff.mpr hempty
          · exact Bool.eq_false_iff.mpr hcontrol
          · exact Bool.eq_false_iff.mpr hformat

def checkReason : String → Except ApprovalError Unit := checkText "reason" maxReasonLen
def checkRequestedBy : String → Except ApprovalError Unit :=
  checkNonEmptyText "requested_by" maxIdentityLen
def checkSessionId : String → Except ApprovalError Unit :=
  checkNonEmptyText "session_id" maxSessionIdLen
def checkResolvedBy : String → Except ApprovalError Unit :=
  checkNonEmptyText "resolved_by" maxIdentityLen

/-- `char::is_ascii_hexdigit`. -/
def isAsciiHexdigit (c : Char) : Bool :=
  c.isDigit || ('a' ≤ c && c ≤ 'f') || ('A' ≤ c && c ≤ 'F')

def checkFingerprint (fp : String) : Except ApprovalError Unit :=
  let len := fp.utf8ByteSize
  if len < minFingerprintLen then
    .error (.validation s!"action_fingerprint too short: {len} chars (min {minFingerprintLen})")
  else if maxFingerprintLen < len then
    .error (.validation s!"action_fingerprint exceeds maximum length of {maxFingerprintLen} bytes")
  else if !fp.toList.all isAsciiHexdigit then
    .error (.validation "action_fingerprint must be hex-encoded")
  else .ok ()

/-- A check of an optional argument. -/
def checkOption {α : Type} (check : α → Except ApprovalError Unit) :
    Option α → Except ApprovalError Unit
  | none => .ok ()
  | some v => check v

/-- The arguments of `create_with_context`. -/
structure CreateRequest where
  action : Action
  reason : String
  requestedBy : Option String
  sessionId : Option String
  actionFingerprint : Option String
  containmentContext : Option ContainmentContext
deriving DecidableEq, Repr

/-- The validation at the start of `create_with_context`. -/
def CreateRequest.validate (r : CreateRequest) : Except ApprovalError Unit := do
  checkReason r.reason
  checkOption checkRequestedBy r.requestedBy
  checkOption checkSessionId r.sessionId
  checkOption checkFingerprint r.actionFingerprint
  checkOption (fun c => c.validate.mapError .validation) r.containmentContext

/-! ## Creation -/

/-- The context that is stored: normalized, and only if it says something. -/
def CreateRequest.storedContext (r : CreateRequest) : Option ContainmentContext :=
  (r.containmentContext.map ContainmentContext.normalized).filter ContainmentContext.isMeaningful

/-- The new approval. -/
def CreateRequest.approval (r : CreateRequest) (config : Config) (id : String) (now : Int) :
    PendingApproval where
  id := id
  action := r.action
  reason := r.reason
  createdAt := now
  expiresAt := now + config.defaultTtl
  status := .pending
  resolvedBy := none
  resolvedAt := none
  consumedAt := none
  requestedBy := r.requestedBy
  sessionId := r.sessionId
  actionFingerprint := r.actionFingerprint
  containmentContext := r.storedContext

/-- The pending approval that the index gives for a key. -/
def State.findExisting (st : State) (key : String) : Option String :=
  (st.dedupIndex.lookup key).filter fun id =>
    (st.pending.lookup id).any fun a => a.status == .pending

/-- What the second section of `create_with_context` finds or does. -/
inductive InsertResult where
  | existing (id : String)
  | full
  | inserted
deriving DecidableEq, Repr

/-- The section under both locks: check again, check the capacity, insert. -/
def State.createInsert (st : State) (config : Config) (a : PendingApproval) :
    State × InsertResult :=
  match st.findExisting (a.contextKey env) with
  | some id => (st, .existing id)
  | none =>
    if config.maxPending ≤ st.pending.keys.length then (st, .full)
    else
      ({ st with
          pending := st.pending.insert a.id a
          dedupIndex := st.dedupIndex.insert (a.contextKey env) a.id }, .inserted)

/-- The section after a failed write: take the approval out again if it is still pending. -/
def State.createRollback (st : State) (a : PendingApproval) : State :=
  match st.pending.lookup a.id with
  | some current =>
    if current.status = .pending then
      { st with
        pending := st.pending.erase a.id
        dedupIndex := st.dedupIndex.erase (a.contextKey env) }
    else st
  | none => st

/-! ## Resolution -/

/-- What a reviewer decides. -/
inductive Resolution where
  | approve
  | deny
deriving DecidableEq, Repr

namespace Resolution

def status : Resolution → ApprovalStatus
  | approve => .approved
  | deny => .denied

def noun : Resolution → String
  | approve => "approval"
  | deny => "denial"

def verb : Resolution → String
  | approve => "approve"
  | deny => "deny"

end Resolution

/-- The text before the first ` (note:`. -/
def principalBase (cs : List Char) : List Char :=
  match cs with
  | [] => []
  | c :: rest => if " (note:".toList.isPrefixOf (c :: rest) then [] else c :: principalBase rest

/-- NFKC, lower case, look-alikes. -/
def normalizePrincipal (cs : List Char) : List Char :=
  ((env.nfkc cs).flatMap fun c => if isAscii c then [c.toLower] else env.lowerChar c).map
    normalizeHomoglyph

/-- A reviewer must not decide on their own request. -/
def checkResolver (resolution : Resolution) (requestedBy : Option String) (resolver : String) :
    Except ApprovalError Unit :=
  match requestedBy with
  | none => .ok ()
  | some requester =>
    let requesterBase := principalBase requester.toList
    let resolverBase := principalBase resolver.toList
    let noun := resolution.noun
    let verb := resolution.verb
    let requesterFinal := normalizePrincipal env requesterBase
    if requesterBase.contains '(' || resolverBase.contains '(' then
      .error (.validation s!"Self-{noun} denied: principal contains invalid characters")
    else if !requesterFinal.isEmpty && requesterFinal ≠ "anonymous".toList &&
        requesterFinal = normalizePrincipal env resolverBase then
      .error (.validation s!"Self-{noun} denied: resolver cannot {verb} their own request")
    else .ok ()

/-- Put `next` in the place of an approval, take its key out and write its line; when that fails put
    `back` in its place and the key back. -/
def State.change (st : State) (id key : String) (next back : PendingApproval)
    (outcome : PersistOutcome) : State × Bool :=
  match persistApproval env st.file next outcome with
  | (file, true) => (⟨st.pending.insert id next, st.dedupIndex.erase key, file⟩, true)
  | (file, false) =>
    (⟨(st.pending.insert id next).insert id back, (st.dedupIndex.erase key).insert key id, file⟩,
      false)

/-- `approve` and `deny`: one section, with two readings of the clock. -/
def State.resolve (st : State) (resolution : Resolution) (id resolver : String) (now now' : Int)
    (outcome : PersistOutcome) : State × Except ApprovalError PendingApproval :=
  match checkResolvedBy resolver with
  | .error e => (st, .error e)
  | .ok () =>
    match st.pending.lookup id with
    | none => (st, .error (.notFound id))
    | some a =>
      if a.status ≠ .pending then (st, .error (.alreadyResolved id))
      else
        match checkResolver env resolution a.requestedBy resolver with
        | .error e => (st, .error e)
        | .ok () =>
          let key := a.plainKey env
          if a.expiresAt < now then
            match st.change env id key { a with status := .expired } a outcome with
            | (st, true) => (st, .error (.expired id))
            | (st, false) => (st, .error .io)
          else
            let next :=
              { a with
                status := resolution.status
                resolvedBy := some resolver
                resolvedAt := some now'
                consumedAt := none }
            let back := { a with resolvedBy := none, resolvedAt := none, consumedAt := none }
            match st.change env id key next back outcome with
            | (st, true) => (st, .ok next)
            | (st, false) => (st, .error .io)

/-- `approve`. -/
def State.approve (st : State) : String → String → Int → Int → PersistOutcome →
    State × Except ApprovalError PendingApproval := st.resolve env .approve

/-- `deny`. -/
def State.deny (st : State) : String → String → Int → Int → PersistOutcome →
    State × Except ApprovalError PendingApproval := st.resolve env .deny

/-! ## Consumption -/

/-- `consume_approved`: past the expiry the approval is marked, whatever its status, and a failed
    write is only logged. -/
def State.consumeApproved (st : State) (id : String) (sessionId actionFingerprint : Option String)
    (now now' : Int) (outcome : PersistOutcome) : State × Except ApprovalError Bool :=
  match st.pending.lookup id with
  | none => (st, .error (.notFound id))
  | some a =>
    if a.expiresAt < now then
      let expired := { a with status := .expired }
      ({ st with
          pending := st.pending.insert id expired
          file := (persistApproval env st.file expired outcome).1 }, .ok false)
    else if !approvalConsumptionPermitted (a.status == .approved) a.actionFingerprint.isSome
        (a.scopeMatches env sessionId actionFingerprint) then (st, .ok false)
    else
      let next := { a with status := .consumed, consumedAt := some now' }
      let back := { a with consumedAt := none }
      match st.change env id (a.plainKey env) next back outcome with
      | (st, true) => (st, .ok true)
      | (st, false) => (st, .error .io)

/-! ## Expiry -/

/-- One hour, in nanoseconds. -/
def retention : Int := 3600000000000

/-- Is the approval pending and past its expiry? -/
def PendingApproval.isStale (now : Int) (a : PendingApproval) : Bool :=
  a.status == .pending && decide (a.expiresAt < now)

/-- Mark a stale approval. -/
def PendingApproval.expire (now : Int) (a : PendingApproval) : PendingApproval :=
  if a.isStale now then { a with status := .expired } else a

/-- Is the entry kept in memory by `expire_stale`? -/
def PendingApproval.isRetained (now : Int) (a : PendingApproval) : Bool :=
  a.status == .pending ||
    decide (now - retention < (a.consumedAt.or a.resolvedAt).getD a.createdAt)

/-- The section of `expire_stale` under both locks, and the approvals to write. -/
def State.expireMark (st : State) (now : Int) : State × List PendingApproval :=
  let stale := (st.pending.entries.map (·.2)).filter (·.isStale now)
  ({ st with
      pending := retain (fun _ a => a.isRetained now)
        (mapValues (fun _ a => a.expire now) st.pending)
      dedupIndex := eraseAll st.dedupIndex (stale.map (·.plainKey env)) },
    stale.map (·.expire now))

/-- The last section of `expire_stale` for one approval whose line was not written. -/
def State.expireRollbackOne (st : State) (id : String) : State :=
  match st.pending.lookup id with
  | some a =>
    if a.status = .expired then
      { st with
        pending := st.pending.insert id { a with status := .pending }
        dedupIndex := st.dedupIndex.insert (a.plainKey env) id }
    else st
  | none => st

/-- The last section of `expire_stale`. -/
def State.expireRollback (st : State) (failedIds : List String) : State :=
  failedIds.foldl (State.expireRollbackOne env) st

/-! ## Loading -/

/-- The approval of a line, if the line is not blank, parses and has a valid context. -/
def readLine (line : List Char) : Option PendingApproval :=
  if (trim line).isEmpty then none
  else
    (env.fromLine line).filter fun a =>
      match a.containmentContext with
      | some c => c.validate == .ok ()
      | none => true

/-- Is an entry kept when the file is loaded?  (Not by the time it was consumed.) -/
def PendingApproval.isRetainedOnLoad (now : Int) (a : PendingApproval) : Bool :=
  a.status == .pending || decide (now - retention < a.resolvedAt.getD a.createdAt)

/-- How reading the file goes. -/
inductive ReadOutcome where
  | notFound
  | failed (e : ApprovalError)
  | read
deriving DecidableEq, Repr

/-- The approvals that the file holds, in order. -/
def State.replayed (st : State) : List PendingApproval :=
  st.file.content.filterMap (readLine env)

/-- The map after the lines of the file and the retention. -/
def State.loadedPending (st : State) (now : Int) : PendingMap :=
  retain (fun _ a => a.isRetainedOnLoad now)
    (insertAll st.pending ((st.replayed env).map fun a => (a.id, a)))

/-- The index of the pending approvals of a map. -/
def rebuildIndex (pending : PendingMap) : DedupIndex :=
  insertAll ∅ (((pending.entries.map (·.2)).filter fun a => a.status == .pending).map
    fun a => (a.contextKey env, a.id))

/-- `load_from_file`. -/
def State.loadFromFile (st : State) (now : Int) : ReadOutcome → State × Except ApprovalError Nat
  | .notFound => (st, .ok 0)
  | .failed e => (st, .error e)
  | .read =>
    let pending := st.loadedPending env now
    (⟨pending, rebuildIndex env pending, st.file⟩, .ok (st.replayed env).length)

end Operations

/-! ## What each section does -/

namespace PendingApproval

variable (a : PendingApproval)

/-- The approval as it was when it was created. -/
def created : PendingApproval :=
  { a with status := .pending, resolvedBy := none, resolvedAt := none, consumedAt := none }

/-- The approval with its expiry noted. -/
def markExpired : PendingApproval := { a with status := .expired }

/-- The approval with a reviewer's decision. -/
def resolveWith (resolution : Resolution) (resolver : String) (at_ : Int) : PendingApproval :=
  { a with
    status := resolution.status
    resolvedBy := some resolver
    resolvedAt := some at_
    consumedAt := none }

/-- The approval, used. -/
def consume (at_ : Int) : PendingApproval := { a with status := .consumed, consumedAt := some at_ }

@[simp] theorem created_markExpired : a.markExpired.created = a.created := rfl

@[simp] theorem created_resolveWith (resolution : Resolution) (resolver : String) (at_ : Int) :
    (a.resolveWith resolution resolver at_).created = a.created := rfl

@[simp] theorem created_consume (at_ : Int) : (a.consume at_).created = a.created := rfl

@[simp] theorem created_created : a.created.created = a.created := rfl

end PendingApproval

section Effects

variable {env : Env} {st st' : State}

theorem change_ok (id key : String) (next back : PendingApproval) :
    st.change env id key next back .ok =
      (⟨st.pending.insert id next, st.dedupIndex.erase key, st.file.append (env.toLine next)⟩,
        true) := rfl

theorem change_failed (id key : String) (next back : PendingApproval) (n : Nat) :
    st.change env id key next back (.failed n) =
      (⟨(st.pending.insert id next).insert id back, (st.dedupIndex.erase key).insert key id,
        st.file.appendPart (env.toLine next) n⟩, false) := rfl

/-- Taking a change back leaves every other entry as it was. -/
theorem lookup_insert_insert (t : PendingMap) (id i : String) (next back : PendingApproval) :
    ((t.insert id next).insert id back).lookup i = if i = id then some back else t.lookup i := by
  rw [lookup_insert_eq, lookup_insert_eq]
  split
  · rfl
  · rfl

/-- **`approve` and `deny`**: nothing changes; or a pending approval is marked as expired, or gets
    the decision, and the line is written; or the write fails and the approval stays pending. -/
theorem resolve_cases {resolution : Resolution} {id resolver : String} {now now' : Int}
    {outcome : PersistOutcome} {r : Except ApprovalError PendingApproval}
    (h : st.resolve env resolution id resolver now now' outcome = (st', r)) :
    (st' = st ∧ ∃ e, r = .error e) ∨
    ∃ a, st.pending.lookup id = some a ∧ a.status = .pending ∧
      ((outcome = .ok ∧ st' = ⟨st.pending.insert id a.markExpired,
          st.dedupIndex.erase (a.plainKey env), st.file.append (env.toLine a.markExpired)⟩ ∧
          r = .error (.expired id)) ∨
        (outcome = .ok ∧ st' = ⟨st.pending.insert id (a.resolveWith resolution resolver now'),
          st.dedupIndex.erase (a.plainKey env),
          st.file.append (env.toLine (a.resolveWith resolution resolver now'))⟩ ∧
          r = .ok (a.resolveWith resolution resolver now')) ∨
        (∃ n next back, outcome = .failed n ∧ back.status = .pending ∧ back.created = a.created ∧
          st' = ⟨(st.pending.insert id next).insert id back,
            (st.dedupIndex.erase (a.plainKey env)).insert (a.plainKey env) id,
            st.file.appendPart (env.toLine next) n⟩ ∧ r = .error .io)) := by
  rw [State.resolve] at h
  split at h
  · cases h
    exact .inl ⟨rfl, _, rfl⟩
  · split at h
    · cases h
      exact .inl ⟨rfl, _, rfl⟩
    · rename_i a ha
      split at h
      · cases h
        exact .inl ⟨rfl, _, rfl⟩
      · rename_i hstatus
        have hpending : a.status = .pending := by simpa using hstatus
        split at h
        · cases h
          exact .inl ⟨rfl, _, rfl⟩
        · refine .inr ⟨a, ha, hpending, ?_⟩
          dsimp only at h
          split at h
          · cases outcome with
            | ok =>
              rw [change_ok] at h
              cases h
              exact .inl ⟨rfl, rfl, rfl⟩
            | failed n =>
              rw [change_failed] at h
              cases h
              exact .inr (.inr ⟨n, a.markExpired, a, rfl, hpending, rfl, rfl, rfl⟩)
          · cases outcome with
            | ok =>
              rw [change_ok] at h
              cases h
              exact .inr (.inl ⟨rfl, rfl, rfl⟩)
            | failed n =>
              rw [change_failed] at h
              cases h
              refine .inr (.inr ⟨n, _, _, rfl, ?_, ?_, rfl, rfl⟩)
              · exact hpending
              · rfl

/-- **`consume_approved`**: nothing changes; or the approval is past its expiry and is marked,
    whatever its status and whether or not the write goes well; or an approved approval is
    consumed; or the write fails and it stays approved. -/
theorem consume_cases {id : String} {sessionId actionFingerprint : Option String} {now now' : Int}
    {outcome : PersistOutcome} {r : Except ApprovalError Bool}
    (h : st.consumeApproved env id sessionId actionFingerprint now now' outcome = (st', r)) :
    (st' = st ∧ r ≠ .ok true) ∨
    ∃ a, st.pending.lookup id = some a ∧
      ((a.expiresAt < now ∧ st' = { st with
          pending := st.pending.insert id a.markExpired
          file := (persistApproval env st.file a.markExpired outcome).1 } ∧ r = .ok false) ∨
        (¬a.expiresAt < now ∧ a.status = .approved ∧ a.actionFingerprint.isSome = true ∧
          a.scopeMatches env sessionId actionFingerprint = true ∧
          ((outcome = .ok ∧ st' = ⟨st.pending.insert id (a.consume now'),
              st.dedupIndex.erase (a.plainKey env), st.file.append (env.toLine (a.consume now'))⟩ ∧
              r = .ok true) ∨
            (∃ n back, outcome = .failed n ∧ back.status = .approved ∧ back.created = a.created ∧
              st' = ⟨(st.pending.insert id (a.consume now')).insert id back,
                (st.dedupIndex.erase (a.plainKey env)).insert (a.plainKey env) id,
                st.file.appendPart (env.toLine (a.consume now')) n⟩ ∧ r = .error .io)))) := by
  rw [State.consumeApproved] at h
  split at h
  · cases h
    exact .inl ⟨rfl, by simp⟩
  · rename_i a ha
    split at h
    · rename_i hexpired
      cases h
      exact .inr ⟨a, ha, .inl ⟨hexpired, rfl, rfl⟩⟩
    · rename_i hexpired
      split at h
      · cases h
        exact .inl ⟨rfl, by simp⟩
      · rename_i hpermitted
        have hp : a.status = .approved ∧ a.actionFingerprint.isSome = true ∧
            a.scopeMatches env sessionId actionFingerprint = true := by
          simpa [approvalConsumptionPermitted, Option.isSome_iff_ne_none] using hpermitted
        refine .inr ⟨a, ha, .inr ⟨hexpired, hp.1, hp.2.1, hp.2.2, ?_⟩⟩
        dsimp only at h
        cases outcome with
        | ok =>
          rw [change_ok] at h
          cases h
          exact .inl ⟨rfl, rfl, rfl⟩
        | failed n =>
          rw [change_failed] at h
          cases h
          refine .inr ⟨n, _, rfl, ?_, ?_, rfl, rfl⟩
          · exact hp.1
          · rfl

/-- **The insertion of `create_with_context`**: nothing changes, or there is no pending approval with
    the key and the new one is put into both maps. -/
theorem createInsert_cases {config : Config} {a : PendingApproval} {r : InsertResult}
    (h : st.createInsert env config a = (st', r)) :
    (st' = st ∧ r ≠ .inserted) ∨
    (r = .inserted ∧ st.findExisting (a.contextKey env) = none ∧
      st' = { st with
        pending := st.pending.insert a.id a
        dedupIndex := st.dedupIndex.insert (a.contextKey env) a.id }) := by
  rw [State.createInsert] at h
  split at h
  · cases h
    exact .inl ⟨rfl, by simp⟩
  · rename_i hnone
    split at h
    · cases h
      exact .inl ⟨rfl, by simp⟩
    · cases h
      exact .inr ⟨rfl, hnone, rfl⟩

/-- **The rollback of `create_with_context`**: nothing changes, or the approval is still pending and
    is taken out of both maps. -/
theorem createRollback_cases (env : Env) (st : State) (a : PendingApproval) :
    st.createRollback env a = st ∨
    ∃ current, st.pending.lookup a.id = some current ∧ current.status = .pending ∧
      st.createRollback env a = { st with
        pending := st.pending.erase a.id
        dedupIndex := st.dedupIndex.erase (a.contextKey env) } := by
  rw [State.createRollback]
  split
  · rename_i current hcurrent
    split
    · rename_i hpending
      exact .inr ⟨current, hcurrent, hpending, rfl⟩
    · exact .inl rfl
  · exact .inl rfl

/-- **Marking**: what is in memory afterwards is an earlier entry, marked if it was stale, and
    recent. -/
theorem lookup_expireMark (env : Env) {now : Int} {id : String} {a' : PendingApproval} :
    (st.expireMark env now).1.pending.lookup id = some a' ↔
      ∃ a, st.pending.lookup id = some a ∧ a' = a.expire now ∧ a'.isRetained now = true := by
  show (retain _ (mapValues _ st.pending)).lookup id = some a' ↔ _
  rw [lookup_retain_eq_some, lookup_mapValues, Option.map_eq_some_iff]
  constructor
  · rintro ⟨⟨a, ha, rfl⟩, hkept⟩
    exact ⟨a, ha, rfl, hkept⟩
  · rintro ⟨a, ha, rfl, hkept⟩
    exact ⟨⟨a, ha, rfl⟩, hkept⟩

theorem status_of_isStale {now : Int} {a : PendingApproval} (h : a.isStale now = true) :
    a.status = .pending := by
  rw [PendingApproval.isStale, Bool.and_eq_true] at h
  simpa using h.1

theorem expire_of_isStale {now : Int} {a : PendingApproval} (h : a.isStale now = true) :
    a.expire now = a.markExpired := if_pos h

theorem expire_of_not_isStale {now : Int} {a : PendingApproval} (h : a.isStale now = false) :
    a.expire now = a := by
  rw [PendingApproval.expire, if_neg]
  simp [h]

/-- The approvals that are written are the stale ones. -/
theorem mem_expireMark_toPersist {now : Int} {x : PendingApproval} :
    x ∈ (st.expireMark env now).2 ↔
      ∃ id a, st.pending.lookup id = some a ∧ a.isStale now = true ∧ x = a.markExpired := by
  simp only [State.expireMark, List.mem_map, List.mem_filter]
  constructor
  · rintro ⟨a, ⟨⟨e, he, rfl⟩, hstale⟩, rfl⟩
    exact ⟨e.1, e.2, mem_entries_iff.mp he, hstale, expire_of_isStale hstale⟩
  · rintro ⟨id, a, ha, hstale, rfl⟩
    exact ⟨a, ⟨⟨⟨id, a⟩, mem_entries_iff.mpr ha, rfl⟩, hstale⟩, expire_of_isStale hstale⟩

/-- Take the mark of an expired approval back. -/
def PendingApproval.unexpire (a : PendingApproval) : PendingApproval :=
  if a.status = .expired then { a with status := .pending } else a

theorem unexpire_markExpired {a : PendingApproval} (h : a.status = .pending) :
    a.markExpired.unexpire = a := by
  show { a with status := .pending } = a
  rw [← h]

theorem unexpire_unexpire (a : PendingApproval) : a.unexpire.unexpire = a.unexpire := by
  by_cases h : a.status = .expired
  · simp [PendingApproval.unexpire, h]
  · simp [PendingApproval.unexpire, h]

theorem lookup_expireRollbackOne (st : State) (id i : String) :
    (st.expireRollbackOne env id).pending.lookup i =
      if i = id then (st.pending.lookup i).map PendingApproval.unexpire
      else st.pending.lookup i := by
  rw [State.expireRollbackOne]
  by_cases hi : i = id
  · subst hi
    rw [if_pos rfl]
    split
    · rename_i a ha
      split
      · rename_i hexpired
        rw [ha]
        simp [PendingApproval.unexpire, hexpired]
      · rename_i hexpired
        rw [ha]
        simp [PendingApproval.unexpire, hexpired]
    · rename_i ha
      rw [ha]
      rfl
  · rw [if_neg hi]
    split
    · split
      · exact AList.lookup_insert_ne hi
      · rfl
    · rfl

/-- **The rollback of `expire_stale`**: the listed approvals that are expired are pending again. -/
theorem lookup_expireRollback (st : State) (failedIds : List String) (i : String) :
    (st.expireRollback env failedIds).pending.lookup i =
      if i ∈ failedIds then (st.pending.lookup i).map PendingApproval.unexpire
      else st.pending.lookup i := by
  induction failedIds generalizing st with
  | nil => rfl
  | cons id ids ih =>
    rw [State.expireRollback, List.foldl_cons]
    refine (ih (st.expireRollbackOne env id)).trans ?_
    rw [lookup_expireRollbackOne]
    by_cases hi : i = id
    · subst hi
      rw [if_pos rfl, if_pos List.mem_cons_self, Option.map_map]
      split
      · refine congrArg (fun f => Option.map f (st.pending.lookup i)) (funext fun a => ?_)
        exact unexpire_unexpire a
      · rfl
    · rw [if_neg hi]
      have hmem : i ∈ id :: ids ↔ i ∈ ids := by simp [hi]
      rw [if_congr hmem rfl rfl]

/-! ### The lines of the file -/

/-- The last of the given approvals with an id. -/
def lastVersion (written : List PendingApproval) (id : String) : Option PendingApproval :=
  lastOf id (written.map fun a => (a.id, a))

theorem lastVersion_append (written : List PendingApproval) (a : PendingApproval) (id : String) :
    lastVersion (written ++ [a]) id = if id = a.id then some a else lastVersion written id := by
  rw [lastVersion, List.map_append, List.map_singleton, lastOf_append_singleton]
  rfl

theorem mem_of_lastVersion {written : List PendingApproval} {id : String} {a : PendingApproval}
    (h : lastVersion written id = some a) : a ∈ written ∧ a.id = id := by
  obtain ⟨v, hv, heq⟩ := List.mem_map.mp (mem_of_lastOf_eq_some h)
  cases heq
  exact ⟨hv, rfl⟩

theorem lastVersion_eq_none {written : List PendingApproval} {id : String}
    (h : ∀ v ∈ written, v.id ≠ id) : lastVersion written id = none := by
  cases hlast : lastVersion written id with
  | none => rfl
  | some v =>
    obtain ⟨hv, hid⟩ := mem_of_lastVersion hlast
    exact absurd hid (h v hv)

/-- **Loading**: the last line of an approval wins over the memory, and the entry must be recent. -/
theorem lookup_loadedPending {now : Int} {id : String} {a : PendingApproval} :
    (st.loadedPending env now).lookup id = some a ↔
      (lastVersion (st.replayed env) id).or (st.pending.lookup id) = some a ∧
        a.isRetainedOnLoad now = true := by
  rw [State.loadedPending, lookup_retain_eq_some, lookup_insertAll, lastVersion]

end Effects

/-! A request without a context, and approvals that last for fifteen minutes. -/

def sampleRequest : CreateRequest where
  action := Action.new "t" "f" .null
  reason := "r"
  requestedBy := none
  sessionId := some "s"
  actionFingerprint := some "00000000000000000000000000000000"
  containmentContext := none

def sampleConfig : Config := ⟨900000000000, 10⟩

end Vellaveto.Approval
