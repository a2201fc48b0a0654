/-
  THE HASH CHAIN of the audit log: the hash of an entry and the walk of the verifier
  (`compute_entry_hash` of `vellaveto-audit/src/logger.rs`, `verify_chain` of `verification.rs`,
  `verified_audit_chain.rs`).

  PROGRAM.      An entry is hashed over seven of its fields, each after its length (the sequence number
                has a fixed width).  The verifier walks the entries with the previous hash, timestamp
                and sequence number; an entry that passes all guards gives the next state.

  SPEC.         Entries with equal hashes are equal in the fields that are hashed, and a log that is
                accepted is accepted with no other values in them.

  CORRECTNESS.
    1. `chainStep_eq_some`        what an accepted entry has passed, and the next state;
    2. `chainRun_append`          accepted logs are accepted piece by piece;
    3. `covered_eq_of_hash_eq`    the encoding can be read in one way only;
    4. `entry_hash_covers`        the hashed fields of an accepted entry cannot be changed, the three
                                  others can;
    5. `tenantId_not_covered`     two entries with the same hash.
-/
import Vellaveto.Audit.Types
import Vellaveto.Engine.Externals
import Vellaveto.Lib.Encoding

namespace Vellaveto.Audit

open Vellaveto.Lib

variable {H : Type}

/-! ## The hash of an entry -/

/-- `canonical_json`, at the three types it is used at here: RFC 8785 text, or an error. -/
structure Canonical where
  action : Action → Except AuditError (List UInt8)
  verdict : Verdict → Except AuditError (List UInt8)
  json : Json → Except AuditError (List UInt8)

/-- The bytes that are hashed. -/
def entryPreimage (c : Canonical) (entry : AuditEntry) : Except AuditError (List UInt8) :=
  match c.action entry.action with
  | .error e => .error e
  | .ok action =>
    match c.verdict entry.verdict with
    | .error e => .error e
    | .ok verdict =>
      match c.json entry.metadata with
      | .error e => .error e
      | .ok metadata =>
        .ok (lengthPrefixed (strBytes entry.id) ++ (toLeBytes entry.sequence ++
          (lengthPrefixed action ++ (lengthPrefixed verdict ++
            (lengthPrefixed (strBytes entry.timestamp) ++ (lengthPrefixed metadata ++
              lengthPrefixed (strBytes (entry.prevHash.getD ""))))))))

/-- `compute_entry_hash`. -/
def computeEntryHash (d : Digests H) (c : Canonical) (entry : AuditEntry) :
    Except AuditError String :=
  match entryPreimage c entry with
  | .error e => .error e
  | .ok bytes => .ok (d.encodeHashHex (d.sha256 bytes))

/-! ## Timestamps -/

/-- `a <= b` for texts: the order of the UTF-8 bytes is the order of the code points. -/
def strLe : List Char → List Char → Bool
  | [], _ => true
  | _ :: _, [] => false
  | a :: as, b :: bs => if a = b then strLe as bs else a.toNat < b.toNat

theorem strLe_refl (cs : List Char) : strLe cs cs = true := by
  induction cs with
  | nil => rfl
  | cons c cs ih => simp [strLe, ih]

/-- Does the timestamp end with `Z`, `z` or `+00:00`? -/
def isUtc (ts : String) : Bool :=
  "Z".toList.isSuffixOf ts.toList || "z".toList.isSuffixOf ts.toList ||
    "+00:00".toList.isSuffixOf ts.toList

/-- `strip_utc_suffix`. -/
def stripUtcSuffix (ts : String) : List Char :=
  match stripSuffix "+00:00".toList ts.toList with
  | some s => s
  | none =>
    match stripSuffix "Z".toList ts.toList with
    | some s => s
    | none => (stripSuffix "z".toList ts.toList).getD ts.toList

def timestampGuard (isUtc timestampsNondecreasing : Bool) : Bool := isUtc && timestampsNondecreasing

/-- Is the timestamp not before the previous one? -/
def timestampsNondecreasing (ts : String) (prev : Option String) : Bool :=
  match prev with
  | some prevTs => strLe (stripUtcSuffix prevTs) (stripUtcSuffix ts)
  | none => true

/-- `timestamp_ordered_after`. -/
def timestampOrderedAfter (ts : String) (prev : Option String) : Bool :=
  timestampGuard (isUtc ts) (timestampsNondecreasing ts prev)

/-! ## The verifier -/

def sequenceMonotonic (hasPrevSequence : Bool) (prevSequence currentSequence : Nat) : Bool :=
  currentSequence == 0 || !hasPrevSequence || prevSequence < currentSequence

def hashPresenceValid (seenHashedEntry entryHasHash : Bool) : Bool := entryHasHash || !seenHashedEntry

def auditChainStepValid (timestampGuardOk sequenceGuardOk hashPresenceGuardOk entryHasHash
    prevHashMatches entryHashMatches : Bool) : Bool :=
  timestampGuardOk && sequenceGuardOk && hashPresenceGuardOk &&
    (!entryHasHash || (prevHashMatches && entryHashMatches))

def nextSeenHashedEntry (seenHashedEntry entryHasHash : Bool) : Bool := seenHashedEntry || entryHasHash

def nextPrevSequence (prevSequence currentSequence : Nat) : Nat :=
  if 0 < currentSequence then currentSequence else prevSequence

/-- What the verifier carries from entry to entry. -/
structure ChainState where
  prevHash : Option String
  seenHashedEntry : Bool
  prevTimestamp : Option String
  prevSequence : Option Nat
deriving DecidableEq, Repr

def ChainState.start : ChainState := ⟨none, false, none, none⟩

/-- The state after an entry that passes. -/
def ChainState.next (st : ChainState) (entry : AuditEntry) : ChainState where
  prevHash := entry.entryHash
  seenHashedEntry := nextSeenHashedEntry st.seenHashedEntry entry.entryHash.isSome
  prevTimestamp := some entry.timestamp
  prevSequence :=
    if 0 < entry.sequence then some (nextPrevSequence (st.prevSequence.getD 0) entry.sequence)
    else st.prevSequence

/-- One round of the loop of `verify_chain`; `none` when the entry is rejected.  The guards of the
    source return one after the other, all with the same report. -/
def chainStep (d : Digests H) (c : Canonical) (st : ChainState) (entry : AuditEntry) :
    Except AuditError (Option ChainState) :=
  let timestampGuardOk := timestampOrderedAfter entry.timestamp st.prevTimestamp
  let sequenceGuardOk := sequenceMonotonic st.prevSequence.isSome (st.prevSequence.getD 0) entry.sequence
  let entryHasHash := entry.entryHash.isSome
  let hashPresenceGuardOk := hashPresenceValid st.seenHashedEntry entryHasHash
  if !timestampGuardOk then .ok none
  else if !sequenceGuardOk then .ok none
  else if !hashPresenceGuardOk then .ok none
  else
    match (if entryHasHash then computeEntryHash d c entry else .ok "") with
    | .error e => .error e
    | .ok computed =>
      let prevHashMatches := !entryHasHash || decide (entry.prevHash = st.prevHash)
      let entryHashMatches := !entryHasHash || decide (entry.entryHash = some computed)
      if auditChainStepValid timestampGuardOk sequenceGuardOk hashPresenceGuardOk entryHasHash
          prevHashMatches entryHashMatches then
        .ok (some (st.next entry))
      else .ok none

/-- The loop from entry `i` on. -/
def verifyLoop (d : Digests H) (c : Canonical) :
    ChainState → Nat → List AuditEntry → Except AuditError ChainVerification
  | _, i, [] => .ok ⟨true, i, none⟩
  | st, i, entry :: rest =>
    match chainStep d c st entry with
    | .error e => .error e
    | .ok none => .ok ⟨false, i + 1, some i⟩
    | .ok (some st') => verifyLoop d c st' (i + 1) rest

/-- `verify_chain` on the entries that were loaded. -/
def verifyEntries (d : Digests H) (c : Canonical) (entries : List AuditEntry) :
    Except AuditError ChainVerification :=
  verifyLoop d c .start 0 entries

/-! ## What an accepted entry has passed -/

/-- The walk over some entries: the state after them, or `none` if one is rejected. -/
def chainRun (d : Digests H) (c : Canonical) :
    ChainState → List AuditEntry → Except AuditError (Option ChainState)
  | st, [] => .ok (some st)
  | st, entry :: rest =>
    match chainStep d c st entry with
    | .error e => .error e
    | .ok none => .ok none
    | .ok (some st') => chainRun d c st' rest

/-- The guards an entry passes. -/
structure Accepted (d : Digests H) (c : Canonical) (st : ChainState) (entry : AuditEntry) : Prop where
  timestamp : timestampOrderedAfter entry.timestamp st.prevTimestamp = true
  sequence : ∀ p, st.prevSequence = some p → entry.sequence = 0 ∨ p < entry.sequence
  presence : entry.entryHash = none → st.seenHashedEntry = false
  link : ∀ h, entry.entryHash = some h → entry.prevHash = st.prevHash
  hash : ∀ h, entry.entryHash = some h → computeEntryHash d c entry = .ok h

section Walk

variable (d : Digests H) (c : Canonical)

theorem sequenceMonotonic_iff (prev : Option Nat) (current : Nat) :
    sequenceMonotonic prev.isSome (prev.getD 0) current = true ↔
      ∀ p, prev = some p → current = 0 ∨ p < current := by
  cases prev with
  | none => simp [sequenceMonotonic]
  | some p => simp [sequenceMonotonic]

/-- **One step of the walk.** -/
theorem chainStep_eq_some {st st' : ChainState} {entry : AuditEntry} :
    chainStep d c st entry = .ok (some st') ↔ Accepted d c st entry ∧ st' = st.next entry := by
  have hseq := sequenceMonotonic_iff st.prevSequence entry.sequence
  constructor
  · intro h
    simp only [chainStep] at h
    split at h
    · cases h
    rename_i hts
    split at h
    · cases h
    rename_i hsq
    split at h
    · cases h
    rename_i hpr
    simp only [Bool.not_eq_true, Bool.not_eq_false'] at hts hsq hpr
    have hpresence : entry.entryHash = none → st.seenHashedEntry = false := by
      intro hnone
      simpa [hashPresenceValid, hnone] using hpr
    split at h
    · cases h
    rename_i computed hcomputed
    split at h
    · rename_i hvalid
      cases h
      refine ⟨⟨hts, hseq.mp hsq, hpresence, ?_, ?_⟩, rfl⟩
      · intro hash hhash
        simp [auditChainStepValid, hhash] at hvalid
        exact hvalid.2.1
      · intro hash hhash
        simp [auditChainStepValid, hhash] at hvalid
        simp only [hhash, Option.isSome_some, if_true] at hcomputed
        rw [hcomputed, hvalid.2.2]
    · cases h
  · rintro ⟨hacc, rfl⟩
    have hsq := hseq.mpr hacc.sequence
    simp only [chainStep, hacc.timestamp, hsq, Bool.not_true, Bool.false_eq_true, if_false]
    cases hhash : entry.entryHash with
    | none =>
      have hseen := hacc.presence hhash
      simp [hashPresenceValid, hseen, auditChainStepValid]
    | some hash =>
      have hlink := hacc.link hash hhash
      have hcomp := hacc.hash hash hhash
      simp [hashPresenceValid, auditChainStepValid, hcomp, hlink]

/-- Accepted logs are accepted piece by piece. -/
theorem chainRun_append {st st' : ChainState} {xs ys : List AuditEntry} :
    chainRun d c st (xs ++ ys) = .ok (some st') ↔
      ∃ mid, chainRun d c st xs = .ok (some mid) ∧ chainRun d c mid ys = .ok (some st') := by
  induction xs generalizing st with
  | nil => simp [chainRun]
  | cons entry xs ih =>
    rw [List.cons_append, chainRun, chainRun]
    split
    · simp
    · simp
    · exact ih

theorem chainRun_cons {st st' : ChainState} {entry : AuditEntry} {rest : List AuditEntry} :
    chainRun d c st (entry :: rest) = .ok (some st') ↔
      Accepted d c st entry ∧ chainRun d c (st.next entry) rest = .ok (some st') := by
  rw [chainRun]
  constructor
  · intro h
    split at h
    · cases h
    · cases h
    · rename_i mid hmid
      obtain ⟨hacc, rfl⟩ := (chainStep_eq_some d c).mp hmid
      exact ⟨hacc, h⟩
  · rintro ⟨hacc, h⟩
    rw [(chainStep_eq_some d c).mpr ⟨hacc, rfl⟩]
    exact h

theorem chainRun_concat {st st' : ChainState} {xs : List AuditEntry} {entry : AuditEntry} :
    chainRun d c st (xs ++ [entry]) = .ok (some st') ↔
      ∃ mid, chainRun d c st xs = .ok (some mid) ∧ Accepted d c mid entry ∧ st' = mid.next entry := by
  rw [chainRun_append]
  refine exists_congr fun mid => and_congr_right fun _ => ?_
  rw [chainRun_cons]
  simp [chainRun, eq_comm]

/-- **The report is `valid` exactly when the walk comes to the end.** -/
theorem verifyLoop_valid_iff (st : ChainState) (i : Nat) (entries : List AuditEntry) :
    (∃ v, verifyLoop d c st i entries = .ok v ∧ v.valid = true) ↔
      ∃ st', chainRun d c st entries = .ok (some st') := by
  induction entries generalizing st i with
  | nil => simp [verifyLoop, chainRun]
  | cons entry rest ih =>
    rw [verifyLoop, chainRun]
    split
    · simp
    · simp
    · exact ih _ _

end Walk

/-- `verify_chain` reports valid. -/
def ReportsValid (r : Except AuditError ChainVerification) : Prop := ∃ v, r = .ok v ∧ v.valid = true

instance (r : Except AuditError ChainVerification) : Decidable (ReportsValid r) :=
  match r with
  | .error _ => isFalse (by rintro ⟨v, hv, -⟩; cases hv)
  | .ok v => decidable_of_iff (v.valid = true) ⟨fun h => ⟨v, rfl, h⟩, by rintro ⟨w, hw, h⟩; cases hw; exact h⟩

theorem verifyEntries_valid_iff (d : Digests H) (c : Canonical) (entries : List AuditEntry) :
    ReportsValid (verifyEntries d c entries) ↔ ∃ st, chainRun d c .start entries = .ok (some st) :=
  verifyLoop_valid_iff d c .start 0 entries

/-- A log of one entry that starts a chain. -/
theorem reportsValid_singleton {d : Digests H} {c : Canonical} {e : AuditEntry} {h : String}
    (hts : isUtc e.timestamp = true) (hprev : e.prevHash = none) (hhash : e.entryHash = some h)
    (hcomp : computeEntryHash d c e = .ok h) : ReportsValid (verifyEntries d c [e]) := by
  rw [verifyEntries_valid_iff]
  refine ⟨_, (chainRun_cons d c).mpr ⟨⟨?_, ?_, ?_, ?_, ?_⟩, rfl⟩⟩
  · rw [timestampOrderedAfter, hts]
    rfl
  · intro p hp
    cases hp
  · intro hnone
    rw [hhash] at hnone
    cases hnone
  · exact fun _ _ => hprev
  · intro h' hh'
    cases hhash.symm.trans hh'
    exact hcomp

/-! ## What the hash covers -/

/-- The fields of an entry that its hash covers; an absent `prev_hash` is hashed like an empty one. -/
structure CoveredFields where
  id : String
  action : Action
  verdict : Verdict
  timestamp : String
  metadata : Json
  sequence : Nat
  prevHash : String
deriving DecidableEq, Repr

def AuditEntry.covered (e : AuditEntry) : CoveredFields :=
  ⟨e.id, e.action, e.verdict, e.timestamp, e.metadata, e.sequence, e.prevHash.getD ""⟩

/-- The sizes of an entry in memory: the sequence number and every length are `u64`s. -/
structure AuditEntry.Fits (c : Canonical) (e : AuditEntry) : Prop where
  sequence : e.sequence < 2 ^ 64
  id : (strBytes e.id).length < 2 ^ 64
  timestamp : (strBytes e.timestamp).length < 2 ^ 64
  prevHash : (strBytes (e.prevHash.getD "")).length < 2 ^ 64
  action : ∀ bs, c.action e.action = .ok bs → bs.length < 2 ^ 64
  verdict : ∀ bs, c.verdict e.verdict = .ok bs → bs.length < 2 ^ 64
  metadata : ∀ bs, c.json e.metadata = .ok bs → bs.length < 2 ^ 64

/-- SHA-256 and canonical JSON have no collision between the two entries.  Both being injective gives
    this for all entries. -/
structure Distinguishes (d : Digests H) (c : Canonical) (e e' : AuditEntry) : Prop where
  action : ∀ bs, c.action e.action = .ok bs → c.action e'.action = .ok bs → e.action = e'.action
  verdict : ∀ bs, c.verdict e.verdict = .ok bs → c.verdict e'.verdict = .ok bs →
    e.verdict = e'.verdict
  metadata : ∀ bs, c.json e.metadata = .ok bs → c.json e'.metadata = .ok bs →
    e.metadata = e'.metadata
  sha256 : ∀ bs bs', entryPreimage c e = .ok bs → entryPreimage c e' = .ok bs' →
    d.sha256 bs = d.sha256 bs' → bs = bs'

theorem computeEntryHash_eq_ok {d : Digests H} {c : Canonical} {e : AuditEntry} {h : String} :
    computeEntryHash d c e = .ok h ↔
      ∃ bs, entryPreimage c e = .ok bs ∧ d.encodeHashHex (d.sha256 bs) = h := by
  rw [computeEntryHash]
  split
  · simp_all
  · simp_all

/-- The parts of the hashed bytes. -/
theorem entryPreimage_eq_ok {c : Canonical} {e : AuditEntry} {bs : List UInt8} :
    entryPreimage c e = .ok bs ↔ ∃ action verdict metadata, c.action e.action = .ok action ∧
      c.verdict e.verdict = .ok verdict ∧ c.json e.metadata = .ok metadata ∧
      bs = lengthPrefixed (strBytes e.id) ++ (toLeBytes e.sequence ++
        (lengthPrefixed action ++ (lengthPrefixed verdict ++
          (lengthPrefixed (strBytes e.timestamp) ++ (lengthPrefixed metadata ++
            lengthPrefixed (strBytes (e.prevHash.getD ""))))))) := by
  rw [entryPreimage]
  cases ha : c.action e.action with
  | error err => simp
  | ok action =>
    cases hv : c.verdict e.verdict with
    | error err => simp
    | ok verdict =>
      cases hm : c.json e.metadata with
      | error err => simp
      | ok metadata => simp [eq_comm]

/-- **The encoding can be read in one way only**: entries with the same hash agree on the fields it
    covers. -/
theorem covered_eq_of_hash_eq {d : Digests H} {c : Canonical} {e e' : AuditEntry} {h : String}
    (hfit : e.Fits c) (hfit' : e'.Fits c) (hd : Distinguishes d c e e')
    (he : computeEntryHash d c e = .ok h) (he' : computeEntryHash d c e' = .ok h) :
    e.covered = e'.covered := by
  obtain ⟨bs, hbs, hhash⟩ := computeEntryHash_eq_ok.mp he
  obtain ⟨bs', hbs', hhash'⟩ := computeEntryHash_eq_ok.mp he'
  obtain rfl := hd.sha256 bs bs' hbs hbs' (d.encodeHashHex_injective (hhash.trans hhash'.symm))
  obtain ⟨a, v, m, ha, hv, hm, rfl⟩ := entryPreimage_eq_ok.mp hbs
  obtain ⟨a', v', m', ha', hv', hm', heq⟩ := entryPreimage_eq_ok.mp hbs'
  -- one field after the other is split off the front
  obtain ⟨hid, h₁⟩ := lengthPrefixed_append_inj hfit.id hfit'.id heq
  obtain ⟨hseq, h₂⟩ := toLeBytes_append_inj hfit.sequence hfit'.sequence h₁
  obtain ⟨hact, h₃⟩ := lengthPrefixed_append_inj (hfit.action a ha) (hfit'.action a' ha') h₂
  obtain ⟨hver, h₄⟩ := lengthPrefixed_append_inj (hfit.verdict v hv) (hfit'.verdict v' hv') h₃
  obtain ⟨hts, h₅⟩ := lengthPrefixed_append_inj hfit.timestamp hfit'.timestamp h₄
  obtain ⟨hmet, h₆⟩ := lengthPrefixed_append_inj (hfit.metadata m hm) (hfit'.metadata m' hm') h₅
  have hprev := lengthPrefixed_inj hfit.prevHash hfit'.prevHash h₆
  rw [AuditEntry.covered, AuditEntry.covered, strBytes_injective hid, hseq,
    hd.action a ha (hact ▸ ha'), hd.verdict v hv (hver ▸ hv'), strBytes_injective hts,
    hd.metadata m hm (hmet ▸ hm'), strBytes_injective hprev]

/-- Two entries that differ in nothing but the fields outside the hash. -/
def SameHashed (e e' : AuditEntry) : Prop :=
  e' = { e with commitment := e'.commitment, tenantId := e'.tenantId, acisEnvelope := e'.acisEnvelope }

instance (e e' : AuditEntry) : Decidable (SameHashed e e') :=
  inferInstanceAs (Decidable (e' = _))

theorem verifyLoop_congr (d : Digests H) (c : Canonical) {e e' : AuditEntry} (hsame : SameHashed e e')
    (st : ChainState) (i : Nat) (pre post : List AuditEntry) :
    verifyLoop d c st i (pre ++ e' :: post) = verifyLoop d c st i (pre ++ e :: post) := by
  induction pre generalizing st i with
  | nil =>
    have hstep : chainStep d c st e' = chainStep d c st e := by rw [hsame]; rfl
    rw [List.nil_append, List.nil_append, verifyLoop, verifyLoop, hstep]
  | cons x pre ih =>
    rw [List.cons_append, List.cons_append, verifyLoop, verifyLoop]
    split
    · rfl
    · rfl
    · exact ih _ _

/-- **What the entry hash covers.**  Entries with the same hash agree on the covered fields; if one of
    them, or `prev_hash`, of a hashed entry of an accepted log is changed, the log is no longer
    accepted; the commitment, the tenant and the ACIS envelope can be changed without any effect on
    the report. -/
theorem entry_hash_covers (d : Digests H) (c : Canonical) (e e' : AuditEntry) (hfit : e.Fits c)
    (hfit' : e'.Fits c) (hd : Distinguishes d c e e') :
    (∀ h, computeEntryHash d c e = .ok h → computeEntryHash d c e' = .ok h →
      e.covered = e'.covered) ∧
    (∀ pre post h, ReportsValid (verifyEntries d c (pre ++ e :: post)) →
      e.entryHash = some h → e'.entryHash = some h →
      (e'.covered ≠ e.covered ∨ e'.prevHash ≠ e.prevHash) →
      ¬ReportsValid (verifyEntries d c (pre ++ e' :: post))) ∧
    (SameHashed e e' → ∀ pre post,
      verifyEntries d c (pre ++ e' :: post) = verifyEntries d c (pre ++ e :: post)) := by
  refine ⟨fun h => covered_eq_of_hash_eq hfit hfit' hd, ?_, ?_⟩
  · intro pre post h hvalid hhash hhash' hchange hvalid'
    rw [verifyEntries_valid_iff] at hvalid hvalid'
    obtain ⟨st, hst⟩ := hvalid
    obtain ⟨st', hst'⟩ := hvalid'
    obtain ⟨mid, hmid, hrun⟩ := (chainRun_append d c).mp hst
    obtain ⟨mid', hmid', hrun'⟩ := (chainRun_append d c).mp hst'
    -- both walks reach the entry in the same state
    obtain rfl : mid = mid' := Option.some.inj (Except.ok.inj (hmid.symm.trans hmid'))
    have hacc := ((chainRun_cons d c).mp hrun).1
    have hacc' := ((chainRun_cons d c).mp hrun').1
    rcases hchange with hne | hne
    · exact hne (covered_eq_of_hash_eq hfit hfit' hd (hacc.hash h hhash) (hacc'.hash h hhash')).symm
    · exact hne ((hacc'.link h hhash').trans (hacc.link h hhash).symm)
  · intro hsame pre post
    exact verifyLoop_congr d c hsame .start 0 pre post

/-! ### Plain entries -/

/-- The JSON value of an action; empty target lists are left out. -/
def actionJson (a : Action) : Json :=
  let targets (key : String) (xs : List String) : List (String × Json) :=
    if xs.isEmpty then [] else [(key, .array (xs.map .string))]
  .object ([("function", .string a.function), ("parameters", a.parameters)] ++
    targets "resolved_ips" a.resolvedIps ++ targets "target_domains" a.targetDomains ++
    targets "target_paths" a.targetPaths ++ [("tool", .string a.tool)])

/-- The JSON value of a verdict. -/
def verdictJson : Verdict → Json
  | .allow => .string "Allow"
  | .deny reason => .object [("Deny", .object [("reason", .string reason)])]
  | .requireApproval reason => .object [("RequireApproval", .object [("reason", .string reason)])]

/-- Canonical JSON on values that need no escapes. -/
def plainCanonical : Canonical where
  action a := .ok (strBytes (plainJsonText (actionJson a)))
  verdict v := .ok (strBytes (plainJsonText (verdictJson v)))
  json v := .ok (strBytes (plainJsonText v))

/-- An entry as `log_entry` writes it to an empty log. -/
def plainEntry (metadata : Json) (hash : Option String) : AuditEntry where
  id := "1"
  action := .new "t" "f" .null
  verdict := .allow
  timestamp := "2026+00:00"
  metadata := metadata
  sequence := 0
  entryHash := hash
  prevHash := none
  commitment := none
  tenantId := none
  acisEnvelope := none

/-- The hash of the plain entry with metadata `null`. -/
def plainHash : String :=
  match computeEntryHash plainDigests plainCanonical (plainEntry .null none) with
  | .ok h => h
  | .error _ => ""

theorem plainEntry_fits (metadata : Json) (hash : Option String)
    (hshort : (strBytes (plainJsonText metadata)).length < 2 ^ 64) :
    (plainEntry metadata hash).Fits plainCanonical where
  sequence := by
    show 0 < 2 ^ 64
    omega
  id := by
    show (strBytes "1").length < 2 ^ 64
    decide +kernel
  timestamp := by
    show (strBytes "2026+00:00").length < 2 ^ 64
    decide +kernel
  prevHash := by
    show (strBytes "").length < 2 ^ 64
    decide +kernel
  action bs h := by
    cases h
    show (strBytes (plainJsonText (actionJson (.new "t" "f" .null)))).length < 2 ^ 64
    decide +kernel
  verdict bs h := by
    cases h
    show (strBytes (plainJsonText (verdictJson .allow))).length < 2 ^ 64
    decide +kernel
  metadata bs h := by
    cases h
    exact hshort

/-- Changing the metadata of a logged entry is detected. -/
theorem entry_hash_covers_metadata :
    ReportsValid (verifyEntries plainDigests plainCanonical [plainEntry .null (some plainHash)]) ∧
    ¬ReportsValid (verifyEntries plainDigests plainCanonical
      [plainEntry (.bool true) (some plainHash)]) := by
  have hvalid : ReportsValid
      (verifyEntries plainDigests plainCanonical [plainEntry .null (some plainHash)]) :=
    reportsValid_singleton (by decide +kernel) rfl rfl rfl
  refine ⟨hvalid, (entry_hash_covers plainDigests plainCanonical (plainEntry .null (some plainHash))
    (plainEntry (.bool true) (some plainHash)) (plainEntry_fits _ _ (by decide +kernel))
    (plainEntry_fits _ _ (by decide +kernel)) ⟨?_, ?_, ?_, ?_⟩).2.1 [] [] plainHash hvalid rfl rfl
    (.inl ?_)⟩
  rotate_right
  · intro heq
    cases congrArg CoveredFields.metadata heq
  · exact fun _ _ _ => rfl
  · exact fun _ _ _ => rfl
  · intro bs h h'
    have hne : plainCanonical.json .null ≠ plainCanonical.json (.bool true) := by decide +kernel
    exact absurd (h.trans h'.symm) hne
  · exact fun _ _ _ _ h => h

/-- **Three fields are outside the hash**: the entry of one tenant, given to another. -/
theorem tenantId_not_covered :
    let entry := plainEntry .null (some plainHash)
    let moved := { entry with tenantId := some "other" }
    moved ≠ entry ∧
    computeEntryHash plainDigests plainCanonical moved =
      computeEntryHash plainDigests plainCanonical entry ∧
    ReportsValid (verifyEntries plainDigests plainCanonical [entry]) ∧
    ReportsValid (verifyEntries plainDigests plainCanonical [moved]) := by
  refine ⟨?_, rfl, ?_, ?_⟩
  · intro heq
    cases congrArg AuditEntry.tenantId heq
  · exact reportsValid_singleton (by decide +kernel) rfl rfl rfl
  · exact reportsValid_singleton (by decide +kernel) rfl rfl rfl

end Vellaveto.Audit
