/-
  AGENT-TO-AGENT MESSAGE INTEGRITY (`vellaveto-mcp/src/a2a_integrity.rs`).

  The tracker remembers the ids of messages and, for each claimed sender, the sequence number of its
  last message.  Two things limit what it can promise over a long history:

    1. the memory of ids takes `MAX_MESSAGE_IDS` ids and no more, so an id that is first used later can
       be used again unseen;
    2. the number of a sender is OVERWRITTEN by every message, a flagged one included, so a number is
       compared with the last one and not with the largest; and a number zero is never compared.

  `a2a_reports` says exactly which replayed and out-of-order messages are reported.  A message may also
  make the tracker panic: its findings quote the first 32 bytes of the texts.
-/
import Mathlib.Data.List.AList
import Vellaveto.Lib.Memory
import Vellaveto.Lib.Run
import Vellaveto.Lib.Slice
import Vellaveto.Lib.Table

namespace Vellaveto.A2aIntegrity

open Vellaveto.Lib

/-- `MAX_MESSAGE_IDS`. -/
def maxMessageIds : Nat := 10000

/-- `A2aIntegrityType`. -/
inductive A2aIntegrityType where
  | replayDetected
  | senderSpoofing
  | timestampAnomaly
  | sequenceAnomaly
  | contentTampering
deriving DecidableEq

/-- `A2aIntegrityFinding`. -/
structure A2aIntegrityFinding where
  findingType : A2aIntegrityType
  confidence : Nat
  description : String
deriving DecidableEq

/-- `A2aIntegrityTracker`. -/
structure A2aIntegrityTracker where
  seenIds : Finset String
  senderSequences : AList fun _ : String => Nat
  maxAgeSecs : Nat

/-- `A2aIntegrityTracker::new`. -/
def A2aIntegrityTracker.new (maxAgeSecs : Nat) : A2aIntegrityTracker := ⟨∅, ∅, maxAgeSecs⟩

/-- The arguments of `verify_message`, with the time at which it reads the clock. -/
structure A2aMessage where
  messageId : String
  claimedSender : String
  authenticatedSender : Option String
  timestampEpochSecs : Nat
  sequenceNum : Option Nat
  nowSecs : Nat

/-! ## The four checks: `none` is a panic -/

/-- Replay detection. -/
def checkReplay (t : A2aIntegrityTracker) (m : A2aMessage) : Option (List A2aIntegrityFinding) :=
  if m.messageId ∈ t.seenIds then
    (clipBytes 32 m.messageId).map fun shortId =>
      [⟨.replayDetected, 95, "Message ID '" ++ shortId ++ "' was already processed"⟩]
  else some []

/-- Sender spoofing. -/
def checkSender (m : A2aMessage) : Option (List A2aIntegrityFinding) :=
  match m.authenticatedSender with
  | none => some []
  | some auth =>
    if auth = m.claimedSender then some []
    else (clipBytes 32 m.claimedSender).bind fun claimed =>
      (clipBytes 32 auth).map fun auth =>
        [⟨.senderSpoofing, 90, "Claimed sender '" ++ claimed ++ "' != authenticated '" ++ auth ++ "'"⟩]

/-- The timestamp check; `now_secs + 60` is a checked addition. -/
def checkTimestamp (t : A2aIntegrityTracker) (m : A2aMessage) : Option (List A2aIntegrityFinding) :=
  if 0 < m.nowSecs ∧ 0 < m.timestampEpochSecs then
    if 2 ^ 64 ≤ m.nowSecs + 60 then none
    else
      let age := m.nowSecs - m.timestampEpochSecs
      let old := if t.maxAgeSecs < age then
        [⟨.timestampAnomaly, 70,
          "Message is " ++ toString age ++ "s old (max " ++ toString t.maxAgeSecs ++ "s)"⟩] else []
      let future := if m.nowSecs + 60 < m.timestampEpochSecs then
        [⟨.timestampAnomaly, 80,
          "Message timestamp " ++ toString (m.timestampEpochSecs - m.nowSecs) ++ "s in the future"⟩]
        else []
      some (old ++ future)
  else some []

/-- The number that a message is compared with. -/
def lastSequence (t : A2aIntegrityTracker) (sender : String) : Nat :=
  (t.senderSequences.lookup sender).getD 0

/-- The test of the sequence check. -/
def OutOfOrder (t : A2aIntegrityTracker) (m : A2aMessage) (seq : Nat) : Prop :=
  0 < seq ∧ 0 < lastSequence t m.claimedSender ∧ seq ≤ lastSequence t m.claimedSender

instance (t : A2aIntegrityTracker) (m : A2aMessage) (seq : Nat) : Decidable (OutOfOrder t m seq) :=
  inferInstanceAs (Decidable (_ ∧ _ ∧ _))

/-- The sequence check. -/
def checkSequence (t : A2aIntegrityTracker) (m : A2aMessage) : Option (List A2aIntegrityFinding) :=
  match m.sequenceNum with
  | none => some []
  | some seq =>
    if OutOfOrder t m seq then
      (clipBytes 32 m.claimedSender).map fun sender =>
        [⟨.sequenceAnomaly, 75, "Sequence " ++ toString seq ++ " <= last seen " ++
          toString (lastSequence t m.claimedSender) ++ " from '" ++ sender ++ "'"⟩]
    else some []

/-- The tracker after a message. -/
def afterMessage (t : A2aIntegrityTracker) (m : A2aMessage) : A2aIntegrityTracker where
  seenIds := remember maxMessageIds t.seenIds m.messageId
  senderSequences :=
    match m.sequenceNum with
    | some seq => t.senderSequences.insert m.claimedSender seq
    | none => t.senderSequences
  maxAgeSecs := t.maxAgeSecs

/-- `verify_message`. -/
def verifyMessage (t : A2aIntegrityTracker) (m : A2aMessage) :
    Option (A2aIntegrityTracker × List A2aIntegrityFinding) := do
  let replay ← checkReplay t m
  let spoofing ← checkSender m
  let timestamp ← checkTimestamp t m
  let sequence ← checkSequence t m
  some (afterMessage t m, replay ++ spoofing ++ timestamp ++ sequence)

/-- `clear_sender`. -/
def clearSender (t : A2aIntegrityTracker) (sender : String) : A2aIntegrityTracker :=
  { t with senderSequences := t.senderSequences.erase sender }

/-! ## Runs -/

/-- A call on the tracker. -/
inductive A2aCall where
  | verifyMessage (m : A2aMessage)
  | clearSender (sender : String)

/-- The tracker after a call. -/
def step (t : A2aIntegrityTracker) : A2aCall → Option A2aIntegrityTracker
  | .verifyMessage m => (verifyMessage t m).map Prod.fst
  | .clearSender sender => some (clearSender t sender)

/-- The message ids that were used, in order. -/
def usedIds (calls : List A2aCall) : List String :=
  calls.filterMap fun call =>
    match call with
    | .verifyMessage m => some m.messageId
    | .clearSender _ => none

/-- The sequence numbers of a sender since it was last cleared, in order. -/
def sequencesOf (sender : String) (calls : List A2aCall) : List Nat :=
  calls.foldl (fun numbers call =>
    match call with
    | .verifyMessage m =>
      if m.claimedSender = sender then numbers ++ m.sequenceNum.toList else numbers
    | .clearSender cleared => if cleared = sender then [] else numbers) []

/-- The message is reported with a finding of this type. -/
def Reports (t : A2aIntegrityTracker) (m : A2aMessage) (findingType : A2aIntegrityType) : Prop :=
  ∃ t' fs, verifyMessage t m = some (t', fs) ∧ ∃ f ∈ fs, f.findingType = findingType

/-- The text can be cut to 32 bytes. -/
def Cuttable (text : String) : Prop := (clipBytes 32 text).isSome

/-- The message does not make the tracker panic: the texts that a finding quotes can be cut, and a
    minute from now is a time. -/
structure Answers (t : A2aIntegrityTracker) (m : A2aMessage) : Prop where
  replay : m.messageId ∈ t.seenIds → Cuttable m.messageId
  sender : ∀ auth, m.authenticatedSender = some auth → auth ≠ m.claimedSender →
    Cuttable m.claimedSender ∧ Cuttable auth
  clock : 0 < m.nowSecs → 0 < m.timestampEpochSecs → m.nowSecs + 60 < 2 ^ 64
  sequence : ∀ seq, m.sequenceNum = some seq → OutOfOrder t m seq → Cuttable m.claimedSender

/-! ## When a message is answered -/

theorem checkReplay_isSome (t : A2aIntegrityTracker) (m : A2aMessage) :
    (checkReplay t m).isSome ↔ (m.messageId ∈ t.seenIds → Cuttable m.messageId) := by
  unfold checkReplay
  split
  · rename_i hseen
    rw [Option.isSome_map]
    exact ⟨fun h _ => h, fun h => h hseen⟩
  · rename_i hnew
    exact ⟨fun _ h => absurd h hnew, fun _ => rfl⟩

theorem checkSender_isSome (m : A2aMessage) :
    (checkSender m).isSome ↔ ∀ auth, m.authenticatedSender = some auth → auth ≠ m.claimedSender →
      Cuttable m.claimedSender ∧ Cuttable auth := by
  unfold checkSender
  cases m.authenticatedSender with
  | none => simp
  | some auth =>
    by_cases hsame : auth = m.claimedSender
    · simp [hsame]
    · have hboth : ((clipBytes 32 m.claimedSender).bind fun claimed =>
          (clipBytes 32 auth).map fun auth => ([⟨.senderSpoofing, 90, "Claimed sender '" ++ claimed ++
            "' != authenticated '" ++ auth ++ "'"⟩] : List A2aIntegrityFinding)).isSome ↔
            Cuttable m.claimedSender ∧ Cuttable auth := by
        unfold Cuttable
        cases clipBytes 32 m.claimedSender <;> simp
      simp only [if_neg hsame, hboth, Option.some.injEq, forall_eq']
      exact ⟨fun h _ => h, fun h => h hsame⟩

theorem checkTimestamp_isSome (t : A2aIntegrityTracker) (m : A2aMessage) :
    (checkTimestamp t m).isSome ↔
      (0 < m.nowSecs → 0 < m.timestampEpochSecs → m.nowSecs + 60 < 2 ^ 64) := by
  unfold checkTimestamp
  by_cases hchecked : 0 < m.nowSecs ∧ 0 < m.timestampEpochSecs
  · rw [if_pos hchecked]
    by_cases hover : 2 ^ 64 ≤ m.nowSecs + 60
    · rw [if_pos hover]
      refine ⟨fun h => (by cases h), fun h => ?_⟩
      exact absurd (h hchecked.1 hchecked.2) (Nat.not_lt.mpr hover)
    · rw [if_neg hover]
      exact ⟨fun _ _ _ => Nat.not_le.mp hover, fun _ => rfl⟩
  · rw [if_neg hchecked]
    exact ⟨fun _ hnow htime => absurd ⟨hnow, htime⟩ hchecked, fun _ => rfl⟩

theorem checkSequence_isSome (t : A2aIntegrityTracker) (m : A2aMessage) :
    (checkSequence t m).isSome ↔
      ∀ seq, m.sequenceNum = some seq → OutOfOrder t m seq → Cuttable m.claimedSender := by
  unfold checkSequence
  cases m.sequenceNum with
  | none => simp
  | some seq =>
    by_cases hout : OutOfOrder t m seq
    · simp only [if_pos hout, Option.isSome_map, Option.some.injEq, forall_eq']
      exact ⟨fun h _ => h, fun h => h hout⟩
    · simp [hout]

/-- What a message that is answered does. -/
theorem verifyMessage_eq_some {t t' : A2aIntegrityTracker} {m : A2aMessage}
    {fs : List A2aIntegrityFinding} :
    verifyMessage t m = some (t', fs) ↔
      ∃ replay spoofing timestamp sequence, checkReplay t m = some replay ∧
        checkSender m = some spoofing ∧ checkTimestamp t m = some timestamp ∧
        checkSequence t m = some sequence ∧ t' = afterMessage t m ∧
        fs = replay ++ spoofing ++ timestamp ++ sequence := by
  simp only [verifyMessage, Option.bind_eq_bind, Option.bind_eq_some_iff, Option.some.injEq,
    Prod.mk.injEq]
  constructor
  · rintro ⟨r, hr, s, hs, u, hu, q, hq, rfl, rfl⟩
    exact ⟨r, s, u, q, hr, hs, hu, hq, rfl, rfl⟩
  · rintro ⟨r, s, u, q, hr, hs, hu, hq, rfl, rfl⟩
    exact ⟨r, hr, s, hs, u, hu, q, hq, rfl, rfl⟩

theorem exists_verifyMessage_iff (t : A2aIntegrityTracker) (m : A2aMessage) :
    (∃ t' fs, verifyMessage t m = some (t', fs)) ↔ Answers t m := by
  constructor
  · rintro ⟨t', fs, h⟩
    obtain ⟨r, s, u, q, hr, hs, hu, hq, -, -⟩ := verifyMessage_eq_some.mp h
    exact ⟨(checkReplay_isSome t m).mp (Option.isSome_of_eq_some hr),
      (checkSender_isSome m).mp (Option.isSome_of_eq_some hs),
      (checkTimestamp_isSome t m).mp (Option.isSome_of_eq_some hu),
      (checkSequence_isSome t m).mp (Option.isSome_of_eq_some hq)⟩
  · intro h
    obtain ⟨r, hr⟩ := Option.isSome_iff_exists.mp ((checkReplay_isSome t m).mpr h.replay)
    obtain ⟨s, hs⟩ := Option.isSome_iff_exists.mp ((checkSender_isSome m).mpr h.sender)
    obtain ⟨u, hu⟩ := Option.isSome_iff_exists.mp ((checkTimestamp_isSome t m).mpr h.clock)
    obtain ⟨q, hq⟩ := Option.isSome_iff_exists.mp ((checkSequence_isSome t m).mpr h.sequence)
    exact ⟨_, _, verifyMessage_eq_some.mpr ⟨r, s, u, q, hr, hs, hu, hq, rfl, rfl⟩⟩

/-! ## What is reported -/

theorem replay_findings {t : A2aIntegrityTracker} {m : A2aMessage} {fs : List A2aIntegrityFinding}
    (h : checkReplay t m = some fs) :
    (∀ f ∈ fs, f.findingType = .replayDetected) ∧ (fs ≠ [] ↔ m.messageId ∈ t.seenIds) := by
  unfold checkReplay at h
  split at h
  · rename_i hseen
    obtain ⟨_, _, rfl⟩ := Option.map_eq_some_iff.mp h
    simp [hseen]
  · rename_i hnew
    cases h
    simp [hnew]

theorem sender_findings {m : A2aMessage} {fs : List A2aIntegrityFinding}
    (h : checkSender m = some fs) : ∀ f ∈ fs, f.findingType = .senderSpoofing := by
  unfold checkSender at h
  split at h
  · cases h
    simp
  · split at h
    · cases h
      simp
    · obtain ⟨_, _, h⟩ := Option.bind_eq_some_iff.mp h
      obtain ⟨_, _, rfl⟩ := Option.map_eq_some_iff.mp h
      simp

theorem timestamp_findings {t : A2aIntegrityTracker} {m : A2aMessage}
    {fs : List A2aIntegrityFinding} (h : checkTimestamp t m = some fs) :
    ∀ f ∈ fs, f.findingType = .timestampAnomaly := by
  unfold checkTimestamp at h
  split at h
  · split at h
    · cases h
    · cases h
      intro f hf
      rcases List.mem_append.mp hf with hf | hf <;> split at hf
      · rw [List.mem_singleton.mp hf]
      · cases hf
      · rw [List.mem_singleton.mp hf]
      · cases hf
  · cases h
    simp

theorem sequence_findings {t : A2aIntegrityTracker} {m : A2aMessage}
    {fs : List A2aIntegrityFinding} (h : checkSequence t m = some fs) :
    (∀ f ∈ fs, f.findingType = .sequenceAnomaly) ∧
      (fs ≠ [] ↔ ∃ seq, m.sequenceNum = some seq ∧ OutOfOrder t m seq) := by
  unfold checkSequence at h
  split at h
  · rename_i hnone
    cases h
    simp [hnone]
  · rename_i seq hseq
    split at h
    · rename_i hout
      obtain ⟨_, _, rfl⟩ := Option.map_eq_some_iff.mp h
      simp [hseq, hout]
    · rename_i hin
      cases h
      simp [hseq, hin]

/-- `ReplayDetected` is reported exactly for the remembered ids. -/
theorem reports_replayDetected (t : A2aIntegrityTracker) (m : A2aMessage) :
    Reports t m .replayDetected ↔ m.messageId ∈ t.seenIds ∧ Answers t m := by
  constructor
  · rintro ⟨t', fs, h, f, hf, htype⟩
    refine ⟨?_, (exists_verifyMessage_iff t m).mp ⟨t', fs, h⟩⟩
    obtain ⟨r, s, u, q, hr, hs, hu, hq, -, rfl⟩ := verifyMessage_eq_some.mp h
    simp only [List.mem_append] at hf
    rcases hf with ((hf | hf) | hf) | hf
    · exact (replay_findings hr).2.mp (List.ne_nil_of_mem hf)
    · cases htype.symm.trans (sender_findings hs f hf)
    · cases htype.symm.trans (timestamp_findings hu f hf)
    · cases htype.symm.trans ((sequence_findings hq).1 f hf)
  · rintro ⟨hseen, hanswers⟩
    obtain ⟨t', fs, h⟩ := (exists_verifyMessage_iff t m).mpr hanswers
    obtain ⟨r, s, u, q, hr, hs, hu, hq, -, rfl⟩ := verifyMessage_eq_some.mp h
    obtain ⟨f, hf⟩ := List.exists_mem_of_ne_nil r ((replay_findings hr).2.mpr hseen)
    refine ⟨t', _, h, f, ?_, (replay_findings hr).1 f hf⟩
    simp only [List.mem_append]
    exact .inl (.inl (.inl hf))

/-- `SequenceAnomaly` is reported exactly for the numbers that are out of order. -/
theorem reports_sequenceAnomaly (t : A2aIntegrityTracker) (m : A2aMessage) :
    Reports t m .sequenceAnomaly ↔
      (∃ seq, m.sequenceNum = some seq ∧ OutOfOrder t m seq) ∧ Answers t m := by
  constructor
  · rintro ⟨t', fs, h, f, hf, htype⟩
    refine ⟨?_, (exists_verifyMessage_iff t m).mp ⟨t', fs, h⟩⟩
    obtain ⟨r, s, u, q, hr, hs, hu, hq, -, rfl⟩ := verifyMessage_eq_some.mp h
    simp only [List.mem_append] at hf
    rcases hf with ((hf | hf) | hf) | hf
    · cases htype.symm.trans ((replay_findings hr).1 f hf)
    · cases htype.symm.trans (sender_findings hs f hf)
    · cases htype.symm.trans (timestamp_findings hu f hf)
    · exact (sequence_findings hq).2.mp (List.ne_nil_of_mem hf)
  · rintro ⟨hout, hanswers⟩
    obtain ⟨t', fs, h⟩ := (exists_verifyMessage_iff t m).mpr hanswers
    obtain ⟨r, s, u, q, hr, hs, hu, hq, -, rfl⟩ := verifyMessage_eq_some.mp h
    obtain ⟨f, hf⟩ := List.exists_mem_of_ne_nil q ((sequence_findings hq).2.mpr hout)
    refine ⟨t', _, h, f, ?_, (sequence_findings hq).1 f hf⟩
    simp only [List.mem_append]
    exact .inr hf

/-! ## What the tracker remembers of a run -/

theorem usedIds_append (calls : List A2aCall) (call : A2aCall) :
    usedIds (calls ++ [call]) = usedIds calls ++ usedIds [call] := by
  rw [usedIds, List.filterMap_append]
  rfl

/-- **The memory after a run.**  The ids are those that a bounded memory keeps of the used ones, and the
    number of a sender is its last one. -/
theorem run_memory {maxAgeSecs : Nat} {calls : List A2aCall} {t : A2aIntegrityTracker}
    (hrun : run step (.new maxAgeSecs) calls = some t) :
    t.seenIds = rememberAll maxMessageIds (usedIds calls) ∧
      ∀ sender, t.senderSequences.lookup sender = (sequencesOf sender calls).getLast? := by
  induction calls using List.reverseRecOn generalizing t with
  | nil =>
    cases hrun
    exact ⟨rfl, fun sender => rfl⟩
  | append_singleton calls call ih =>
    obtain ⟨u, hu, hlast⟩ := run_append_eq_some.mp hrun
    obtain ⟨v, hstep, hnil⟩ := run_cons_eq_some.mp hlast
    cases hnil
    obtain ⟨hseen, hnumbers⟩ := ih hu
    cases call with
    | verifyMessage m =>
      obtain ⟨⟨u', fs⟩, hverify, hfst⟩ := Option.map_eq_some_iff.mp hstep
      obtain ⟨-, -, -, -, -, -, -, -, rfl, -⟩ := verifyMessage_eq_some.mp hverify
      cases hfst
      refine ⟨?_, fun sender => ?_⟩
      · rw [usedIds_append, rememberAll, List.foldl_append, ← rememberAll, ← hseen]
        rfl
      · rw [sequencesOf, List.foldl_append, ← sequencesOf]
        show (afterMessage u m).senderSequences.lookup sender =
          (if m.claimedSender = sender then sequencesOf sender calls ++ m.sequenceNum.toList
            else sequencesOf sender calls).getLast?
        unfold afterMessage
        cases m.sequenceNum with
        | none => simp [hnumbers]
        | some seq =>
          show (u.senderSequences.insert m.claimedSender seq).lookup sender = _
          rw [lookup_insert_eq]
          by_cases hsender : m.claimedSender = sender
          · simp [hsender]
          · simp [hsender, Ne.symm hsender, hnumbers]
    | clearSender cleared =>
      cases hstep
      refine ⟨?_, fun sender => ?_⟩
      · rw [usedIds_append]
        exact hseen.trans (by rw [show usedIds [.clearSender cleared] = [] from rfl, List.append_nil])
      · rw [sequencesOf, List.foldl_append, ← sequencesOf]
        show (u.senderSequences.erase cleared).lookup sender =
          (if cleared = sender then [] else sequencesOf sender calls).getLast?
        rw [lookup_erase_eq]
        by_cases hsender : cleared = sender
        · simp [hsender]
        · simp [hsender, Ne.symm hsender, hnumbers]

/-- **Which replayed and out-of-order messages are reported.**  After any calls that the tracker
    survived, and for every message that it answers:

      1. a message whose id was used before is reported as a replay exactly if fewer than
         `MAX_MESSAGE_IDS` other ids had been used before that id was first used;
      2. a message whose number is not above the LARGEST of its sender since it was cleared is reported
         exactly if the number is positive and not above the LAST one. -/
theorem a2a_reports {maxAgeSecs : Nat} {calls : List A2aCall} {t : A2aIntegrityTracker}
    (hrun : run step (.new maxAgeSecs) calls = some t) (m : A2aMessage) :
    (m.messageId ∈ usedIds calls →
      (Reports t m .replayDetected ↔
        distinctBefore (usedIds calls) m.messageId < maxMessageIds ∧ Answers t m)) ∧
    ∀ seq largest, m.sequenceNum = some seq →
      largest ∈ sequencesOf m.claimedSender calls →
      (∀ n ∈ sequencesOf m.claimedSender calls, n ≤ largest) → seq ≤ largest →
      (Reports t m .sequenceAnomaly ↔
        (0 < seq ∧ ∃ last, (sequencesOf m.claimedSender calls).getLast? = some last ∧ seq ≤ last) ∧
          Answers t m) := by
  obtain ⟨hseen, hnumbers⟩ := run_memory hrun
  refine ⟨fun hused => ?_, fun seq largest hseq _ _ _ => ?_⟩
  · rw [reports_replayDetected, hseen, mem_rememberAll]
    exact and_congr_left fun _ => ⟨fun h => h.2, fun h => ⟨hused, h⟩⟩
  · rw [reports_sequenceAnomaly]
    refine and_congr_left fun _ => ?_
    rw [hseq]
    simp only [Option.some.injEq, exists_eq_left']
    rw [OutOfOrder, lastSequence, hnumbers]
    cases (sequencesOf m.claimedSender calls).getLast? with
    | none => simp
    | some last =>
      simp only [Option.getD_some, Option.some.injEq, exists_eq_left']
      omega

/-- A message of one agent. -/
def agentMessage (messageId : String) (seq : Nat) : A2aMessage :=
  ⟨messageId, "agent-A", none, 0, some seq, 0⟩

/-- A message that comes a second time, with its number, is reported on both counts. -/
theorem a2a_reports_second_use :
    Reports (afterMessage (.new 300) (agentMessage "msg-1" 5)) (agentMessage "msg-1" 5)
        .replayDetected ∧
      Reports (afterMessage (.new 300) (agentMessage "msg-1" 5)) (agentMessage "msg-1" 5)
        .sequenceAnomaly := by
  have hrun : run step (.new 300) [.verifyMessage (agentMessage "msg-1" 5)] =
      some (afterMessage (.new 300) (agentMessage "msg-1" 5)) := rfl
  have hanswers : Answers (afterMessage (.new 300) (agentMessage "msg-1" 5))
      (agentMessage "msg-1" 5) := by
    have hid : Cuttable "msg-1" := by show (clipBytes 32 "msg-1").isSome; decide
    have hsender : Cuttable "agent-A" := by show (clipBytes 32 "agent-A").isSome; decide
    refine ⟨fun _ => hid, ?_, ?_, fun _ _ _ => hsender⟩
    · intro auth hauth
      cases hauth
    · intro hnow
      exact absurd hnow (by decide)
  obtain ⟨hreplay, hsequence⟩ := a2a_reports hrun (agentMessage "msg-1" 5)
  have hnumbers : sequencesOf "agent-A" [.verifyMessage (agentMessage "msg-1" 5)] = [5] := by decide
  refine ⟨(hreplay (by decide)).mpr ⟨by decide, hanswers⟩, ?_⟩
  refine (hsequence 5 5 rfl ?_ ?_ le_rfl).mpr ⟨⟨by decide, 5, ?_, le_rfl⟩, hanswers⟩
  · show 5 ∈ sequencesOf "agent-A" _
    rw [hnumbers]
    exact List.mem_cons_self
  · show ∀ n ∈ sequencesOf "agent-A" _, n ≤ 5
    rw [hnumbers]
    simp
  · show (sequencesOf "agent-A" _).getLast? = some 5
    rw [hnumbers]
    rfl

/-- A flagged message lowers the number: after 5 and then 3, the number 4 is accepted without a
    finding, although 5 was seen. -/
theorem lowered_number_is_accepted :
    let calls := [A2aCall.verifyMessage (agentMessage "msg-1" 5),
      .verifyMessage (agentMessage "msg-2" 3)]
    5 ∈ sequencesOf "agent-A" calls ∧
      ((run step (.new 300) calls).bind fun t =>
        (verifyMessage t (agentMessage "msg-3" 4)).map Prod.snd) = some [] := by
  decide +kernel

end Vellaveto.A2aIntegrity
