/-
  A LONG PREFIX before an attack.

  Three trackers look back over a log of the session and report what the current call completes.
  The question is whether calls made BEFORE an attack can hide it: whether a finding that a fresh
  tracker reports for the last call of `a` is still reported when the tracker was fed `p` first.

    1. For every tracker, a prefix that leaves room in the log for the attack hides nothing: the
       detectors look back from the end, and earlier entries do not disturb them.
    2. The logs of `SequenceTracker`, `CumulativeHarmTracker` and the timestamps of `DoWTracker` stop
       taking entries when they are full.  From then on the detectors take an old entry for the
       current call, and for EVERY nonempty prefix that is long enough there is an attack it hides.
    3. The tool names of `DoWTracker` are a sliding window, and there no prefix hides anything.

  A name whose byte 256 is inside a character makes the trackers panic, so a prefix with such a name
  hides every attack.
-/
import Vellaveto.Engine.Sequence
import Vellaveto.Engine.CumulativeHarm
import Vellaveto.Engine.DenialOfWallet

namespace Vellaveto.LongPrefix

open Vellaveto.Lib

/-- The clock never goes back over these times. -/
def Ordered (times : List Nat) : Prop := times.Pairwise (· ≤ ·)

/-- The tool name can be cut to 256 bytes. -/
def Cuttable (toolName : String) : Prop := (clipBytes 256 toolName).isSome

/-- The latest of the times. -/
def latest (times : List Nat) : Nat := times.foldr max 0

theorem le_latest {times : List Nat} {t : Nat} (h : t ∈ times) : t ≤ latest times := by
  induction times with
  | nil => cases h
  | cons u times ih =>
    rcases List.mem_cons.mp h with rfl | hrest
    · exact le_max_left _ _
    · exact (ih hrest).trans (le_max_right _ _)

/-- A prefix in order, followed by calls that are all made at one later time, is in order. -/
theorem ordered_append {p a : List Nat} {now : Nat} (hp : Ordered p) (hlate : latest p ≤ now)
    (ha : ∀ t ∈ a, t = now) : Ordered (p ++ a) := by
  refine List.pairwise_append.mpr ⟨hp, ?_, ?_⟩
  · refine List.pairwise_of_forall_mem_list fun t ht u hu => ?_
    rw [ha t ht, ha u hu]
  · intro t ht u hu
    rw [ha u hu]
    exact (le_latest ht).trans hlate

/-! ## `ReadThenExfil` -/

section Sequence

open Vellaveto.Sequence

/-- Every `ReadThenExfil` finding for the last of `m` calls is reported after the prefix, too. -/
def ReadThenExfilKept (p : List SequenceCall) (m : Nat) : Prop :=
  ∀ (config : SequenceConfig) (a : List SequenceCall), a.length = m →
    Ordered ((p ++ a).map SequenceCall.nowMs) →
    ∀ f ∈ reported recordAndAnalyze (.new config) a, f.anomalyType = .readThenExfil →
      f ∈ reported recordAndAnalyze (.new config) (p ++ a)

/-- A harmless call. -/
def quietCall (now : Nat) : SequenceCall := ⟨"list", .readOnly, false, now⟩

/-- A tainted read. -/
def taintedRead (now : Nat) : SequenceCall := ⟨"fetch", .readOnly, true, now⟩

/-- Network egress by some tool. -/
def egressCall (toolName : String) (now : Nat) : SequenceCall := ⟨toolName, .networkEgress, false, now⟩

/-- `m` calls whose tainted read and egress are the last two that a fresh log takes. -/
def exfilAttack (m now : Nat) (toolName : String) : List SequenceCall :=
  (List.replicate (min m maxCallLog - 2) (quietCall now) ++ [taintedRead now]) ++
    egressCall toolName now :: List.replicate (m - maxCallLog) (quietCall now)

theorem length_exfilAttack {m now : Nat} {toolName : String} (hm : 2 ≤ m) :
    (exfilAttack m now toolName).length = m := by
  simp only [exfilAttack, List.length_append, List.length_cons, List.length_replicate,
    List.length_nil, maxCallLog]
  omega

theorem mem_exfilAttack {m now : Nat} {toolName : String} {call : SequenceCall}
    (h : call ∈ exfilAttack m now toolName) :
    call = quietCall now ∨ call = taintedRead now ∨ call = egressCall toolName now := by
  simp only [exfilAttack, List.mem_append, List.mem_cons, List.mem_replicate, List.not_mem_nil,
    or_false] at h
  rcases h with (⟨-, rfl⟩ | rfl) | rfl | ⟨-, rfl⟩
  · exact .inl rfl
  · exact .inr (.inl rfl)
  · exact .inr (.inr rfl)
  · exact .inl rfl

/-- A fresh log ends with the read and the egress. -/
theorem logOf_exfilAttack {m now : Nat} {toolName : String} (hm : 2 ≤ m) :
    logOf (exfilAttack m now toolName) =
      (List.replicate (min m maxCallLog - 2) (quietCall now)).map callEntry ++
        [callEntry (taintedRead now), callEntry (egressCall toolName now)] := by
  have hsplit : exfilAttack m now toolName =
      (List.replicate (min m maxCallLog - 2) (quietCall now) ++
        [taintedRead now, egressCall toolName now]) ++
          List.replicate (m - maxCallLog) (quietCall now) := by
    simp only [exfilAttack, List.append_assoc, List.cons_append, List.nil_append]
  have hlen : (List.replicate (min m maxCallLog - 2) (quietCall now) ++
      [taintedRead now, egressCall toolName now]).length = min m maxCallLog := by
    simp only [List.length_append, List.length_replicate, List.length_cons, List.length_nil,
      maxCallLog]
    omega
  rw [logOf, ← List.map_take, hsplit]
  rcases Nat.le_total m maxCallLog with hshort | hlong
  · have hnone : m - maxCallLog = 0 := by omega
    rw [hnone, List.replicate_zero, List.append_nil, List.take_of_length_le (by omega),
      List.map_append]
    rfl
  · have hfull : min m maxCallLog = maxCallLog := min_eq_right hlong
    rw [hfull] at hlen ⊢
    rw [List.take_left' hlen, List.map_append]
    rfl

/-- After a prefix that is long enough the log ends before the egress. -/
theorem logOf_append_exfilAttack {p : List SequenceCall} {m now : Nat} {toolName : String}
    (hp : p ≠ []) (hm : 2 ≤ m) (hlong : maxCallLog < p.length + m) :
    logOf (p ++ exfilAttack m now toolName) =
      logOf (p ++ (List.replicate (min m maxCallLog - 2) (quietCall now) ++ [taintedRead now])) := by
  have hpos : 0 < p.length := List.length_pos_iff.mpr hp
  rw [logOf, logOf, exfilAttack, ← List.append_assoc, List.map_append]
  refine List.take_append_of_le_length ?_
  simp only [List.length_map, List.length_append, List.length_replicate, List.length_singleton,
    maxCallLog] at hlong ⊢
  omega

theorem mem_reported_exfilAttack {m now : Nat} {toolName : String} (hm : 2 ≤ m)
    (hname : clipBytes 256 toolName = some toolName) :
    exfilAnomaly "fetch" toolName ∈
      reported recordAndAnalyze (.new ⟨0, 0, 0⟩) (exfilAttack m now toolName) := by
  refine (mem_reported_readThenExfil rfl).mpr ⟨?_, Nat.zero_le _, ?_⟩
  · intro call hcall
    rcases mem_exfilAttack hcall with rfl | rfl | rfl
    · show (clipBytes 256 "list").isSome
      decide
    · show (clipBytes 256 "fetch").isSome
      decide
    · exact Option.isSome_iff_exists.mpr ⟨toolName, hname⟩
  · have hread : (clipBytes 256 "fetch").getD "" = "fetch" := by decide
    rw [logOf_exfilAttack hm, detectReadThenExfil, List.reverse_append]
    show (if (SinkClass.networkEgress) = .networkEgress then
      lookBack 0 (callEntry (egressCall toolName now)) (callEntry (taintedRead now) :: _) else none) =
        some (exfilAnomaly "fetch" toolName)
    rw [if_pos rfl, lookBack, if_neg (by simp [callEntry, egressCall, taintedRead]), if_pos ⟨rfl, rfl⟩]
    simp only [callEntry, taintedRead, egressCall, hname, hread, Option.getD_some]

theorem two_le_of_detect {window : Nat} {log : List SequenceEntry} {f : SequenceAnomaly}
    (h : detectReadThenExfil window log = some f) : 2 ≤ log.length := by
  unfold detectReadThenExfil at h
  rw [← List.length_reverse]
  split at h
  · rename_i hlog
    rw [hlog]
    simp
  · cases h

/-- A log with room for the prefix and the calls holds both. -/
theorem logOf_append {p a : List SequenceCall} (hroom : p.length + a.length ≤ maxCallLog) :
    logOf (p ++ a) = p.map callEntry ++ logOf a :=
  take_map_append hroom

/-- **Which prefixes hide no `ReadThenExfil`.** -/
theorem readThenExfilKept_iff {p : List SequenceCall} {m : Nat}
    (hp : Ordered (p.map SequenceCall.nowMs)) :
    ReadThenExfilKept p m ↔
      m < 2 ∨ p = [] ∨ (p.length + m ≤ maxCallLog ∧ ∀ call ∈ p, Cuttable call.toolName) := by
  constructor
  · intro hkept
    by_contra hnot
    obtain ⟨hm, hne, hbad⟩ : 2 ≤ m ∧ p ≠ [] ∧
        ¬(p.length + m ≤ maxCallLog ∧ ∀ call ∈ p, Cuttable call.toolName) := by
      rw [not_or, not_or, Nat.not_lt] at hnot
      exact hnot
    -- the attack, whichever tool sends the data, is reported after the prefix
    have hfound : ∀ toolName, clipBytes 256 toolName = some toolName →
        exfilAnomaly "fetch" toolName ∈ reported recordAndAnalyze (.new ⟨0, 0, 0⟩)
          (p ++ exfilAttack m (latest (p.map SequenceCall.nowMs)) toolName) := by
      intro toolName hname
      refine hkept ⟨0, 0, 0⟩ _ (length_exfilAttack hm) ?_ _ (mem_reported_exfilAttack hm hname) rfl
      rw [List.map_append]
      refine ordered_append hp le_rfl fun t ht => ?_
      obtain ⟨call, hcall, rfl⟩ := List.mem_map.mp ht
      rcases mem_exfilAttack hcall with rfl | rfl | rfl <;> rfl
    have hpost := (mem_reported_readThenExfil rfl).mp (hfound "post" (by decide))
    have hsend := (mem_reported_readThenExfil rfl).mp (hfound "send" (by decide))
    have hnames : ∀ call ∈ p, Cuttable call.toolName :=
      fun call hcall => hpost.1 call (List.mem_append_left _ hcall)
    have hlong : maxCallLog < p.length + m := by
      by_contra hshort
      exact hbad ⟨Nat.not_lt.mp hshort, hnames⟩
    -- but the log is the same for both tools, and so is what is found in it
    have hsame := hpost.2.2
    rw [logOf_append_exfilAttack hne hm hlong, ← logOf_append_exfilAttack hne hm hlong,
      hsend.2.2] at hsame
    exact absurd (Option.some.inj hsame) (by decide)
  · rintro (hshort | rfl | ⟨hroom, hnames⟩) config a ha _ f hmem hf
    · obtain ⟨-, -, hdetect⟩ := (mem_reported_readThenExfil hf).mp hmem
      have htwo := two_le_of_detect hdetect
      rw [logOf, List.length_take, List.length_map] at htwo
      omega
    · exact hmem
    · obtain ⟨hcut, hwarm, hdetect⟩ := (mem_reported_readThenExfil hf).mp hmem
      have hlog : logOf (p ++ a) = p.map callEntry ++ logOf a := logOf_append (by omega)
      refine (mem_reported_readThenExfil hf).mpr ⟨?_, ?_, ?_⟩
      · exact List.forall_mem_append.mpr ⟨hnames, hcut⟩
      · rw [hlog, List.length_append]
        omega
      · rw [hlog]
        exact detectReadThenExfil_append hdetect _

end Sequence

/-! ## Cumulative harm -/

section CumulativeHarm

open Vellaveto.CumulativeHarm

/-- Every finding for the last of `m` calls is reported after the prefix, too. -/
def HarmKept (p : List HarmCall) (m : Nat) : Prop :=
  ∀ a : List HarmCall, a.length = m →
    ∀ f ∈ reported recordAndCheck .new a, f ∈ reported recordAndCheck .new (p ++ a)

/-- A harmless call. -/
def quietHarmCall : HarmCall := ⟨"list", .readOnly, [], []⟩

/-- A read of credentials by some tool. -/
def sensitiveRead (toolName : String) : HarmCall := ⟨toolName, .readOnly, ["/home/user/.aws"], []⟩

/-- Data sent outside. -/
def externalWrite : HarmCall := ⟨"send", .networkEgress, [], []⟩

/-- `m - 1` calls whose read is the last but one that a fresh chain takes; the call that sends the
    data comes after them. -/
def harmSetup (m : Nat) (toolName : String) : List HarmCall :=
  List.replicate (min m maxChainLen - 2) quietHarmCall ++
    sensitiveRead toolName :: List.replicate (m - maxChainLen) quietHarmCall

theorem length_harmSetup {m : Nat} {toolName : String} (hm : 2 ≤ m) :
    (harmSetup m toolName ++ [externalWrite]).length = m := by
  simp only [harmSetup, List.length_append, List.length_cons, List.length_replicate,
    List.length_nil, maxChainLen]
  omega

theorem mem_harmSetup {m : Nat} {toolName : String} {call : HarmCall}
    (h : call ∈ harmSetup m toolName ++ [externalWrite]) :
    call = quietHarmCall ∨ call = sensitiveRead toolName ∨ call = externalWrite := by
  simp only [harmSetup, List.mem_append, List.mem_cons, List.mem_replicate, List.not_mem_nil,
    or_false] at h
  rcases h with (⟨-, rfl⟩ | rfl | ⟨-, rfl⟩) | rfl
  · exact .inl rfl
  · exact .inr (.inl rfl)
  · exact .inl rfl
  · exact .inr (.inr rfl)

/-- The patterns look at the calls before the last one that the chain took. -/
theorem lookBack_chainOf (n : Nat) (test : ChainStep → Bool) (calls : List HarmCall) :
    lookBack n test (chainOf calls) =
      (((calls.take (min maxChainLen calls.length - 1)).map callStep).reverse.take n).find? test := by
  have hle : min maxChainLen calls.length - 1 ≤ maxChainLen := by omega
  rw [lookBack, chainOf, List.drop_one, List.tail_reverse, List.dropLast_eq_take, List.length_take,
    List.length_map, List.take_take, min_eq_left hle, List.map_take]

/-- A fresh chain shows the read to the call that sends the data. -/
theorem lookBack_harmSetup {m : Nat} {toolName : String} (hm : 2 ≤ m) :
    lookBack 5 (·.readsSensitive) (chainOf (harmSetup m toolName ++ [externalWrite])) =
      some (callStep (sensitiveRead toolName)) := by
  have hsplit : harmSetup m toolName ++ [externalWrite] =
      (List.replicate (min m maxChainLen - 2) quietHarmCall ++ [sensitiveRead toolName]) ++
        (List.replicate (m - maxChainLen) quietHarmCall ++ [externalWrite]) := by
    simp only [harmSetup, List.append_assoc, List.cons_append, List.nil_append]
  have hlen : (List.replicate (min m maxChainLen - 2) quietHarmCall ++
      [sensitiveRead toolName]).length = min maxChainLen m - 1 := by
    simp only [List.length_append, List.length_replicate, List.length_singleton, maxChainLen]
    omega
  have hsensitive : (callStep (sensitiveRead toolName)).readsSensitive = true := by
    have hpath : ["/home/user/.aws"].any (fun p =>
        [".aws", ".ssh", ".env", "credentials", "secret", "passwd", "shadow"].any (mentions p)) =
          true := by decide
    show isSensitiveRead toolName ["/home/user/.aws"] = true
    rw [isSensitiveRead, hpath]
    rfl
  rw [lookBack_chainOf, length_harmSetup hm, hsplit, List.take_left' hlen, List.map_append,
    List.reverse_append]
  exact List.find?_cons_of_pos hsensitive

/-- After a prefix that is long enough the chain ends before the step that follows the read. -/
theorem lookBack_append_harmSetup {p : List HarmCall} {m n : Nat} {toolName : String}
    {test : ChainStep → Bool} (hp : p ≠ []) (hm : 2 ≤ m) (hlong : maxChainLen < p.length + m) :
    lookBack n test (chainOf (p ++ harmSetup m toolName ++ [externalWrite])) =
      (((((p ++ List.replicate (min m maxChainLen - 2) quietHarmCall).take (maxChainLen - 1)).map
        callStep).reverse.take n).find? test) := by
  have hpos : 0 < p.length := List.length_pos_iff.mpr hp
  have hlen : (p ++ harmSetup m toolName ++ [externalWrite]).length = p.length + m := by
    rw [List.append_assoc, List.length_append, length_harmSetup hm]
  have hsplit : p ++ harmSetup m toolName ++ [externalWrite] =
      (p ++ List.replicate (min m maxChainLen - 2) quietHarmCall) ++
        (sensitiveRead toolName ::
          (List.replicate (m - maxChainLen) quietHarmCall ++ [externalWrite])) := by
    simp only [harmSetup, List.append_assoc, List.cons_append]
  rw [lookBack_chainOf, hlen, min_eq_left hlong.le, hsplit, List.take_append_of_le_length]
  simp only [List.length_append, List.length_replicate, maxChainLen] at hlong ⊢
  omega

/-- The finding of the attack. -/
def harmFinding (toolName : String) : HarmfulChainFinding :=
  pairFinding .readThenExfiltrate toolName "sensitive read" "send" "external write"

theorem mem_reported_harmSetup {m : Nat} {toolName : String} (hm : 2 ≤ m)
    (hname : clipBytes 256 toolName = some toolName) :
    harmFinding toolName ∈ reported recordAndCheck .new (harmSetup m toolName ++ [externalWrite]) := by
  refine mem_reported_iff.mpr ⟨?_, ?_⟩
  · intro call hcall
    rcases mem_harmSetup (List.mem_of_mem_take hcall) with rfl | rfl | rfl
    · decide
    · exact Option.isSome_iff_exists.mpr ⟨toolName, hname⟩
    · decide
  · have hfound : findReadThenExfiltrate externalWrite
        (chainOf (harmSetup m toolName ++ [externalWrite])) = some (harmFinding toolName) := by
      rw [findReadThenExfiltrate, if_pos (by decide), lookBack_harmSetup hm, Option.map_some]
      simp only [callStep, sensitiveRead, hname, Option.getD_some]
      rfl
    simp only [findingsAt, hfound, List.mem_append, Option.toList_some, List.mem_singleton, true_or]

/-- A finding of the first pattern is found by the first pattern. -/
theorem eq_of_mem_findingsAt {call : HarmCall} {chain : List ChainStep} {toolName : String}
    (h : harmFinding toolName ∈ findingsAt call chain) :
    findReadThenExfiltrate call chain = some (harmFinding toolName) := by
  simp only [findingsAt, List.mem_append, Option.mem_toList] at h
  rcases h with ((h | h) | h) | h
  · exact h
  · obtain ⟨_, h⟩ := Option.ite_none_right_eq_some.mp h
    obtain ⟨prev, _, h⟩ := Option.map_eq_some_iff.mp h
    cases congrArg HarmfulChainFinding.pattern h
  · obtain ⟨_, h⟩ := Option.ite_none_right_eq_some.mp h
    obtain ⟨prev, _, h⟩ := Option.map_eq_some_iff.mp h
    cases congrArg HarmfulChainFinding.pattern h
  · unfold findPrivilegeChain at h
    split at h
    · obtain ⟨_, h⟩ := Option.ite_none_right_eq_some.mp h
      cases congrArg HarmfulChainFinding.pattern (Option.some.inj h)
    · cases h

/-- The first call of a chain completes nothing. -/
theorem findingsAt_singleton (call : HarmCall) (step : ChainStep) : findingsAt call [step] = [] := by
  have hback : ∀ n test, lookBack n test [step] = none := fun n test => by simp [lookBack]
  simp [findingsAt, findReadThenExfiltrate, findCredentialHarvest, findConfigThenExecute,
    findPrivilegeChain, hback]

/-- A chain with room for the prefix and the calls holds both. -/
theorem chainOf_append {p a : List HarmCall} (hroom : p.length + a.length ≤ maxChainLen) :
    chainOf (p ++ a) = p.map callStep ++ chainOf a :=
  take_map_append hroom

/-- **Which prefixes hide no harmful chain.** -/
theorem harmKept_iff {p : List HarmCall} {m : Nat} :
    HarmKept p m ↔
      m < 2 ∨ p = [] ∨ (p.length + m ≤ maxChainLen ∧ ∀ call ∈ p, Cuttable call.toolName) := by
  constructor
  · intro hkept
    by_contra hnot
    obtain ⟨hm, hne, hbad⟩ : 2 ≤ m ∧ p ≠ [] ∧
        ¬(p.length + m ≤ maxChainLen ∧ ∀ call ∈ p, Cuttable call.toolName) := by
      rw [not_or, not_or, Nat.not_lt] at hnot
      exact hnot
    -- the attack, whichever tool reads the data, is reported after the prefix
    have hfound : ∀ toolName, clipBytes 256 toolName = some toolName →
        (∀ c ∈ (p ++ harmSetup m toolName ++ [externalWrite]).take maxChainLen,
          (clipBytes 256 c.toolName).isSome) ∧
        findReadThenExfiltrate externalWrite
          (chainOf (p ++ harmSetup m toolName ++ [externalWrite])) = some (harmFinding toolName) := by
      intro toolName hname
      have hmem := hkept _ (length_harmSetup hm) _ (mem_reported_harmSetup hm hname)
      rw [← List.append_assoc] at hmem
      obtain ⟨hcut, hfind⟩ := mem_reported_iff.mp hmem
      exact ⟨hcut, eq_of_mem_findingsAt hfind⟩
    obtain ⟨hcut, hcat⟩ := hfound "cat" (by decide)
    obtain ⟨-, hless⟩ := hfound "less" (by decide)
    have hlong : maxChainLen < p.length + m := by
      by_contra hshort
      refine hbad ⟨Nat.not_lt.mp hshort, fun call hcall => hcut call ?_⟩
      have hall : (p ++ harmSetup m "cat" ++ [externalWrite]).length ≤ maxChainLen := by
        rw [List.append_assoc, List.length_append, length_harmSetup hm]
        exact Nat.not_lt.mp hshort
      rw [List.take_of_length_le hall, List.append_assoc]
      exact List.mem_append_left _ hcall
    -- but the steps that are looked at are the same for both tools
    rw [findReadThenExfiltrate, lookBack_append_harmSetup hne hm hlong] at hcat hless
    exact absurd (Option.some.inj (hcat.symm.trans hless)) (by decide)
  · rintro (hshort | rfl | ⟨hroom, hnames⟩) a ha f hmem
    · rcases a with _ | ⟨call, _ | ⟨next, rest⟩⟩
      · cases hmem
      · obtain ⟨-, hfind⟩ := (@mem_reported_iff [] call f).mp hmem
        have hnone : findingsAt call (chainOf ([] ++ [call])) = [] := findingsAt_singleton call _
        rw [hnone] at hfind
        cases hfind
      · simp only [List.length_cons] at ha
        omega
    · exact hmem
    · rcases a.eq_nil_or_concat' with rfl | ⟨before, call, rfl⟩
      · cases hmem
      · obtain ⟨hcut, hfind⟩ := mem_reported_iff.mp hmem
        have hall : (before ++ [call]).length ≤ maxChainLen := by omega
        rw [List.take_of_length_le hall] at hcut
        rw [← List.append_assoc]
        refine mem_reported_iff.mpr ⟨?_, ?_⟩
        · intro c hc
          rw [List.append_assoc] at hc
          rcases List.mem_append.mp (List.mem_of_mem_take hc) with hin | hin
          · exact hnames c hin
          · exact hcut c hin
        · rw [List.append_assoc, chainOf_append (by omega)]
          exact mem_findingsAt_append hfind _

end CumulativeHarm

/-! ## Denial of wallet -/

section DenialOfWallet

open Vellaveto.DenialOfWallet

/-- A `RateSpike` finding for the last of `m` calls is reported after the prefix, too.  Its text
    counts the calls of the minute, so it is not the same text. -/
def RateSpikeKept (p : List DoWCall) (m : Nat) : Prop :=
  ∀ (limits : DoWLimits) (start start' : Nat) (a : List DoWCall), a.length = m →
    Ordered ((p ++ a).map DoWCall.nowMs) →
    (∃ f ∈ reported recordCall (.new limits start) a, f.findingType = .rateSpike) →
      ∃ f ∈ reported recordCall (.new limits start') (p ++ a), f.findingType = .rateSpike

/-- Every `RecursiveLoop` finding for the last of `m` calls is reported after the prefix, too. -/
def RecursiveLoopKept (p : List DoWCall) (m : Nat) : Prop :=
  ∀ (limits : DoWLimits) (start start' : Nat) (a : List DoWCall), a.length = m →
    Ordered ((p ++ a).map DoWCall.nowMs) →
    ∀ f ∈ reported recordCall (.new limits start) a, f.findingType = .recursiveLoop →
      f ∈ reported recordCall (.new limits start') (p ++ a)

/-- A call of some tool. -/
def toolCall (toolName : String) (now : Nat) : DoWCall := ⟨toolName, 0, now⟩

/-- The calls of the last minute among the logged ones, when all of the attack is in it and nothing
    of the prefix. -/
theorem callsLastMinute_burst {p : List DoWCall} {m now : Nat}
    (hold : latest (p.map DoWCall.nowMs) + 60000 < now) :
    callsLastMinute now (timestampsOf (p ++ List.replicate m (toolCall "list" now))) =
      min (maxWindowEntries - p.length) m := by
  have hbefore : ((p.map DoWCall.nowMs).take maxWindowEntries).countP
      (fun t => now - 60000 ≤ t) = 0 := by
    rw [List.countP_eq_zero]
    intro t ht
    have hle := le_latest (List.mem_of_mem_take ht)
    rw [decide_eq_true_iff]
    omega
  rw [callsLastMinute, timestampsOf, List.map_append, List.map_replicate, List.take_append,
    List.countP_append, hbefore, List.length_map, List.take_replicate, List.countP_replicate]
  rw [if_pos (by simp [toolCall]), Nat.zero_add]

/-- A log with room for the prefix and the calls holds both. -/
theorem timestampsOf_append {p a : List DoWCall} (hroom : p.length + a.length ≤ maxWindowEntries) :
    timestampsOf (p ++ a) = p.map DoWCall.nowMs ++ timestampsOf a :=
  take_map_append hroom

/-- As many calls at once as the log of a fresh tracker can hold, one more than the limit. -/
theorem exists_rateSpike_burst (k : Nat) {now : Nat} (hnow : 60000 < now) :
    ∃ f ∈ reported recordCall (.new ⟨min maxWindowEntries (k + 1) - 1, 0, 0⟩ 0)
      (List.replicate (k + 1) (toolCall "list" now)), f.findingType = .rateSpike := by
  have hburst : List.replicate (k + 1) (toolCall "list" now) =
      List.replicate k (toolCall "list" now) ++ [toolCall "list" now] := List.replicate_succ'
  rw [hburst]
  refine exists_rateSpike.mpr ⟨?_, ?_⟩
  · intro call hcall
    rw [← hburst] at hcall
    rw [List.eq_of_mem_replicate hcall]
    show (clipBytes 256 "list").isSome
    decide
  · have hcount := @callsLastMinute_burst [] (k + 1) now (show 0 + 60000 < now by omega)
    rw [List.nil_append, hburst] at hcount
    show min maxWindowEntries (k + 1) - 1 < callsLastMinute now _
    rw [hcount]
    show min 1000 (k + 1) - 1 < min (1000 - 0) (k + 1)
    omega

/-- In a log with room for both, the calls of the prefix only add to those of the minute. -/
theorem rateSpike_of_room {p a : List DoWCall} {limits : DoWLimits} {start start' : Nat}
    (hroom : p.length + a.length ≤ maxWindowEntries) (hnames : ∀ call ∈ p, Cuttable call.toolName)
    (hspike : ∃ f ∈ reported recordCall (.new limits start) a, f.findingType = .rateSpike) :
    ∃ f ∈ reported recordCall (.new limits start') (p ++ a), f.findingType = .rateSpike := by
  rcases a.eq_nil_or_concat' with rfl | ⟨before, call, rfl⟩
  · obtain ⟨f, hf, _⟩ := hspike
    cases hf
  · obtain ⟨hcut, hover⟩ := exists_rateSpike.mp hspike
    rw [← List.append_assoc]
    refine exists_rateSpike.mpr ⟨?_, lt_of_lt_of_le hover ?_⟩
    · rw [List.append_assoc]
      exact List.forall_mem_append.mpr ⟨hnames, hcut⟩
    · rw [List.append_assoc, timestampsOf_append hroom, callsLastMinute, callsLastMinute,
        List.countP_append]
      omega

/-- **Which prefixes hide no `RateSpike`.** -/
theorem rateSpikeKept_iff {p : List DoWCall} {m : Nat} (hp : Ordered (p.map DoWCall.nowMs)) :
    RateSpikeKept p m ↔
      m = 0 ∨ p = [] ∨ (p.length + m ≤ maxWindowEntries ∧ ∀ call ∈ p, Cuttable call.toolName) := by
  constructor
  · intro hkept
    by_contra hnot
    obtain ⟨hm, hne, hbad⟩ : m ≠ 0 ∧ p ≠ [] ∧
        ¬(p.length + m ≤ maxWindowEntries ∧ ∀ call ∈ p, Cuttable call.toolName) := by
      rw [not_or, not_or] at hnot
      exact hnot
    obtain ⟨k, rfl⟩ := Nat.exists_eq_succ_of_ne_zero hm
    have hpos : 0 < p.length := List.length_pos_iff.mpr hne
    -- a minute after the prefix, as many calls at once as the log of a fresh tracker can hold
    let now := latest (p.map DoWCall.nowMs) + 60001
    let limits : DoWLimits := ⟨min maxWindowEntries (k + 1) - 1, 0, 0⟩
    have hburst : List.replicate (k + 1) (toolCall "list" now) =
        List.replicate k (toolCall "list" now) ++ [toolCall "list" now] := List.replicate_succ'
    have hfresh := exists_rateSpike_burst k (show 60000 < now by omega)
    have hordered : Ordered ((p ++ List.replicate (k + 1) (toolCall "list" now)).map
        DoWCall.nowMs) := by
      rw [List.map_append]
      refine ordered_append hp (show _ ≤ now by omega) fun t ht => ?_
      rw [List.map_replicate] at ht
      exact List.eq_of_mem_replicate ht
    have hafter := hkept limits 0 0 _ List.length_replicate hordered hfresh
    rw [hburst, ← List.append_assoc] at hafter
    obtain ⟨hcut, hcount⟩ := exists_rateSpike.mp hafter
    have hnames : ∀ call ∈ p, Cuttable call.toolName := by
      intro call hcall
      rw [List.append_assoc] at hcut
      exact hcut call (List.mem_append_left _ hcall)
    have hlong : maxWindowEntries < p.length + (k + 1) := by
      by_contra hshort
      exact hbad ⟨Nat.not_lt.mp hshort, hnames⟩
    have hlogged := @callsLastMinute_burst p (k + 1) now (by simp only [now]; omega)
    rw [hburst, ← List.append_assoc] at hlogged
    replace hcount : min maxWindowEntries (k + 1) - 1 < callsLastMinute now _ := hcount
    rw [hlogged] at hcount
    simp only [maxWindowEntries] at hcount hlong
    omega
  · rintro (rfl | rfl | ⟨hroom, hnames⟩) limits start start' a ha _ hspike
    · obtain rfl := List.length_eq_zero_iff.mp ha
      obtain ⟨f, hf, _⟩ := hspike
      cases hf
    · rcases a.eq_nil_or_concat' with rfl | ⟨before, call, rfl⟩
      · obtain ⟨f, hf, _⟩ := hspike
        cases hf
      · exact exists_rateSpike.mpr (exists_rateSpike.mp hspike)
    · exact rateSpike_of_room (by omega) hnames hspike

/-- Calls that end with two tools called in turn, twice. -/
def loopAttack (m now : Nat) : List DoWCall :=
  List.replicate (m - 4) (toolCall "list" now) ++
    [toolCall "read" now, toolCall "write" now, toolCall "read" now, toolCall "write" now]

theorem mem_loopAttack {m now : Nat} {call : DoWCall} (h : call ∈ loopAttack m now) :
    call = toolCall "list" now ∨ call = toolCall "read" now ∨ call = toolCall "write" now := by
  simp only [loopAttack, List.mem_append, List.mem_replicate, List.mem_cons, List.not_mem_nil,
    or_false] at h
  rcases h with ⟨-, rfl⟩ | rfl | rfl | rfl | rfl
  · exact .inl rfl
  · exact .inr (.inl rfl)
  · exact .inr (.inr rfl)
  · exact .inr (.inl rfl)
  · exact .inr (.inr rfl)

theorem exists_recursiveLoop (limits : DoWLimits) (start m now : Nat) :
    ∃ f ∈ reported recordCall (.new limits start) (loopAttack m now),
      f.findingType = .recursiveLoop := by
  have hloop : checkRecursiveLoop (["read", "write", "read", "write"].rtake 20) =
      some ⟨.recursiveLoop, 85, "Recursive loop: write ↔ read"⟩ := by decide
  refine ⟨_, (mem_reported_recursiveLoop rfl).mpr ⟨?_, ?_⟩, checkRecursiveLoop_type hloop⟩
  · intro call hcall
    rcases mem_loopAttack hcall with rfl | rfl | rfl
    · show (clipBytes 256 "list").isSome
      decide
    · show (clipBytes 256 "read").isSome
      decide
    · show (clipBytes 256 "write").isSome
      decide
  · rw [toolsOf, loopAttack, List.map_append]
    have hnames : [toolCall "read" now, toolCall "write" now, toolCall "read" now,
        toolCall "write" now].map shortName = ["read", "write", "read", "write"] := by
      have hread : shortName (toolCall "read" now) = "read" := by
        show (clipBytes 256 "read").getD "" = "read"
        decide
      have hwrite : shortName (toolCall "write" now) = "write" := by
        show (clipBytes 256 "write").getD "" = "write"
        decide
      simp only [List.map_cons, List.map_nil, hread, hwrite]
    rw [hnames]
    exact checkRecursiveLoop_append hloop

theorem four_le_of_checkRecursiveLoop {names : List String} {f : DoWFinding}
    (h : checkRecursiveLoop names = some f) : 4 ≤ names.length := by
  unfold checkRecursiveLoop at h
  rw [← List.length_reverse]
  split at h
  · rename_i hnames
    rw [hnames]
    simp
  · cases h

/-- **No prefix hides a `RecursiveLoop`**, unless it makes the tracker panic. -/
theorem recursiveLoopKept_iff {p : List DoWCall} {m : Nat} (hp : Ordered (p.map DoWCall.nowMs)) :
    RecursiveLoopKept p m ↔ m < 4 ∨ ∀ call ∈ p, Cuttable call.toolName := by
  constructor
  · intro hkept
    rcases Nat.lt_or_ge m 4 with hm | hm
    · exact .inl hm
    · refine .inr fun call hcall => ?_
      let now := latest (p.map DoWCall.nowMs)
      have hlen : (loopAttack m now).length = m := by
        simp only [loopAttack, List.length_append, List.length_replicate, List.length_cons,
          List.length_nil]
        omega
      have hordered : Ordered ((p ++ loopAttack m now).map DoWCall.nowMs) := by
        rw [List.map_append]
        refine ordered_append hp (show _ ≤ now by exact le_rfl) fun t ht => ?_
        obtain ⟨c, hc, rfl⟩ := List.mem_map.mp ht
        rcases mem_loopAttack hc with rfl | rfl | rfl <;> rfl
      obtain ⟨f, hmem, hf⟩ := exists_recursiveLoop ⟨0, 0, 0⟩ 0 m now
      have hafter := hkept ⟨0, 0, 0⟩ 0 0 _ hlen hordered f hmem hf
      exact ((mem_reported_recursiveLoop hf).mp hafter).1 call (List.mem_append_left _ hcall)
  · rintro (hshort | hnames) limits start start' a ha _ f hmem hf
    · obtain ⟨-, hloop⟩ := (mem_reported_recursiveLoop hf).mp hmem
      have hfour := four_le_of_checkRecursiveLoop hloop
      rw [toolsOf, List.rtake, List.length_drop, List.length_map] at hfour
      omega
    · obtain ⟨hcut, hloop⟩ := (mem_reported_recursiveLoop hf).mp hmem
      refine (mem_reported_recursiveLoop hf).mpr ⟨?_, ?_⟩
      · exact List.forall_mem_append.mpr ⟨hnames, hcut⟩
      · rw [toolsOf, List.map_append]
        exact checkRecursiveLoop_append hloop

end DenialOfWallet

/-- **Which prefixes hide no attack.**  For every prefix in the order of the clock and every length
    `m`: the findings for the last of `m` calls are reported after the prefix exactly if the names of
    the prefix can be cut and, for the three logs that stop when they are full, the prefix leaves
    room for the `m` calls.  (No prefix at all, and too few calls for a finding, are the trivial
    cases.) -/
theorem long_prefix_hides_nothing_iff (m : Nat) :
    (∀ p : List Sequence.SequenceCall, Ordered (p.map Sequence.SequenceCall.nowMs) →
      (ReadThenExfilKept p m ↔ m < 2 ∨ p = [] ∨
        (p.length + m ≤ Sequence.maxCallLog ∧ ∀ call ∈ p, Cuttable call.toolName))) ∧
    (∀ p : List CumulativeHarm.HarmCall,
      (HarmKept p m ↔ m < 2 ∨ p = [] ∨
        (p.length + m ≤ CumulativeHarm.maxChainLen ∧ ∀ call ∈ p, Cuttable call.toolName))) ∧
    (∀ p : List DenialOfWallet.DoWCall, Ordered (p.map DenialOfWallet.DoWCall.nowMs) →
      (RateSpikeKept p m ↔ m = 0 ∨ p = [] ∨
        (p.length + m ≤ DenialOfWallet.maxWindowEntries ∧ ∀ call ∈ p, Cuttable call.toolName))) ∧
    ∀ p : List DenialOfWallet.DoWCall, Ordered (p.map DenialOfWallet.DoWCall.nowMs) →
      (RecursiveLoopKept p m ↔ m < 4 ∨ ∀ call ∈ p, Cuttable call.toolName) :=
  ⟨fun _ hp => readThenExfilKept_iff hp, fun _ => harmKept_iff,
    fun _ hp => rateSpikeKept_iff hp, fun _ hp => recursiveLoopKept_iff hp⟩

/-- The theorem at a prefix of one call. -/
theorem long_prefix_hides_nothing_iff_one_call :
    ReadThenExfilKept [quietCall 0] 2 ∧ ¬ReadThenExfilKept [quietCall 0] 1000 ∧
      HarmKept [quietHarmCall] 2 ∧ ¬HarmKept [quietHarmCall] 100 ∧
      RateSpikeKept [toolCall "list" 0] 2 ∧ ¬RateSpikeKept [toolCall "list" 0] 1000 ∧
      RecursiveLoopKept [toolCall "list" 0] 1000 := by
  have hone : Ordered [0] := List.pairwise_singleton _ 0
  have hcut : Cuttable "list" := by show (clipBytes 256 "list").isSome; decide
  have hexfil := fun m => (long_prefix_hides_nothing_iff m).1 [quietCall 0] hone
  have hharm := fun m => (long_prefix_hides_nothing_iff m).2.1 [quietHarmCall]
  have hrate := fun m => (long_prefix_hides_nothing_iff m).2.2.1 [toolCall "list" 0] hone
  have hloop := fun m => (long_prefix_hides_nothing_iff m).2.2.2 [toolCall "list" 0] hone
  refine ⟨(hexfil 2).mpr (.inr (.inr ⟨by decide, List.forall_mem_singleton.mpr hcut⟩)), ?_,
    (hharm 2).mpr (.inr (.inr ⟨by decide, List.forall_mem_singleton.mpr hcut⟩)), ?_,
    (hrate 2).mpr (.inr (.inr ⟨by decide, List.forall_mem_singleton.mpr hcut⟩)), ?_,
    (hloop 1000).mpr (.inr (List.forall_mem_singleton.mpr hcut))⟩
  · intro h
    rcases (hexfil 1000).mp h with h | h | h
    · omega
    · cases h
    · exact absurd h.1 (by decide)
  · intro h
    rcases (hharm 100).mp h with h | h | h
    · omega
    · cases h
    · exact absurd h.1 (by decide)
  · intro h
    rcases (hrate 1000).mp h with h | h | h
    · omega
    · cases h
    · exact absurd h.1 (by decide)

/-- A hundred harmless calls hide that credentials are read and sent outside: alone, the two calls
    are reported, and after the hundred calls nothing is. -/
theorem hundred_calls_hide_the_exfiltration :
    reported CumulativeHarm.recordAndCheck .new [sensitiveRead "cat", externalWrite] =
        [harmFinding "cat"] ∧
      reported CumulativeHarm.recordAndCheck .new
        (List.replicate 100 quietHarmCall ++ [sensitiveRead "cat", externalWrite]) = [] := by
  decide +kernel

end Vellaveto.LongPrefix
