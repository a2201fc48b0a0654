/-
  CUMULATIVE HARM of tool chains (`vellaveto-engine/src/cumulative_harm.rs`).

  The tracker keeps a chain of the calls so far and, at every call, looks for a harmful pattern that
  the call completes.  The chain takes the first `MAX_CHAIN_LEN` calls and nothing after them; the
  patterns skip the LAST step of the chain, which they take for the current call, and look at a few
  steps before it.

  So the findings of a call are a function of the call itself and of the chain
  (`mem_reported_iff`), and steps before the ones a pattern needs do not matter
  (`mem_findingsAt_append`).
-/
import Mathlib.Data.List.Basic
import Vellaveto.Types.Provenance
import Vellaveto.Lib.Report
import Vellaveto.Lib.Slice
import Vellaveto.Lib.Window

namespace Vellaveto.CumulativeHarm

open Vellaveto.Lib

/-- `MAX_CHAIN_LEN`. -/
def maxChainLen : Nat := 100

/-- `MAX_FINDINGS`. -/
def maxFindings : Nat := 10000

/-- `ChainStep`; its two fields that the source marks as dead code are left out. -/
structure ChainStep where
  toolName : String
  sinkClass : SinkClass
  readsSensitive : Bool
deriving DecidableEq

/-- `HarmfulChainPattern`. -/
inductive HarmfulChainPattern where
  | readThenExfiltrate
  | credentialHarvest
  | configThenExecute
  | reconThenExploit
  | privilegeChain
deriving DecidableEq

/-- `HarmfulChainPattern::severity`. -/
def HarmfulChainPattern.severity : HarmfulChainPattern → Nat
  | readThenExfiltrate => 90
  | credentialHarvest => 95
  | configThenExecute => 85
  | reconThenExploit => 80
  | privilegeChain => 75

/-- `HarmfulChainFinding`. -/
structure HarmfulChainFinding where
  pattern : HarmfulChainPattern
  severity : Nat
  chainLength : Nat
  description : String
deriving DecidableEq

/-- `CumulativeHarmTracker`. -/
structure CumulativeHarmTracker where
  chain : List ChainStep
  findings : List HarmfulChainFinding

/-- `CumulativeHarmTracker::new`. -/
def CumulativeHarmTracker.new : CumulativeHarmTracker := ⟨[], []⟩

/-- The arguments of `record_and_check`. -/
structure HarmCall where
  toolName : String
  sinkClass : SinkClass
  targetPaths : List String
  targetDomains : List String
deriving DecidableEq

/-- `str::contains`. -/
def mentions (text needle : String) : Bool := containsInfix needle.toList text.toList

/-- `is_sensitive_read`. -/
def isSensitiveRead (toolName : String) (paths : List String) : Bool :=
  paths.any (fun p =>
    [".aws", ".ssh", ".env", "credentials", "secret", "passwd", "shadow"].any (mentions p)) ||
    mentions toolName "credential" || mentions toolName "secret"

/-- `is_credential_read`; it does not look at the paths. -/
def isCredentialRead (toolName : String) : Bool :=
  mentions toolName "credential" || mentions toolName "secret" || mentions toolName "password" ||
    mentions toolName "token" || mentions toolName "key"

/-- `is_config_write`. -/
def isConfigWrite (toolName : String) : Bool :=
  (mentions toolName "write" || mentions toolName "modify" || mentions toolName "set") &&
    (mentions toolName "config" || mentions toolName "setting" || mentions toolName "hook")

/-- `writes_external`. -/
def writesExternal (call : HarmCall) : Bool :=
  !call.targetDomains.isEmpty || call.sinkClass = .networkEgress

/-- `executes_code`. -/
def executesCode (call : HarmCall) : Bool := call.sinkClass = .codeExecution

/-! ## The patterns -/

/-- `chain.iter().rev().skip(1).take(n)` and the first step of it that the test accepts. -/
def lookBack (n : Nat) (test : ChainStep → Bool) (chain : List ChainStep) : Option ChainStep :=
  ((chain.reverse.drop 1).take n).find? test

/-- The finding of a pattern of two steps. -/
def pairFinding (pattern : HarmfulChainPattern) (prev first current second : String) :
    HarmfulChainFinding where
  pattern := pattern
  severity := pattern.severity
  chainLength := 2
  description := "'" ++ prev ++ "' (" ++ first ++ ") → '" ++ current ++ "' (" ++ second ++ ")"

/-- Read sensitive data, then send externally. -/
def findReadThenExfiltrate (call : HarmCall) (chain : List ChainStep) :
    Option HarmfulChainFinding :=
  if writesExternal call then
    (lookBack 5 (·.readsSensitive) chain).map fun prev =>
      pairFinding .readThenExfiltrate prev.toolName "sensitive read" call.toolName "external write"
  else none

/-- Read credentials, then use them. -/
def findCredentialHarvest (call : HarmCall) (chain : List ChainStep) :
    Option HarmfulChainFinding :=
  if !call.targetDomains.isEmpty || writesExternal call then
    (lookBack 3 (fun prev => isCredentialRead prev.toolName) chain).map fun prev =>
      pairFinding .credentialHarvest prev.toolName "credential read" call.toolName "credential use"
  else none

/-- Write configuration, then execute code. -/
def findConfigThenExecute (call : HarmCall) (chain : List ChainStep) :
    Option HarmfulChainFinding :=
  if executesCode call then
    (lookBack 5 (fun prev => isConfigWrite prev.toolName) chain).map fun prev =>
      pairFinding .configThenExecute prev.toolName "config write" call.toolName "code execution"
  else none

/-- Three steps of rising sink classes, the last at `CodeExecution` or above. -/
def findPrivilegeChain (chain : List ChainStep) : Option HarmfulChainFinding :=
  match chain.reverse with
  | third :: second :: first :: _ =>
    if second.sinkClass.rank < third.sinkClass.rank ∧
        first.sinkClass.rank < second.sinkClass.rank ∧
        SinkClass.codeExecution.rank ≤ third.sinkClass.rank then
      some {
        pattern := .privilegeChain
        severity := HarmfulChainPattern.privilegeChain.severity
        chainLength := 3
        description := "escalating sink class chain detected" }
    else none
  | _ => none

/-- What the patterns find at a call, in the order in which they push their findings. -/
def findingsAt (call : HarmCall) (chain : List ChainStep) : List HarmfulChainFinding :=
  (findReadThenExfiltrate call chain).toList ++ (findCredentialHarvest call chain).toList ++
    (findConfigThenExecute call chain).toList ++ (findPrivilegeChain chain).toList

/-! ## Recording a call -/

/-- The chain with the call, unless it is full.  The name is cut only when the step is pushed, so
    only then does a name whose byte 256 is inside a character panic. -/
def pushStep (chain : List ChainStep) (call : HarmCall) : Option (List ChainStep) :=
  if chain.length < maxChainLen then
    (clipBytes 256 call.toolName).map fun shortName =>
      chain ++ [⟨shortName, call.sinkClass, isSensitiveRead call.toolName call.targetPaths⟩]
  else some chain

/-- `record_and_check`. -/
def recordAndCheck (t : CumulativeHarmTracker) (call : HarmCall) :
    Option (CumulativeHarmTracker × List HarmfulChainFinding) :=
  (pushStep t.chain call).map fun chain =>
    let found := findingsAt call chain
    (⟨chain, t.findings ++ found.take (maxFindings - t.findings.length)⟩, found)

/-! ## What a call reports -/

/-- The step of a call in the chain. -/
def callStep (call : HarmCall) : ChainStep :=
  ⟨(clipBytes 256 call.toolName).getD "", call.sinkClass,
    isSensitiveRead call.toolName call.targetPaths⟩

/-- The chain of a tracker that was fed these calls. -/
def chainOf (calls : List HarmCall) : List ChainStep := (calls.map callStep).take maxChainLen

theorem pushStep_spec {chain chain' : List ChainStep} {call : HarmCall}
    (h : pushStep chain call = some chain') :
    chain' = pushUnlessFull maxChainLen chain (callStep call) := by
  unfold pushStep at h
  unfold pushUnlessFull
  split_ifs at h ⊢ with hroom
  · obtain ⟨shortName, hname, rfl⟩ := Option.map_eq_some_iff.mp h
    rw [callStep, hname]
    rfl
  · exact (Option.some.inj h).symm

theorem recordAndCheck_spec {t t' : CumulativeHarmTracker} {call : HarmCall}
    {fs : List HarmfulChainFinding} (h : recordAndCheck t call = some (t', fs)) :
    t'.chain = pushUnlessFull maxChainLen t.chain (callStep call) ∧
      fs = findingsAt call t'.chain := by
  obtain ⟨chain, hchain, hresult⟩ := Option.map_eq_some_iff.mp h
  cases hresult
  exact ⟨pushStep_spec hchain, rfl⟩

theorem run_chain {calls : List HarmCall} {r : CumulativeHarmTracker × List HarmfulChainFinding}
    (hrun : run (feed recordAndCheck) (.new, []) calls = some r) : r.1.chain = chainOf calls := by
  have hempty : CumulativeHarmTracker.new.chain = [].take maxChainLen := rfl
  refine log_run CumulativeHarmTracker.chain callStep (List.take maxChainLen) ?_ hempty hrun
  intro t call t' fs hcall xs hxs
  rw [(recordAndCheck_spec hcall).1, ← pushUnlessFull_take, ← hxs]

/-- A run returns exactly if the names that are cut, those of the first `MAX_CHAIN_LEN` calls, can
    be. -/
theorem run_isSome {calls : List HarmCall} :
    (run (feed recordAndCheck) (.new, []) calls).isSome ↔
      ∀ call ∈ calls.take maxChainLen, (clipBytes 256 call.toolName).isSome := by
  -- from a state whose chain has room for `room` steps, the next `room` names are cut
  have hfrom : ∀ (calls : List HarmCall) (room : Nat)
      (r : CumulativeHarmTracker × List HarmfulChainFinding),
      r.1.chain.length + room = maxChainLen →
      ((run (feed recordAndCheck) r calls).isSome ↔
        ∀ call ∈ calls.take room, (clipBytes 256 call.toolName).isSome) := by
    intro calls
    induction calls with
    | nil => intro room r _; simp
    | cons call calls ih =>
      intro room r hroom
      show ((recordAndCheck r.1 call).bind fun u => run (feed recordAndCheck) u calls).isSome ↔ _
      cases room with
      | zero =>
        have hfull : pushStep r.1.chain call = some r.1.chain := if_neg (by omega)
        rw [recordAndCheck, hfull, Option.map_some, Option.bind_some]
        exact ih 0 _ hroom
      | succ room =>
        rw [List.take_succ_cons, List.forall_mem_cons]
        have hpush : pushStep r.1.chain call = (clipBytes 256 call.toolName).map _ :=
          if_pos (by omega)
        rw [recordAndCheck, hpush]
        cases clipBytes 256 call.toolName with
        | none => simp
        | some shortName =>
          rw [Option.map_some, Option.map_some, Option.bind_some, ih room]
          · simp
          · simp only [List.length_append, List.length_singleton]
            omega
  exact hfrom calls maxChainLen (.new, []) (Nat.zero_add _)

/-- **The findings are a function of the call and the chain.** -/
theorem mem_reported_iff {calls : List HarmCall} {call : HarmCall} {f : HarmfulChainFinding} :
    f ∈ reported recordAndCheck .new (calls ++ [call]) ↔
      (∀ c ∈ (calls ++ [call]).take maxChainLen, (clipBytes 256 c.toolName).isSome) ∧
        f ∈ findingsAt call (chainOf (calls ++ [call])) := by
  rw [← run_isSome, mem_reported]
  constructor
  · rintro ⟨t, fs, hrun, hmem⟩
    obtain ⟨r, hr, hcall⟩ := exists_last_call hrun
    refine ⟨by rw [hrun]; rfl, ?_⟩
    rw [(recordAndCheck_spec hcall).2, run_chain hrun] at hmem
    exact hmem
  · rintro ⟨hsome, hmem⟩
    obtain ⟨⟨t, fs⟩, hrun⟩ := Option.isSome_iff_exists.mp hsome
    obtain ⟨r, hr, hcall⟩ := exists_last_call hrun
    refine ⟨t, fs, hrun, ?_⟩
    rw [(recordAndCheck_spec hcall).2, run_chain hrun]
    exact hmem

/-! ## Looking back past the start of an attack -/

theorem lookBack_append {n : Nat} {test : ChainStep → Bool} {chain : List ChainStep}
    {step : ChainStep} (h : lookBack n test chain = some step) (earlier : List ChainStep) :
    lookBack n test (earlier ++ chain) = some step := by
  unfold lookBack at h ⊢
  have hne : 1 ≤ chain.reverse.length := by
    cases chain with
    | nil => simp at h
    | cons c cs => simp
  rw [List.reverse_append, List.drop_append_of_le_length hne, List.take_append, List.find?_append, h]
  rfl

theorem findPrivilegeChain_append {chain : List ChainStep} {f : HarmfulChainFinding}
    (h : findPrivilegeChain chain = some f) (earlier : List ChainStep) :
    findPrivilegeChain (earlier ++ chain) = some f := by
  unfold findPrivilegeChain at h ⊢
  rw [List.reverse_append]
  rcases hchain : chain.reverse with _ | ⟨third, _ | ⟨second, _ | ⟨first, rest⟩⟩⟩ <;>
    rw [hchain] at h
  · cases h
  · cases h
  · cases h
  · exact h

/-- What the patterns find in a chain they find after any earlier steps. -/
theorem mem_findingsAt_append {call : HarmCall} {chain : List ChainStep} {f : HarmfulChainFinding}
    (h : f ∈ findingsAt call chain) (earlier : List ChainStep) :
    f ∈ findingsAt call (earlier ++ chain) := by
  simp only [findingsAt, List.mem_append, Option.mem_toList, findReadThenExfiltrate,
    findCredentialHarvest, findConfigThenExecute, Option.ite_none_right_eq_some,
    Option.map_eq_some_iff] at h ⊢
  rcases h with ((⟨hext, prev, hprev, rfl⟩ | ⟨hext, prev, hprev, rfl⟩) | ⟨hexec, prev, hprev, rfl⟩) | h
  · exact .inl (.inl (.inl ⟨hext, prev, lookBack_append hprev earlier, rfl⟩))
  · exact .inl (.inl (.inr ⟨hext, prev, lookBack_append hprev earlier, rfl⟩))
  · exact .inl (.inr ⟨hexec, prev, lookBack_append hprev earlier, rfl⟩)
  · exact .inr (findPrivilegeChain_append h earlier)

end Vellaveto.CumulativeHarm
