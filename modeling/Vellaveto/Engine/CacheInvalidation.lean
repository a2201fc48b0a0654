/-
  INVALIDATION AND CONCURRENT INSERTS (`get_with_risk`, `insert_with_risk`, `invalidate` of
  `vellaveto-engine/src/cache.rs`).

  PROGRAM.      Tasks share a cache.  A task evaluates a request under the policies of that moment, and then
                inserts the verdict: it loads the generation, takes an access number, and stores the
                entry under the lock.  A get loads the generation and then looks the key up.  A change of
                policies bumps the generation.  All these steps interleave freely.

  SPEC.         A get returns no verdict that was evaluated before the last change of policies that came
                before the get.

  CORRECTNESS.  Verdicts carry the EPOCH of their evaluation, the number of changes before it; the cache is
                generic in the verdict, so it cannot look at it.
    1. `System.Sound`             the invariant: every generation that the cache or a task holds is the
                                  number of an epoch, and that of an entry is the epoch of its verdict;
    2. `get_never_stale`          the specification, along every run where each insert loads the generation
                                  in the epoch of its evaluation;
    3. `stale_after_invalidate`   a change between evaluation and insert is lost: the old verdict gets
                                  the new generation.
-/
import Vellaveto.Engine.DecisionCache
import Vellaveto.Engine.Evaluate
import Vellaveto.Lib.Run

namespace Vellaveto.Cache

open Vellaveto.Lib

/-! ### The system -/

/-- A request to the engine. -/
structure Request where
  action : Action
  context : Option CacheContext
  hasRiskScore : Bool

/-- A verdict and the number of policy changes before its evaluation. -/
structure Evaluated (V : Type) where
  verdict : V
  epoch : Nat
deriving DecidableEq, Repr

/-- What a task is about to do. -/
inductive Phase (K V : Type) where
  | idle
  | evaluated (request : Request) (v : Evaluated V)
  | stamped (key : K) (v : Evaluated V) (gen : UInt64)
  | numbered (key : K) (v : Evaluated V) (gen : UInt64) (accessOrder : Nat)
  | getting (key : K) (gen : UInt64) (start : Nat)

/-- The policies, the cache and the tasks that use it; `epoch` counts the policy changes. -/
structure System (P K V : Type) where
  policies : P
  epoch : Nat
  cache : DecisionCache K (Evaluated V)
  tasks : Nat → Phase K V

/-- The steps, each by the task that takes it.  An instant is what the clock shows then. -/
inductive Step (P : Type) where
  | evaluate (task : Nat) (request : Request)
  | loadGeneration (task : Nat)
  | takeAccess (task : Nat)
  | store (task now : Nat)
  | changePolicies (policies : P)
  | getStart (task : Nat) (request : Request)
  | getRead (task now : Nat)
  | poison

/-- The engine and the hasher. -/
structure Env (P H V : Type) where
  ext : Externals
  hash : List HashPart → H
  evaluate : P → Request → V

section System

variable {P H V : Type} [DecidableEq H] (env : Env P H V)

namespace System

def initial {K : Type} (policies : P) (maxEntries ttl : Nat) : System P K V :=
  ⟨policies, 0, .new _ _ maxEntries ttl, fun _ => .idle⟩

def setTask {K : Type} (s : System P K V) (task : Nat) (phase : Phase K V) : System P K V :=
  { s with tasks := Function.update s.tasks task phase }

end System

/-- The key of a request. -/
def Request.key (request : Request) : CacheKey H := buildKey env.ext env.hash request.action request.context

def Request.isCacheable (request : Request) : Bool :=
  isCacheableContext request.context request.hasRiskScore

/-- One step; `none` when the task is not there yet. -/
def step (s : System P (CacheKey H) V) : Step P → Option (System P (CacheKey H) V)
  | .evaluate task request =>
    match s.tasks task with
    | .idle => some (s.setTask task (.evaluated request ⟨env.evaluate s.policies request, s.epoch⟩))
    | _ => none
  | .loadGeneration task =>
    match s.tasks task with
    | .evaluated request v =>
      -- a verdict that must not be cached is dropped
      if request.isCacheable then
        some (s.setTask task (.stamped (request.key env) v s.cache.policyGeneration))
      else some (s.setTask task .idle)
    | _ => none
  | .takeAccess task =>
    match s.tasks task with
    | .stamped key v gen =>
      let numbered := s.setTask task (.numbered key v gen s.cache.accessCounter)
      some { numbered with cache := s.cache.bumpAccess }
    | _ => none
  | .store task now =>
    match s.tasks task with
    | .numbered key v gen accessOrder =>
      let done := s.setTask task .idle
      some { done with cache := s.cache.store key v gen accessOrder now }
    | _ => none
  | .changePolicies policies =>
    some { s with policies := policies, epoch := s.epoch + 1, cache := s.cache.invalidate }
  | .getStart task request =>
    match s.tasks task with
    | .idle =>
      if request.isCacheable then
        some (s.setTask task (.getting (request.key env) s.cache.policyGeneration s.epoch))
      else some { s with cache := s.cache.miss }
    | _ => none
  | .getRead task now =>
    match s.tasks task with
    | .getting key gen _ =>
      let done := s.setTask task .idle
      some { done with cache := (s.cache.lookup key gen now).2 }
    | _ => none
  | .poison => some { s with cache := s.cache.poison }

/-- What a get returns was evaluated after every change of policies before the get. -/
def NotStale (s : System P (CacheKey H) V) : Step P → Prop
  | .getRead task now =>
    match s.tasks task with
    | .getting key gen start => ∀ v ∈ (s.cache.lookup key gen now).1, start ≤ v.epoch
    | _ => True
  | _ => True

instance NotStale.decidable (s : System P (CacheKey H) V) : (a : Step P) → Decidable (NotStale s a)
  | .getRead task now =>
    match h : s.tasks task with
    | .getting key gen start =>
      decidable_of_iff (∀ v ∈ (s.cache.lookup key gen now).1, start ≤ v.epoch) (by simp only [NotStale, h])
    | .idle => isTrue (by simp only [NotStale, h])
    | .evaluated _ _ => isTrue (by simp only [NotStale, h])
    | .stamped _ _ _ => isTrue (by simp only [NotStale, h])
    | .numbered _ _ _ _ => isTrue (by simp only [NotStale, h])
  | .evaluate _ _ | .loadGeneration _ | .takeAccess _ | .store _ _ | .changePolicies _ | .getStart _ _
  | .poison => isTrue trivial

/-- **The condition**: an insert loads the generation in the epoch of its evaluation, and the generations
    do not wrap around. -/
def Prompt (s : System P (CacheKey H) V) : Step P → Prop
  | .loadGeneration task => ∀ request v, s.tasks task = .evaluated request v → v.epoch = s.epoch
  | .changePolicies _ => s.epoch + 1 < 2 ^ 64
  | _ => True

end System

/-! ### The invariant -/

section Invariant

variable {P H V : Type} [DecidableEq H] {env : Env P H V} {s s' : System P (CacheKey H) V}

/-- The generation is the number of the epoch. -/
def NumberOf (gen : UInt64) (epoch : Nat) : Prop := epoch < 2 ^ 64 ∧ gen = UInt64.ofNat epoch

/-- Two epochs with one number are the same. -/
theorem NumberOf.unique {gen : UInt64} {e f : Nat} (he : NumberOf gen e) (hf : NumberOf gen f) : e = f := by
  have hmod : (UInt64.ofNat e).toNat = (UInt64.ofNat f).toNat :=
    congrArg UInt64.toNat (he.2.symm.trans hf.2)
  rwa [UInt64.toNat_ofNat_of_lt' he.1, UInt64.toNat_ofNat_of_lt' hf.1] at hmod

theorem NumberOf.succ {gen : UInt64} {e : Nat} (he : NumberOf gen e) (hlt : e + 1 < 2 ^ 64) :
    NumberOf (gen + 1) (e + 1) := by
  refine ⟨hlt, ?_⟩
  rw [he.2, UInt64.ofNat_add]
  rfl

/-- What a task holds. -/
def Phase.Sound {K : Type} : Phase K V → Prop
  | .idle => True
  | .evaluated _ _ => True
  | .stamped _ v gen => NumberOf gen v.epoch
  | .numbered _ v gen _ => NumberOf gen v.epoch
  | .getting _ gen start => NumberOf gen start

/-- **The invariant.** -/
structure System.Sound (s : System P (CacheKey H) V) : Prop where
  generation : NumberOf s.cache.policyGeneration s.epoch
  entries : ∀ key entry, s.cache.entries.lookup key = some entry →
    NumberOf entry.generation entry.verdict.epoch
  tasks : ∀ task, (s.tasks task).Sound

theorem initial_sound (policies : P) (maxEntries ttl : Nat) :
    (System.initial policies maxEntries ttl : System P (CacheKey H) V).Sound where
  generation := ⟨Nat.two_pow_pos 64, rfl⟩
  entries key entry h := by
    rw [System.initial, DecisionCache.new, AList.lookup_empty] at h
    cases h
  tasks _ := trivial

theorem System.Sound.setTask (h : s.Sound) {task : Nat} {phase : Phase (CacheKey H) V}
    (hphase : phase.Sound) : (s.setTask task phase).Sound where
  generation := h.generation
  entries := h.entries
  tasks t := by
    show (Function.update s.tasks task phase t).Sound
    by_cases ht : t = task
    · subst ht
      rw [Function.update_self]
      exact hphase
    · rw [Function.update_of_ne ht]
      exact h.tasks t

/-- A cache with the same generation, and no entries but those of before. -/
theorem System.Sound.setCache (h : s.Sound) {cache : DecisionCache (CacheKey H) (Evaluated V)}
    (hgen : cache.policyGeneration = s.cache.policyGeneration)
    (hentries : ∀ key entry, cache.entries.lookup key = some entry →
      NumberOf entry.generation entry.verdict.epoch) :
    System.Sound { s with cache := cache } where
  generation := hgen ▸ h.generation
  entries := hentries
  tasks := h.tasks

/-- The step lemma. -/
theorem step_sound {a : Step P} (h : s.Sound) (hprompt : Prompt s a) (hstep : step env s a = some s') :
    s'.Sound := by
  cases a with
  | evaluate task request =>
    simp only [step] at hstep
    split at hstep
    · cases hstep
      exact h.setTask trivial
    · cases hstep
  | loadGeneration task =>
    simp only [step] at hstep
    split at hstep
    · rename_i request v hphase
      split at hstep
      · cases hstep
        -- the generation of now is the number of the epoch of now, which is that of the evaluation
        have hnumber : NumberOf s.cache.policyGeneration v.epoch :=
          (hprompt request v hphase).symm ▸ h.generation
        exact h.setTask hnumber
      · cases hstep
        exact h.setTask trivial
    · cases hstep
  | takeAccess task =>
    simp only [step] at hstep
    split at hstep
    · rename_i key v gen hphase
      cases hstep
      have hnumber : (Phase.stamped key v gen).Sound := hphase ▸ h.tasks task
      have htask : (s.setTask task (.numbered key v gen s.cache.accessCounter)).Sound := h.setTask hnumber
      exact htask.setCache rfl h.entries
    · cases hstep
  | store task now =>
    simp only [step] at hstep
    split at hstep
    · rename_i key v gen accessOrder hphase
      cases hstep
      have hnumber : (Phase.numbered key v gen accessOrder).Sound := hphase ▸ h.tasks task
      have htask : (s.setTask task .idle).Sound := h.setTask trivial
      refine htask.setCache (policyGeneration_store ..) ?_
      intro key' entry hentry
      rcases entries_store hentry with rfl | hold
      · exact hnumber
      · exact h.entries key' entry hold
    · cases hstep
  | changePolicies policies =>
    cases hstep
    exact ⟨h.generation.succ hprompt, h.entries, h.tasks⟩
  | getStart task request =>
    simp only [step] at hstep
    split at hstep
    · split at hstep
      · cases hstep
        exact h.setTask h.generation
      · cases hstep
        exact h.setCache rfl h.entries
    · cases hstep
  | getRead task now =>
    simp only [step] at hstep
    split at hstep
    · rename_i key gen start hphase
      cases hstep
      obtain ⟨hentries, hgen⟩ := entries_lookup key gen now
      have htask : (s.setTask task .idle).Sound := h.setTask trivial
      refine htask.setCache hgen ?_
      rw [hentries]
      exact h.entries
    · cases hstep
  | poison =>
    cases hstep
    exact h.setCache rfl h.entries

/-- In a sound state no get returns a stale verdict: the entry and the get hold the same generation. -/
theorem notStale_of_sound (h : s.Sound) (a : Step P) : NotStale s a := by
  cases a with
  | getRead task now =>
    simp only [NotStale]
    split
    · rename_i key gen start hphase
      intro v hv
      obtain ⟨entry, hentry, hgen, -, rfl⟩ := lookup_eq_some hv
      have hstart : (Phase.getting key gen start : Phase (CacheKey H) V).Sound := hphase ▸ h.tasks task
      have hepoch : NumberOf gen entry.verdict.epoch := hgen ▸ h.entries key entry hentry
      exact (NumberOf.unique hstart hepoch).le
    · trivial
  | _ => trivial

end Invariant

/-- **No stale verdicts.**  Along every run whose inserts load the generation in the epoch of their
    evaluation, a get returns no verdict that was evaluated before a policy change before the get. -/
theorem get_never_stale {P H V : Type} [DecidableEq H] (env : Env P H V) (policies : P)
    (maxEntries ttl : Nat) (steps : List (Step P))
    (hprompt : EachStep (step env) (fun s a _ => Prompt s a) (.initial policies maxEntries ttl) steps) :
    EachStep (step env) (fun s a _ => NotStale s a) (.initial policies maxEntries ttl) steps := by
  refine EachStep.of_invariant ?_ hprompt (initial_sound policies maxEntries ttl)
  intro s a s' _ hsound hp hstep
  exact ⟨step_sound hsound hp hstep, notStale_of_sound hsound a⟩

/-! ### A change that is lost -/

/-- A policy for all tools. -/
def forAll (policyType : PolicyType) : Policy := ⟨"*", "all", policyType, 0, none, none⟩

/-- The engine without compiled policies. -/
def plainEnv : Env (List Policy) (List HashPart) (Except EngineError Verdict) where
  ext := plainExternals
  hash := id
  evaluate policies request :=
    (PolicyEngine.new Json false).evaluateAction plainExternals request.action policies

def readFile : Request := ⟨Action.new "file" "read" .null, none, false⟩

/-- A verdict is evaluated and cached, then the policies change, then it is asked for. -/
def promptRun : List (Step (List Policy)) :=
  [.evaluate 0 readFile, .loadGeneration 0, .takeAccess 0, .store 0 0, .changePolicies [forAll .deny],
    .getStart 1 readFile, .getRead 1 0]

/-- The policies change after the evaluation and before the insert. -/
def lateRun : List (Step (List Policy)) :=
  [.evaluate 0 readFile, .changePolicies [forAll .deny], .loadGeneration 0, .takeAccess 0, .store 0 0,
    .getStart 1 readFile, .getRead 1 0]

instance Prompt.decidable {P H V : Type} [DecidableEq H] (s : System P (CacheKey H) V) :
    (a : Step P) → Decidable (Prompt s a)
  | .loadGeneration task =>
    match h : s.tasks task with
    | .evaluated request v =>
      decidable_of_iff (v.epoch = s.epoch) (by simp [Prompt, h])
    | .idle => isTrue (by simp [Prompt, h])
    | .stamped _ _ _ => isTrue (by simp [Prompt, h])
    | .numbered _ _ _ _ => isTrue (by simp [Prompt, h])
    | .getting _ _ _ => isTrue (by simp [Prompt, h])
  | .changePolicies _ => inferInstanceAs (Decidable (s.epoch + 1 < 2 ^ 64))
  | .evaluate _ _ | .takeAccess _ | .store _ _ | .getStart _ _ | .getRead _ _ | .poison => isTrue trivial

theorem get_never_stale_prompt :
    EachStep (step plainEnv) (fun s a _ => Prompt s a) (.initial [forAll .allow] 10 60) promptRun ∧
      EachStep (step plainEnv) (fun s a _ => NotStale s a) (.initial [forAll .allow] 10 60) promptRun :=
  have hprompt : EachStep (step plainEnv) (fun s a _ => Prompt s a) (.initial [forAll .allow] 10 60)
      promptRun := by decide +kernel
  ⟨hprompt, get_never_stale plainEnv _ _ _ _ hprompt⟩

/-- **A change between evaluation and insert is lost**: the get after it returns the verdict of before. -/
theorem stale_after_invalidate :
    ¬ EachStep (step plainEnv) (fun s a _ => NotStale s a) (.initial [forAll .allow] 10 60) lateRun := by
  decide +kernel

end Vellaveto.Cache
