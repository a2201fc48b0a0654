/-
  CONFUSED DEPUTY prevention: delegation chains and their tool scope
  (`vellaveto-engine/src/deputy.rs`, `verified_deputy.rs`).

  PROGRAM.  The validator keeps one delegation context per session: who delegated to whom, how
  deep the chain is and which tools the delegate may use.  `registerDelegation` replaces the
  session's context by the next link of the chain and INTERSECTS the requested tools with the
  parent's; `validateActionBinding` checks a call against the stored context.

  SPEC.  Re-delegation must never widen authority.  The set of tools a context stands for is
  `scopeAllows`: an EMPTY stored list means "unrestricted".  That is where the code goes wrong:
  an intersection that comes out empty is stored as the empty list and reads back as everything.

  CORRECTNESS, three layers.
    1. `validateAction_eq_ok_iff`   on the contexts that can occur, validation for the delegate is
                                    membership in the scope;
    2. `registerDelegation_eq_ok`   everything a successful call does, guards included;
    3. `redelegation_narrows_iff`   along every run, every re-delegation of a session narrows its
                                    scope exactly when every one of them keeps the scope restricted
                                    (`KeepsRestriction`), and then the scope shrinks along the whole
                                    chain.  The depth bound holds on all runs.

  Name normalization is an arbitrary function `normalizeFull`.  The lock of the source is never
  poisoned here, and a call that returns an error leaves the state as it was.
-/
import Mathlib.Data.List.AList
import Vellaveto.Lib.Run
import Vellaveto.Lib.Text

namespace Vellaveto.Deputy

open Vellaveto.Lib

/-! ## Pure guards (`verified_deputy.rs`) -/

/-- The runtime saturating increment of the depth. -/
def nextDelegationDepth (currentDepth : UInt8) : UInt8 :=
  if currentDepth = 255 then 255 else currentDepth + 1

def delegationDepthWithinLimit (newDepth maxDepth : UInt8) : Bool := newDepth ≤ maxDepth

def redelegationChainPrincipalValid
    (parentHasDelegate normalizedFromMatchesParentDelegate : Bool) : Bool :=
  !parentHasDelegate || normalizedFromMatchesParentDelegate

def redelegationToolAllowed (parentHasUnrestrictedTools parentAllowsRequestedTool : Bool) : Bool :=
  parentHasUnrestrictedTools || parentAllowsRequestedTool

def delegatedPrincipalMatches (normalizedClaimedMatchesDelegate : Bool) : Bool :=
  normalizedClaimedMatchesDelegate

def delegatedToolAllowed (allowedToolsEmpty requestedToolFound : Bool) : Bool :=
  allowedToolsEmpty || requestedToolFound

/-! ## State -/

/-- One link of a delegation chain. -/
structure PrincipalContext where
  originalPrincipal : String
  delegatedTo : Option String
  delegationDepth : UInt8
  allowedTools : List String
  delegationExpires : Option Nat
deriving DecidableEq, Repr

/-- `PrincipalContext::is_expired`. -/
def PrincipalContext.isExpired (ctx : PrincipalContext) (now : Nat) : Bool :=
  ctx.delegationExpires.any fun exp => exp ≤ now

/-- The errors `deputy.rs` returns (a lock is never poisoned in this model). -/
inductive DeputyError where
  | unauthorizedDelegation (fromPrincipal toPrincipal : String)
  | delegationDepthExceeded (depth max : UInt8)
  | toolNotInDelegation (tool : String)
  | delegationExpired
  | principalMismatch (expected actual : String)
  | internalError (reason : String)
deriving DecidableEq, Repr

/-- What `validate_action_binding` established. -/
structure DeputyValidationBinding where
  hasActiveDelegation : Bool
  delegationDepth : UInt8
deriving DecidableEq, Repr

/-- Most delegation contexts tracked at once. -/
def maxActiveContexts : Nat := 10000

/-- The validator: active contexts by session, and the configured depth limit. -/
structure DeputyValidator where
  activeContexts : AList fun _ : String => PrincipalContext
  maxDepth : UInt8

/-- `DeputyValidator::new`. -/
def DeputyValidator.new (maxDepth : UInt8) : DeputyValidator := ⟨∅, maxDepth⟩

/-- `get_context`. -/
def DeputyValidator.getContext (v : DeputyValidator) (sessionId : String) :
    Option PrincipalContext :=
  v.activeContexts.lookup sessionId

/-! ## Calls -/

section Calls

variable (normalizeFull : String → String)

/-- How the deputy spells a principal or tool name before comparing it. -/
def canonicalName (name : String) : String := normalizeFull (toAsciiLowercase name)

/-- Is the tool one of the listed ones, up to the canonical spelling? -/
def listsTool (tools : List String) (tool : String) : Bool :=
  tools.any fun t => canonicalName normalizeFull t == canonicalName normalizeFull tool

/-- The tools a re-delegation stores: the request as it stands under an unrestricted parent, the
    intersection with the parent's list otherwise. -/
def effectiveTools (parentTools requested : List String) : List String :=
  if parentTools.isEmpty then requested
  else requested.filter fun t =>
    redelegationToolAllowed false (listsTool normalizeFull parentTools t)

/-- `register_delegation`. -/
def registerDelegation (v : DeputyValidator) (sessionId fromPrincipal toPrincipal : String)
    (allowedTools : List String) : Except DeputyError DeputyValidator :=
  let normalizedFrom := canonicalName normalizeFull fromPrincipal
  let normalizedTo := canonicalName normalizeFull toPrincipal
  let currentDepth := (v.getContext sessionId).elim 0 (·.delegationDepth)
  let newDepth := nextDelegationDepth currentDepth
  if !delegationDepthWithinLimit newDepth v.maxDepth then
    .error (.delegationDepthExceeded newDepth v.maxDepth)
  else do
    let effective ←
      match v.getContext sessionId with
      | some parent =>
        if !redelegationChainPrincipalValid parent.delegatedTo.isSome
            (parent.delegatedTo == some normalizedFrom) then
          .error (.unauthorizedDelegation fromPrincipal toPrincipal)
        else .ok (effectiveTools normalizeFull parent.allowedTools allowedTools)
      | none => .ok allowedTools
    if (v.getContext sessionId).isNone && maxActiveContexts ≤ v.activeContexts.entries.length then
      .error (.internalError
        s!"Active delegation context limit ({maxActiveContexts}) reached — failing closed")
    else
      .ok { v with
        activeContexts := v.activeContexts.insert sessionId
          { originalPrincipal := normalizedFrom
            delegatedTo := some normalizedTo
            delegationDepth := newDepth
            allowedTools := effective
            delegationExpires := none } }

/-- The claimed principal must be the stored delegate, when there is one. -/
def checkPrincipal (ctx : PrincipalContext) (claimedPrincipal : String) :
    Except DeputyError Unit :=
  match ctx.delegatedTo with
  | some delegate =>
    if !delegatedPrincipalMatches (delegate == canonicalName normalizeFull claimedPrincipal) then
      .error (.principalMismatch delegate claimedPrincipal)
    else .ok ()
  | none => .ok ()

/-- The tool must be listed, unless nothing is. -/
def checkTool (ctx : PrincipalContext) (tool : String) : Except DeputyError Unit :=
  if !ctx.allowedTools.isEmpty
      && !delegatedToolAllowed false (listsTool normalizeFull ctx.allowedTools tool) then
    .error (.toolNotInDelegation tool)
  else .ok ()

/-- `validate_action_binding`, with the clock reading as an argument. -/
def validateActionBinding (v : DeputyValidator) (now : Nat)
    (sessionId tool claimedPrincipal : String) : Except DeputyError DeputyValidationBinding :=
  match v.getContext sessionId with
  | none => .ok { hasActiveDelegation := false, delegationDepth := 0 }
  | some ctx =>
    if ctx.isExpired now then .error .delegationExpired
    else do
      checkPrincipal normalizeFull ctx claimedPrincipal
      checkTool normalizeFull ctx tool
      .ok { hasActiveDelegation := true, delegationDepth := ctx.delegationDepth }

/-- `validate_action`. -/
def validateAction (v : DeputyValidator) (now : Nat) (sessionId tool claimedPrincipal : String) :
    Except DeputyError Unit :=
  (validateActionBinding normalizeFull v now sessionId tool claimedPrincipal).map fun _ => ()

/-- `is_tool_allowed`. -/
def isToolAllowed (v : DeputyValidator) (now : Nat) (sessionId tool : String) : Bool :=
  match v.getContext sessionId with
  | none => true
  | some ctx =>
    if ctx.isExpired now then false
    else if ctx.allowedTools.isEmpty then true
    else delegatedToolAllowed false (listsTool normalizeFull ctx.allowedTools tool)

end Calls

/-- `remove_context`. -/
def removeContext (v : DeputyValidator) (sessionId : String) : DeputyValidator :=
  { v with activeContexts := v.activeContexts.erase sessionId }

/-- `cleanup_expired`: drop the expired contexts and say how many they were. -/
def cleanupExpired (v : DeputyValidator) (now : Nat) : DeputyValidator × Nat :=
  let kept : AList fun _ : String => PrincipalContext :=
    ⟨v.activeContexts.entries.filter fun e => !e.2.isExpired now,
      v.activeContexts.nodupKeys.sublist List.filter_sublist⟩
  ({ v with activeContexts := kept }, v.activeContexts.entries.length - kept.entries.length)

/-! ## Runs -/

/-- A call that changes the validator. -/
inductive Op where
  | registerDelegation (sessionId fromPrincipal toPrincipal : String) (allowedTools : List String)
  | removeContext (sessionId : String)
  | cleanupExpired (now : Nat)
deriving DecidableEq, Repr

/-- One call; a rejected registration leaves the validator as it was. -/
def step (normalizeFull : String → String) (v : DeputyValidator) : Op → Option DeputyValidator
  | .registerDelegation s f t tools =>
    match registerDelegation normalizeFull v s f t tools with
    | .ok v' => some v'
    | .error _ => some v
  | .removeContext s => some (removeContext v s)
  | .cleanupExpired now => some (cleanupExpired v now).1

/-! ## The scope a tool list stands for -/

section Scope

variable {normalizeFull : String → String}

/-- The set of tools a STORED list stands for: everything when it is empty. -/
def InScope (normalizeFull : String → String) (tools : List String) (tool : String) : Prop :=
  tools = [] ∨ listsTool normalizeFull tools tool = true

/-- `who` is a name for the session's current delegate. -/
def IsDelegate (normalizeFull : String → String) (v : DeputyValidator) (sessionId who : String) :
    Prop :=
  ∃ ctx, v.getContext sessionId = some ctx ∧
    ctx.delegatedTo = some (canonicalName normalizeFull who)

/-- Every tool the delegate of `v` is let through with, the delegate of `u` was let through with. -/
def Narrowed (normalizeFull : String → String) (sessionId : String) (u v : DeputyValidator) :
    Prop :=
  ∀ who who' now now' tool, IsDelegate normalizeFull u sessionId who →
    IsDelegate normalizeFull v sessionId who' →
    validateAction normalizeFull v now' sessionId tool who' = .ok () →
    validateAction normalizeFull u now sessionId tool who = .ok ()

theorem listsTool_eq_true {tools : List String} {tool : String} :
    listsTool normalizeFull tools tool = true ↔
      ∃ t ∈ tools, canonicalName normalizeFull t = canonicalName normalizeFull tool := by
  simp only [listsTool, List.any_eq_true, beq_iff_eq]

/-- The stored list of a re-delegation under a RESTRICTED parent is the part of the request that
    the parent lists. -/
theorem mem_effectiveTools {parent requested : List String} (hparent : parent ≠ []) {t : String} :
    t ∈ effectiveTools normalizeFull parent requested ↔
      t ∈ requested ∧ listsTool normalizeFull parent t = true := by
  have hne : parent.isEmpty = false := by simpa using hparent
  simp only [effectiveTools, hne, Bool.false_eq_true, if_false, List.mem_filter,
    redelegationToolAllowed, Bool.false_or]

/-- **When intersecting narrows.**  The list stored for a re-delegation stands for no more tools
    than the parent's exactly when the parent was unrestricted, or some requested tool survives the
    intersection, or the parent's list accepted every name already. -/
theorem effectiveTools_narrows_iff {parent requested : List String} :
    (∀ tool, InScope normalizeFull (effectiveTools normalizeFull parent requested) tool →
        InScope normalizeFull parent tool) ↔
      parent = [] ∨ (∃ t ∈ requested, listsTool normalizeFull parent t = true) ∨
        ∀ tool, listsTool normalizeFull parent tool = true := by
  by_cases hparent : parent = []
  · simp only [hparent, InScope, true_or, implies_true]
  constructor
  · intro hnarrow
    refine Or.inr (or_iff_not_imp_left.mpr fun hnone tool => ?_)
    -- nothing survives, so the stored list is empty and stands for every tool
    have hempty : effectiveTools normalizeFull parent requested = [] := by
      refine List.eq_nil_iff_forall_not_mem.mpr fun t ht => hnone ⟨t, ?_⟩
      exact (mem_effectiveTools hparent).mp ht
    exact (hnarrow tool (Or.inl hempty)).resolve_left hparent
  · rintro (h | ⟨t, ht, hlisted⟩ | hall) tool hscope
    · exact absurd h hparent
    · have hmem : t ∈ effectiveTools normalizeFull parent requested :=
        (mem_effectiveTools hparent).mpr ⟨ht, hlisted⟩
      have hlists := hscope.resolve_left (List.ne_nil_of_mem hmem)
      obtain ⟨t', ht', hname⟩ := listsTool_eq_true.mp hlists
      obtain ⟨p, hp, hpname⟩ := listsTool_eq_true.mp ((mem_effectiveTools hparent).mp ht').2
      exact Or.inr (listsTool_eq_true.mpr ⟨p, hp, hpname.trans hname⟩)
    · exact Or.inr (hall tool)

end Scope

/-! ## What the calls do -/

section Specs

variable {normalizeFull : String → String} {v v' : DeputyValidator} {s f t : String}
  {tools : List String}

/-- The link a successful registration stores. -/
def newLink (normalizeFull : String → String) (v : DeputyValidator) (s f t : String)
    (tools : List String) : PrincipalContext where
  originalPrincipal := canonicalName normalizeFull f
  delegatedTo := some (canonicalName normalizeFull t)
  delegationDepth := nextDelegationDepth ((v.getContext s).elim 0 (·.delegationDepth))
  allowedTools :=
    (v.getContext s).elim tools fun parent =>
      effectiveTools normalizeFull parent.allowedTools tools
  delegationExpires := none

/-- The guards a registration on a session with a context has to pass. -/
def RedelegationAdmitted (normalizeFull : String → String) (v : DeputyValidator)
    (parent : PrincipalContext) (f : String) : Prop :=
  nextDelegationDepth parent.delegationDepth ≤ v.maxDepth ∧
    (parent.delegatedTo = none ∨ parent.delegatedTo = some (canonicalName normalizeFull f))

/-- The validator after the link is stored. -/
def DeputyValidator.store (v : DeputyValidator) (s : String) (ctx : PrincipalContext) :
    DeputyValidator :=
  { v with activeContexts := v.activeContexts.insert s ctx }

/-- A registration on a session with a context: the two guards, then the new link. -/
theorem registerDelegation_of_context {parent : PrincipalContext}
    (hctx : v.getContext s = some parent) :
    registerDelegation normalizeFull v s f t tools =
      if nextDelegationDepth parent.delegationDepth ≤ v.maxDepth then
        if parent.delegatedTo = none ∨
            parent.delegatedTo = some (canonicalName normalizeFull f) then
          .ok (v.store s (newLink normalizeFull v s f t tools))
        else .error (.unauthorizedDelegation f t)
      else .error (.delegationDepthExceeded (nextDelegationDepth parent.delegationDepth)
        v.maxDepth) := by
  have hchain : redelegationChainPrincipalValid parent.delegatedTo.isSome
      (parent.delegatedTo == some (canonicalName normalizeFull f)) = true ↔
      (parent.delegatedTo = none ∨
        parent.delegatedTo = some (canonicalName normalizeFull f)) := by
    simp [redelegationChainPrincipalValid]
  by_cases hdepth : nextDelegationDepth parent.delegationDepth ≤ v.maxDepth
  · by_cases hp : parent.delegatedTo = none ∨
        parent.delegatedTo = some (canonicalName normalizeFull f)
    · rw [if_pos hdepth, if_pos hp]
      simp [registerDelegation, hctx, delegationDepthWithinLimit, hdepth, hchain.mpr hp, newLink,
        DeputyValidator.store, bind, Except.bind]
    · rw [if_pos hdepth, if_neg hp]
      simp [registerDelegation, hctx, delegationDepthWithinLimit, hdepth,
        Bool.eq_false_iff.mpr fun h => hp (hchain.mp h), bind, Except.bind]
  · rw [if_neg hdepth]
    simp [registerDelegation, hctx, delegationDepthWithinLimit, hdepth]

/-- A registration on a fresh session: the depth and the capacity guard, then the first link. -/
theorem registerDelegation_of_fresh (hctx : v.getContext s = none) :
    registerDelegation normalizeFull v s f t tools =
      if nextDelegationDepth 0 ≤ v.maxDepth then
        if v.activeContexts.entries.length < maxActiveContexts then
          .ok (v.store s (newLink normalizeFull v s f t tools))
        else .error (.internalError
          s!"Active delegation context limit ({maxActiveContexts}) reached — failing closed")
      else .error (.delegationDepthExceeded (nextDelegationDepth 0) v.maxDepth) := by
  by_cases hdepth : nextDelegationDepth 0 ≤ v.maxDepth
  · by_cases hcap : v.activeContexts.entries.length < maxActiveContexts
    · rw [if_pos hdepth, if_pos hcap]
      simp [registerDelegation, hctx, delegationDepthWithinLimit, hdepth, Nat.not_le.mpr hcap,
        newLink, DeputyValidator.store, bind, Except.bind]
    · rw [if_pos hdepth, if_neg hcap]
      simp [registerDelegation, hctx, delegationDepthWithinLimit, hdepth, Nat.not_lt.mp hcap,
        bind, Except.bind]
  · rw [if_neg hdepth]
    simp [registerDelegation, hctx, delegationDepthWithinLimit, hdepth]

/-- Everything a successful registration does: the new link is within the depth limit, a chained
    one passed the guards, and the session's context is replaced by it. -/
theorem registerDelegation_eq_ok
    (h : registerDelegation normalizeFull v s f t tools = .ok v') :
    (newLink normalizeFull v s f t tools).delegationDepth ≤ v.maxDepth ∧
    (∀ parent, v.getContext s = some parent → RedelegationAdmitted normalizeFull v parent f) ∧
    v' = v.store s (newLink normalizeFull v s f t tools) := by
  cases hctx : v.getContext s with
  | none =>
    rw [registerDelegation_of_fresh hctx] at h
    split_ifs at h with hdepth hcap
    refine ⟨?_, ?_, (Except.ok.inj h).symm⟩
    · simpa [newLink, hctx] using hdepth
    · intro parent hparent
      cases hparent
  | some parent =>
    rw [registerDelegation_of_context hctx] at h
    split_ifs at h with hdepth hchain
    refine ⟨?_, ?_, (Except.ok.inj h).symm⟩
    · simpa [newLink, hctx] using hdepth
    · intro parent' hparent'
      cases hparent'
      exact ⟨hdepth, hchain⟩

@[simp] theorem getContext_store_self (ctx : PrincipalContext) :
    (v.store s ctx).getContext s = some ctx :=
  AList.lookup_insert _

theorem getContext_store_ne {s' : String} (hne : s' ≠ s) (ctx : PrincipalContext) :
    (v.store s ctx).getContext s' = v.getContext s' :=
  AList.lookup_insert_ne hne

/-- The links that can occur never expire, name a delegate and respect the depth limit. -/
structure LinkInv (normalizeFull : String → String) (maxDepth : UInt8) (ctx : PrincipalContext) :
    Prop where
  noExpiry : ctx.delegationExpires = none
  hasDelegate : ∃ who, ctx.delegatedTo = some (canonicalName normalizeFull who)
  depthLe : ctx.delegationDepth ≤ maxDepth

/-- Every stored link is one that can occur. -/
def Inv (normalizeFull : String → String) (maxDepth : UInt8) (v : DeputyValidator) : Prop :=
  v.maxDepth = maxDepth ∧
    ∀ s ctx, v.getContext s = some ctx → LinkInv normalizeFull maxDepth ctx

/-- **Validation is membership in the scope.**  For the session's delegate, an action is let
    through exactly when its tool is in the scope of the stored list. -/
theorem validateAction_eq_ok_iff {ctx : PrincipalContext} {who tool : String} {now : Nat}
    (hctx : v.getContext s = some ctx) (hexp : ctx.delegationExpires = none)
    (hwho : ctx.delegatedTo = some (canonicalName normalizeFull who)) :
    validateAction normalizeFull v now s tool who = .ok () ↔
      InScope normalizeFull ctx.allowedTools tool := by
  have hlive : ctx.isExpired now = false := by simp [PrincipalContext.isExpired, hexp]
  have hprincipal : checkPrincipal normalizeFull ctx who = .ok () := by
    simp [checkPrincipal, hwho, delegatedPrincipalMatches]
  by_cases hempty : ctx.allowedTools = []
  · simp [validateAction, validateActionBinding, hctx, hlive, hprincipal, checkTool, hempty, InScope,
      bind, Except.bind, Except.map]
  · cases hlists : listsTool normalizeFull ctx.allowedTools tool <;>
      simp [validateAction, validateActionBinding, hctx, hlive, hprincipal, checkTool, hempty,
        InScope, hlists, delegatedToolAllowed, bind, Except.bind, Except.map]

/-- A link that was just stored can occur. -/
theorem newLink_linkInv
    (hdepth : (newLink normalizeFull v s f t tools).delegationDepth ≤ v.maxDepth) :
    LinkInv normalizeFull v.maxDepth (newLink normalizeFull v s f t tools) :=
  ⟨rfl, ⟨t, rfl⟩, hdepth⟩

/-- No link that can occur is dropped by the cleanup. -/
theorem cleanupExpired_of_inv {maxDepth : UInt8} (hinv : Inv normalizeFull maxDepth v) (now : Nat) :
    (cleanupExpired v now).1 = v := by
  have hkept : v.activeContexts.entries.filter (fun e => !e.2.isExpired now) =
      v.activeContexts.entries := by
    refine List.filter_eq_self.mpr fun e he => ?_
    have hlook : v.getContext e.1 = some e.2 :=
      AList.mem_lookup_iff.mpr he
    simp [PrincipalContext.isExpired, (hinv.2 e.1 e.2 hlook).noExpiry]
  cases v
  simp only [cleanupExpired, DeputyValidator.mk.injEq, and_true]
  exact AList.ext hkept

end Specs

/-! ## One step -/

section Step

variable {normalizeFull : String → String} {maxDepth : UInt8} {u u' : DeputyValidator}

/-- A step keeps the invariant. -/
theorem step_inv (u : DeputyValidator) (op : Op) (u' : DeputyValidator)
    (hinv : Inv normalizeFull maxDepth u) (hstep : step normalizeFull u op = some u') :
    Inv normalizeFull maxDepth u' := by
  cases op with
  | registerDelegation s f t tools =>
    simp only [step] at hstep
    split at hstep
    · rename_i v' hok
      cases hstep
      obtain ⟨hdepth, -, rfl⟩ := registerDelegation_eq_ok hok
      refine ⟨hinv.1, fun s' ctx hctx => ?_⟩
      by_cases hs : s' = s
      · subst hs
        rw [getContext_store_self] at hctx
        cases hctx
        exact hinv.1 ▸ newLink_linkInv hdepth
      · rw [getContext_store_ne hs] at hctx
        exact hinv.2 s' ctx hctx
    · cases hstep
      exact hinv
  | removeContext s =>
    cases hstep
    refine ⟨hinv.1, fun s' ctx hctx => ?_⟩
    by_cases hs : s' = s
    · subst hs
      have hnone : (removeContext u s').getContext s' = none := AList.lookup_erase _ _
      rw [hnone] at hctx
      cases hctx
    · have hsame : (removeContext u s).getContext s' = u.getContext s' :=
        AList.lookup_erase_ne hs
      rw [hsame] at hctx
      exact hinv.2 s' ctx hctx
  | cleanupExpired now =>
    cases hstep
    rw [cleanupExpired_of_inv hinv]
    exact hinv

theorem new_inv (maxDepth : UInt8) : Inv normalizeFull maxDepth (DeputyValidator.new maxDepth) :=
  ⟨rfl, fun s ctx hctx => by cases hctx⟩

/-- Between two states whose links can occur, narrowing is inclusion of the scopes. -/
theorem narrowed_iff {s : String} {ctx ctx' : PrincipalContext}
    (hu : Inv normalizeFull maxDepth u) (hu' : Inv normalizeFull maxDepth u')
    (hctx : u.getContext s = some ctx) (hctx' : u'.getContext s = some ctx') :
    Narrowed normalizeFull s u u' ↔
      ∀ tool, InScope normalizeFull ctx'.allowedTools tool →
        InScope normalizeFull ctx.allowedTools tool := by
  have hlink := hu.2 s ctx hctx
  have hlink' := hu'.2 s ctx' hctx'
  constructor
  · intro hnarrow tool hscope
    obtain ⟨who, hwho⟩ := hlink.hasDelegate
    obtain ⟨who', hwho'⟩ := hlink'.hasDelegate
    have hok : validateAction normalizeFull u' 0 s tool who' = .ok () :=
      (validateAction_eq_ok_iff hctx' hlink'.noExpiry hwho').mpr hscope
    have hbefore := hnarrow who who' 0 0 tool ⟨ctx, hctx, hwho⟩ ⟨ctx', hctx', hwho'⟩ hok
    exact (validateAction_eq_ok_iff hctx hlink.noExpiry hwho).mp hbefore
  · rintro hsub who who' now now' tool ⟨c, hc, hwho⟩ ⟨c', hc', hwho'⟩ hok
    cases hctx.symm.trans hc
    cases hctx'.symm.trans hc'
    refine (validateAction_eq_ok_iff hctx hlink.noExpiry hwho).mpr (hsub tool ?_)
    exact (validateAction_eq_ok_iff hctx' hlink'.noExpiry hwho').mp hok

/-- At this call the session's scope does not widen: a successful re-delegation of `session`
    leaves the new delegate no tool that the previous one did not have. -/
def NarrowsAt (normalizeFull : String → String) (session : String) (u : DeputyValidator) (op : Op)
    (u' : DeputyValidator) : Prop :=
  ∀ f t tools, op = .registerDelegation session f t tools →
    registerDelegation normalizeFull u session f t tools = .ok u' →
    (u.getContext session).isSome → Narrowed normalizeFull session u u'

/-- The re-delegations of `session` that do not turn a restricted scope into the empty list: the
    parent is unrestricted, or it lists some requested tool, or it lists every name anyway. -/
def KeepsRestriction (normalizeFull : String → String) (session : String) (u : DeputyValidator)
    (op : Op) : Prop :=
  ∀ f t tools parent, op = .registerDelegation session f t tools →
    u.getContext session = some parent → RedelegationAdmitted normalizeFull u parent f →
    parent.allowedTools = [] ∨
      (∃ tool ∈ tools, listsTool normalizeFull parent.allowedTools tool = true) ∨
      ∀ tool, listsTool normalizeFull parent.allowedTools tool = true

/-- **One step.**  A call narrows exactly when it keeps the restriction. -/
theorem narrowsAt_iff {session : String} {op : Op} (hinv : Inv normalizeFull maxDepth u)
    (hstep : step normalizeFull u op = some u') :
    NarrowsAt normalizeFull session u op u' ↔ KeepsRestriction normalizeFull session u op := by
  have hinv' : Inv normalizeFull maxDepth u' := step_inv u op u' hinv hstep
  -- the stored link of a successful re-delegation is the intersection with its parent
  have hlink : ∀ f t tools parent, op = .registerDelegation session f t tools →
      registerDelegation normalizeFull u session f t tools = .ok u' →
      u.getContext session = some parent →
      (Narrowed normalizeFull session u u' ↔ parent.allowedTools = [] ∨
        (∃ tool ∈ tools, listsTool normalizeFull parent.allowedTools tool = true) ∨
        ∀ tool, listsTool normalizeFull parent.allowedTools tool = true) := by
    intro f t tools parent _ hok hparent
    obtain ⟨-, -, rfl⟩ := registerDelegation_eq_ok hok
    rw [narrowed_iff hinv hinv' hparent (getContext_store_self _)]
    simp only [newLink, hparent, Option.elim_some]
    exact effectiveTools_narrows_iff
  constructor
  · intro hnarrows f t tools parent hop hparent hadm
    have hok : registerDelegation normalizeFull u session f t tools = .ok u' := by
      rw [hop, step] at hstep
      rw [registerDelegation_of_context hparent, if_pos hadm.1, if_pos hadm.2] at hstep ⊢
      rw [Option.some.inj hstep]
    have hsome : (u.getContext session).isSome := by rw [hparent]; rfl
    exact (hlink f t tools parent hop hok hparent).mp (hnarrows f t tools hop hok hsome)
  · intro hkeeps f t tools hop hok hsome
    obtain ⟨parent, hparent⟩ := Option.isSome_iff_exists.mp hsome
    have hadm := (registerDelegation_eq_ok hok).2.1 parent hparent
    exact (hlink f t tools parent hop hok hparent).mpr (hkeeps f t tools parent hop hparent hadm)

/-- The session still has a context, and its scope is contained in the earlier one. -/
def ScopeShrinks (normalizeFull : String → String) (session : String) (u v : DeputyValidator) :
    Prop :=
  ∀ ctx, u.getContext session = some ctx → ∃ ctx', v.getContext session = some ctx' ∧
    ∀ tool, InScope normalizeFull ctx'.allowedTools tool →
      InScope normalizeFull ctx.allowedTools tool

/-- A step that keeps the restriction, and does not remove the session, shrinks its scope. -/
theorem step_scopeShrinks {session : String} {op : Op} (hinv : Inv normalizeFull maxDepth u)
    (hstep : step normalizeFull u op = some u') (hop : op ≠ .removeContext session)
    (hkeeps : KeepsRestriction normalizeFull session u op) :
    ScopeShrinks normalizeFull session u u' := by
  intro ctx hctx
  cases op with
  | registerDelegation s f t tools =>
    simp only [step] at hstep
    split at hstep
    · rename_i v' hok
      cases hstep
      obtain ⟨-, hadm, rfl⟩ := registerDelegation_eq_ok hok
      by_cases hs : session = s
      · subst hs
        refine ⟨_, getContext_store_self _, ?_⟩
        simp only [newLink, hctx, Option.elim_some]
        exact effectiveTools_narrows_iff.mpr (hkeeps f t tools ctx rfl hctx (hadm ctx hctx))
      · exact ⟨ctx, by rw [getContext_store_ne hs, hctx], fun tool h => h⟩
    · cases hstep
      exact ⟨ctx, hctx, fun tool h => h⟩
  | removeContext s =>
    cases hstep
    have hne : session ≠ s := fun h => hop (h ▸ rfl)
    have hsame : (removeContext u s).getContext session = u.getContext session :=
      AList.lookup_erase_ne hne
    exact ⟨ctx, hsame.trans hctx, fun tool h => h⟩
  | cleanupExpired now =>
    cases hstep
    rw [cleanupExpired_of_inv hinv]
    exact ⟨ctx, hctx, fun tool h => h⟩

end Step

/-! ## Whole runs -/

/-- **Re-delegation along a run.**  Take any history `before` of a validator, any further calls
    `ops` and any session.

      1. Every re-delegation of the session narrows what its delegate may use EXACTLY WHEN every one
         of them keeps the restriction.
      2. In that case, as long as the session is not removed, the delegate at the end of the whole
         chain has no tool that the delegate at its start did not have.
      3. The depth of the chain never exceeds the configured limit, on any run. -/
theorem redelegation_narrows_iff (normalizeFull : String → String) (maxDepth : UInt8)
    (session : String) (before ops : List Op) (u v : DeputyValidator)
    (hu : run (step normalizeFull) (DeputyValidator.new maxDepth) before = some u)
    (hv : run (step normalizeFull) u ops = some v) :
    (EachStep (step normalizeFull) (NarrowsAt normalizeFull session) u ops ↔
      EachStep (step normalizeFull) (fun w op _ => KeepsRestriction normalizeFull session w op)
        u ops) ∧
    (EachStep (step normalizeFull) (fun w op _ => KeepsRestriction normalizeFull session w op)
        u ops →
      .removeContext session ∉ ops → (u.getContext session).isSome →
      (v.getContext session).isSome ∧ Narrowed normalizeFull session u v) ∧
    (∀ ctx, v.getContext session = some ctx → ctx.delegationDepth ≤ maxDepth) := by
  have hinv : Inv normalizeFull maxDepth u := run_invariant step_inv (new_inv maxDepth) hu
  have hinv' : Inv normalizeFull maxDepth v := run_invariant step_inv hinv hv
  refine ⟨?_, ?_, ?_⟩
  · exact eachStep_congr step_inv (fun w op w' hw hstep => narrowsAt_iff hw hstep) hinv
  · intro hkeeps hkept hsome
    obtain ⟨ctx, hctx⟩ := Option.isSome_iff_exists.mp hsome
    have hshrinks : EachStep (step normalizeFull)
        (fun w _ w' => ScopeShrinks normalizeFull session w w') u ops := by
      refine hkeeps.mono step_inv (fun w op w' hmem hw hstep hk => ?_) hinv
      exact step_scopeShrinks hw hstep (fun h => hkept (h ▸ hmem)) hk
    have hrel : ScopeShrinks normalizeFull session u v := by
      refine run_rel ?_ ?_ hshrinks hv
      · exact fun w c hc => ⟨c, hc, fun tool h => h⟩
      · intro a b c hab hbc ca hca
        obtain ⟨cb, hcb, hsub⟩ := hab ca hca
        obtain ⟨cc, hcc, hsub'⟩ := hbc cb hcb
        exact ⟨cc, hcc, fun tool h => hsub tool (hsub' tool h)⟩
    obtain ⟨ctx', hctx', hsub⟩ := hrel ctx hctx
    exact ⟨by rw [hctx']; rfl, (narrowed_iff hinv hinv' hctx hctx').mpr hsub⟩
  · intro ctx hctx
    exact (hinv'.2 session ctx hctx).depthLe

/-- A chain of two links that narrows: `worker` passes one of its two tools on to `helper`. -/
theorem redelegation_narrows_two_links :
    ∃ u v,
      run (step id) (DeputyValidator.new 3)
        [.registerDelegation "s" "admin" "worker" ["read_file", "write_file"]] = some u ∧
      run (step id) u [.registerDelegation "s" "worker" "helper" ["read_file"]] = some v ∧
      Narrowed id "s" u v := by
  refine ⟨_, _, rfl, rfl, ?_⟩
  refine ((redelegation_narrows_iff id 3 "s"
    [.registerDelegation "s" "admin" "worker" ["read_file", "write_file"]]
    [.registerDelegation "s" "worker" "helper" ["read_file"]] _ _ rfl rfl).2.1 ?_ ?_ rfl).2
  · refine fun w _ => ⟨?_, trivial⟩
    rintro f t tools parent ⟨⟩ ⟨⟩ _
    exact Or.inr (Or.inl ⟨"read_file", by decide, by decide⟩)
  · decide

/-- **Re-delegation can widen.**  `worker` holds `read_file` only and delegates `write_file` to
    `helper`: the intersection is empty, is stored as the empty list, and `helper` may use
    `write_file`, which `worker` could not. -/
theorem redelegation_widens_on_disjoint_request :
    ∃ u v,
      run (step id) (DeputyValidator.new 3)
        [.registerDelegation "s" "admin" "worker" ["read_file"]] = some u ∧
      registerDelegation id u "s" "worker" "helper" ["write_file"] = .ok v ∧
      validateAction id u 0 "s" "write_file" "worker" =
        .error (.toolNotInDelegation "write_file") ∧
      validateAction id v 0 "s" "write_file" "helper" = .ok () ∧
      ¬ Narrowed id "s" u v := by
  refine ⟨_, _, rfl, rfl, rfl, rfl, fun hnarrow => ?_⟩
  have hbefore := hnarrow "worker" "helper" 0 0 "write_file" ⟨_, rfl, rfl⟩ ⟨_, rfl, rfl⟩ rfl
  cases hbefore

end Vellaveto.Deputy
