/-
  WHAT `create_with_context` HANDS BACK.

  PROGRAM.      `create`: a request whose key leads to a pending approval gets the id of that approval;
                otherwise a new approval is stored and its id is returned.

  SPEC.         `PendingApproval.Usable`: the approval is pending, its expiry has not passed, and its
                scope admits the session and the fingerprint of the request.

  CORRECTNESS.  A new approval is usable.  An existing one was made by another call: its key says nothing
                of a fingerprint, and whether it has expired is not looked at.
    1. `create_returns`      the id that is returned: of an approval found under the key, or of the new
                             one;
    2. `usable_approval`     the new one;
    3. `created_usable_iff`  the answer is usable exactly if nothing is found, or what is found is fresh
                             and bound like the request.
-/
import Vellaveto.Approval.Sequential

namespace Vellaveto.Approval

open Vellaveto.Lib

/-- An approval that the caller can go on with. -/
def PendingApproval.Usable (env : Env) (now : Int) (sessionId actionFingerprint : Option String)
    (a : PendingApproval) : Prop :=
  a.status = .pending ∧ ¬a.expiresAt < now ∧ a.scopeMatches env sessionId actionFingerprint = true

/-- An approval is bound to no session or to the session of the request, and to no fingerprint or to the
    fingerprint of the request. -/
def PendingApproval.BoundLike (env : Env) (a : PendingApproval) (request : CreateRequest) : Prop :=
  (a.sessionId = none ∨
    a.sessionId.map (bindSessionScope env) = request.sessionId.map (bindSessionScope env)) ∧
  (a.actionFingerprint = none ∨ a.actionFingerprint = request.actionFingerprint)

/-- The key of a request. -/
def CreateRequest.dedupKey (env : Env) (request : CreateRequest) : String :=
  computeDedupKeyWithContext env request.action request.reason request.requestedBy request.sessionId
    request.storedContext

/-- **The specification**: whenever the call returns an id, the approval that is then stored under it is
    usable. -/
def State.AnswersUsable (env : Env) (config : Config) (st : State) (request : CreateRequest) (id : String)
    (now : Int) (outcome : PersistOutcome) : Prop :=
  ∀ st' returned, st.create env config request id now outcome = (st', .ok returned) →
    ∃ a, st'.pending.lookup returned = some a ∧
      a.Usable env now request.sessionId request.actionFingerprint

section Returns

variable {env : Env} {config : Config} {st : State} {request : CreateRequest} {id : String} {now : Int}
  {outcome : PersistOutcome}

theorem scopeMatches_iff {a : PendingApproval} :
    a.scopeMatches env request.sessionId request.actionFingerprint = true ↔ a.BoundLike env request := by
  refine (Bool.and_eq_true _ _).to_iff.trans (and_congr ?_ ?_)
  · cases a.sessionId with
    | none => exact iff_of_true rfl (Or.inl rfl)
    | some bound =>
      rw [or_iff_right (Option.some_ne_none bound)]
      cases request.sessionId with
      | none => exact iff_of_false Bool.false_ne_true (Option.some_ne_none _)
      | some presented =>
        rw [beq_iff_eq, Option.map_some, Option.map_some, Option.some.injEq]
        exact eq_comm
  · cases a.actionFingerprint with
    | none => exact iff_of_true rfl (Or.inl rfl)
    | some bound =>
      rw [or_iff_right (Option.some_ne_none bound)]
      cases request.actionFingerprint with
      | none => exact iff_of_false Bool.false_ne_true (Option.some_ne_none _)
      | some presented =>
        rw [beq_iff_eq, Option.some.injEq]
        exact eq_comm

/-- What the index finds under a key is pending. -/
theorem pending_of_findExisting {key existing : String} (h : st.findExisting key = some existing) :
    ∃ a, st.pending.lookup existing = some a ∧ a.status = .pending := by
  rw [State.findExisting, Option.filter_eq_some_iff] at h
  cases ha : st.pending.lookup existing with
  | none => simp [ha] at h
  | some a => exact ⟨a, rfl, by simpa [ha] using h.2⟩

/-- **The answer** is the id of a pending approval under the key, and nothing changes; or there is none,
    and it is the id of the new approval, which is stored. -/
theorem create_returns {st' : State} {returned : String}
    (h : st.create env config request id now outcome = (st', .ok returned)) :
    (st.findExisting (request.dedupKey env) = some returned ∧ st' = st) ∨
    (st.findExisting (request.dedupKey env) = none ∧ returned = id ∧
      st'.pending.lookup id = some (request.approval config id now)) := by
  rw [State.create] at h
  split at h
  · cases h
  · dsimp only at h
    split at h
    · rename_i existing hfound
      cases h
      exact Or.inl ⟨hfound, rfl⟩
    · rename_i hnone
      refine Or.inr ⟨hnone, ?_⟩
      -- the second look under the locks finds nothing either
      split at h
      · rename_i st₁ existing hinsert
        rw [State.createInsert, hnone] at hinsert
        dsimp only at hinsert
        split at hinsert
        · cases hinsert
        · cases hinsert
      · cases h
      · rename_i st₁ hinsert
        obtain ⟨-, hne⟩ | ⟨-, -, rfl⟩ := createInsert_cases hinsert
        · exact absurd rfl hne
        · cases outcome with
          | ok =>
            cases h
            exact ⟨rfl, AList.lookup_insert _⟩
          | failed n => cases h

/-- A new approval is usable. -/
theorem usable_approval (httl : 0 ≤ config.defaultTtl) (request : CreateRequest) (id : String)
    (now : Int) :
    (request.approval config id now).Usable env now request.sessionId request.actionFingerprint := by
  refine ⟨rfl, ?_, ?_⟩
  · show ¬now + config.defaultTtl < now
    omega
  · exact scopeMatches_iff.mpr ⟨Or.inr rfl, Or.inr rfl⟩

/-- **Whether the answer of a call can be used.**  It can, in every state, exactly if the request is
    refused, or no pending approval is found under its key, or the one that is found has not expired and
    is bound like the request. -/
theorem created_usable_iff (httl : 0 ≤ config.defaultTtl) (st : State) (request : CreateRequest)
    (id : String) (now : Int) (outcome : PersistOutcome) :
    st.AnswersUsable env config request id now outcome ↔
      (request.validate = .ok () → ∀ existing a,
        st.findExisting (request.dedupKey env) = some existing →
        st.pending.lookup existing = some a → ¬a.expiresAt < now ∧ a.BoundLike env request) := by
  constructor
  · intro h hvalid existing a hfound ha
    have hcreate : st.create env config request id now outcome = (st, .ok existing) := by
      rw [State.create, hvalid]
      have hfound' : st.findExisting ((request.approval config id now).contextKey env) = some existing :=
        hfound
      dsimp only
      rw [hfound']
    obtain ⟨b, hb, -, hfresh, hscope⟩ := h st existing hcreate
    cases ha.symm.trans hb
    exact ⟨hfresh, scopeMatches_iff.mp hscope⟩
  · intro h st' returned hcreate
    rcases create_returns hcreate with ⟨hfound, rfl⟩ | ⟨-, rfl, hstored⟩
    · obtain ⟨a, ha, hpending⟩ := pending_of_findExisting hfound
      have hvalid : request.validate = .ok () := by
        cases hcheck : request.validate with
        | ok u => rfl
        | error e =>
          rw [State.create, hcheck] at hcreate
          cases hcreate
      obtain ⟨hfresh, hbound⟩ := h hvalid returned a hfound ha
      exact ⟨a, ha, hpending, hfresh, scopeMatches_iff.mpr hbound⟩
    · exact ⟨_, hstored, usable_approval httl request returned now⟩

end Returns

theorem created_usable_iff_empty :
    0 ≤ sampleConfig.defaultTtl ∧
      (State.fresh .empty).AnswersUsable (plainEnv []) sampleConfig sampleRequest "a" 0 .ok := by
  have httl : 0 ≤ sampleConfig.defaultTtl := by decide
  refine ⟨httl, (created_usable_iff httl _ sampleRequest "a" 0 .ok).mpr ?_⟩
  intro _ existing a hfound
  cases hfound

/-- The store after `sampleRequest` at time zero. -/
def oneApproval : State :=
  ((State.fresh .empty).create (plainEnv []) sampleConfig sampleRequest "a" 0 .ok).1

/-- The same request for another fingerprint of the same action. -/
def otherFingerprint : CreateRequest :=
  { sampleRequest with actionFingerprint := some "11111111111111111111111111111111" }

/-- A second later the other request gets an approval that does not match its fingerprint, and after
    sixteen minutes the first one gets its own approval back, which has expired. -/
theorem created_approval_not_usable :
    ¬oneApproval.AnswersUsable (plainEnv []) sampleConfig otherFingerprint "b" 1000000000 .ok ∧
      ¬oneApproval.AnswersUsable (plainEnv []) sampleConfig sampleRequest "b" 960000000000 .ok := by
  constructor
  · intro h
    have hanswer : (oneApproval.create (plainEnv []) sampleConfig otherFingerprint "b" 1000000000 .ok).2 =
        .ok "a" := by
      decide +kernel
    have hother : ∀ a ∈ (oneApproval.create (plainEnv []) sampleConfig otherFingerprint "b" 1000000000
        .ok).1.pending.lookup "a",
        a.scopeMatches (plainEnv []) otherFingerprint.sessionId otherFingerprint.actionFingerprint =
          false := by
      decide +kernel
    obtain ⟨a, ha, -, -, hscope⟩ := h _ "a" (Prod.ext rfl hanswer)
    exact Bool.false_ne_true ((hother a ha).symm.trans hscope)
  · intro h
    have hanswer : (oneApproval.create (plainEnv []) sampleConfig sampleRequest "b" 960000000000 .ok).2 =
        .ok "a" := by
      decide +kernel
    have hlate : ∀ a ∈ (oneApproval.create (plainEnv []) sampleConfig sampleRequest "b" 960000000000
        .ok).1.pending.lookup "a", a.expiresAt < 960000000000 := by
      decide +kernel
    obtain ⟨a, ha, -, hfresh, -⟩ := h _ "a" (Prod.ext rfl hanswer)
    exact hfresh (hlate a ha)

end Vellaveto.Approval
