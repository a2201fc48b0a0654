/-
  DO DEDUP KEYS TELL REQUESTS APART?

  PROGRAM.      `compute_dedup_key_with_context`: the digest of five texts with `||` between them.  The
                first is the JSON of the action, the last the JSON of the context; the three in the middle
                are the reason, the requester and the session as they came, and may hold `||` themselves.

  SPEC.         `Separates`: an accepted request with the same key asks for the same thing, for the same
                reason, by the same principal, in the same session and context.

  CORRECTNESS.  An object can be cut off the front of a text, and a context off its end, in one way only.
                What is left are the three texts in the middle, and whether THEY can be cut apart in one
                way is all that matters.
    1. `keyText_inj`               equal texts: equal actions, equal contexts, equal middles;
    2. `separates_iff`             the key separates exactly if the middle can be cut in one way only;
    3. `cutsOneWay_of_no_bar`      it can if none of the three texts holds a `|`;
    4. `principals_share_key`      a request of one principal that gets the approval of another.
-/
import Vellaveto.Approval.ContextText
import Vellaveto.Approval.Usable
import Vellaveto.Lib.Decision
import Vellaveto.Lib.Netstring

namespace Vellaveto.Approval

open Vellaveto.Lib Vellaveto.Json

/-! ## The texts of a request -/

/-- The texts of a request that are hashed as they are. -/
structure FreeTexts where
  reason : String
  requestedBy : Option String
  sessionId : Option String
deriving DecidableEq, Repr

namespace FreeTexts

/-- The checks of `create_with_context` on these texts. -/
def validate (t : FreeTexts) : Except ApprovalError Unit := do
  checkReason t.reason
  checkOption checkRequestedBy t.requestedBy
  checkOption checkSessionId t.sessionId

def requester (t : FreeTexts) : String := t.requestedBy.getD (sentinel "NONE")

def session (t : FreeTexts) : String := t.sessionId.getD (sentinel "NOSESS")

/-- The middle of the text that is hashed. -/
def joined (t : FreeTexts) : String := t.reason ++ "||" ++ t.requester ++ "||" ++ t.session

/-- **The condition**: no other accepted texts are joined to the same middle. -/
def CutsOneWay (t : FreeTexts) : Prop :=
  ∀ t' : FreeTexts, t'.validate = .ok () → t'.joined = t.joined → t' = t

end FreeTexts

namespace CreateRequest

def freeTexts (r : CreateRequest) : FreeTexts := ⟨r.reason, r.requestedBy, r.sessionId⟩

/-- The request with other texts. -/
def withTexts (r : CreateRequest) (t : FreeTexts) : CreateRequest :=
  { r with reason := t.reason, requestedBy := t.requestedBy, sessionId := t.sessionId }

/-- The last of the five texts. -/
def contextPart (env : Env) (r : CreateRequest) : String :=
  match r.storedContext with
  | some c => env.contextText c.normalized
  | none => sentinel "NOCTX"

/-- The text that is hashed. -/
def keyText (env : Env) (r : CreateRequest) : String :=
  env.ext.jsonText (canonicalAction env r.action) ++ "||" ++ r.freeTexts.joined ++ "||" ++
    r.contextPart env

/-- Two requests for the same thing, by the same principal, in the same session. -/
structure SameRequest (env : Env) (r r' : CreateRequest) : Prop where
  tool : normalizeIdentity env r.action.tool = normalizeIdentity env r'.action.tool
  function : normalizeIdentity env r.action.function = normalizeIdentity env r'.action.function
  parameters : r.action.parameters = r'.action.parameters
  targetPaths : sortStrings r.action.targetPaths = sortStrings r'.action.targetPaths
  targetDomains : sortStrings r.action.targetDomains = sortStrings r'.action.targetDomains
  resolvedIps : sortStrings r.action.resolvedIps = sortStrings r'.action.resolvedIps
  reason : r.reason = r'.reason
  requestedBy : r.requestedBy = r'.requestedBy
  sessionId : r.sessionId = r'.sessionId
  context : r.storedContext = r'.storedContext

/-- **The specification**: every accepted request with the key of this one is the same request.  In
    particular none of another principal or another session has it. -/
def Separates (env : Env) (r : CreateRequest) : Prop :=
  ∀ r' : CreateRequest, r'.validate = .ok () → r'.dedupKey env = r.dedupKey env → SameRequest env r r'

end CreateRequest

section Checks

variable {r : CreateRequest}

/-- The texts, the fingerprint and the context are checked apart from each other. -/
theorem validate_ok_iff : r.validate = .ok () ↔
    r.freeTexts.validate = .ok () ∧ checkOption checkFingerprint r.actionFingerprint = .ok () ∧
      checkOption (fun c => c.validate.mapError .validation) r.containmentContext = .ok () := by
  constructor
  · intro h
    obtain ⟨⟨⟩, hreason, h⟩ := bind_eq_ok_iff.mp h
    obtain ⟨⟨⟩, hrequester, h⟩ := bind_eq_ok_iff.mp h
    obtain ⟨⟨⟩, hsession, h⟩ := bind_eq_ok_iff.mp h
    obtain ⟨⟨⟩, hfingerprint, hcontext⟩ := bind_eq_ok_iff.mp h
    refine ⟨?_, hfingerprint, hcontext⟩
    exact bind_eq_ok_iff.mpr ⟨(), hreason, bind_eq_ok_iff.mpr ⟨(), hrequester, hsession⟩⟩
  · rintro ⟨htexts, hfingerprint, hcontext⟩
    obtain ⟨⟨⟩, hreason, htexts⟩ := bind_eq_ok_iff.mp htexts
    obtain ⟨⟨⟩, hrequester, hsession⟩ := bind_eq_ok_iff.mp htexts
    refine bind_eq_ok_iff.mpr ⟨(), hreason, bind_eq_ok_iff.mpr ⟨(), hrequester, ?_⟩⟩
    exact bind_eq_ok_iff.mpr ⟨(), hsession, bind_eq_ok_iff.mpr ⟨(), hfingerprint, hcontext⟩⟩

theorem validate_withTexts {t : FreeTexts} (hr : r.validate = .ok ()) (ht : t.validate = .ok ()) :
    (r.withTexts t).validate = .ok () := by
  rw [validate_ok_iff] at hr ⊢
  exact ⟨ht, hr.2⟩

/-- What is stored is normalized and says something. -/
theorem storedContext_normalized {c : ContainmentContext} (h : r.storedContext = some c) :
    c.normalized = c ∧ c.isMeaningful = true := by
  obtain ⟨hmap, hmeaningful⟩ := Option.filter_eq_some_iff.mp h
  obtain ⟨d, -, rfl⟩ := Option.map_eq_some_iff.mp hmap
  exact ⟨normalized_normalized d, hmeaningful⟩

theorem format_five (action reason requester session context : String) :
    s!"{action}||{reason}||{requester}||{session}||{context}" =
      action ++ "||" ++ (reason ++ "||" ++ requester ++ "||" ++ session) ++ "||" ++ context := by
  show action ++ "||" ++ reason ++ "||" ++ requester ++ "||" ++ session ++ "||" ++ context = _
  simp only [String.append_assoc]

/-- The key is the digest of the text. -/
theorem dedupKey_eq (env : Env) (r : CreateRequest) : r.dedupKey env = env.sha256Hex (r.keyText env) := by
  unfold CreateRequest.dedupKey computeDedupKeyWithContext CreateRequest.keyText CreateRequest.contextPart
  cases hstored : r.storedContext with
  | none => exact congrArg env.sha256Hex (format_five ..)
  | some c =>
    simp only [if_pos (storedContext_normalized hstored).2]
    exact congrArg env.sha256Hex (format_five ..)

end Checks

/-! ## Cutting the text apart -/

/-- The JSON texts are those of `serde_json`. -/
structure SerdeTexts (env : Env) (number : JsonNumber → List Char) : Prop where
  numbers : NumberLaws number
  values : ∀ v, env.ext.jsonText v = String.ofList (jsonText number v)
  contexts : ∀ c, env.contextText c = String.ofList (jsonText number (contextJson c))

section Cutting

variable {env : Env} {number : JsonNumber → List Char} {r r' : CreateRequest}

theorem toList_contextPart (texts : SerdeTexts env number) (r : CreateRequest) :
    (r.contextPart env).toList =
      match r.storedContext with
      | some c => jsonText number (contextJson c)
      | none => (sentinel "NOCTX").toList := by
  rw [CreateRequest.contextPart]
  cases hstored : r.storedContext with
  | none => rfl
  | some c =>
    dsimp only
    rw [(storedContext_normalized hstored).1, texts.contexts, String.toList_ofList]

/-- **The context off the end**: a JSON object ends with a brace, the text for no context does not. -/
theorem contextPart_append_inj (texts : SerdeTexts env number) {front front' : List Char}
    (h : front ++ (r.contextPart env).toList = front' ++ (r'.contextPart env).toList) :
    front = front' ∧ r.storedContext = r'.storedContext := by
  have hend : ∀ {a b : List Char} {c : ContainmentContext},
      a ++ jsonText number (contextJson c) ≠ b ++ (sentinel "NOCTX").toList := by
    intro a b c hab
    have hlast := congrArg List.getLast? hab
    have hnul : (sentinel "NOCTX").toList.getLast? = some (Char.ofNat 0) := by decide
    rw [List.getLast?_append, List.getLast?_append, contextJson, getLast?_object, hnul] at hlast
    exact absurd (Option.some.inj hlast) (by decide)
  rw [toList_contextPart texts, toList_contextPart texts] at h
  cases hstored : r.storedContext with
  | none =>
    cases hstored' : r'.storedContext with
    | none =>
      rw [hstored, hstored'] at h
      exact ⟨List.append_cancel_right h, rfl⟩
    | some c' =>
      rw [hstored, hstored'] at h
      exact absurd h.symm hend
  | some c =>
    cases hstored' : r'.storedContext with
    | none =>
      rw [hstored, hstored'] at h
      exact absurd h hend
    | some c' =>
      rw [hstored, hstored'] at h
      obtain ⟨hfront, hcontext⟩ := contextText_append_inj texts.numbers
        (storedContext_normalized hstored).2 (storedContext_normalized hstored').2 h
      exact ⟨hfront, congrArg some hcontext⟩

/-- **Equal texts**: the actions have the same canonical form, the contexts are the same, and so is what
    stands between them. -/
theorem keyText_inj (texts : SerdeTexts env number) (h : r.keyText env = r'.keyText env) :
    canonicalAction env r.action = canonicalAction env r'.action ∧
      r.freeTexts.joined = r'.freeTexts.joined ∧ r.storedContext = r'.storedContext := by
  have hchars := congrArg String.toList h
  simp only [CreateRequest.keyText, texts.values, String.toList_append, String.toList_ofList,
    List.append_assoc] at hchars
  obtain ⟨hmembers, hrest⟩ := object_append_inj texts.numbers _ _ hchars
  have hmiddle := List.append_cancel_left hrest
  rw [← List.append_assoc, ← List.append_assoc] at hmiddle
  obtain ⟨hfront, hcontext⟩ := contextPart_append_inj texts hmiddle
  refine ⟨congrArg Json.object hmembers, ?_, hcontext⟩
  exact String.toList_injective (List.append_cancel_right hfront)

/-- What the canonical form tells of an action. -/
theorem canonicalAction_inj {action action' : Action}
    (h : canonicalAction env action = canonicalAction env action') :
    normalizeIdentity env action.tool = normalizeIdentity env action'.tool ∧
      normalizeIdentity env action.function = normalizeIdentity env action'.function ∧
      action.parameters = action'.parameters ∧
      sortStrings action.targetPaths = sortStrings action'.targetPaths ∧
      sortStrings action.targetDomains = sortStrings action'.targetDomains ∧
      sortStrings action.resolvedIps = sortStrings action'.resolvedIps := by
  have hstrings : Function.Injective (List.map Json.string) :=
    List.map_injective_iff.mpr fun a b hab => Json.string.inj hab
  simp only [canonicalAction, Json.object.injEq, List.cons.injEq, Prod.mk.injEq, Json.string.injEq,
    Json.array.injEq, hstrings.eq_iff, true_and, and_true] at h
  obtain ⟨hfunction, hparameters, hips, hdomains, hpaths, htool⟩ := h
  exact ⟨htool, hfunction, hparameters, hpaths, hdomains, hips⟩

/-- **When the key separates.**  For every accepted request: exactly if its reason, requester and session,
    joined by bars, are the only accepted texts that are joined so. -/
theorem separates_iff (texts : SerdeTexts env number) (hsha : Function.Injective env.sha256Hex)
    (hr : r.validate = .ok ()) : r.Separates env ↔ r.freeTexts.CutsOneWay := by
  constructor
  · intro hseparates t ht hjoined
    -- the same request with the other texts has the same key
    have hkey : (r.withTexts t).dedupKey env = r.dedupKey env := by
      rw [dedupKey_eq, dedupKey_eq]
      show env.sha256Hex (_ ++ "||" ++ t.joined ++ "||" ++ r.contextPart env) = _
      rw [hjoined]
      rfl
    have hsame := hseparates _ (validate_withTexts hr ht) hkey
    show (⟨t.reason, t.requestedBy, t.sessionId⟩ : FreeTexts) = _
    rw [CreateRequest.freeTexts, hsame.reason, hsame.requestedBy, hsame.sessionId]
    rfl
  · intro hcuts r' hr' hkey
    rw [dedupKey_eq, dedupKey_eq] at hkey
    obtain ⟨haction, hjoined, hcontext⟩ := keyText_inj texts (hsha hkey.symm)
    have htexts : r'.freeTexts = r.freeTexts := hcuts _ (validate_ok_iff.mp hr').1 hjoined.symm
    obtain ⟨hreason, hrequester, hsession⟩ := FreeTexts.mk.inj htexts
    obtain ⟨htool, hfunction, hparameters, hpaths, hdomains, hips⟩ := canonicalAction_inj haction
    exact ⟨htool, hfunction, hparameters, hpaths, hdomains, hips, hreason.symm, hrequester.symm,
      hsession.symm, hcontext⟩

end Cutting

/-! ## Texts without bars -/

/-- A text that must not be empty and passes its check holds no NUL character. -/
theorem nul_notMem {field : String} {max : Nat} {text : Option String}
    (h : checkOption (checkNonEmptyText field max) text = .ok ()) :
    ∀ s ∈ text, Char.ofNat 0 ∉ s.toList := by
  intro s hs hnul
  obtain rfl : text = some s := hs
  obtain ⟨-, -, hcontrol, -⟩ := checkNonEmptyText_ok.mp h
  have hall := List.any_eq_false.mp hcontrol _ hnul
  exact hall (by decide)

/-- An accepted text is not taken for the text that stands for none. -/
theorem getD_sentinel_inj {text text' : Option String} {name : String}
    (h : ∀ s ∈ text, Char.ofNat 0 ∉ s.toList) (h' : ∀ s ∈ text', Char.ofNat 0 ∉ s.toList)
    (heq : text.getD (sentinel name) = text'.getD (sentinel name)) : text = text' := by
  have hnul : Char.ofNat 0 ∈ (sentinel name).toList := by simp [sentinel]
  match text, text' with
  | none, none => rfl
  | none, some s =>
    have hs : sentinel name = s := heq
    exact absurd (hs ▸ hnul) (h' s rfl)
  | some s, none =>
    have hs : s = sentinel name := heq
    exact absurd (hs ▸ hnul) (h s rfl)
  | some s, some s' => exact congrArg some heq

/-- **Without bars** in them the texts can be cut apart in one way: the four bars are those between
    them. -/
theorem cutsOneWay_of_no_bar {t : FreeTexts} (ht : t.validate = .ok ()) (hreason : '|' ∉ t.reason.toList)
    (hrequester : '|' ∉ t.requester.toList) (hsession : '|' ∉ t.session.toList) : t.CutsOneWay := by
  intro t' ht' hjoined
  have hchars : t'.reason.toList ++ '|' :: '|' :: (t'.requester.toList ++ '|' :: '|' :: t'.session.toList) =
      t.reason.toList ++ '|' :: '|' :: (t.requester.toList ++ '|' :: '|' :: t.session.toList) := by
    have h := congrArg String.toList hjoined
    simpa [FreeTexts.joined] using h
  -- the other texts hold no bars either, since there are four of them in all
  have hcount := congrArg (List.count '|') hchars
  simp only [List.count_append, List.count_cons_self, List.count_eq_zero.mpr hreason,
    List.count_eq_zero.mpr hrequester, List.count_eq_zero.mpr hsession] at hcount
  have hreason' : '|' ∉ t'.reason.toList := List.count_eq_zero.mp (by omega)
  have hrequester' : '|' ∉ t'.requester.toList := List.count_eq_zero.mp (by omega)
  obtain ⟨hr, hrest⟩ := append_cons_inj_of_notMem hreason' hreason hchars
  obtain ⟨hq, hrest⟩ := append_cons_inj_of_notMem hrequester' hrequester (List.cons.inj hrest).2
  have hs : t'.session.toList = t.session.toList := (List.cons.inj hrest).2
  obtain ⟨⟨⟩, -, hchecks⟩ := bind_eq_ok_iff.mp ht
  obtain ⟨⟨⟩, hby, hid⟩ := bind_eq_ok_iff.mp hchecks
  obtain ⟨⟨⟩, -, hchecks'⟩ := bind_eq_ok_iff.mp ht'
  obtain ⟨⟨⟩, hby', hid'⟩ := bind_eq_ok_iff.mp hchecks'
  have hrequestedBy : t'.requestedBy = t.requestedBy :=
    getD_sentinel_inj (nul_notMem hby') (nul_notMem hby) (String.toList_injective hq)
  have hsessionId : t'.sessionId = t.sessionId :=
    getD_sentinel_inj (nul_notMem hid') (nul_notMem hid) (String.toList_injective hs)
  show (⟨t'.reason, t'.requestedBy, t'.sessionId⟩ : FreeTexts) = ⟨t.reason, t.requestedBy, t.sessionId⟩
  rw [String.toList_injective hr, hrequestedBy, hsessionId]

/-! ## Two principals -/

/-- The plain environment with the texts of `serde_json`. -/
def serdeEnv : Env :=
  { plainEnv [] with
    ext := { plainExternals with jsonText := fun v => String.ofList (jsonText plainNumber v) }
    contextText := fun c => String.ofList (jsonText plainNumber (contextJson c)) }

theorem serdeTexts_serdeEnv : SerdeTexts serdeEnv plainNumber :=
  ⟨plainNumber_laws, fun _ => rfl, fun _ => rfl⟩

/-- A request of one principal. -/
def carolRequest : CreateRequest :=
  { sampleRequest with reason := "deploy", requestedBy := some "carol" }

theorem carolRequest_separates :
    SerdeTexts serdeEnv plainNumber ∧ Function.Injective serdeEnv.sha256Hex ∧
      carolRequest.validate = .ok () ∧ carolRequest.Separates serdeEnv := by
  have hvalid : carolRequest.validate = .ok () := by decide +kernel
  have hcuts : carolRequest.freeTexts.CutsOneWay :=
    cutsOneWay_of_no_bar (validate_ok_iff.mp hvalid).1 (by decide) (by decide) (by decide)
  exact ⟨serdeTexts_serdeEnv, Function.injective_id, hvalid,
    (separates_iff serdeTexts_serdeEnv Function.injective_id hvalid).mpr hcuts⟩

/-- Two requests with the same middle: the requester of one is a part of the reason of the other. -/
def aliceRequest : CreateRequest :=
  { sampleRequest with reason := "deploy", requestedBy := some "alice", sessionId := some "bob||s" }

def bobRequest : CreateRequest :=
  { sampleRequest with reason := "deploy||alice", requestedBy := some "bob", sessionId := some "s" }

/-- The two principals have one key, and the second gets the approval of the first. -/
theorem principals_share_key :
    aliceRequest.validate = .ok () ∧ bobRequest.validate = .ok () ∧
      bobRequest.dedupKey serdeEnv = aliceRequest.dedupKey serdeEnv ∧
      aliceRequest.requestedBy ≠ bobRequest.requestedBy ∧
      aliceRequest.sessionId ≠ bobRequest.sessionId ∧ ¬aliceRequest.Separates serdeEnv ∧
      (((State.fresh .empty).create serdeEnv sampleConfig aliceRequest "a" 0 .ok).1.create serdeEnv
        sampleConfig bobRequest "b" 1000000000 .ok).2 = .ok "a" := by
  have hvalid : bobRequest.validate = .ok () := by decide +kernel
  have hkey : bobRequest.dedupKey serdeEnv = aliceRequest.dedupKey serdeEnv := by
    rw [dedupKey_eq, dedupKey_eq]
    rfl
  have hother : aliceRequest.requestedBy ≠ bobRequest.requestedBy := by decide
  refine ⟨by decide +kernel, hvalid, hkey, hother, by decide, ?_, by decide +kernel⟩
  intro hseparates
  exact hother (hseparates bobRequest hvalid hkey).requestedBy

end Vellaveto.Approval
