/-
  THE TEXT OF A CONTAINMENT CONTEXT (`#[derive(Serialize)]` of `ApprovalContainmentContext`).

  The context is written as a JSON object that leaves out what it has nothing to say about: empty lists,
  missing values and flags that are not set.  It stands at the END of the text that is hashed to a dedup
  key, so it has to be found from the right.

    1. `contextJson_injective`     the members tell the context;
    2. `normalized_normalized`     normalizing twice is normalizing once;
    3. `contextText_append_inj`    two texts that end with the texts of contexts end with the same one.

  For 3 the place where the object starts is recognised by what follows its brace: a quote and a small
  letter that is not `v`.  No later brace is followed so.  Inside a string a quote comes after a
  backslash; after a string stands one of `,` `:` `]` and the closing brace; and the one object inside,
  the risk score, has the member `value`.
-/
import Vellaveto.Approval.Types
import Vellaveto.JsonText

namespace Vellaveto

/-! ## Names

  `#[serde(rename_all = "snake_case")]`. -/

/-- A name that is looked up among all names belongs to one value. -/
theorem injective_of_find {α : Type} {name : α → String} (all : List α)
    (h : ∀ a, all.find? (fun b => name b == name a) = some a) : Function.Injective name := by
  intro a b hab
  have ha := h a
  rw [hab, h b] at ha
  exact (Option.some.inj ha).symm

def TaintLabel.name : TaintLabel → String
  | .untrusted => "untrusted"
  | .sanitized => "sanitized"
  | .quarantined => "quarantined"
  | .sensitive => "sensitive"
  | .crossAgent => "cross_agent"
  | .replayed => "replayed"
  | .mixedProvenance => "mixed_provenance"
  | .integrityFailed => "integrity_failed"

theorem TaintLabel.name_injective : Function.Injective TaintLabel.name :=
  injective_of_find [.untrusted, .sanitized, .quarantined, .sensitive, .crossAgent, .replayed,
    .mixedProvenance, .integrityFailed] (by intro a; cases a <;> decide)

def ContextChannel.name : ContextChannel → String
  | .data => "data"
  | .freeText => "free_text"
  | .url => "url"
  | .commandLike => "command_like"
  | .toolOutput => "tool_output"
  | .resourceContent => "resource_content"
  | .approvalPrompt => "approval_prompt"
  | .memory => "memory"

theorem ContextChannel.name_injective : Function.Injective ContextChannel.name :=
  injective_of_find [.data, .freeText, .url, .commandLike, .toolOutput, .resourceContent,
    .approvalPrompt, .memory] (by intro a; cases a <;> decide)

def TrustTier.name : TrustTier → String
  | .unknown => "unknown"
  | .untrusted => "untrusted"
  | .low => "low"
  | .medium => "medium"
  | .high => "high"
  | .verified => "verified"
  | .quarantined => "quarantined"

theorem TrustTier.name_injective : Function.Injective TrustTier.name :=
  injective_of_find [.unknown, .untrusted, .low, .medium, .high, .verified,
    .quarantined] (by intro a; cases a <;> decide)

def SinkClass.name : SinkClass → String
  | .readOnly => "read_only"
  | .lowRiskWrite => "low_risk_write"
  | .filesystemWrite => "filesystem_write"
  | .networkEgress => "network_egress"
  | .codeExecution => "code_execution"
  | .memoryWrite => "memory_write"
  | .approvalUi => "approval_ui"
  | .credentialAccess => "credential_access"
  | .policyMutation => "policy_mutation"

theorem SinkClass.name_injective : Function.Injective SinkClass.name :=
  injective_of_find [.readOnly, .lowRiskWrite, .filesystemWrite, .networkEgress, .codeExecution,
    .memoryWrite, .approvalUi, .credentialAccess, .policyMutation] (by intro a; cases a <;> decide)

def ContainmentMode.name : ContainmentMode → String
  | .disabled => "disabled"
  | .observe => "observe"
  | .enforce => "enforce"
  | .sanitize => "sanitize"
  | .quarantine => "quarantine"
  | .requireApproval => "require_approval"

theorem ContainmentMode.name_injective : Function.Injective ContainmentMode.name :=
  injective_of_find [.disabled, .observe, .enforce, .sanitize, .quarantine,
    .requireApproval] (by intro a; cases a <;> decide)

namespace Approval

def SignatureVerificationStatus.name : SignatureVerificationStatus → String
  | .missing => "missing"
  | .verified => "verified"
  | .invalid => "invalid"
  | .expired => "expired"
  | .error => "error"

theorem SignatureVerificationStatus.name_injective : Function.Injective SignatureVerificationStatus.name :=
  injective_of_find [.missing, .verified, .invalid, .expired, .error] (by intro a; cases a <;> decide)

def WorkloadBindingStatus.name : WorkloadBindingStatus → String
  | .unknown => "unknown"
  | .bound => "bound"
  | .missing => "missing"
  | .mismatch => "mismatch"
  | .unverified => "unverified"

theorem WorkloadBindingStatus.name_injective : Function.Injective WorkloadBindingStatus.name :=
  injective_of_find [.unknown, .bound, .missing, .mismatch,
    .unverified] (by intro a; cases a <;> decide)

def SessionKeyScope.name : SessionKeyScope → String
  | .unknown => "unknown"
  | .ephemeralExecution => "ephemeral_execution"
  | .ephemeralSession => "ephemeral_session"
  | .persistedClient => "persisted_client"
  | .persistedService => "persisted_service"

theorem SessionKeyScope.name_injective : Function.Injective SessionKeyScope.name :=
  injective_of_find [.unknown, .ephemeralExecution, .ephemeralSession, .persistedClient,
    .persistedService] (by intro a; cases a <;> decide)

def ReplayStatus.name : ReplayStatus → String
  | .notChecked => "not_checked"
  | .fresh => "fresh"
  | .replayDetected => "replay_detected"

theorem ReplayStatus.name_injective : Function.Injective ReplayStatus.name :=
  injective_of_find [.notChecked, .fresh, .replayDetected] (by intro a; cases a <;> decide)

open Vellaveto.Lib Vellaveto.Json

/-! ## The JSON value -/

/-- A list of names, left out when it is empty. -/
def namesField {α : Type} (name : α → String) (xs : List α) : Option Json :=
  if xs.isEmpty then none else some (.array (xs.map fun x => .string (name x)))

/-- A name, left out when there is none. -/
def nameField {α : Type} (name : α → String) (x : Option α) : Option Json :=
  x.map fun x => .string (name x)

/-- A flag, left out when it is not set (`is_false`). -/
def flagField (b : Bool) : Option Json := if b then some (.bool true) else none

/-- The risk score is a struct of its own. -/
def scoreField (score : Option UInt8) : Option Json :=
  score.map fun n => .object [("value", .number (.posInt n.toNat))]

/-- The fields of a context, in declaration order. -/
def contextFields (c : ContainmentContext) : List (String × Option Json) := [
  ("semantic_taint", namesField TaintLabel.name c.semanticTaint),
  ("lineage_channels", namesField ContextChannel.name c.lineageChannels),
  ("effective_trust_tier", nameField TrustTier.name c.effectiveTrustTier),
  ("sink_class", nameField SinkClass.name c.sinkClass),
  ("containment_mode", nameField ContainmentMode.name c.containmentMode),
  ("semantic_risk_score", scoreField c.semanticRiskScore),
  ("signature_status", nameField SignatureVerificationStatus.name c.signatureStatus),
  ("client_key_id", nameField id c.clientKeyId),
  ("workload_binding_status", nameField WorkloadBindingStatus.name c.workloadBindingStatus),
  ("replay_status", nameField ReplayStatus.name c.replayStatus),
  ("session_key_scope", nameField SessionKeyScope.name c.sessionKeyScope),
  ("session_scope_binding", nameField id c.sessionScopeBinding),
  ("canonical_request_hash", nameField id c.canonicalRequestHash),
  ("execution_is_ephemeral", flagField c.executionIsEphemeral),
  ("counterfactual_review_required", flagField c.counterfactualReviewRequired)]

/-- The JSON value of a context. -/
def contextJson (c : ContainmentContext) : Json := .object (members (contextFields c))

def contextKeys : List String :=
  ["semantic_taint", "lineage_channels", "effective_trust_tier", "sink_class", "containment_mode",
    "semantic_risk_score", "signature_status", "client_key_id", "workload_binding_status",
    "replay_status", "session_key_scope", "session_scope_binding", "canonical_request_hash",
    "execution_is_ephemeral", "counterfactual_review_required"]

theorem map_fst_contextFields (c : ContainmentContext) :
    (contextFields c).map Prod.fst = contextKeys := rfl

theorem nodup_contextKeys : contextKeys.Nodup := by decide

section Fields

variable {α : Type} {name : α → String}

theorem nameField_injective (hname : Function.Injective name) : Function.Injective (nameField name) := by
  apply Option.map_injective
  intro a b h
  exact hname (Json.string.inj h)

theorem namesField_injective (hname : Function.Injective name) :
    Function.Injective (namesField name) := by
  intro xs ys h
  have hmap : Function.Injective (List.map fun x => Json.string (name x)) := by
    apply List.map_injective_iff.mpr
    intro a b hab
    exact hname (Json.string.inj hab)
  cases xs with
  | nil =>
    cases ys with
    | nil => rfl
    | cons y ys => simp [namesField] at h
  | cons x xs =>
    cases ys with
    | nil => simp [namesField] at h
    | cons y ys => exact hmap (Json.array.inj (Option.some.inj h))

theorem flagField_injective : Function.Injective flagField := by
  intro a b h
  cases a <;> cases b <;> simp_all [flagField]

theorem scoreField_injective : Function.Injective scoreField := by
  apply Option.map_injective
  intro a b h
  have hvalue : a.toNat = b.toNat := by simpa using h
  exact UInt8.toNat_inj.mp hvalue

end Fields

/-- **The members tell the context.** -/
theorem contextJson_injective : Function.Injective contextJson := by
  intro c d h
  have hfields : contextFields c = contextFields d :=
    members_inj rfl nodup_contextKeys (Json.object.inj h)
  simp only [contextFields, List.cons.injEq, Prod.mk.injEq, true_and, and_true] at hfields
  obtain ⟨h1, h2, h3, h4, h5, h6, h7, h8, h9, h10, h11, h12, h13, h14, h15⟩ := hfields
  cases c
  cases d
  rw [ContainmentContext.mk.injEq]
  exact ⟨namesField_injective TaintLabel.name_injective h1,
    namesField_injective ContextChannel.name_injective h2,
    nameField_injective TrustTier.name_injective h3,
    nameField_injective SinkClass.name_injective h4,
    nameField_injective ContainmentMode.name_injective h5,
    scoreField_injective h6,
    nameField_injective SignatureVerificationStatus.name_injective h7,
    nameField_injective Function.injective_id h8,
    nameField_injective WorkloadBindingStatus.name_injective h9,
    nameField_injective ReplayStatus.name_injective h10,
    nameField_injective SessionKeyScope.name_injective h11,
    nameField_injective Function.injective_id h12,
    nameField_injective Function.injective_id h13,
    flagField_injective h14, flagField_injective h15⟩

/-- A context with something to say has a member. -/
theorem isMeaningful_eq (c : ContainmentContext) :
    c.isMeaningful = (contextFields c).any fun field => field.2.isSome := by
  have hnames : ∀ {α : Type} (name : α → String) (xs : List α),
      (namesField name xs).isSome = !xs.isEmpty := by
    intro α name xs
    cases xs <;> rfl
  have hname : ∀ {α : Type} (name : α → String) (x : Option α), (nameField name x).isSome = x.isSome := by
    intro α name x
    cases x <;> rfl
  have hflag : ∀ b, (flagField b).isSome = b := by decide
  have hscore : (scoreField c.semanticRiskScore).isSome = c.semanticRiskScore.isSome := Option.isSome_map
  simp only [contextFields, List.any_cons, List.any_nil, hnames, hname, hflag, hscore, Bool.or_false]
  simp only [ContainmentContext.isMeaningful, Bool.or_assoc]

theorem members_ne_nil {c : ContainmentContext} (h : c.isMeaningful = true) :
    members (contextFields c) ≠ [] := by
  rw [isMeaningful_eq, List.any_eq_true] at h
  obtain ⟨⟨key, value⟩, hfield, hsome⟩ := h
  obtain ⟨v, rfl⟩ := Option.isSome_iff_exists.mp hsome
  have hmember : (key, v) ∈ members (contextFields c) := mem_members.mpr hfield
  exact List.ne_nil_of_mem hmember

/-! ## Normalizing twice -/

section Sorted

variable {α : Type} [DecidableEq α]

theorem head_dedupAfter (x : α) (xs : List α) : ∃ rest, dedupAfter x xs = x :: rest := by
  fun_induction dedupAfter x xs with
  | case1 x => exact ⟨[], rfl⟩
  | case2 x rest ih => exact ih
  | case3 x y rest hne ih => exact ⟨_, rfl⟩

theorem dedupAfter_sublist (x : α) (xs : List α) : (dedupAfter x xs).Sublist (x :: xs) := by
  fun_induction dedupAfter x xs with
  | case1 x => exact List.Sublist.refl _
  | case2 x rest ih => exact ih.trans (List.sublist_cons_self _ _)
  | case3 x y rest hne ih => exact ih.cons_cons x

theorem dedupNeighbours_sublist (xs : List α) : (dedupNeighbours xs).Sublist xs := by
  cases xs with
  | nil => exact List.Sublist.refl _
  | cons x xs => exact dedupAfter_sublist x xs

/-- Where no neighbours are equal any more, nothing is taken out. -/
theorem dedupNeighbours_dedupAfter (x : α) (xs : List α) :
    dedupNeighbours (dedupAfter x xs) = dedupAfter x xs := by
  fun_induction dedupAfter x xs with
  | case1 x => rfl
  | case2 x rest ih => exact ih
  | case3 x y rest hne ih =>
    obtain ⟨zs, hzs⟩ := head_dedupAfter y rest
    rw [hzs] at ih ⊢
    show dedupAfter x (y :: zs) = x :: y :: zs
    rw [dedupAfter, if_neg hne]
    exact congrArg (x :: ·) ih

theorem dedupNeighbours_dedupNeighbours (xs : List α) :
    dedupNeighbours (dedupNeighbours xs) = dedupNeighbours xs := by
  cases xs with
  | nil => rfl
  | cons x xs => exact dedupNeighbours_dedupAfter x xs

theorem sortedByRank_sortedByRank (rank : α → Nat) (xs : List α) :
    sortedByRank rank (sortedByRank rank xs) = sortedByRank rank xs := by
  have : Std.Total fun a b : α => rank a ≤ rank b := ⟨fun a b => Nat.le_total _ _⟩
  have : IsTrans α fun a b => rank a ≤ rank b := ⟨fun a b c => Nat.le_trans⟩
  have hsorted : (sortedByRank rank xs).Pairwise fun a b => rank a ≤ rank b :=
    (List.pairwise_insertionSort _ xs).sublist (dedupNeighbours_sublist _)
  show dedupNeighbours ((sortedByRank rank xs).insertionSort _) = _
  rw [hsorted.insertionSort_eq]
  exact dedupNeighbours_dedupNeighbours _

end Sorted

theorem normalized_normalized (c : ContainmentContext) : c.normalized.normalized = c.normalized := by
  simp only [ContainmentContext.normalized, sortedByRank_sortedByRank]

/-! ## Where the object starts -/

/-- The small letters but `v`. -/
def isNameStart (c : Char) : Bool := 'a' ≤ c && c ≤ 'z' && c != 'v'

/-- A quote and a name. -/
def startsName : List Char → Bool
  | q :: c :: _ => q == '\"' && isNameStart c
  | _ => false

/-- Somewhere a brace is followed by a name. -/
def opens : List Char → Bool
  | [] => false
  | c :: cs => (c == '\x7b' && startsName cs) || opens cs

theorem startsName_append {cs : List Char} (h : startsName cs = true) (rest : List Char) :
    startsName (cs ++ rest) = true := by
  match cs with
  | [] => exact absurd h Bool.false_ne_true
  | [_] => exact absurd h Bool.false_ne_true
  | _ :: _ :: _ => exact h

theorem opens_append_right {rest : List Char} (h : opens rest = true) (cs : List Char) :
    opens (cs ++ rest) = true := by
  induction cs with
  | nil => exact h
  | cons c cs ih =>
    show (_ || opens (cs ++ rest)) = true
    rw [ih, Bool.or_true]

/-- A text without a brace opens nothing. -/
theorem opens_append_of_notMem {cs : List Char} (h : '\x7b' ∉ cs) (rest : List Char) :
    opens (cs ++ rest) = opens rest := by
  induction cs with
  | nil => rfl
  | cons c cs ih =>
    obtain ⟨hc, hcs⟩ := not_or.mp (mt List.mem_cons.mpr h)
    show (c == '\x7b' && _ || opens (cs ++ rest)) = opens rest
    rw [ih hcs, beq_eq_false_iff_ne.mpr (Ne.symm hc), Bool.false_and, Bool.false_or]

/-- A text that can stand after a string: it starts with neither a quote nor a name. -/
def Closes (rest : List Char) : Prop := ∀ c ∈ rest.head?, c ≠ '\"' ∧ isNameStart c = false

theorem startsName_append_of_closes {rest : List Char} (hrest : Closes rest) (cs : List Char) :
    startsName (cs ++ rest) = startsName cs := by
  match cs, rest with
  | _, [] => rw [List.append_nil]
  | [], [c] => rfl
  | [], c :: d :: rest =>
    show (c == '\"' && isNameStart d) = false
    rw [beq_eq_false_iff_ne.mpr (hrest c rfl).1, Bool.false_and]
  | [q], c :: rest =>
    show (q == '\"' && isNameStart c) = false
    rw [(hrest c rfl).2, Bool.and_false]
  | _ :: _ :: _, _ :: _ => rfl

/-- **Two texts next to each other** open what each of them opens. -/
theorem opens_append {rest : List Char} (hrest : Closes rest) (cs : List Char) :
    opens (cs ++ rest) = (opens cs || opens rest) := by
  induction cs with
  | nil => rfl
  | cons c cs ih =>
    show (c == '\x7b' && startsName (cs ++ rest) || opens (cs ++ rest)) =
      (c == '\x7b' && startsName cs || opens cs || opens rest)
    rw [ih, startsName_append_of_closes hrest, Bool.or_assoc]

/-- Inside a string and up to its end no brace is followed by a name. -/
theorem startsName_escaped (cs : List Char) : startsName (escaped cs ++ ['\"']) = false := by
  cases cs with
  | nil => rfl
  | cons c cs =>
    obtain ⟨d, ds, hd, hne⟩ := head_escapeChar c
    rw [escaped_cons, hd, List.append_assoc, List.cons_append]
    cases hrest : ds ++ (escaped cs ++ ['\"']) with
    | nil => rfl
    | cons e es =>
      show (d == '\"' && isNameStart e) = false
      rw [beq_eq_false_iff_ne.mpr hne, Bool.false_and]

/-- An escape has no brace in it. -/
theorem brace_notMem_escapeChar {c : Char} (h : c ≠ '\x7b') : '\x7b' ∉ escapeChar c := by
  revert h
  induction c using forall_escapes with
  | hquote => decide
  | hslash => decide
  | hcontrol n hn =>
    intro _
    interval_cases n <;> decide
  | hplain c hplain _ _ =>
    intro h
    rw [hplain, List.mem_singleton]
    exact h.symm

theorem opens_escaped (cs : List Char) : opens (escaped cs ++ ['\"']) = false := by
  induction cs with
  | nil => rfl
  | cons c cs ih =>
    rw [escaped_cons, List.append_assoc]
    by_cases hc : c = '\x7b'
    · subst hc
      show ('\x7b' == '\x7b' && startsName (escaped cs ++ ['\"']) || opens (escaped cs ++ ['\"'])) = false
      rw [startsName_escaped, ih]
      rfl
    · rw [opens_append_of_notMem (brace_notMem_escapeChar hc)]
      exact ih

theorem opens_literal (s : String) : opens (literal s) = false := opens_escaped s.toList

/-- What starts at a brace that is followed by a name, where no later brace is, can be found from the
    right. -/
theorem append_inj_of_opens {front front' rest rest' : List Char} (hname : startsName rest = true)
    (hname' : startsName rest' = true) (hopens : opens rest = false) (hopens' : opens rest' = false)
    (h : front ++ '\x7b' :: rest = front' ++ '\x7b' :: rest') : front = front' ∧ rest = rest' := by
  -- a brace further to the right would be a later one of the other text
  have hlater : ∀ {gap t t' : List Char}, startsName t' = true → opens t = false →
      '\x7b' :: t = gap ++ '\x7b' :: t' → gap = [] := by
    intro gap t t' ht' ht hgap
    cases gap with
    | nil => rfl
    | cons c gap =>
      have hstart : opens ('\x7b' :: t') = true := by
        show (true && startsName t' || opens t') = true
        rw [ht', Bool.true_and, Bool.true_or]
      have hopen := opens_append_right hstart gap
      have htail : t = gap ++ '\x7b' :: t' := (List.cons.inj hgap).2
      rw [← htail, ht] at hopen
      exact absurd hopen Bool.false_ne_true
  rcases List.append_eq_append_iff.mp h with ⟨gap, hfront, hgap⟩ | ⟨gap, hfront, hgap⟩
  · obtain rfl := hlater hname' hopens hgap
    exact ⟨by simpa using hfront.symm, (List.cons.inj hgap).2⟩
  · obtain rfl := hlater hname hopens' hgap
    exact ⟨by simpa using hfront, ((List.cons.inj hgap).2).symm⟩

section Text

variable {number : JsonNumber → List Char}

theorem opens_cons {c : Char} (h : c ≠ '\x7b') (rest : List Char) : opens (c :: rest) = opens rest := by
  have hbrace : '\x7b' ∉ [c] := by simpa using h.symm
  exact opens_append_of_notMem hbrace rest

theorem closes_cons {c : Char} (h : c ≠ '\"' ∧ isNameStart c = false) (rest : List Char) :
    Closes (c :: rest) := by
  intro d hd
  obtain rfl : c = d := Option.some.inj hd
  exact h

theorem closes_moreItems (xs : List Json) : Closes (moreItems number xs) := by
  cases xs with
  | nil => exact closes_cons (by decide) []
  | cons x xs => exact closes_cons (by decide) _

theorem closes_moreMembers (ms : List (String × Json)) : Closes (moreMembers number ms) := by
  match ms with
  | [] => exact closes_cons (by decide) []
  | (k, v) :: ms => exact closes_cons (by decide) _

theorem opens_moreItems {xs : List Json} (h : ∀ x ∈ xs, opens (jsonText number x) = false) :
    opens (moreItems number xs) = false := by
  induction xs with
  | nil => rfl
  | cons x xs ih =>
    rw [moreItems_cons, opens_cons (by decide), opens_append (closes_moreItems xs),
      h x List.mem_cons_self, ih fun y hy => h y (List.mem_cons_of_mem x hy)]
    rfl

/-- The name and the value of a member. -/
theorem opens_member (key : String) {v : Json} (hv : opens (jsonText number v) = false)
    {more : List Char} (hcloses : Closes more) (hmore : opens more = false) :
    opens (literal key ++ ':' :: (jsonText number v ++ more)) = false := by
  rw [opens_append (closes_cons (by decide) _), opens_literal, opens_cons (by decide),
    opens_append hcloses, hv, hmore]
  rfl

theorem opens_moreMembers {ms : List (String × Json)}
    (h : ∀ m ∈ ms, opens (jsonText number m.2) = false) : opens (moreMembers number ms) = false := by
  induction ms with
  | nil => rfl
  | cons m ms ih =>
    obtain ⟨key, v⟩ := m
    rw [moreMembers_cons, opens_cons (by decide)]
    exact opens_member key (h _ List.mem_cons_self) (closes_moreMembers ms)
      (ih fun m hm => h m (List.mem_cons_of_mem _ hm))

/-- The value of a field opens nothing. -/
def OpensNothing (number : JsonNumber → List Char) (value : Option Json) : Prop :=
  ∀ v ∈ value, opens (jsonText number v) = false

theorem opensNothing_nameField {α : Type} (name : α → String) (x : Option α) :
    OpensNothing number (nameField name x) := by
  intro v hv
  obtain ⟨a, -, rfl⟩ := Option.map_eq_some_iff.mp hv
  exact opens_literal (name a)

theorem opensNothing_namesField {α : Type} (name : α → String) (xs : List α) :
    OpensNothing number (namesField name xs) := by
  intro v hv
  cases xs with
  | nil => cases hv
  | cons x xs =>
    obtain rfl := Option.some.inj hv
    rw [List.map_cons, jsonText_array_cons, opens_cons (by decide), opens_append (closes_moreItems _),
      jsonText_string, opens_literal, opens_moreItems]
    · rfl
    · intro item hitem
      obtain ⟨y, -, rfl⟩ := List.mem_map.mp hitem
      exact opens_literal (name y)

theorem opensNothing_flagField (b : Bool) : OpensNothing number (flagField b) := by
  intro v hv
  cases b with
  | false => cases hv
  | true =>
    obtain rfl := Option.some.inj hv
    rfl

theorem opensNothing_scoreField (laws : NumberLaws number) (score : Option UInt8) :
    OpensNothing number (scoreField score) := by
  intro v hv
  obtain ⟨n, -, rfl⟩ := Option.map_eq_some_iff.mp hv
  have hnumber : opens (jsonText number (.number (.posInt n.toNat))) = false := by
    have hbrace : '\x7b' ∉ number (.posInt n.toNat) := by
      intro hmem
      exact absurd (laws.chars _ _ hmem) (by decide)
    rw [jsonText_number, ← List.append_nil (number _), opens_append_of_notMem hbrace]
    rfl
  rw [jsonText_object_cons]
  -- the one object inside a context has the member `value`
  show (true && startsName (literal "value" ++ _) || opens (literal "value" ++ _)) = false
  rw [opens_member "value" hnumber (closes_moreMembers []) rfl]
  rfl

/-- Every field opens nothing. -/
theorem opensNothing_contextFields (laws : NumberLaws number) (c : ContainmentContext) :
    ∀ field ∈ contextFields c, OpensNothing number field.2 := by
  simp only [contextFields, List.forall_mem_cons, opensNothing_nameField, opensNothing_namesField,
    opensNothing_flagField, opensNothing_scoreField laws, true_and]
  exact fun _ h => absurd h List.not_mem_nil

theorem startsName_contextKeys : ∀ key ∈ contextKeys, startsName (literal key) = true := by decide

/-- The text of a context with something to say: a brace, a name, and no name after another brace. -/
theorem contextText_eq (laws : NumberLaws number) {c : ContainmentContext}
    (h : c.isMeaningful = true) :
    ∃ rest, jsonText number (contextJson c) = '\x7b' :: rest ∧ startsName rest = true ∧
      opens rest = false := by
  have hquiet : ∀ m ∈ members (contextFields c), opens (jsonText number m.2) = false := fun m hm =>
    opensNothing_contextFields laws c _ (mem_members.mp hm) m.2 rfl
  have hkey : ∀ m ∈ members (contextFields c), startsName (literal m.1) = true := by
    intro m hm
    have hmem : m.1 ∈ (contextFields c).map Prod.fst := List.mem_map_of_mem (mem_members.mp hm)
    exact startsName_contextKeys m.1 (map_fst_contextFields c ▸ hmem)
  have hne := members_ne_nil h
  rw [contextJson]
  cases hmembers : members (contextFields c) with
  | nil => exact absurd hmembers hne
  | cons m ms =>
    obtain ⟨key, v⟩ := m
    rw [hmembers] at hquiet hkey
    rw [jsonText_object_cons]
    refine ⟨_, rfl, startsName_append (hkey _ List.mem_cons_self) _, ?_⟩
    exact opens_member key (hquiet _ List.mem_cons_self) (closes_moreMembers ms)
      (opens_moreMembers fun m hm => hquiet m (List.mem_cons_of_mem _ hm))

/-- **One context off the end.** -/
theorem contextText_append_inj (laws : NumberLaws number) {c d : ContainmentContext}
    (hc : c.isMeaningful = true) (hd : d.isMeaningful = true) {front front' : List Char}
    (h : front ++ jsonText number (contextJson c) = front' ++ jsonText number (contextJson d)) :
    front = front' ∧ c = d := by
  obtain ⟨rest, hrest, hname, hopens⟩ := contextText_eq laws hc
  obtain ⟨rest', hrest', hname', hopens'⟩ := contextText_eq laws hd
  rw [hrest, hrest'] at h
  obtain ⟨hfront, rfl⟩ := append_inj_of_opens hname hname' hopens hopens' h
  exact ⟨hfront, contextJson_injective (jsonText_injective laws (hrest.trans hrest'.symm))⟩

end Text

end Approval

end Vellaveto
