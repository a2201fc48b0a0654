/-
  SANITIZING IN SESSIONS (`vellaveto-mcp-shield/src/session_isolator.rs`).

  Each session has a sanitizer and a history of what it has sent.  `desanitize_in_session` restores the
  placeholders of a response, and first checks that those it finds were in the text that was sent last.
  It finds them with a regular expression of its own; what is restored is whatever the sanitizer has in
  its table.  Where the two differ, a placeholder is restored that was not checked:

  * the name of a custom pattern can have other characters than the expression knows;
  * a value that is restored can make a placeholder that was not in the response.

    1. **Program** — `extractPlaceholders`, the sessions, `sanitizeInSession`, `desanitizeInSession`.
    2. **The check** — `mem_extractPlaceholders`: it finds every occurrence of a text of its form;
       `desanitizeInSession_eq_ok_iff`: what it lets pass.
    3. **Sessions** — `Kept`: what holds of every session of every run.
    4. **What is restored** — `restoration_bound`: exactly when every placeholder that is restored was in
       the response and in what was sent last.
    5. **A name with a hyphen** — `hyphen_restores_old_value`.
-/
import Vellaveto.JsonText
import Vellaveto.Lib.Expose
import Vellaveto.Shield.ContextIsolation
import Vellaveto.Shield.RoundTrip

namespace Vellaveto.Shield

open Vellaveto.Lib

/-! ## Placeholders in a response -/

/-- What is not decided in the source: the upper-case mapping and the decimal digits outside ASCII, and how
    `serde_json` writes a number. -/
structure IsolatorEnv where
  upper : Char → List Char
  decimal : Char → Bool
  number : JsonNumber → List Char

/-- `\d`. -/
def isDecimal (env : IsolatorEnv) (c : Char) : Bool :=
  ('0' ≤ c && c ≤ '9') || (!isAscii c && env.decimal c)

/-- `[A-Z0-9_]`. -/
def isCategoryChar (c : Char) : Bool := ('A' ≤ c && c ≤ 'Z') || ('0' ≤ c && c ≤ '9') || c == '_'

/-- `[0-9A-F]`. -/
def isUpperHexChar (c : Char) : Bool := ('0' ≤ c && c ≤ '9') || ('A' ≤ c && c ≤ 'F')

/-- `[A-Z0-9_]+_`, and behind it `n` characters of a class. -/
def endsWithToken (n : Nat) (p : Char → Bool) (body : Text) : Bool :=
  n + 2 ≤ body.length && (body.take (body.length - (n + 1))).all isCategoryChar &&
    (body.drop (body.length - (n + 1))).head? == some '_' && (body.drop (body.length - n)).all p

/-- `[A-Z0-9_]+_(?:\d{6}|[0-9A-F]{16})`. -/
def isPlaceholderBody (env : IsolatorEnv) (body : Text) : Bool :=
  endsWithToken 6 (isDecimal env) body || endsWithToken 16 isUpperHexChar body

/-- A match of the expression at the start of the text.  It ends at the first `]`, because none of its
    classes contains that. -/
def matchPlaceholder (env : IsolatorEnv) (text : Text) : Option Text :=
  if placeholderMarker <+: text then
    let rest := text.drop placeholderMarker.length
    let body := rest.takeWhile (· != ']')
    if body.length < rest.length && isPlaceholderBody env body then
      some (placeholderMarker ++ (body ++ [']']))
    else none
  else none

/-- `find_iter`, after skipping so many characters. -/
def findPlaceholders (env : IsolatorEnv) : Nat → Text → List Text
  | _, [] => []
  | skip + 1, _ :: cs => findPlaceholders env skip cs
  | 0, c :: cs =>
    match matchPlaceholder env (c :: cs) with
    | some found => found :: findPlaceholders env (found.length - 1) cs
    | none => findPlaceholders env 0 cs

/-- `extract_placeholders`. -/
def extractPlaceholders (env : IsolatorEnv) (input : Text) : List Text := findPlaceholders env 0 input

/-! ## Sessions -/

/-- `MAX_SESSIONS`. -/
def maxSessionsLimit : Nat := 1000

/-- `MAX_HISTORY_PER_SESSION`. -/
def maxHistoryPerSession : Nat := 10000

/-- `SessionState`. -/
structure SessionState where
  sanitizer : QuerySanitizer
  history : List Text

/-- `SessionIsolator`, with the scanner that each session gets (`new_for_sanitizer(&custom_patterns)`). -/
structure SessionIsolator where
  sessions : AList fun _ : String => SessionState
  maxSessions : Nat
  maxHistory : Nat
  scanner : PiiScanner

/-- `with_custom_patterns`, and `new` where there are none. -/
def SessionIsolator.withCustomPatterns (scanner : PiiScanner) : SessionIsolator :=
  ⟨∅, maxSessionsLimit, maxHistoryPerSession, scanner⟩

/-- `with_limits`, for a scanner with the built-in patterns only. -/
def SessionIsolator.withLimits (scanner : PiiScanner) (maxSessions maxHistory : Nat) :
    SessionIsolator :=
  ⟨∅, min maxSessions maxSessionsLimit, min maxHistory maxHistoryPerSession, scanner⟩

/-- `validate_session_id`: the same checks and texts as in the context isolator. -/
def validateSessionId (sessionId : String) : Except ShieldError Unit :=
  validateContextSessionId sessionId

/-- `ensure_session`. -/
def SessionIsolator.ensureSession (isolator : SessionIsolator) (sessionId : String) :
    Except ShieldError SessionIsolator :=
  match validateSessionId sessionId with
  | .error e => .error e
  | .ok () =>
    if sessionId ∈ isolator.sessions then .ok isolator
    else if isolator.maxSessions ≤ isolator.sessions.keys.length then
      .error (.sessionIsolation "session capacity exhausted (fail-closed)")
    else
      .ok
        { isolator with
          sessions := isolator.sessions.insert sessionId ⟨.new isolator.scanner [], []⟩ }

/-- One text more in the history. -/
def pushHistory (maxHistory : Nat) (history : List Text) (text : Text) : List Text :=
  (if maxHistory ≤ history.length then history.tail else history) ++ [text]

/-- A call of the session's sanitizer, whose result is recorded in the history. -/
def SessionIsolator.sanitizeWith {α : Type} (isolator : SessionIsolator) (sessionId : String)
    (tokens : List UInt64) (call : Call α) (record : α → Text) : SessionIsolator × Except Stop α :=
  match isolator.ensureSession sessionId with
  | .error e => (isolator, .error (.error e))
  | .ok isolator =>
    match isolator.sessions.lookup sessionId with
    | none => (isolator, .error (.error (.sessionIsolation "session not found after ensure")))
    | some state =>
      let (result, sanitizer) := call { state.sanitizer with tokens := tokens }
      let history :=
        match result with
        | .ok out => pushHistory isolator.maxHistory state.history (record out)
        | .error _ => state.history
      ({ isolator with sessions := isolator.sessions.insert sessionId ⟨sanitizer, history⟩ }, result)

/-- `sanitize_in_session`, with the random numbers that are drawn. -/
def SessionIsolator.sanitizeInSession (env : IsolatorEnv) (isolator : SessionIsolator)
    (sessionId : String) (input : Text) (tokens : List UInt64) : SessionIsolator × Except Stop Text :=
  isolator.sanitizeWith sessionId tokens (sanitize env.upper input) id

/-- `sanitize_json_in_session`. -/
def SessionIsolator.sanitizeJsonInSession (env : IsolatorEnv) (isolator : SessionIsolator)
    (sessionId : String) (value : Json) (tokens : List UInt64) : SessionIsolator × Except Stop Json :=
  isolator.sanitizeWith sessionId tokens (sanitizeJson env.upper value) (Json.jsonText env.number)

/-- `desanitize_in_session`. -/
def SessionIsolator.desanitizeInSession (env : IsolatorEnv) (order : HashOrder)
    (isolator : SessionIsolator) (sessionId : String) (input : Text) : Except Stop Text :=
  match validateSessionId sessionId with
  | .error e => .error (.error e)
  | .ok () =>
    match isolator.sessions.lookup sessionId with
    | none => .error (.error (.sessionIsolation s!"unknown session: {sessionId}"))
    | some state =>
      let owned := (extractPlaceholders env input).filter (· ∈ state.sanitizer.mappings)
      if owned.isEmpty then (desanitize order input state.sanitizer).1
      else
        match state.history.getLast? with
        | none =>
          .error (.error (.desanitization
            "no outbound sanitized request available for placeholder restoration"))
        | some latestOutbound =>
          if owned.any fun key => !decide (key <:+: latestOutbound) then
            .error (.error (.desanitization ("response placeholders do not match the most recent " ++
              "outbound sanitized request (fail-closed)")))
          else (desanitize order input state.sanitizer).1

/-- `end_session`. -/
def SessionIsolator.endSession (isolator : SessionIsolator) (sessionId : String) :
    SessionIsolator :=
  { isolator with sessions := isolator.sessions.erase sessionId }

/-! ## The check -/

section Form

variable {env : IsolatorEnv} {body found text : Text}

/-- A text that the expression matches as a whole. -/
def HasForm (env : IsolatorEnv) (key : Text) : Prop :=
  ∃ body, key = placeholderMarker ++ (body ++ [']']) ∧ isPlaceholderBody env body = true

/-- What the classes do not contain is not in the body. -/
theorem notMem_of_endsWithToken {n : Nat} {p : Char → Bool} {c : Char}
    (h : endsWithToken n p body = true) (hc : isCategoryChar c = false) (hp : p c = false) :
    c ∉ body := by
  simp only [endsWithToken, Bool.and_eq_true, decide_eq_true_eq, beq_iff_eq, List.all_eq_true] at h
  obtain ⟨⟨⟨hlong, hcategory⟩, hunderscore⟩, htoken⟩ := h
  intro hmem
  rw [← List.take_append_drop (body.length - (n + 1)) body] at hmem
  rcases List.mem_append.mp hmem with hin | hin
  · rw [hcategory c hin] at hc
    cases hc
  · obtain ⟨rest, hrest⟩ := List.head?_eq_some_iff.mp hunderscore
    have hdrop : (body.drop (body.length - (n + 1))).tail = body.drop (body.length - n) := by
      rw [List.tail_drop]
      congr 1
      omega
    rw [hrest, List.tail_cons] at hdrop
    rw [hrest] at hin
    rcases List.mem_cons.mp hin with rfl | hin
    · cases hc
    · rw [hdrop] at hin
      rw [htoken c hin] at hp
      cases hp

theorem brackets_notMem_body (h : isPlaceholderBody env body = true) : '[' ∉ body ∧ ']' ∉ body := by
  have hopen : isDecimal env '[' = false := rfl
  have hclose : isDecimal env ']' = false := rfl
  rw [isPlaceholderBody, Bool.or_eq_true] at h
  rcases h with h | h
  · exact ⟨notMem_of_endsWithToken h rfl hopen, notMem_of_endsWithToken h rfl hclose⟩
  · exact ⟨notMem_of_endsWithToken h rfl rfl, notMem_of_endsWithToken h rfl rfl⟩

theorem HasForm.delimited (h : HasForm env found) : Delimited '[' ']' found := by
  obtain ⟨body, rfl, hbody⟩ := h
  obtain ⟨hopen, hclose⟩ := brackets_notMem_body hbody
  exact ⟨['P', 'I', 'I', '_'] ++ body, rfl, by simp [hopen], by simp [hclose]⟩

/-- A match at the start is a text of the form that is there. -/
theorem matchPlaceholder_eq_some :
    matchPlaceholder env text = some found ↔ found <+: text ∧ HasForm env found := by
  unfold matchPlaceholder
  constructor
  · intro h
    split at h
    · rename_i hmarker
      obtain ⟨rest, rfl⟩ := hmarker
      rw [List.drop_left] at h
      simp only [Bool.and_eq_true, decide_eq_true_eq] at h
      split at h
      · rename_i hmatch
        cases h
        refine ⟨(List.prefix_append_right_inj _).mpr ?_, _, rfl, hmatch.2⟩
        have hsplit := @List.takeWhile_append_dropWhile _ (· != ']') rest
        have hstop := List.head?_dropWhile_not (· != ']') rest
        cases hdrop : rest.dropWhile (· != ']') with
        | nil =>
          rw [hdrop, List.append_nil] at hsplit
          rw [hsplit] at hmatch
          exact absurd hmatch.1 (Nat.lt_irrefl _)
        | cons c behind =>
          rw [hdrop] at hsplit hstop
          obtain rfl : c = ']' := by simpa using hstop
          exact ⟨behind, by rw [List.append_assoc]; exact hsplit⟩
      · cases h
    · cases h
  · rintro ⟨⟨rest, rfl⟩, body, rfl, hbody⟩
    have hclose := (brackets_notMem_body hbody).2
    have hinside : ∀ c ∈ body, (c != ']') = true := fun c hc => by
      rw [bne_iff_ne]
      exact fun heq => hclose (heq ▸ hc)
    have htake : (body ++ ([']'] ++ rest)).takeWhile (· != ']') = body := by
      rw [List.takeWhile_append_of_pos hinside]
      exact List.append_nil body
    have hshort : body.length < (body ++ ([']'] ++ rest)).length := by
      rw [List.length_append, List.length_append, List.length_singleton]
      omega
    rw [List.append_assoc, if_pos (List.prefix_append _ _), List.drop_left, List.append_assoc]
    simp only [htake, hshort, hbody, decide_true, Bool.and_self, if_true]

/-- A match ends before the next one starts. -/
theorem length_le_of_delimited {w before behind : Text} (hw : Delimited '[' ']' w)
    (hfound : Delimited '[' ']' found) (hne : before ≠ []) (h : w <+: before ++ (found ++ behind)) :
    w.length ≤ before.length := by
  rcases prefix_append_cases h with hstart | ⟨r, hr, rfl, hrest⟩
  · exact hstart.length_le
  · -- otherwise it would have a second bracket that opens
    exfalso
    obtain ⟨c, r, rfl⟩ := List.exists_cons_of_ne_nil hr
    obtain ⟨body, rfl, -⟩ := hfound
    rw [List.cons_append, List.cons_prefix_cons] at hrest
    have hopen := hw.notMem_behind (by decide) hne
    rw [hrest.1] at hopen
    exact hopen List.mem_cons_self

theorem mem_findPlaceholders (hfound : HasForm env found) {skip : Nat} {before behind : Text}
    (htext : text = before ++ (found ++ behind)) (hskip : skip ≤ before.length) :
    found ∈ findPlaceholders env skip text := by
  induction text generalizing skip before with
  | nil =>
    obtain ⟨body, rfl, -⟩ := hfound.delimited
    cases before <;> cases htext
  | cons c cs ih =>
    cases before with
    | nil =>
      obtain rfl : skip = 0 := Nat.le_zero.mp hskip
      have hmatch := matchPlaceholder_eq_some.mpr
        ⟨(⟨behind, htext.symm⟩ : found <+: c :: cs), hfound⟩
      rw [findPlaceholders, hmatch]
      exact List.mem_cons_self
    | cons d before =>
      have hcs : cs = before ++ (found ++ behind) := (List.cons.inj htext).2
      cases skip with
      | succ skip => exact ih hcs (Nat.le_of_succ_le_succ hskip)
      | zero =>
        rw [findPlaceholders]
        cases hmatch : matchPlaceholder env (c :: cs) with
        | none => exact ih hcs (Nat.zero_le _)
        | some w =>
          obtain ⟨hstart, hform⟩ := matchPlaceholder_eq_some.mp hmatch
          rw [htext] at hstart
          have hlength := length_le_of_delimited hform.delimited hfound.delimited
            (List.cons_ne_nil d before) hstart
          rw [List.length_cons] at hlength
          exact List.mem_cons_of_mem w (ih hcs (by omega))

theorem of_mem_findPlaceholders {skip : Nat} (h : found ∈ findPlaceholders env skip text) :
    found <:+: text ∧ HasForm env found := by
  induction text generalizing skip with
  | nil =>
    rw [findPlaceholders] at h
    cases h
  | cons c cs ih =>
    have hlater : found <:+: cs ∧ HasForm env found → found <:+: c :: cs ∧ HasForm env found :=
      fun hcs => ⟨List.infix_cons hcs.1, hcs.2⟩
    cases skip with
    | succ skip => exact hlater (ih h)
    | zero =>
      rw [findPlaceholders] at h
      cases hmatch : matchPlaceholder env (c :: cs) with
      | none =>
        rw [hmatch] at h
        exact hlater (ih h)
      | some w =>
        rw [hmatch] at h
        rcases List.mem_cons.mp h with rfl | h
        · obtain ⟨hstart, hform⟩ := matchPlaceholder_eq_some.mp hmatch
          exact ⟨hstart.isInfix, hform⟩
        · exact hlater (ih h)

/-- **The check finds every occurrence of a text of its form**, because such texts do not overlap. -/
theorem mem_extractPlaceholders :
    found ∈ extractPlaceholders env text ↔ found <:+: text ∧ HasForm env found := by
  refine ⟨of_mem_findPlaceholders, ?_⟩
  rintro ⟨⟨before, behind, htext⟩, hfound⟩
  rw [List.append_assoc] at htext
  exact mem_findPlaceholders hfound htext.symm (Nat.zero_le _)

end Form

section Passes

variable {env : IsolatorEnv} {isolator : SessionIsolator} {sessionId : String}
  {state : SessionState} {order : HashOrder} {input : Text}

/-- The placeholder is in the text that was sent last. -/
def SessionState.SentLast (state : SessionState) (key : Text) : Prop :=
  ∃ latest, state.history.getLast? = some latest ∧ key <:+: latest

/-- What the check asks of a response. -/
def SessionState.Passes (env : IsolatorEnv) (state : SessionState) (input : Text) : Prop :=
  ∀ key ∈ state.sanitizer.mappings, HasForm env key → key <:+: input → state.SentLast key

/-- The placeholders that `desanitize` finds in its loop. -/
def SessionState.restoredKeys (order : HashOrder) (state : SessionState) (input : Text) : List Text :=
  replaced ((order.entries state.sanitizer.mappings).map fun e => (e.1, e.2.original)) input

/-- **A response is restored exactly if it passes the check.** -/
theorem desanitizeInSession_eq_ok_iff (hvalid : validateSessionId sessionId = .ok ())
    (hstate : isolator.sessions.lookup sessionId = some state) :
    (∃ out, isolator.desanitizeInSession env order sessionId input = .ok out) ↔
      state.Passes env input := by
  have howned : ∀ key, key ∈ (extractPlaceholders env input).filter
      (· ∈ state.sanitizer.mappings) ↔
        (key <:+: input ∧ HasForm env key) ∧ key ∈ state.sanitizer.mappings := by
    intro key
    rw [List.mem_filter, mem_extractPlaceholders, decide_eq_true_eq]
  unfold SessionIsolator.desanitizeInSession
  rw [hvalid, hstate]
  simp only
  generalize (extractPlaceholders env input).filter (· ∈ state.sanitizer.mappings) = owned at howned
  rw [desanitize_apply]
  split
  · rename_i hempty
    rw [List.isEmpty_iff.mp hempty] at howned
    refine ⟨fun _ key hkey hform hinput => ?_, fun _ => ⟨_, rfl⟩⟩
    cases (howned key).mpr ⟨⟨hinput, hform⟩, hkey⟩
  · rename_i hsome
    have hsent : state.Passes env input → ∀ key ∈ owned, state.SentLast key := by
      intro hpasses key hkey
      obtain ⟨⟨hinput, hform⟩, hmem⟩ := (howned key).mp hkey
      exact hpasses key hmem hform hinput
    cases hlatest : state.history.getLast? with
    | none =>
      simp only [reduceCtorEq, exists_false, false_iff]
      intro hpasses
      obtain ⟨key, hkey⟩ := List.exists_mem_of_ne_nil owned fun hnil => hsome (hnil ▸ rfl)
      obtain ⟨latest, hsome', -⟩ := hsent hpasses key hkey
      rw [hlatest] at hsome'
      cases hsome'
    | some latest =>
      have hin : ∀ key, state.SentLast key ↔ key <:+: latest := by
        intro key
        simp only [SessionState.SentLast, hlatest, Option.some.injEq, exists_eq_left']
      simp only
      split
      · rename_i hmissing
        simp only [reduceCtorEq, exists_false, false_iff]
        intro hpasses
        obtain ⟨key, hkey, hnot⟩ := List.any_eq_true.mp hmissing
        have hoccurs := (hin key).mp (hsent hpasses key hkey)
        simp [hoccurs] at hnot
      · rename_i hall
        refine ⟨fun _ key hmem hform hinput => (hin key).mpr ?_, fun _ => ⟨_, rfl⟩⟩
        by_contra hnot
        refine hall (List.any_eq_true.mpr ⟨key, (howned key).mpr ⟨⟨hinput, hform⟩, hmem⟩, ?_⟩)
        rw [decide_eq_false hnot]
        rfl

end Passes

/-! ## Runs -/

/-- The calls that change something. -/
inductive IsolatorCall where
  | sanitize (sessionId : String) (input : Text) (tokens : List UInt64)
  | sanitizeJson (sessionId : String) (value : Json) (tokens : List UInt64)
  | endSession (sessionId : String)

/-- The isolator after a call, if the call has returned. -/
def returned {α : Type} (result : SessionIsolator × Except Stop α) : Option SessionIsolator :=
  match result.2 with
  | .error .panic | .error .drawing => none
  | .error (.error _) | .ok _ => some result.1

def isolatorStep (env : IsolatorEnv) (isolator : SessionIsolator) :
    IsolatorCall → Option SessionIsolator
  | .sanitize sessionId input tokens =>
    returned (isolator.sanitizeInSession env sessionId input tokens)
  | .sanitizeJson sessionId value tokens =>
    returned (isolator.sanitizeJsonInSession env sessionId value tokens)
  | .endSession sessionId => some (isolator.endSession sessionId)

/-- What holds of every session. -/
structure KeptSessions (upper : Char → List Char) (scanner : PiiScanner) (isolator : SessionIsolator) :
    Prop where
  same : isolator.scanner = scanner
  each : ∀ id state, isolator.sessions.lookup id = some state →
    validateSessionId id = .ok () ∧ Owned upper scanner state.sanitizer

section Runs

variable {upper : Char → List Char} {scanner : PiiScanner} {isolator isolator' : SessionIsolator}
  {sessionId : String}

theorem KeptSessions.insert (h : KeptSessions upper scanner isolator)
    (hvalid : validateSessionId sessionId = .ok ()) {state : SessionState}
    (howned : Owned upper scanner state.sanitizer) :
    KeptSessions upper scanner
      { isolator with sessions := isolator.sessions.insert sessionId state } := by
  refine ⟨h.same, fun id state' hstate => ?_⟩
  by_cases hid : id = sessionId
  · rw [hid, AList.lookup_insert] at hstate
    cases hstate
    rw [hid]
    exact ⟨hvalid, howned⟩
  · rw [AList.lookup_insert_ne hid] at hstate
    exact h.each id state' hstate

theorem KeptSessions.ensureSession (h : KeptSessions upper scanner isolator)
    (hok : isolator.ensureSession sessionId = .ok isolator') :
    validateSessionId sessionId = .ok () ∧ KeptSessions upper scanner isolator' := by
  unfold SessionIsolator.ensureSession at hok
  cases hvalid : validateSessionId sessionId with
  | error e =>
    rw [hvalid] at hok
    cases hok
  | ok =>
    rw [hvalid] at hok
    simp only at hok
    refine ⟨rfl, ?_⟩
    split at hok
    · cases hok
      exact h
    · split at hok
      · cases hok
      · cases hok
        refine h.insert hvalid ⟨h.same, fun key hkey => ?_⟩
        exact absurd hkey (AList.notMem_empty key)

/-- A call of the sanitizer keeps the sessions as they have to be. -/
theorem KeptSessions.sanitizeWith {α : Type} {tokens : List UInt64} {call : Call α}
    {record : α → Text} (h : KeptSessions upper scanner isolator)
    (hcall : call.Keeps (Later upper scanner)) :
    KeptSessions upper scanner (isolator.sanitizeWith sessionId tokens call record).1 := by
  unfold SessionIsolator.sanitizeWith
  cases hensure : isolator.ensureSession sessionId with
  | error e => exact h
  | ok isolator' =>
    obtain ⟨hvalid, hkept⟩ := h.ensureSession hensure
    simp only
    cases hstate : isolator'.sessions.lookup sessionId with
    | none => exact hkept
    | some state =>
      refine hkept.insert hvalid ?_
      have howned : Owned upper scanner { state.sanitizer with tokens := tokens } :=
        (hkept.each sessionId state hstate).2
      exact howned.later (hcall _)

theorem KeptSessions.step {env : IsolatorEnv} {call : IsolatorCall}
    (h : KeptSessions env.upper scanner isolator)
    (hstep : isolatorStep env isolator call = some isolator') :
    KeptSessions env.upper scanner isolator' := by
  have hreturned : ∀ {α : Type} {result : SessionIsolator × Except Stop α},
      KeptSessions env.upper scanner result.1 → returned result = some isolator' →
        KeptSessions env.upper scanner isolator' := by
    intro α result hresult hsome
    unfold returned at hsome
    split at hsome
    · cases hsome
    · cases hsome
    · cases hsome
      exact hresult
    · cases hsome
      exact hresult
  cases call with
  | sanitize sessionId input tokens =>
    exact hreturned (h.sanitizeWith (later_sanitize input)) hstep
  | sanitizeJson sessionId value tokens =>
    exact hreturned (h.sanitizeWith
      (keeps_walkJson Later.refl Later.trans later_sanitize value 0)) hstep
  | endSession sessionId =>
    cases hstep
    refine ⟨h.same, fun id state hstate => ?_⟩
    replace hstate : (isolator.sessions.erase sessionId).lookup id = some state := hstate
    rw [lookup_erase_eq] at hstate
    split at hstate
    · cases hstate
    · exact h.each id state hstate

end Runs

/-! ## What is restored -/

/-- Whatever is restored was in the response and in the text that was sent last. -/
def RestorationBound (env : IsolatorEnv) (isolator : SessionIsolator) (sessionId : String)
    (state : SessionState) : Prop :=
  ∀ order input out, isolator.desanitizeInSession env order sessionId input = .ok out →
    ∀ key ∈ state.restoredKeys order input, key <:+: input ∧ state.SentLast key

/-- The placeholders that were not sent last have the form that the check looks for, and no value of
    one that was sent last completes another placeholder. -/
structure SessionState.Bindable (env : IsolatorEnv) (state : SessionState) : Prop where
  form : ∀ key ∈ state.sanitizer.mappings, ¬ state.SentLast key → HasForm env key
  values : ∀ key mapping, state.sanitizer.mappings.lookup key = some mapping → state.SentLast key →
    ∀ key' ∈ state.sanitizer.mappings, key' ≠ key → ¬ Completes mapping.original key'

/-- The entries in this order, if they are those of the table. -/
def HashOrder.listing (entries : List (Σ _ : Text, PiiMapping)) : HashOrder where
  entries mappings := if entries.Perm mappings.entries then entries else mappings.entries
  perm mappings := by
    split
    · assumption
    · exact .refl _

section Bound

variable {env : IsolatorEnv} {isolator : SessionIsolator} {sessionId : String}
  {state : SessionState} {scanner : PiiScanner} {order : HashOrder} {input : Text}

/-- The pairs that `restoredKeys` goes through. -/
theorem mem_listed {mappings : Mappings} {e : Text × Text} :
    e ∈ (order.entries mappings).map (fun e => (e.1, e.2.original)) ↔
      ∃ mapping, mappings.lookup e.1 = some mapping ∧ mapping.original = e.2 := by
  rw [List.mem_map]
  constructor
  · rintro ⟨⟨key, mapping⟩, hmem, rfl⟩
    exact ⟨mapping, AList.mem_lookup_iff.mpr ((order.perm mappings).mem_iff.mp hmem), rfl⟩
  · rintro ⟨mapping, hlookup, horiginal⟩
    have hmem := (order.perm mappings).mem_iff.mpr (AList.mem_lookup_iff.mp hlookup)
    exact ⟨⟨e.1, mapping⟩, hmem, Prod.ext rfl horiginal⟩

theorem nodup_listed (order : HashOrder) (mappings : Mappings) :
    (((order.entries mappings).map fun e => (e.1, e.2.original)).map Prod.fst).Nodup := by
  rw [List.map_map]
  exact ((order.perm mappings).map Sigma.fst).nodup_iff.mpr mappings.keys_nodup

/-- **Enough**: for placeholders that are not empty. -/
theorem SessionState.Bindable.bound (h : state.Bindable env)
    (hkeys : ∀ key ∈ state.sanitizer.mappings, key ≠ []) (hpasses : state.Passes env input) :
    ∀ key ∈ state.restoredKeys order input, key <:+: input ∧ state.SentLast key := by
  have hsent : ∀ key ∈ state.sanitizer.mappings, key <:+: input → state.SentLast key := by
    intro key hkey hinput
    by_contra hold
    exact hold (hpasses key hkey (h.form key hkey hold) hinput)
  have hlisted : ∀ e ∈ (order.entries state.sanitizer.mappings).map fun e => (e.1, e.2.original),
      e.1 ∈ state.sanitizer.mappings := by
    intro e he
    obtain ⟨mapping, hlookup, -⟩ := mem_listed.mp he
    exact AList.lookup_isSome.mp (hlookup ▸ rfl)
  intro key hkey
  have hinput : key <:+: input := by
    refine infix_of_mem_replaced (fun e he => ?_) (nodup_listed order _) ?_
      (fun _ _ hoccurs => hoccurs) key hkey
    · exact hkeys e.1 (hlisted e he)
    · intro e he hinput e' he' hne
      obtain ⟨mapping, hlookup, hvalue⟩ := mem_listed.mp he
      rw [← hvalue]
      exact h.values e.1 mapping hlookup (hsent e.1 (hlisted e he) hinput) e'.1 (hlisted e' he') hne
  obtain ⟨e, he, rfl⟩ := mem_of_mem_replaced hkey
  exact ⟨hinput, hsent e.1 (hlisted e he) hinput⟩

/-- A placeholder that the loop comes to first is restored if it is there. -/
theorem mem_restoredKeys_first {key : Text} {mapping : PiiMapping}
    (hlookup : state.sanitizer.mappings.lookup key = some mapping) (hinput : key <:+: input) :
    ∃ order, key ∈ state.restoredKeys order input := by
  have hmem := AList.mem_lookup_iff.mp hlookup
  let entries := ⟨key, mapping⟩ :: state.sanitizer.mappings.entries.erase ⟨key, mapping⟩
  have hperm : entries.Perm state.sanitizer.mappings.entries := (List.perm_cons_erase hmem).symm
  refine ⟨.listing entries, ?_⟩
  unfold SessionState.restoredKeys
  simp only [HashOrder.listing, if_pos hperm]
  rw [List.map_cons, replaced]
  simp only [if_pos hinput]
  exact List.mem_cons_self

/-- So is one that the value of the first one brings in. -/
theorem mem_restoredKeys_second {key key' : Text} {mapping : PiiMapping}
    (hlookup : state.sanitizer.mappings.lookup key = some mapping)
    (hkey' : key' ∈ state.sanitizer.mappings) (hne : key' ≠ key)
    (hexposed : key' <:+: replaceAll key mapping.original input) :
    ∃ order, key' ∈ state.restoredKeys order input := by
  obtain ⟨mapping', hlookup'⟩ := Option.isSome_iff_exists.mp (AList.lookup_isSome.mpr hkey')
  have hmem := AList.mem_lookup_iff.mp hlookup
  have hmem' : ⟨key', mapping'⟩ ∈ state.sanitizer.mappings.entries.erase ⟨key, mapping⟩ := by
    refine (List.mem_erase_of_ne ?_).mpr (AList.mem_lookup_iff.mp hlookup')
    exact fun heq => hne (congrArg Sigma.fst heq)
  let entries := ⟨key, mapping⟩ :: ⟨key', mapping'⟩ ::
    (state.sanitizer.mappings.entries.erase ⟨key, mapping⟩).erase ⟨key', mapping'⟩
  have hperm : entries.Perm state.sanitizer.mappings.entries :=
    ((List.perm_cons_erase hmem').symm.cons _).trans (List.perm_cons_erase hmem).symm
  refine ⟨.listing entries, ?_⟩
  unfold SessionState.restoredKeys
  simp only [HashOrder.listing, if_pos hperm]
  rw [List.map_cons, List.map_cons, replaced, replaced]
  simp only [if_pos hexposed]
  split
  · exact List.mem_cons_of_mem _ List.mem_cons_self
  · exact List.mem_cons_self

/-- **Necessary**: for placeholders without brackets inside. -/
theorem bindable_of_bound (hvalid : validateSessionId sessionId = .ok ())
    (hstate : isolator.sessions.lookup sessionId = some state)
    (hkeys : ∀ key ∈ state.sanitizer.mappings, Delimited '[' ']' key)
    (hbound : RestorationBound env isolator sessionId state) : state.Bindable env := by
  have honly : ∀ {x y key k : Text}, Opening '[' ']' x → '[' ∉ y → key ∈ state.sanitizer.mappings →
      k ∈ state.sanitizer.mappings → k <:+: x ++ (key ++ y) → k = key := by
    rintro x y key k hx hy hkey hk ⟨s, t, hst⟩
    rw [List.append_assoc] at hst
    exact (only_delimited (by decide) (hkeys key hkey) (hkeys k hk) hx hy hst).2
  have hrestores : ∀ {input key : Text}, state.Passes env input →
      (∃ order, key ∈ state.restoredKeys order input) → key <:+: input ∧ state.SentLast key := by
    rintro input key hpasses ⟨order, hmem⟩
    obtain ⟨out, hout⟩ := (desanitizeInSession_eq_ok_iff hvalid hstate).mpr hpasses
    exact hbound order input out hout key hmem
  constructor
  · -- a placeholder that the check does not know, alone
    intro key hkey hold
    by_contra hform
    obtain ⟨mapping, hlookup⟩ := Option.isSome_iff_exists.mp (AList.lookup_isSome.mpr hkey)
    have hpasses : state.Passes env key := by
      intro k hk hkform hoccurs
      have halone : k <:+: [] ++ (key ++ []) := by rwa [List.nil_append, List.append_nil]
      rw [honly (.inl rfl) List.not_mem_nil hkey hk halone] at hkform
      exact absurd hkform hform
    exact hold (hrestores hpasses (mem_restoredKeys_first hlookup (List.infix_refl key))).2
  · -- a placeholder of the last text, with what its value completes around it
    intro key mapping hlookup hsent key' hkey' hne hcompletes
    have hkey : key ∈ state.sanitizer.mappings := AList.lookup_isSome.mp (hlookup ▸ rfl)
    obtain ⟨x, y, hx, hy, hoccurs⟩ := hcompletes.around (hkeys key' hkey') (by decide)
    have hpasses : state.Passes env (x ++ (key ++ y)) := by
      intro k hk _ hin
      rw [honly hx hy hkey hk hin]
      exact hsent
    rw [← @replaceAll_around _ '[' ']' key _ x y _ (by decide) (hkeys key hkey) hx hy] at hoccurs
    have hinput := (hrestores hpasses (mem_restoredKeys_second hlookup hkey' hne hoccurs)).1
    exact hne (honly hx hy hkey hkey' hinput)

end Bound

/-- **Restoration is bound to what was sent last** if the placeholders that were not sent last have the form
    of the check, and no value of one that was completes another placeholder; and, where the names of the
    patterns have no brackets, only then. -/
theorem restoration_bound (env : IsolatorEnv) (scanner : PiiScanner) (maxSessions maxHistory : Nat)
    (calls : List IsolatorCall) (isolator : SessionIsolator)
    (hrun : run (isolatorStep env) ⟨∅, maxSessions, maxHistory, scanner⟩ calls = some isolator)
    (sessionId : String) (state : SessionState)
    (hstate : isolator.sessions.lookup sessionId = some state) :
    (state.Bindable env → RestorationBound env isolator sessionId state) ∧
      ((∀ category ∈ scanner.categories, '[' ∉ toUppercase env.upper category.toList ∧
          ']' ∉ toUppercase env.upper category.toList) →
        RestorationBound env isolator sessionId state → state.Bindable env) := by
  have hkept : KeptSessions env.upper scanner isolator := by
    refine run_invariant (fun _ _ _ h hstep => h.step hstep) ⟨rfl, fun id state hstate => ?_⟩ hrun
    cases (AList.lookup_empty id).symm.trans hstate
  obtain ⟨hvalid, hscanner, htracked⟩ := hkept.each sessionId state hstate
  rw [Tracked, hscanner] at htracked
  constructor
  · intro hbindable order input out hout
    refine hbindable.bound ?_ ((desanitizeInSession_eq_ok_iff hvalid hstate).mp ⟨out, hout⟩)
    intro key hkey
    obtain ⟨category, -, token, rfl⟩ := htracked key hkey
    exact List.cons_ne_nil '[' _
  · intro hnames hbound
    refine bindable_of_bound hvalid hstate (fun key hkey => ?_) hbound
    obtain ⟨category, hcategory, token, rfl⟩ := htracked key hkey
    obtain ⟨hopen, hclose⟩ := hnames category hcategory
    exact placeholder_delimited hopen hclose token

/-- A session of a run, with what can be computed of it. -/
theorem exists_session {β : Type} {env : IsolatorEnv} {start : SessionIsolator}
    {calls : List IsolatorCall} {sessionId : String} {view : SessionIsolator → SessionState → β} {b : β}
    (h : ((run (isolatorStep env) start calls).bind fun isolator =>
      (isolator.sessions.lookup sessionId).map (view isolator)) = some b) :
    ∃ isolator state, run (isolatorStep env) start calls = some isolator ∧
      isolator.sessions.lookup sessionId = some state ∧ view isolator state = b := by
  obtain ⟨isolator, hrun, hview⟩ := Option.bind_eq_some_iff.mp h
  obtain ⟨state, hstate, hview⟩ := Option.map_eq_some_iff.mp hview
  exact ⟨isolator, state, hrun, hstate, hview⟩

/-- Texts in ASCII. -/
def asciiEnv : IsolatorEnv := ⟨fun c => [c], fun _ => false, Json.plainNumber⟩

/-- The scanner that finds one address. -/
def addressScanner : PiiScanner := ⟨bracketScanner.defaultPatterns, []⟩

/-- A placeholder of the address, by the last digit of its token. -/
def addressPlaceholder (digit : Char) : Text :=
  "[PII_EMAIL_000000000000000".toList ++ [digit, ']']

theorem hasForm_addressPlaceholder {digit : Char} (h : digit ∈ ['1', '2']) :
    HasForm asciiEnv (addressPlaceholder digit) ∧ '@' ∉ addressPlaceholder digit := by
  rcases List.mem_cons.mp h with rfl | h
  · exact ⟨⟨"EMAIL_0000000000000001".toList, rfl, by decide +kernel⟩, by decide +kernel⟩
  · cases List.mem_singleton.mp h
    exact ⟨⟨"EMAIL_0000000000000002".toList, rfl, by decide +kernel⟩, by decide +kernel⟩

/-- The address is sent twice; then only its second placeholder is restored. -/
theorem restoration_bound_address :
    ∃ isolator state, run (isolatorStep asciiEnv) (.withCustomPatterns addressScanner)
        [.sanitize "s" "a@b.co".toList [1], .sanitize "s" "a@b.co".toList [2]] = some isolator ∧
      isolator.sessions.lookup "s" = some state ∧
      state.history = [addressPlaceholder '1', addressPlaceholder '2'] ∧
      RestorationBound asciiEnv isolator "s" state := by
  let address : PiiMapping := ⟨"a@b.co".toList, "email"⟩
  have hview : ((run (isolatorStep asciiEnv) (.withCustomPatterns addressScanner)
      [.sanitize "s" "a@b.co".toList [1], .sanitize "s" "a@b.co".toList [2]]).bind fun isolator =>
        (isolator.sessions.lookup "s").map fun state =>
          (state.sanitizer.mappings.entries, state.history)) =
      some ([⟨addressPlaceholder '2', address⟩, ⟨addressPlaceholder '1', address⟩],
        [addressPlaceholder '1', addressPlaceholder '2']) := by
    decide +kernel
  obtain ⟨isolator, state, hrun, hstate, hview⟩ := exists_session hview
  obtain ⟨hentries, hhistory⟩ := Prod.ext_iff.mp hview
  replace hentries : state.sanitizer.mappings.entries =
    [⟨addressPlaceholder '2', address⟩, ⟨addressPlaceholder '1', address⟩] := hentries
  have hlookup : ∀ key mapping, state.sanitizer.mappings.lookup key = some mapping →
      (∃ digit ∈ ['1', '2'], key = addressPlaceholder digit) ∧ mapping = address := by
    intro key mapping hkey
    have hmem := AList.mem_lookup_iff.mp hkey
    rw [hentries] at hmem
    simp only [List.mem_cons, List.not_mem_nil, or_false] at hmem
    rcases hmem with heq | heq
    · cases heq
      exact ⟨⟨'2', by decide, rfl⟩, rfl⟩
    · cases heq
      exact ⟨⟨'1', by decide, rfl⟩, rfl⟩
  have hkeys : ∀ key ∈ state.sanitizer.mappings,
      ∃ digit ∈ ['1', '2'], key = addressPlaceholder digit := by
    intro key hkey
    obtain ⟨mapping, hmapping⟩ := Option.isSome_iff_exists.mp (AList.lookup_isSome.mpr hkey)
    exact (hlookup key mapping hmapping).1
  refine ⟨isolator, state, hrun, hstate, hhistory, ?_⟩
  refine (restoration_bound asciiEnv addressScanner _ _ _ isolator hrun "s" state hstate).1 ⟨?_, ?_⟩
  · intro key hkey _
    obtain ⟨digit, hdigit, rfl⟩ := hkeys key hkey
    exact (hasForm_addressPlaceholder hdigit).1
  · intro key mapping hmapping _ key' hkey' _
    obtain ⟨digit, hdigit, rfl⟩ := hkeys key' hkey'
    obtain ⟨hform, hletter⟩ := hasForm_addressPlaceholder hdigit
    rw [(hlookup key mapping hmapping).2]
    exact not_completes_of_letter hform.delimited (by decide) (by decide)
      (by decide : '@' ∈ "a@b.co".toList) hletter

/-! ## A name with a hyphen -/

/-- The scanner with a custom pattern for employee numbers. -/
def hyphenScanner : PiiScanner where
  defaultPatterns := []
  customPatterns := [("employee-id", spanOf "E1".toList 0 2 (by decide) ⟨_, rfl⟩ ⟨_, rfl⟩)]

/-- The placeholder of the employee number. -/
def hyphenPlaceholder : Text := "[PII_EMPLOYEE-ID_0000000000000001]".toList

/-- The check does not see the placeholder, and the value of an older text is restored. -/
theorem hyphen_restores_old_value :
    ∃ isolator state, run (isolatorStep asciiEnv) (.withCustomPatterns hyphenScanner)
        [.sanitize "s" "E1".toList [1], .sanitize "s" "hello".toList []] = some isolator ∧
      isolator.sessions.lookup "s" = some state ∧
      isolator.desanitizeInSession asciiEnv oldestFirst "s" hyphenPlaceholder = .ok "E1".toList ∧
      ¬ RestorationBound asciiEnv isolator "s" state := by
  have hview : ((run (isolatorStep asciiEnv) (.withCustomPatterns hyphenScanner)
      [.sanitize "s" "E1".toList [1], .sanitize "s" "hello".toList []]).bind fun isolator =>
        (isolator.sessions.lookup "s").map fun state =>
          (isolator.desanitizeInSession asciiEnv oldestFirst "s" hyphenPlaceholder,
            state.restoredKeys oldestFirst hyphenPlaceholder, state.history.getLast?)) =
      some (.ok "E1".toList, [hyphenPlaceholder], some "hello".toList) := by
    decide +kernel
  obtain ⟨isolator, state, hrun, hstate, hview⟩ := exists_session hview
  obtain ⟨hok, hview⟩ := Prod.ext_iff.mp hview
  obtain ⟨hkeys, hlatest⟩ := Prod.ext_iff.mp hview
  refine ⟨isolator, state, hrun, hstate, hok, fun hbound => ?_⟩
  have hmem : hyphenPlaceholder ∈ state.restoredKeys oldestFirst hyphenPlaceholder := by
    rw [show state.restoredKeys oldestFirst hyphenPlaceholder = [hyphenPlaceholder] from hkeys]
    exact List.mem_singleton_self _
  obtain ⟨-, latest, hlast, hoccurs⟩ := hbound _ _ _ hok _ hmem
  cases hlatest.symm.trans hlast
  exact absurd hoccurs (by decide +kernel)

end Vellaveto.Shield
