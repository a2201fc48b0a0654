/-
  CONTEXT WINDOWS (`vellaveto-mcp-shield/src/context_isolation.rs`).

  The isolator keeps, for each session, the last texts of its conversation: at most `max_entries` of
  them and at most one megabyte.  `record` makes room with two loops, one for the bytes and one for the
  number of entries.  The second one only stops when there are FEWER entries than `max_entries`, and goes
  round without doing anything when there is nothing left to remove; with `max_entries` zero, which
  `with_limits` accepts, it never stops.

    1. **Program** — `record`, whose second loop (`evictForCount`) is given a number of rounds and returns
       `none` when they are used up; `end_session` and `get_recent_context`.
    2. **History** — `TracedIsolator` remembers next to the isolator what was recorded for each session
       since it began, which no call looks at.
    3. **Window** — the invariant of one session: a suffix of its history, within both bounds, with the
       right number of bytes.
    4. **Reading** — `getRecentContext_recent`: what is read back is the end of the history.
    5. **Result** — `bookkeeping_iff`: every sequence of calls returns and keeps the windows exactly if
       `max_entries` is not zero, or no session is allowed at all.
    6. **Sessions apart** — `recent_context_own_texts`: a session reads back texts of its own calls.
-/
import Vellaveto.Lib.Counters
import Vellaveto.Lib.Run
import Vellaveto.Lib.Table
import Vellaveto.Shield.Sanitizer
import Vellaveto.Types.Chars

namespace Vellaveto.Shield

open Vellaveto.Lib

/-! ### The program -/

/-- `MAX_CONTEXT_ENTRIES`. -/
def maxContextEntries : Nat := 1000

/-- `MAX_CONTEXT_SESSIONS`. -/
def maxContextSessions : Nat := 10000

/-- `MAX_CONTEXT_ENTRY_LEN`. -/
def maxContextEntryLen : Nat := 65536

/-- `MAX_CONTEXT_TOTAL_BYTES`. -/
def maxContextTotalBytes : Nat := 1048576

/-- `MAX_SESSION_ID_LEN`. -/
def maxContextSessionIdLen : Nat := 256

/-- `ContextEntry`. -/
structure ContextEntry where
  role : String
  text : String
  sequence : Nat
deriving DecidableEq, Repr

/-- `SessionContext`. -/
structure SessionContext where
  entries : List ContextEntry
  totalBytes : Nat
  nextSequence : Nat
deriving DecidableEq, Repr

/-- `SessionContext::new`. -/
def SessionContext.new : SessionContext := ⟨[], 0, 0⟩

/-- `ContextIsolator`. -/
structure ContextIsolator where
  sessions : AList fun _ : String => SessionContext
  maxEntries : Nat
  maxSessions : Nat

/-- `with_limits`. -/
def ContextIsolator.withLimits (maxEntries maxSessions : Nat) : ContextIsolator where
  sessions := ∅
  maxEntries := min maxEntries maxContextEntries
  maxSessions := min maxSessions maxContextSessions

/-- `validate_session_id`. -/
def validateContextSessionId (sessionId : String) : Except ShieldError Unit :=
  if sessionId.utf8ByteSize = 0 then .error (.sessionIsolation "session_id must not be empty")
  else if maxContextSessionIdLen < sessionId.utf8ByteSize then
    .error (.sessionIsolation (s!"session_id too long ({sessionId.utf8ByteSize} bytes, max " ++
      s!"{maxContextSessionIdLen})"))
  else if hasDangerousChars sessionId then
    .error (.sessionIsolation "session_id contains control or format characters (rejected)")
  else .ok ()

/-- The checks of the role and of the text in `record`. -/
def checkContextText (role text : String) : Except ShieldError Unit :=
  if role ≠ "user" ∧ role ≠ "assistant" then
    .error (.config "context role must be 'user' or 'assistant'")
  else if maxContextEntryLen < text.utf8ByteSize then
    .error (.config (s!"context entry too large ({text.utf8ByteSize} bytes, max " ++
      s!"{maxContextEntryLen})"))
  else if text.toList.contains '\x00' then .error (.config "context entry text contains null bytes")
  else .ok ()

/-- `usize::saturating_add`. -/
def addBytes (a b : Nat) : Nat := saturatingAdd (2 ^ 64 - 1) a b

/-- The loop that makes room for the bytes of a text; it stops when nothing is left to remove. -/
def evictForBytes (len : Nat) : List ContextEntry → Nat → List ContextEntry × Nat
  | [], total => ([], total)
  | old :: entries, total =>
    if maxContextTotalBytes < addBytes total len then
      evictForBytes len entries (total - old.text.utf8ByteSize)
    else (old :: entries, total)

/-- The loop that makes room for one entry, as far as so many rounds get it. -/
def evictForCount (maxEntries : Nat) : Nat → List ContextEntry → Nat →
    Option (List ContextEntry × Nat)
  | 0, _, _ => none
  | rounds + 1, entries, total =>
    if maxEntries ≤ entries.length then
      match entries with
      | [] => evictForCount maxEntries rounds [] total
      | old :: entries => evictForCount maxEntries rounds entries (total - old.text.utf8ByteSize)
    else some (entries, total)

/-- The rest of `record`, on the context of the session. -/
def SessionContext.push (rounds maxEntries : Nat) (ctx : SessionContext) (role text : String) :
    Option SessionContext :=
  let (entries, total) := evictForBytes text.utf8ByteSize ctx.entries ctx.totalBytes
  (evictForCount maxEntries rounds entries total).map fun (entries, total) =>
    { entries := entries ++ [⟨role, text, ctx.nextSequence⟩]
      totalBytes := addBytes total text.utf8ByteSize
      nextSequence := saturatingAdd (2 ^ 64 - 1) ctx.nextSequence 1 }

/-- The context of the session, which is made if there is none. -/
def ContextIsolator.entryFor (isolator : ContextIsolator) (sessionId : String) :
    Except ShieldError SessionContext :=
  match isolator.sessions.lookup sessionId with
  | some ctx => .ok ctx
  | none =>
    if isolator.maxSessions ≤ isolator.sessions.keys.length then
      .error (.sessionIsolation "context session capacity exhausted (fail-closed)")
    else .ok .new

/-- `record`; `none` when it has not returned within so many rounds. -/
def ContextIsolator.record (rounds : Nat) (isolator : ContextIsolator)
    (sessionId role text : String) : Option (ContextIsolator × Except ShieldError Unit) :=
  match validateContextSessionId sessionId with
  | .error e => some (isolator, .error e)
  | .ok () =>
    match checkContextText role text with
    | .error e => some (isolator, .error e)
    | .ok () =>
      match isolator.entryFor sessionId with
      | .error e => some (isolator, .error e)
      | .ok ctx =>
        (ctx.push rounds isolator.maxEntries role text).map fun ctx' =>
          ({ isolator with sessions := isolator.sessions.insert sessionId ctx' }, .ok ())

/-- `end_session`. -/
def ContextIsolator.endSession (isolator : ContextIsolator) (sessionId : String) :
    ContextIsolator :=
  { isolator with sessions := isolator.sessions.erase sessionId }

/-- `get_recent_context`. -/
def ContextIsolator.getRecentContext (isolator : ContextIsolator) (sessionId : String)
    (maxEntries : Nat) : Except ShieldError (List (String × String)) := do
  validateContextSessionId sessionId
  match isolator.sessions.lookup sessionId with
  | none => throw (.sessionIsolation s!"unknown context session: {sessionId}")
  | some ctx => pure (((ctx.entries.reverse.take maxEntries).map fun e => (e.role, e.text)).reverse)

/-! ### Runs -/

/-- A call on the isolator. -/
inductive ContextCall where
  | record (sessionId role text : String)
  | endSession (sessionId : String)
deriving DecidableEq, Repr

/-- The isolator, and what was recorded for each session since it began. -/
structure TracedIsolator where
  isolator : ContextIsolator
  history : String → List (String × String)

def TracedIsolator.withLimits (maxEntries maxSessions : Nat) : TracedIsolator where
  isolator := .withLimits maxEntries maxSessions
  history := fun _ => []

/-- One call, within so many rounds. -/
def contextStep (rounds : Nat) (s : TracedIsolator) : ContextCall → Option TracedIsolator
  | .record sessionId role text =>
    (s.isolator.record rounds sessionId role text).map fun (isolator, result) =>
      { isolator := isolator
        history :=
          match result with
          | .ok () => Function.update s.history sessionId (s.history sessionId ++ [(role, text)])
          | .error _ => s.history }
  | .endSession sessionId =>
    some
      { isolator := s.isolator.endSession sessionId
        history := Function.update s.history sessionId [] }

/-! ### Making room -/

/-- The bytes of the texts. -/
def bytesOf (entries : List ContextEntry) : Nat := (entries.map fun e => e.text.utf8ByteSize).sum

theorem bytesOf_cons (e : ContextEntry) (entries : List ContextEntry) :
    bytesOf (e :: entries) = e.text.utf8ByteSize + bytesOf entries := by
  rw [bytesOf, bytesOf, List.map_cons, List.sum_cons]

theorem bytesOf_append_singleton (entries : List ContextEntry) (e : ContextEntry) :
    bytesOf (entries ++ [e]) = bytesOf entries + e.text.utf8ByteSize := by
  simp [bytesOf]

theorem bytesOf_le_of_suffix {entries kept : List ContextEntry} (h : kept <:+ entries) :
    bytesOf kept ≤ bytesOf entries := by
  obtain ⟨before, rfl⟩ := h
  simp [bytesOf]

section Room

variable {len maxEntries rounds : Nat} {entries : List ContextEntry}

/-- What is left after the first loop leaves room for the text. -/
theorem evictForBytes_spec (hlen : len ≤ maxContextTotalBytes) :
    ∃ kept, evictForBytes len entries (bytesOf entries) = (kept, bytesOf kept) ∧ kept <:+ entries ∧
      bytesOf kept + len ≤ maxContextTotalBytes := by
  induction entries with
  | nil =>
    refine ⟨[], rfl, List.suffix_refl [], ?_⟩
    show 0 + len ≤ maxContextTotalBytes
    omega
  | cons old entries ih =>
    rw [evictForBytes]
    split
    · have hrest : bytesOf (old :: entries) - old.text.utf8ByteSize = bytesOf entries := by
        rw [bytesOf_cons]
        omega
      rw [hrest]
      obtain ⟨kept, heq, hsuffix, hroom⟩ := ih
      exact ⟨kept, heq, hsuffix.trans (List.suffix_cons old entries), hroom⟩
    · rename_i hfits
      refine ⟨old :: entries, rfl, List.suffix_refl _, ?_⟩
      simp only [addBytes, saturatingAdd, maxContextTotalBytes] at hfits ⊢
      omega

/-- The second loop keeps the last entries, one fewer than there may be. -/
theorem evictForCount_eq (hmax : 0 < maxEntries) (hrounds : entries.length < rounds) :
    evictForCount maxEntries rounds entries (bytesOf entries) =
      some (entries.drop (entries.length + 1 - maxEntries),
        bytesOf (entries.drop (entries.length + 1 - maxEntries))) := by
  induction rounds generalizing entries with
  | zero => omega
  | succ rounds ih =>
    unfold evictForCount
    split
    · rename_i hfull
      cases entries with
      | nil =>
        rw [List.length_nil] at hfull
        omega
      | cons old entries =>
        have hrest : bytesOf (old :: entries) - old.text.utf8ByteSize = bytesOf entries := by
          rw [bytesOf_cons]
          omega
        rw [List.length_cons] at hfull hrounds
        have hdrop : (old :: entries).length + 1 - maxEntries = entries.length + 1 - maxEntries + 1 := by
          rw [List.length_cons]
          omega
        show evictForCount maxEntries rounds entries
          (bytesOf (old :: entries) - old.text.utf8ByteSize) = _
        rw [hrest, hdrop, List.drop_succ_cons]
        exact ih (by omega)
    · have hzero : entries.length + 1 - maxEntries = 0 := by omega
      rw [hzero, List.drop_zero]

/-- **With no entry allowed it never stops.** -/
theorem evictForCount_zero (rounds : Nat) (entries : List ContextEntry) (total : Nat) :
    evictForCount 0 rounds entries total = none := by
  induction rounds generalizing entries total with
  | zero => rfl
  | succ rounds ih =>
    unfold evictForCount
    rw [if_pos (Nat.zero_le _)]
    cases entries with
    | nil => exact ih [] total
    | cons old entries => exact ih entries (total - old.text.utf8ByteSize)

end Room

/-! ### Windows -/

/-- The context of a session with this history. -/
structure Window (maxEntries : Nat) (history : List (String × String)) (ctx : SessionContext) :
    Prop where
  count : ctx.entries.length ≤ max 1 maxEntries
  bytes : ctx.totalBytes = bytesOf ctx.entries
  bounded : ctx.totalBytes ≤ maxContextTotalBytes
  recent : (ctx.entries.map fun e => (e.role, e.text)) <:+ history

theorem window_new (maxEntries : Nat) (history : List (String × String)) :
    Window maxEntries history .new :=
  ⟨Nat.zero_le _, rfl, Nat.zero_le _, List.nil_suffix⟩

/-- **One text.**  With enough rounds the window moves on by one. -/
theorem push_spec {maxEntries : Nat} {history : List (String × String)} {ctx : SessionContext}
    {role text : String} (hmax : 0 < maxEntries) (hctx : Window maxEntries history ctx)
    (htext : text.utf8ByteSize ≤ maxContextEntryLen) :
    ∃ ctx', (∀ rounds, maxEntries < rounds → ctx.push rounds maxEntries role text = some ctx') ∧
      Window maxEntries (history ++ [(role, text)]) ctx' ∧ ctx'.entries ≠ [] := by
  have hlen : text.utf8ByteSize ≤ maxContextTotalBytes :=
    Nat.le_trans htext (by decide)
  obtain ⟨kept, hkept, hsuffix, hroom⟩ := @evictForBytes_spec _ ctx.entries hlen
  have hcount : kept.length ≤ max 1 maxEntries := Nat.le_trans hsuffix.length_le hctx.count
  let rest := kept.drop (kept.length + 1 - maxEntries)
  have hrest : rest <:+ kept := List.drop_suffix _ _
  have hbytes : bytesOf rest ≤ bytesOf kept := bytesOf_le_of_suffix hrest
  have htotal : addBytes (bytesOf rest) text.utf8ByteSize =
      bytesOf rest + text.utf8ByteSize := by
    simp only [addBytes, saturatingAdd, maxContextTotalBytes] at hroom ⊢
    omega
  refine ⟨{ entries := rest ++ [⟨role, text, ctx.nextSequence⟩]
            totalBytes := addBytes (bytesOf rest) text.utf8ByteSize
            nextSequence := saturatingAdd (2 ^ 64 - 1) ctx.nextSequence 1 }, ?_, ⟨?_, ?_, ?_, ?_⟩, ?_⟩
  · intro rounds hrounds
    unfold SessionContext.push
    rw [hctx.bytes, hkept]
    simp only
    rw [evictForCount_eq hmax (by omega)]
    rfl
  · show (rest ++ [_]).length ≤ _
    rw [List.length_append, List.length_drop, List.length_singleton]
    omega
  · show addBytes (bytesOf rest) text.utf8ByteSize = bytesOf (rest ++ [_])
    rw [htotal, bytesOf_append_singleton]
  · show addBytes (bytesOf rest) text.utf8ByteSize ≤ _
    omega
  · show ((rest ++ [_]).map _) <:+ _
    rw [List.map_append]
    obtain ⟨before, hbefore⟩ := (hrest.trans hsuffix).map (fun e => (e.role, e.text))
    obtain ⟨older, holder⟩ := hctx.recent
    refine ⟨older ++ before, ?_⟩
    rw [← holder, ← hbefore]
    simp
  · simp

/-! ### Whole runs -/

/-- Every session's window is in order, and holds its last text. -/
def Bookkept (s : TracedIsolator) : Prop :=
  ∀ sessionId ctx, s.isolator.sessions.lookup sessionId = some ctx →
    Window s.isolator.maxEntries (s.history sessionId) ctx ∧ ctx.entries ≠ []

/-- What is read back is the end of what was recorded, in order. -/
theorem getRecentContext_recent {s : TracedIsolator} (h : Bookkept s) {sessionId : String}
    {maxEntries : Nat} {context : List (String × String)}
    (hread : s.isolator.getRecentContext sessionId maxEntries = .ok context) :
    context <:+ s.history sessionId ∧ context.length ≤ maxEntries ∧
      (0 < maxEntries → context ≠ []) := by
  unfold ContextIsolator.getRecentContext at hread
  cases hid : validateContextSessionId sessionId with
  | error e =>
    rw [hid] at hread
    cases hread
  | ok =>
    rw [hid] at hread
    cases hctx : s.isolator.sessions.lookup sessionId with
    | none =>
      rw [hctx] at hread
      cases hread
    | some ctx =>
      rw [hctx] at hread
      cases hread
      obtain ⟨hwindow, hne⟩ := h sessionId ctx hctx
      rw [List.take_reverse, ← List.map_reverse, List.reverse_reverse]
      refine ⟨((List.drop_suffix _ _).map _).trans hwindow.recent, ?_, fun hpos hnil => ?_⟩
      · rw [List.length_map, List.length_drop]
        omega
      · rw [List.map_eq_nil_iff, List.drop_eq_nil_iff] at hnil
        have hlen := List.length_pos_iff.mpr hne
        omega

/-- For these limits every sequence of calls returns, and leaves the windows in order. -/
def Bookkeeping (maxEntries maxSessions : Nat) : Prop :=
  ∀ calls, ∃ s, (∃ enough, ∀ rounds, enough ≤ rounds →
      run (contextStep rounds) (.withLimits maxEntries maxSessions) calls = some s) ∧ Bookkept s

section Runs

variable {maxEntries maxSessions : Nat} {s : TracedIsolator} {sessionId role text : String}

/-- The limits, and windows in order; without room for an entry there are no sessions either. -/
structure Kept (maxEntries maxSessions : Nat) (s : TracedIsolator) : Prop where
  maxEntries_eq : s.isolator.maxEntries = min maxEntries maxContextEntries
  maxSessions_eq : s.isolator.maxSessions = min maxSessions maxContextSessions
  bookkept : Bookkept s
  sessionless : maxSessions = 0 → ∀ sessionId, s.isolator.sessions.lookup sessionId = none

theorem checkContextText_ok (h : checkContextText role text = .ok ()) :
    text.utf8ByteSize ≤ maxContextEntryLen := by
  unfold checkContextText at h
  split at h
  · cases h
  split at h
  · cases h
  · rename_i hlen
    omega

/-- An entry is found in the table, or made when there is room for a session. -/
theorem entryFor_ok {ctx : SessionContext} {isolator : ContextIsolator}
    (h : isolator.entryFor sessionId = .ok ctx) :
    isolator.sessions.lookup sessionId = some ctx ∨ (ctx = .new ∧ 0 < isolator.maxSessions) := by
  unfold ContextIsolator.entryFor at h
  split at h
  · rename_i found hfound
    cases h
    exact .inl hfound
  split at h
  · cases h
  · rename_i hroom
    cases h
    exact .inr ⟨rfl, by omega⟩

/-- A session's new window, and all others as they were. -/
theorem Kept.insert (h : Kept maxEntries maxSessions s) (hpos : maxSessions ≠ 0)
    {ctx : SessionContext} {recorded : String × String}
    (hctx : Window s.isolator.maxEntries (s.history sessionId ++ [recorded]) ctx)
    (hne : ctx.entries ≠ []) :
    Kept maxEntries maxSessions
      { isolator := { s.isolator with sessions := s.isolator.sessions.insert sessionId ctx }
        history := Function.update s.history sessionId (s.history sessionId ++ [recorded]) } := by
  refine ⟨h.maxEntries_eq, h.maxSessions_eq, ?_, fun hzero => absurd hzero hpos⟩
  intro other found hfound
  replace hfound : (s.isolator.sessions.insert sessionId ctx).lookup other = some found := hfound
  rw [lookup_insert_eq] at hfound
  split at hfound
  · rename_i heq
    subst heq
    cases hfound
    simp only [Function.update_self]
    exact ⟨hctx, hne⟩
  · rename_i hother
    simp only [Function.update_of_ne hother]
    exact h.bookkept other found hfound

theorem Kept.endSession (h : Kept maxEntries maxSessions s) (sessionId : String) :
    Kept maxEntries maxSessions
      { isolator := s.isolator.endSession sessionId
        history := Function.update s.history sessionId [] } := by
  refine ⟨h.maxEntries_eq, h.maxSessions_eq, ?_, ?_⟩
  · intro other found hfound
    replace hfound : (s.isolator.sessions.erase sessionId).lookup other = some found := hfound
    rw [lookup_erase_eq] at hfound
    split at hfound
    · cases hfound
    · rename_i hother
      simp only [Function.update_of_ne hother]
      exact h.bookkept other found hfound
  · intro hzero other
    show (s.isolator.sessions.erase sessionId).lookup other = none
    rw [lookup_erase_eq, h.sessionless hzero other]
    split <;> rfl

/-- **One call** returns, whatever the number of rounds from 1001 on. -/
theorem Kept.step (hlimits : 0 < maxEntries ∨ maxSessions = 0) (h : Kept maxEntries maxSessions s)
    (call : ContextCall) :
    ∃ s', (∀ rounds, maxContextEntries < rounds → contextStep rounds s call = some s') ∧
      Kept maxEntries maxSessions s' := by
  cases call with
  | endSession sessionId => exact ⟨_, fun _ _ => rfl, h.endSession sessionId⟩
  | record sessionId role text =>
    -- a call that is refused changes nothing
    have hrefused : ∀ e, (∀ rounds,
        s.isolator.record rounds sessionId role text = some (s.isolator, .error e)) →
        ∃ s', (∀ rounds, maxContextEntries < rounds →
          contextStep rounds s (.record sessionId role text) = some s') ∧
          Kept maxEntries maxSessions s' := by
      intro e he
      refine ⟨s, fun rounds _ => ?_, h⟩
      rw [contextStep, he rounds]
      rfl
    cases hid : validateContextSessionId sessionId with
    | error e =>
      refine hrefused e fun rounds => ?_
      rw [ContextIsolator.record, hid]
    | ok =>
      cases htext : checkContextText role text with
      | error e =>
        refine hrefused e fun rounds => ?_
        simp only [ContextIsolator.record, hid, htext]
      | ok =>
        cases hentry : s.isolator.entryFor sessionId with
        | error e =>
          refine hrefused e fun rounds => ?_
          simp only [ContextIsolator.record, hid, htext, hentry]
        | ok ctx =>
          -- only with a session allowed is there an entry to write to
          have hpos : maxSessions ≠ 0 := by
            intro hzero
            have hnone := h.maxSessions_eq
            rcases entryFor_ok hentry with hfound | ⟨-, hroom⟩
            · rw [h.sessionless hzero sessionId] at hfound
              cases hfound
            · omega
          have hmax : 0 < s.isolator.maxEntries := by
            have heq := h.maxEntries_eq
            simp only [maxContextEntries] at heq
            omega
          have hctx : Window s.isolator.maxEntries (s.history sessionId) ctx := by
            rcases entryFor_ok hentry with hfound | ⟨rfl, -⟩
            · exact (h.bookkept sessionId ctx hfound).1
            · exact window_new _ _
          obtain ⟨ctx', hpush, hwindow, hne⟩ :=
            @push_spec _ (s.history sessionId) ctx role text hmax hctx (checkContextText_ok htext)
          refine ⟨_, fun rounds hrounds => ?_, h.insert hpos hwindow hne⟩
          have hrounds' : s.isolator.maxEntries < rounds := by
            have heq := h.maxEntries_eq
            omega
          simp only [contextStep, ContextIsolator.record, hid, htext, hentry, hpush rounds hrounds',
            Option.map_some]

theorem kept_withLimits (maxEntries maxSessions : Nat) :
    Kept maxEntries maxSessions (.withLimits maxEntries maxSessions) := by
  refine ⟨rfl, rfl, ?_, fun _ _ => AList.lookup_empty _⟩
  intro sessionId ctx hctx
  cases hctx

/-- **A whole sequence of calls.** -/
theorem Kept.run (hlimits : 0 < maxEntries ∨ maxSessions = 0) (h : Kept maxEntries maxSessions s)
    (calls : List ContextCall) :
    ∃ s', (∀ rounds, maxContextEntries < rounds → Lib.run (contextStep rounds) s calls = some s') ∧
      Kept maxEntries maxSessions s' := by
  induction calls generalizing s with
  | nil => exact ⟨s, fun _ _ => rfl, h⟩
  | cons call calls ih =>
    obtain ⟨t, hstep, ht⟩ := h.step hlimits call
    obtain ⟨s', hrun, hs'⟩ := ih ht
    refine ⟨s', fun rounds hrounds => ?_, hs'⟩
    exact run_cons_eq_some.mpr ⟨t, hstep rounds hrounds, hrun rounds hrounds⟩

/-- With no entry allowed and a session allowed, the first text that is recorded is never done. -/
theorem record_withLimits_zero (hpos : maxSessions ≠ 0)
    (hid : validateContextSessionId sessionId = .ok ())
    (htext : checkContextText role text = .ok ()) (rounds : Nat) :
    (ContextIsolator.withLimits 0 maxSessions).record rounds sessionId role text = none := by
  have hentry : (ContextIsolator.withLimits 0 maxSessions).entryFor sessionId = .ok .new := by
    have hroom : ¬min maxSessions maxContextSessions ≤ 0 := by
      simp only [maxContextSessions]
      omega
    show (if min maxSessions maxContextSessions ≤ 0 then _ else Except.ok SessionContext.new) = _
    rw [if_neg hroom]
  have hpush : SessionContext.new.push rounds 0 role text = none := by
    unfold SessionContext.push
    simp only
    rw [evictForCount_zero]
    rfl
  simp only [ContextIsolator.record, hid, htext, hentry]
  show (SessionContext.new.push rounds 0 role text).map _ = none
  rw [hpush]
  rfl

theorem not_bookkeeping_zero (hpos : maxSessions ≠ 0) : ¬Bookkeeping 0 maxSessions := by
  intro hkeeps
  obtain ⟨s, ⟨enough, hrun⟩, -⟩ := hkeeps [.record "s" "user" "hello"]
  obtain ⟨t, hstep, -⟩ := run_cons_eq_some.mp (hrun enough (Nat.le_refl enough))
  have hnone := @record_withLimits_zero maxSessions "s" "user" "hello" hpos (by decide +kernel)
    (by decide +kernel) enough
  rw [contextStep, TracedIsolator.withLimits, hnone] at hstep
  cases hstep

end Runs

/-- **The windows are kept** for these limits exactly if an entry is allowed, or no session is. -/
theorem bookkeeping_iff (maxEntries maxSessions : Nat) :
    Bookkeeping maxEntries maxSessions ↔ 0 < maxEntries ∨ maxSessions = 0 := by
  constructor
  · intro hkeeps
    by_contra hlimits
    obtain rfl : maxEntries = 0 := by omega
    exact not_bookkeeping_zero (by omega) hkeeps
  · intro hlimits calls
    obtain ⟨s, hrun, hs⟩ := (kept_withLimits maxEntries maxSessions).run hlimits calls
    exact ⟨s, ⟨maxContextEntries + 1, hrun⟩, hs.bookkept⟩

/-- With the limits zero and one, recording the text `hello` never returns. -/
theorem record_with_no_entries_never_returns :
    (∀ rounds, (ContextIsolator.withLimits 0 1).record rounds "s" "user" "hello" = none) ∧
      ¬Bookkeeping 0 1 := by
  refine ⟨?_, not_bookkeeping_zero (by decide)⟩
  exact record_withLimits_zero (by decide) (by decide +kernel) (by decide +kernel)

/-! ### Sessions apart -/

/-- The text that a call has for a session. -/
def ContextCall.textFor (sessionId : String) : ContextCall → Option (String × String)
  | .record id role text => if id = sessionId then some (role, text) else none
  | .endSession _ => none

section Apart

variable {rounds : Nat} {s s' : TracedIsolator}

theorem history_contextStep {call : ContextCall} (h : contextStep rounds s call = some s')
    (sessionId : String) :
    (s'.history sessionId).Sublist (s.history sessionId ++ (call.textFor sessionId).toList) := by
  cases call with
  | endSession id =>
    cases h
    simp only [Function.update_apply]
    split
    · exact List.nil_sublist _
    · exact List.sublist_append_left _ _
  | record id role text =>
    obtain ⟨⟨isolator, result⟩, -, rfl⟩ := Option.map_eq_some_iff.mp h
    cases result with
    | error e => exact List.sublist_append_left _ _
    | ok =>
      simp only [Function.update_apply]
      split
      · rename_i hid
        simp [ContextCall.textFor, hid]
      · exact List.sublist_append_left _ _

theorem history_run {calls : List ContextCall} (h : run (contextStep rounds) s calls = some s')
    (sessionId : String) :
    (s'.history sessionId).Sublist
      (s.history sessionId ++ calls.filterMap (ContextCall.textFor sessionId)) := by
  induction calls generalizing s with
  | nil =>
    cases h
    exact List.sublist_append_left _ _
  | cons call calls ih =>
    obtain ⟨t, hstep, hrun⟩ := run_cons_eq_some.mp h
    refine (ih hrun).trans ?_
    have hadd := (history_contextStep hstep sessionId).append_right
      (calls.filterMap (ContextCall.textFor sessionId))
    cases htext : call.textFor sessionId <;> simpa [htext] using hadd

/-- **Sessions are kept apart.**  After any calls, what is read back for a session is the end of what
    was recorded for it since it began: texts of its own calls, in their order. -/
theorem recent_context_own_texts {maxEntries maxSessions : Nat}
    (hlimits : 0 < maxEntries ∨ maxSessions = 0) (hrounds : maxContextEntries < rounds)
    (calls : List ContextCall) :
    ∃ s, run (contextStep rounds) (.withLimits maxEntries maxSessions) calls = some s ∧
      ∀ sessionId n context, s.isolator.getRecentContext sessionId n = .ok context →
        context <:+ s.history sessionId ∧ context.length ≤ n ∧ (0 < n → context ≠ []) ∧
          context.Sublist (calls.filterMap (ContextCall.textFor sessionId)) := by
  obtain ⟨s, hrun, hs⟩ := (kept_withLimits maxEntries maxSessions).run hlimits calls
  refine ⟨s, hrun rounds hrounds, fun sessionId n context hread => ?_⟩
  obtain ⟨hrecent, hlen, hne⟩ := getRecentContext_recent hs.bookkept hread
  exact ⟨hrecent, hlen, hne, hrecent.sublist.trans (history_run (hrun rounds hrounds) sessionId)⟩

end Apart

/-- Two sessions take turns. -/
theorem recent_context_own_texts_turns :
    let calls : List ContextCall :=
      [.record "a" "user" "one", .record "b" "user" "two", .record "a" "user" "three"]
    ∃ s, run (contextStep 1001) (.withLimits 2 2) calls = some s ∧
      s.isolator.getRecentContext "a" 1 = .ok [("user", "three")] ∧
      [("user", "three")].Sublist (calls.filterMap (ContextCall.textFor "a")) := by
  intro calls
  obtain ⟨s, hrun, hread⟩ := @recent_context_own_texts 1001 2 2 (.inl (by decide)) (by decide) calls
  have hthree : (run (contextStep 1001) (.withLimits 2 2) calls).map
      (fun s => s.isolator.getRecentContext "a" 1) = some (.ok [("user", "three")]) := by
    rfl
  rw [hrun] at hthree
  have hok := Option.some.inj hthree
  exact ⟨s, hrun, hok, (hread "a" 1 _ hok).2.2.2⟩

end Vellaveto.Shield
