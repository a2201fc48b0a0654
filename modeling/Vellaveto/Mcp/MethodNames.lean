/-
  METHOD NAMES (`normalize_method` and `classify_message` of `vellaveto-mcp/src/extractor.rs`).

  PROGRAM.      A method name is trimmed, its invisible characters are dropped, slashes are cut off at its end, and
                the rest is written in lower case: one pass each, in this order.  What a message is goes
                by the result, so a disguised `tools/call` has to come out as `tools/call`.

  SPEC.         The normal form of a normal form is itself, and a name has the normal form of the same name
                with a disguise behind it: whitespace, slashes and invisible characters in any mixture.

  CORRECTNESS.  Trimming runs first, so whitespace that a later pass brings to an end of the name stays there.
    1. `normalizeMethod_twice_iff`    a normal form is final exactly if neither end is such whitespace;
    2. `normalizeMethod_append_iff`   a disguise is removed exactly if it keeps no whitespace but at its end;
    3. `classifyMessage_disguised`    only then is a disguised tool call a tool call, else it passes through;
    4. `method_normalization`         the three, put together.
-/
import Vellaveto.Engine.Abac
import Vellaveto.Lib.Trim
import Vellaveto.Mcp.Extractor

namespace Vellaveto.Extractor

open Vellaveto.Lib

/-! ### Messages -/

/-- `MessageType`. -/
inductive MessageType where
  | toolCall (id : Json) (toolName : String) (arguments : Json)
  | resourceRead (id : Json) (uri : String)
  | samplingRequest (id : Json)
  | elicitationRequest (id : Json)
  | taskRequest (id : Json) (taskMethod : String) (taskId : Option String)
  | batch
  | invalid (id : Json) (reason : String)
  | progressNotification (progressToken : String) (progress : Rat) (total : Option Rat)
  | extensionMethod (id : Json) (extensionId method : String)
  | passThrough
deriving DecidableEq

section Classify

variable (ext : Externals)

/-- The branch for `tools/call`. -/
def classifyToolCall (id : Json) (params : Option Json) : MessageType :=
  match (params.bind (·.get "name")).bind Json.asStr with
  | none => .invalid id "tools/call missing or empty tool name"
  | some name =>
    if name.isEmpty then .invalid id "tools/call missing or empty tool name"
    else
      let rawArgs := params.bind (·.get "arguments")
      if rawArgs.any fun args => args.asObject.isNone && args != .null then
        .invalid id "tools/call arguments must be a JSON object"
      else
        let arguments := (rawArgs.filter fun args => args.asObject.isSome).getD (.object [])
        let normalizedName := normalizeMethod ext name
        if normalizedName.isEmpty then
          .invalid id "tools/call tool name is empty after normalization"
        else .toolCall id normalizedName arguments

/-- The branch for `resources/read`. -/
def classifyResourceRead (id : Json) (params : Option Json) : MessageType :=
  match (params.bind (·.get "uri")).bind Json.asStr with
  | some uri =>
    if uri.isEmpty then .invalid id "resources/read missing or empty uri parameter"
    else .resourceRead id uri
  | none => .invalid id "resources/read missing or empty uri parameter"

/-- The task methods. -/
def taskMethods : List String :=
  ["tasks/get", "tasks/cancel", "tasks/list", "tasks/resubscribe", "tasks/create"]

/-- The `match` of `classify_message` on the normalized method. -/
def classifyRequest (id : Json) (params : Option Json) (normalized : String) : MessageType :=
  if normalized = "tools/call" then classifyToolCall ext id params
  else if normalized = "resources/read" then classifyResourceRead id params
  else if normalized = "sampling/createmessage" then .samplingRequest id
  else if normalized = "elicitation/create" then .elicitationRequest id
  else if normalized ∈ taskMethods then
    .taskRequest id normalized ((params.bind (·.get "id")).bind Json.asStr)
  else if normalized = "notifications/progress" then
    .progressNotification (((params.bind (·.get "progressToken")).bind Json.asStr).getD "")
      (((params.bind (·.get "progress")).bind Abac.asF64).getD 0)
      ((params.bind (·.get "total")).bind Abac.asF64)
  else if "x-".toList.isPrefixOf normalized.toList then
    .extensionMethod id (String.ofList (beforeFirst '/' normalized.toList)) normalized
  else .passThrough

/-- `classify_message`. -/
def classifyMessage (msg : Json) : MessageType :=
  if msg.asArray.isSome then .batch
  else
    let id := (msg.get "id").getD .null
    match (msg.get "method").bind Json.asStr with
    | none =>
      if (msg.get "result").isSome || (msg.get "error").isSome then .passThrough
      else .invalid id "Missing method field"
    | some method => classifyRequest ext id (msg.get "params") (normalizeMethod ext method)

end Classify

/-! ### What is normalized away -/

/-- The characters that `normalize_method` drops. -/
def isInvisible (c : Char) : Bool := invisibleRanges.any fun r => r.1 ≤ c.toNat && c.toNat ≤ r.2

/-- Whitespace that is not dropped. -/
def IsBlank (c : Char) : Prop := isWhitespace c = true ∧ isInvisible c = false

instance (c : Char) : Decidable (IsBlank c) := inferInstanceAs (Decidable (_ ∧ _))

/-- A disguise: whitespace, slashes and invisible characters. -/
def IsDisguise (w : List Char) : Prop := ∀ c ∈ w, isWhitespace c = true ∨ c = '/' ∨ isInvisible c = true

/-- The text of which `normalize_method` takes the lower case. -/
def strippedMethod (cs : List Char) : List Char :=
  trimEndMatches '/' ((trim cs).filter fun c => !isInvisible c)

theorem normalizeMethod_eq (ext : Externals) (m : String) :
    normalizeMethod ext m = ext.toLowercase (String.ofList (strippedMethod m.toList)) := rfl

/-- **The condition for one name**: in the trimmed name, the first visible character is not whitespace, nor is the
    last one that is no slash. -/
def EndsVisibly (cs : List Char) : Prop :=
  (∀ c ∈ (trim cs).find? (fun c => !isInvisible c), isWhitespace c = false) ∧
    ∀ c ∈ (trim cs).reverse.find? (fun c => !isInvisible c && c != '/'), isWhitespace c = false

/-- **The condition for a disguise**: of what trimming leaves behind the name, nothing is blank. -/
def KeepsNoBlank (cs w : List Char) : Prop :=
  ∀ c ∈ (trim (cs ++ w)).drop (trim cs).length, ¬IsBlank c

theorem isInvisible_toLower {c : Char} (hc : isAscii c = true) : isInvisible c.toLower = isInvisible c :=
  forall_ascii (P := fun c => isInvisible c.toLower = isInvisible c) (by decide +kernel) hc

/-! ### The ends of a normal form -/

theorem head_trimEndMatches (cs : List Char) (hslash : cs.head?.map isWhitespace = some true) :
    (trimEndMatches '/' cs).head? = cs.head? := by
  cases cs with
  | nil => rfl
  | cons c cs =>
    have hc : isWhitespace c = true := Option.some.inj hslash
    have hne : c ≠ '/' := fun heq => by
      rw [heq] at hc
      exact absurd hc (by decide)
    have hsplit := trimEndMatches_append '/' [c] cs
    rw [List.singleton_append] at hsplit
    rw [hsplit]
    split
    · rw [trimEndMatches_eq_self]
      · rfl
      · intro heq
        exact hne (Option.some.inj heq)
    · rfl

theorem trimEndMatches_prefix (d : Char) (cs : List Char) : trimEndMatches d cs <+: cs :=
  List.rdropWhile_prefix (fun c => decide (c = d)) cs

/-- The first character of the stripped name. -/
theorem head_strippedMethod_iff (cs : List Char) :
    (strippedMethod cs).head?.map isWhitespace = some true ↔
      ((trim cs).find? fun c => !isInvisible c).map isWhitespace = some true := by
  rw [← List.head?_filter]
  unfold strippedMethod
  constructor
  · intro h
    obtain ⟨c, hc, hspace⟩ := Option.map_eq_some_iff.mp h
    obtain ⟨rest, hrest⟩ := trimEndMatches_prefix '/' ((trim cs).filter fun c => !isInvisible c)
    rw [← hrest, List.head?_append, hc]
    exact congrArg some hspace
  · intro h
    rw [head_trimEndMatches _ h]
    exact h

/-- The last character of the stripped name. -/
theorem getLast_strippedMethod (cs : List Char) :
    (strippedMethod cs).getLast? = (trim cs).reverse.find? fun c => !isInvisible c && c != '/' := by
  unfold strippedMethod trimEndMatches
  rw [List.getLast?_reverse, ← List.filter_reverse]
  generalize (trim cs).reverse = rev
  induction rev with
  | nil => rfl
  | cons c rev ih =>
    cases hc : isInvisible c with
    | true => simpa [List.filter_cons, hc, List.find?_cons] using ih
    | false =>
      by_cases hslash : c = '/'
      · subst hslash
        simpa [List.filter_cons, hc, List.find?_cons, List.dropWhile_cons] using ih
      · simp [hc, hslash]

theorem endsVisibly_iff (cs : List Char) :
    EndsVisibly cs ↔ (∀ c ∈ (strippedMethod cs).head?, isWhitespace c = false) ∧
      ∀ c ∈ (strippedMethod cs).getLast?, isWhitespace c = false := by
  have hfalse : ∀ o : Option Char, (∀ c ∈ o, isWhitespace c = false) ↔ o.map isWhitespace ≠ some true := by
    intro o
    cases o <;> simp
  unfold EndsVisibly
  rw [hfalse, hfalse ((strippedMethod cs).head?), getLast_strippedMethod, ne_eq, ne_eq, head_strippedMethod_iff]

theorem visible_of_mem_strippedMethod {cs : List Char} {c : Char} (hc : c ∈ strippedMethod cs) :
    isInvisible c = false := by
  have hmem := trimEndMatches_subset '/' _ hc
  simpa using (List.mem_filter.mp hmem).2

/-- A visible text that does not end in a slash is stripped exactly if it is trimmed. -/
theorem strippedMethod_eq_self_iff {cs : List Char} (hvisible : ∀ c ∈ cs, isInvisible c = false)
    (hslash : cs.getLast? ≠ some '/') : strippedMethod cs = cs ↔ trim cs = cs := by
  have hfilter : (trim cs).filter (fun c => !isInvisible c) = trim cs := by
    refine List.filter_eq_self.mpr fun c hc => ?_
    rw [hvisible c (trim_subset cs hc)]
    rfl
  rw [strippedMethod, hfilter]
  constructor
  · intro h
    have hpre := trimEndMatches_prefix '/' (trim cs)
    rw [h] at hpre
    exact (hpre.eq_of_length_le (trim_length_le cs)).symm
  · intro h
    rw [h]
    exact trimEndMatches_eq_self hslash

/-! ### The normal form of a normal form -/

section Laws

variable {ext : Externals} (hlower : IsLowerCase isInvisible ext.lowerNonAscii)

include hlower

/-- **A normal form is final** exactly if the ends of the name are visible. -/
theorem normalizeMethod_twice_iff (m : String) :
    normalizeMethod ext (normalizeMethod ext m) = normalizeMethod ext m ↔ EndsVisibly m.toList := by
  rw [endsVisibly_iff, normalizeMethod_eq ext (normalizeMethod ext m), normalizeMethod_eq ext m]
  unfold Externals.toLowercase
  simp only [String.toList_ofList]
  have hvisible : ∀ c ∈ strippedMethod m.toList, isInvisible c = false := fun c hc =>
    visible_of_mem_strippedMethod hc
  have hslash : (strippedMethod m.toList).getLast? ≠ some '/' := getLast?_trimEndMatches '/' _
  generalize strippedMethod m.toList = x at hvisible hslash
  have hhead := head_lowercase hlower (fun c hc => isInvisible_toLower hc) [] x
  have hlast := getLast_lowercase hlower (fun c hc => isInvisible_toLower hc) [] x
  have hlowered : ∀ d ∈ lowercaseChars ext.lowerNonAscii [] x, isInvisible d = false := by
    intro d hd
    obtain ⟨c, hc, heq⟩ := hidden_of_mem_lowercase hlower (fun c hc => isInvisible_toLower hc) hd
    rw [heq, hvisible c hc]
  have hstable := fun ds hds => @lowercase_of_stable _ _ hlower [] x ds hds []
  generalize lowercaseChars ext.lowerNonAscii [] x = y at hhead hlast hlowered hstable
  have hlastSlash : y.getLast? ≠ some '/' := by
    intro heq
    rw [heq] at hlast
    obtain ⟨c, hc, hkind⟩ := Option.map_eq_some_iff.mp hlast.symm
    have hc' : c = '/' := of_decide_eq_true (Prod.ext_iff.mp hkind).2
    rw [hc'] at hc
    exact hslash hc
  have hlastSpace : y.getLast?.map isWhitespace = x.getLast?.map isWhitespace := by
    have hfst := congrArg (Option.map Prod.fst) hlast
    simpa only [Option.map_map, Function.comp_def] using hfst
  -- the ends of the lower case are whitespace exactly if those of the text are
  have hmap : ∀ o o' : Option Char, o.map isWhitespace = o'.map isWhitespace →
      ((∀ c ∈ o, isWhitespace c = false) ↔ ∀ c ∈ o', isWhitespace c = false) := by
    intro o o' h
    cases o <;> cases o' <;> simp_all
  have hends : strippedMethod y = y ↔ (∀ c ∈ x.head?, isWhitespace c = false) ∧
      ∀ c ∈ x.getLast?, isWhitespace c = false := by
    rw [strippedMethod_eq_self_iff hlowered hlastSlash, trim_eq_self_iff]
    exact and_congr (hmap _ _ hhead) (hmap _ _ hlastSpace)
  have hsub : strippedMethod y ⊆ y := by
    intro c hc
    exact trim_subset y (List.mem_of_mem_filter (trimEndMatches_subset '/' _ hc))
  rw [hstable _ hsub, ← hends]
  exact ⟨fun h => String.ofList_injective h, fun h => congrArg String.ofList h⟩

/-! ### A disguise -/

omit hlower

/-- A text of slashes and blanks is cut off exactly if it has no blank. -/
theorem trimEndMatches_eq_nil_iff {cs : List Char} (hcs : ∀ c ∈ cs, IsBlank c ∨ c = '/') :
    trimEndMatches '/' cs = [] ↔ ∀ c ∈ cs, ¬IsBlank c := by
  have hnil : trimEndMatches '/' cs = [] ↔ ∀ c ∈ cs, c = '/' := by
    show cs.rdropWhile (fun c => decide (c = '/')) = [] ↔ _
    rw [List.rdropWhile_eq_nil_iff]
    simp only [decide_eq_true_eq]
  rw [hnil]
  constructor
  · intro h c hc hblank
    rw [h c hc] at hblank
    exact absurd hblank (by decide)
  · intro h c hc
    exact (hcs c hc).resolve_left (h c hc)

/-- What a disguise does to a stripped name: nothing, or it adds blanks and slashes. -/
theorem strippedMethod_append (cs : List Char) {w : List Char} (hw : IsDisguise w) :
    (KeepsNoBlank cs w ∧ strippedMethod (cs ++ w) = strippedMethod cs) ∨
      (¬KeepsNoBlank cs w ∧ ∃ added ≠ [], strippedMethod (cs ++ w) = strippedMethod cs ++ added ∧
        ∀ c ∈ added, isWhitespace c = true ∨ c = '/') := by
  obtain ⟨extra, htrim, hextra⟩ := trim_append cs w
  have hkept : KeepsNoBlank cs w ↔ ∀ c ∈ extra, ¬IsBlank c := by
    rw [KeepsNoBlank, htrim, List.drop_left]
  have hvisible : ∀ c ∈ extra.filter (fun c => !isInvisible c), IsBlank c ∨ c = '/' := by
    intro c hc
    obtain ⟨hmem, hvis⟩ := List.mem_filter.mp hc
    have hvis : isInvisible c = false := by simpa using hvis
    rcases hextra c hmem with hspace | hmem
    · exact Or.inl ⟨hspace, hvis⟩
    · rcases hw c hmem with hspace | hslash | hinv
      · exact Or.inl ⟨hspace, hvis⟩
      · exact Or.inr hslash
      · rw [hvis] at hinv
        cases hinv
  have hblanks : (∀ c ∈ extra.filter (fun c => !isInvisible c), ¬IsBlank c) ↔ KeepsNoBlank cs w := by
    rw [hkept]
    refine ⟨fun h c hc hblank => ?_, fun h c hc => h c (List.mem_of_mem_filter hc)⟩
    exact h c (List.mem_filter.mpr ⟨hc, by rw [hblank.2]; rfl⟩) hblank
  have hsplit : strippedMethod (cs ++ w) = trimEndMatches '/'
      ((trim cs).filter (fun c => !isInvisible c) ++ extra.filter fun c => !isInvisible c) := by
    rw [strippedMethod, htrim, List.filter_append]
  rw [trimEndMatches_append] at hsplit
  by_cases hno : KeepsNoBlank cs w
  · rw [if_pos ((trimEndMatches_eq_nil_iff hvisible).mpr (hblanks.mpr hno))] at hsplit
    exact Or.inl ⟨hno, hsplit⟩
  · have hne : trimEndMatches '/' (extra.filter fun c => !isInvisible c) ≠ [] := fun h =>
      hno (hblanks.mp ((trimEndMatches_eq_nil_iff hvisible).mp h))
    rw [if_neg hne] at hsplit
    -- the slashes that the name alone loses come back, and what is left of the disguise behind them
    have hslashes : ((trim cs).filter fun c => !isInvisible c).rdropWhile (fun c => decide (c = '/')) ++
        ((trim cs).filter fun c => !isInvisible c).rtakeWhile (fun c => decide (c = '/')) =
          (trim cs).filter fun c => !isInvisible c :=
      List.rdropWhile_append_rtakeWhile
    refine Or.inr ⟨hno, ((trim cs).filter fun c => !isInvisible c).rtakeWhile (fun c => decide (c = '/')) ++
      trimEndMatches '/' (extra.filter fun c => !isInvisible c),
      List.append_ne_nil_of_right_ne_nil _ hne, ?_, ?_⟩
    · rw [← List.append_assoc, hsplit]
      exact congrArg (· ++ _) hslashes.symm
    · intro c hc
      rcases List.mem_append.mp hc with hc | hc
      · have hslash := List.mem_rtakeWhile_imp hc
        exact Or.inr (of_decide_eq_true hslash)
      · exact (hvisible c (trimEndMatches_subset '/' _ hc)).imp And.left id

include hlower

theorem toLowercase_append {cs added : List Char} (hadded : ∀ c ∈ added, isWhitespace c = true ∨ c = '/') :
    ext.toLowercase (String.ofList (cs ++ added)) =
      ext.toLowercase (String.ofList cs) ++ String.ofList added := by
  unfold Externals.toLowercase
  rw [String.toList_ofList, String.toList_ofList, lowercaseChars_blank hlower hadded, String.ofList_append]

/-- **A disguise is removed** exactly if it keeps no blank. -/
theorem normalizeMethod_append_iff (m w : String) (hw : IsDisguise w.toList) :
    normalizeMethod ext (m ++ w) = normalizeMethod ext m ↔ KeepsNoBlank m.toList w.toList := by
  rw [normalizeMethod_eq, normalizeMethod_eq, String.toList_append]
  rcases strippedMethod_append m.toList hw with ⟨hno, heq⟩ | ⟨hblank, added, hne, heq, hadded⟩
  · rw [heq]
    exact iff_of_true rfl hno
  · refine iff_of_false (fun hsame => ?_) hblank
    rw [heq, toLowercase_append hlower hadded] at hsame
    have hchars := congrArg String.toList hsame
    rw [String.toList_append, String.toList_ofList, List.append_right_eq_self] at hchars
    exact hne hchars

/-! ### Tool calls -/

omit hlower

theorem classifyToolCall_ne_passThrough (id : Json) (params : Option Json) :
    classifyToolCall ext id params ≠ .passThrough := by
  unfold classifyToolCall
  split
  · exact nofun
  · split
    · exact nofun
    · dsimp only
      split
      · exact nofun
      · split <;> exact nofun

theorem strippedMethod_toolsCall : strippedMethod "tools/call".toList = "tools/call".toList := by decide +kernel

theorem normalizeMethod_toolsCall : normalizeMethod ext "tools/call" = "tools/call" := by
  rw [normalizeMethod_eq, strippedMethod_toolsCall]
  rfl

/-- Behind `tools/call`, trimming cuts the whitespace at the end of the disguise off. -/
theorem keepsNoBlank_toolsCall_iff (w : List Char) :
    KeepsNoBlank "tools/call".toList w ↔ ∀ c ∈ w.rdropWhile isWhitespace, ¬IsBlank c := by
  have hname : trim "tools/call".toList = "tools/call".toList := by decide +kernel
  have htrim : trim ("tools/call".toList ++ w) = "tools/call".toList ++ w.rdropWhile isWhitespace := by
    have hfront : ("tools/call".toList ++ w).dropWhile isWhitespace = "tools/call".toList ++ w := rfl
    rw [trim_eq, hfront, rdropWhile_append]
    split
    · rename_i hnil
      rw [hnil, List.append_nil]
      decide +kernel
    · rfl
  rw [KeepsNoBlank, htrim, hname, List.drop_left]

/-- A longer name that begins with `tools/call` is the name of no method. -/
theorem classifyRequest_longer (id : Json) (params : Option Json) {added : List Char} (hadded : added ≠ []) :
    classifyRequest ext id params ("tools/call" ++ String.ofList added) = .passThrough := by
  have hchars : ("tools/call" ++ String.ofList added).toList = "tools/call".toList ++ added :=
    String.toList_append.trans (congrArg _ String.toList_ofList)
  have hself : "tools/call" ++ String.ofList added ≠ "tools/call" := by
    intro heq
    rw [heq] at hchars
    exact hadded (List.append_right_eq_self.mp hchars.symm)
  -- the other names differ in the first two letters
  have hstart : ∀ name : String, name.toList.take 2 ≠ ['t', 'o'] →
      "tools/call" ++ String.ofList added ≠ name := by
    intro name hname heq
    rw [heq] at hchars
    exact hname (by rw [hchars]; rfl)
  have htasks : "tools/call" ++ String.ofList added ∉ taskMethods := by
    intro hmem
    have hnames : ∀ name ∈ taskMethods, name.toList.take 2 ≠ ['t', 'o'] := by decide
    exact hstart _ (hnames _ hmem) rfl
  have hextension : ¬"x-".toList.isPrefixOf ("tools/call" ++ String.ofList added).toList = true := by
    rw [hchars]
    exact Bool.false_ne_true
  unfold classifyRequest
  rw [if_neg hself, if_neg (hstart _ (by decide)), if_neg (hstart _ (by decide)),
    if_neg (hstart _ (by decide)), if_neg htasks, if_neg (hstart _ (by decide)), if_neg hextension]

/-- The class of a message with a method. -/
theorem classifyMessage_eq {msg : Json} {method : String} (h : msg.get "method" = some (.string method)) :
    classifyMessage ext msg =
      classifyRequest ext ((msg.get "id").getD .null) (msg.get "params") (normalizeMethod ext method) := by
  have hobject : ¬msg.asArray.isSome = true := by
    cases msg <;> first | exact Bool.false_ne_true | cases h
  unfold classifyMessage
  rw [if_neg hobject, h]
  rfl

include hlower

/-- **A disguised tool call** is classified as the tool call exactly if its disguise has no blank but at its
    end; with one it passes through. -/
theorem classifyMessage_disguised {msg msg' : Json} {w : String} (hw : IsDisguise w.toList)
    (hplain : msg.get "method" = some (.string "tools/call"))
    (hdisguised : msg'.get "method" = some (.string ("tools/call" ++ w)))
    (hsame : ∀ key, key ≠ "method" → msg'.get key = msg.get key) :
    ((∀ c ∈ w.toList.rdropWhile isWhitespace, ¬IsBlank c) ∧
      classifyMessage ext msg' = classifyMessage ext msg ∧ classifyMessage ext msg' ≠ .passThrough) ∨
    (¬(∀ c ∈ w.toList.rdropWhile isWhitespace, ¬IsBlank c) ∧
      classifyMessage ext msg' = .passThrough) := by
  have hid := hsame "id" (by decide)
  have hparams := hsame "params" (by decide)
  rw [classifyMessage_eq hplain, classifyMessage_eq hdisguised, hid, hparams, normalizeMethod_toolsCall,
    ← keepsNoBlank_toolsCall_iff, normalizeMethod_eq, String.toList_append]
  rcases strippedMethod_append "tools/call".toList hw with ⟨hno, heq⟩ | ⟨hblank, added, hne, heq, hadded⟩
  · refine Or.inl ⟨hno, ?_⟩
    have hnormal : ext.toLowercase (String.ofList (strippedMethod ("tools/call".toList ++ w.toList))) =
        "tools/call" := by
      rw [heq, ← normalizeMethod_eq, normalizeMethod_toolsCall]
    rw [hnormal, classifyRequest, if_pos rfl]
    exact ⟨rfl, classifyToolCall_ne_passThrough _ _⟩
  · refine Or.inr ⟨hblank, ?_⟩
    have hnormal : ext.toLowercase (String.ofList (strippedMethod ("tools/call".toList ++ w.toList))) =
        "tools/call" ++ String.ofList added := by
      rw [heq, toLowercase_append hlower hadded, ← normalizeMethod_eq, normalizeMethod_toolsCall]
    rw [hnormal]
    exact classifyRequest_longer _ _ hne

end Laws

/-- **Method normalization.**  For every name, the normal form is final exactly if the ends of the name are
    visible; a disguise is removed exactly if it keeps no blank behind the name; and a tool call under a
    disguise keeps its class, and does not pass through, exactly if the disguise has no blank but at its end. -/
theorem method_normalization (ext : Externals) (hlower : IsLowerCase isInvisible ext.lowerNonAscii) :
    (∀ m, normalizeMethod ext (normalizeMethod ext m) = normalizeMethod ext m ↔ EndsVisibly m.toList) ∧
    (∀ m w : String, IsDisguise w.toList →
      (normalizeMethod ext (m ++ w) = normalizeMethod ext m ↔ KeepsNoBlank m.toList w.toList)) ∧
    (∀ (msg msg' : Json) (w : String), IsDisguise w.toList →
      msg.get "method" = some (.string "tools/call") →
      msg'.get "method" = some (.string ("tools/call" ++ w)) →
      (∀ key, key ≠ "method" → msg'.get key = msg.get key) →
      (classifyMessage ext msg' = classifyMessage ext msg ∧ classifyMessage ext msg' ≠ .passThrough ↔
        ∀ c ∈ w.toList.rdropWhile isWhitespace, ¬IsBlank c)) := by
  refine ⟨normalizeMethod_twice_iff hlower, fun m w hw => normalizeMethod_append_iff hlower m w hw, ?_⟩
  intro msg msg' w hw hplain hdisguised hsame
  rcases classifyMessage_disguised hlower hw hplain hdisguised hsame with ⟨hno, hclass⟩ | ⟨hblank, hclass⟩
  · exact iff_of_true hclass hno
  · exact iff_of_false (fun h => h.2 hclass) hblank

theorem isLowerCase_plain : IsLowerCase isInvisible plainExternals.lowerNonAscii where
  whitespace _ _ _ _ _ := rfl
  context _ _ _ _ _ _ := rfl
  kind _ c _ hc := by
    refine ⟨List.cons_ne_nil _ _, fun d hd => ?_⟩
    rw [List.mem_singleton.mp hd]
    refine ⟨rfl, rfl, fun heq => ?_⟩
    rw [heq] at hc
    exact absurd hc (by decide)
  stable _ c _ hc d hd := by
    rw [List.mem_singleton.mp hd, if_neg (by rw [hc]; decide)]
    exact fun _ _ => rfl

/-- A call of `bash` under some name for the method. -/
def bashCall (method : String) : Json :=
  .object [("id", .number (.posInt 1)), ("method", .string method),
    ("params", .object [("arguments", .object []), ("name", .string "bash")])]

theorem get_bashCall (method method' : String) {key : String} (hkey : key ≠ "method") :
    (bashCall method').get key = (bashCall method).get key := by
  show List.lookup key _ = List.lookup key _
  simp [List.lookup_cons, beq_false_of_ne hkey]

/-- Slashes, invisible characters and whitespace at the end are removed. -/
theorem method_normalization_plain :
    normalizeMethod plainExternals (normalizeMethod plainExternals "Tools/Call//") =
      normalizeMethod plainExternals "Tools/Call//" ∧
    normalizeMethod plainExternals ("Tools/Call" ++ "/\u200b/\n ") = normalizeMethod plainExternals "Tools/Call" ∧
    classifyMessage plainExternals (bashCall ("tools/call" ++ "/\u200b/\n ")) =
      classifyMessage plainExternals (bashCall "tools/call") ∧
    classifyMessage plainExternals (bashCall "tools/call") =
      .toolCall (.number (.posInt 1)) "bash" (.object []) := by
  obtain ⟨htwice, happend, hclass⟩ := method_normalization plainExternals isLowerCase_plain
  have hw : IsDisguise "/\u200b/\n ".toList := by
    exact forall_mem_of_all (by decide +kernel)
  refine ⟨(htwice _).mpr ?_, (happend _ _ hw).mpr ?_, ?_, by decide +kernel⟩
  · have hfirst : (trim "Tools/Call//".toList).find? (fun c => !isInvisible c) = some 'T' := by decide +kernel
    have hlast : (trim "Tools/Call//".toList).reverse.find? (fun c => !isInvisible c && c != '/') =
        some 'l' := by decide +kernel
    rw [EndsVisibly, hfirst, hlast]
    refine ⟨fun c hc => ?_, fun c hc => ?_⟩ <;> cases hc <;> decide
  · exact forall_mem_of_all (by decide +kernel)
  · refine ((hclass (bashCall "tools/call") _ _ hw rfl rfl fun key hkey => get_bashCall _ _ hkey).mpr ?_).1
    exact forall_mem_of_all (by decide +kernel)

/-- **A disguise that is not removed**: a space with a slash behind it.  The normal form keeps the space, a second
    pass would not, and the tool call passes through. -/
theorem disguised_call_passes_through :
    normalizeMethod plainExternals "tools/call /" = "tools/call " ∧
    normalizeMethod plainExternals (normalizeMethod plainExternals "tools/call /") = "tools/call" ∧
    normalizeMethod plainExternals "tools/call" = "tools/call" ∧
    classifyMessage plainExternals (bashCall "tools/call /") = .passThrough ∧
    classifyMessage plainExternals (bashCall "tools/call") =
      .toolCall (.number (.posInt 1)) "bash" (.object []) ∧
    (¬ ∀ m, normalizeMethod plainExternals (normalizeMethod plainExternals m) =
      normalizeMethod plainExternals m) ∧
    (¬ ∀ m w : String, IsDisguise w.toList →
      normalizeMethod plainExternals (m ++ w) = normalizeMethod plainExternals m) := by
  refine ⟨by decide +kernel, by decide +kernel, by decide +kernel, by decide +kernel, by decide +kernel, ?_, ?_⟩
  · intro h
    exact absurd (h "tools/call /") (by decide +kernel)
  · intro h
    have hw : IsDisguise " /".toList := by
      exact forall_mem_of_all (by decide +kernel)
    exact absurd (h "tools/call" " /" hw) (by decide +kernel)

end Vellaveto.Extractor
