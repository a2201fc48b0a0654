/-
  TARGET EXTRACTION: from the arguments of a tool call to an action (`extract_action` and its helpers
  in `vellaveto-mcp/src/extractor.rs`).

  PROGRAM.  The arguments are walked recursively.  Every string that looks like a path or a URL adds a
  target path or domain to the action; the path rules of the engine then see these targets and
  nothing else.

  SPEC.  No argument path escapes: a string that starts with `/` must be among the target paths, or
  the call must be rejected.

  CORRECTNESS.  The walk has four deliberate cut-offs, none of which rejects the call: strings with a
  space are not taken for paths, `?` and `#` end a path, values nested 32 deep are not looked at, and
  nothing is added to 256 targets.  `argument_path_reaches_rules`: every other string that starts
  with `/` is a target path, so a blocked glob that matches it makes the path check deny.
-/
import Mathlib.Data.List.TakeWhile
import Vellaveto.Engine.RuleCheck
import Vellaveto.Lib.Cuts
import Vellaveto.Lib.Decision

namespace Vellaveto.Extractor

open Vellaveto.Lib

/-! ## Method and tool names -/

/-- The inclusive code-point ranges that `normalize_method` strips, as the source lists them. -/
def invisibleRanges : List (Nat × Nat) :=
  [(0x0, 0x1F), (0x7F, 0x9F), (0x200B, 0x200F), (0x202A, 0x202E), (0xFE00, 0xFE0F),
   (0xFEFF, 0xFEFF), (0x2060, 0x2064), (0xFFF9, 0xFFFB), (0x180E, 0x180E), (0x00AD, 0x00AD),
   (0x2066, 0x2069), (0xE0000, 0xE007F)]

/-- `normalize_method`, which also normalizes tool names. -/
def normalizeMethod (ext : Externals) (method : String) : String :=
  let visible := (trim method.toList).filter fun c =>
    !invisibleRanges.any fun r => r.1 ≤ c.toNat && c.toNat ≤ r.2
  ext.toLowercase (String.ofList (trimEndMatches '/' visible))

/-! ## The walk -/

def maxParamScanDepth : Nat := 32
def maxExtractedTargets : Nat := 256

/-- What the walk fills in: `target_paths` and `target_domains`. -/
structure Targets where
  paths : List String
  domains : List String
deriving DecidableEq, Repr

namespace Targets

def count (t : Targets) : Nat := t.paths.length + t.domains.length

/-- Add a path unless it is empty. -/
def pushPath (t : Targets) (path : List Char) : Targets :=
  if path.isEmpty then t else { t with paths := t.paths ++ [String.ofList path] }

def pushDomain (t : Targets) (domain : String) : Targets :=
  { t with domains := t.domains ++ [domain] }

end Targets

/-- `strip_query_and_fragment`. -/
def stripQueryAndFragment (path : List Char) : List Char := beforeFirst '#' (beforeFirst '?' path)

/-- `looks_like_relative_path`. -/
def looksLikeRelativePath (s : List Char) : Bool :=
  if s.contains ' ' then false
  else
    "../".toList.isPrefixOf s || "./".toList.isPrefixOf s || "~/".toList.isPrefixOf s ||
      containsInfix "/../".toList s || s == "..".toList || s == "~".toList

/-- The path of a `file://` URI.  The slices of the source panic (`none`) when the scheme or the host
    in lower case has another length than in the original. -/
def filePathOf (s lowerAfterScheme : List Char) : Option (List Char) := do
  let afterScheme ← byteSuffix s 7
  if "localhost".toList.isPrefixOf lowerAfterScheme then byteSuffix afterScheme 9
  else if afterScheme.head? = some '/' then some afterScheme
  else some (afterScheme.dropWhile (· ≠ '/'))

section Walk

variable (ext : Externals)

/-- The host of an HTTP URL. -/
def hostOf (decoded : List Char) : List Char :=
  afterLast '@' (beforeFirst '#' (beforeFirst '?' (beforeFirst ':' decoded)))

/-- The branch for `file://` URIs. -/
def addFileTarget (s lowerAfterScheme : List Char) (t : Targets) : Option Targets :=
  (filePathOf s lowerAfterScheme).map fun pathOriginal =>
    match percentDecodeUtf8 (stripQueryAndFragment pathOriginal) with
    | some decoded => t.pushPath decoded
    | none => t

/-- The branch for HTTP URLs. -/
def addHttpTarget (s : List Char) (t : Targets) : Targets :=
  match (Domain.afterScheme s).bind fun authority =>
      percentDecodeUtf8 (beforeFirst '/' authority) with
  | some decoded =>
    let host := hostOf decoded
    if host.isEmpty then t else t.pushDomain (ext.toLowercase (String.ofList host))
  | none => t

/-- The branch for relative paths. -/
def addRelativeTarget (s : List Char) (t : Targets) : Targets :=
  let clean := stripQueryAndFragment s
  if clean.isEmpty then t else t.pushPath ('/' :: clean)

/-- The branch of `extract_targets_from_params_inner` for a string. -/
def extractFromString (s : String) (t : Targets) : Option Targets :=
  let cs := s.toList
  let lower := (ext.toLowercase s).toList
  match stripPrefix "file://".toList lower with
  | some lowerAfterScheme => addFileTarget cs lowerAfterScheme t
  | none =>
    if "http://".toList.isPrefixOf lower || "https://".toList.isPrefixOf lower then
      some (addHttpTarget ext cs t)
    else if cs.head? = some '/' ∧ ¬cs.contains ' ' then
      some (t.pushPath (stripQueryAndFragment cs))
    else if looksLikeRelativePath cs then some (addRelativeTarget cs t)
    else some t

/-- Is a value still looked at? -/
def withinLimits (depth : Nat) (t : Targets) : Bool :=
  decide (depth < maxParamScanDepth) && decide (t.count < maxExtractedTargets)

mutual

/-- `extract_targets_from_params_inner`. -/
def extractTargetsInner (depth : Nat) : Json → Targets → Option Targets
  | .string s, t => if withinLimits depth t then extractFromString ext s t else some t
  | .object members, t => if withinLimits depth t then extractMembers (depth + 1) members t else some t
  | .array items, t => if withinLimits depth t then extractItems (depth + 1) items t else some t
  | .null, t => some t
  | .bool _, t => some t
  | .number _, t => some t

/-- The loop over the items of an array. -/
def extractItems (depth : Nat) : List Json → Targets → Option Targets
  | [], t => some t
  | x :: xs, t => do
    let t ← extractTargetsInner depth x t
    extractItems depth xs t

/-- The loop over the members of an object. -/
def extractMembers (depth : Nat) : List (String × Json) → Targets → Option Targets
  | [], t => some t
  | (_, x) :: ms, t => do
    let t ← extractTargetsInner depth x t
    extractMembers depth ms t

end

/-- `extract_targets_from_params`. -/
def extractTargetsFromParams (value : Json) (t : Targets) : Option Targets :=
  extractTargetsInner ext 0 value t

/-- `extract_action`.  An invalid name is quoted in a warning, cut after 64 bytes; the cut panics
    (`none`) inside a character. -/
def extractAction (toolName : String) (arguments : Json) : Option Action :=
  match Action.validated toolName "*" arguments with
  | .ok action =>
    (extractTargetsFromParams ext arguments ⟨action.targetPaths, action.targetDomains⟩).map
      fun t => { action with targetPaths := t.paths, targetDomains := t.domains }
  | .error _ =>
    (sliceTo toolName (min toolName.utf8ByteSize 64)).map
      fun _ => Action.new "<invalid>" "<invalid>" arguments

/-- The path of a `file://` resource; here a URI with a host and no path is its own path. -/
def resourcePathOf (uri lowerAfterScheme : List Char) : Option (List Char) := do
  let afterScheme ← byteSuffix uri 7
  if "localhost".toList.isPrefixOf lowerAfterScheme then byteSuffix afterScheme 9
  else if afterScheme.head? = some '/' then some afterScheme
  else if afterScheme.contains '/' then some (afterScheme.dropWhile (· ≠ '/'))
  else some afterScheme

/-- `extract_resource_action`, with `none` for the panics of its slices. -/
def extractResourceAction (uri : String) : Option Action :=
  let cs := uri.toList
  let lower := (ext.toLowercase uri).toList
  match stripPrefix "file://".toList lower with
  | some lowerAfterScheme =>
    (resourcePathOf cs lowerAfterScheme).map fun filePath =>
      match percentDecodeUtf8 (stripQueryAndFragment filePath) with
      | some decoded =>
        let path := String.ofList decoded
        { Action.new "resources" "read" (.object [("path", .string path), ("uri", .string uri)]) with
          targetPaths := [path] }
      | none => Action.new "resources" "read" (.object [("uri", .string uri)])
  | none =>
    if "http://".toList.isPrefixOf lower || "https://".toList.isPrefixOf lower then
      some { Action.new "resources" "read" (.object [("uri", .string uri), ("url", .string uri)]) with
        targetDomains := (addHttpTarget ext cs ⟨[], []⟩).domains }
    else some (Action.new "resources" "read" (.object [("uri", .string uri)]))

end Walk

/-! ## What the walk adds -/

/-- Targets are only added, and never more than the limit allows. -/
structure Grows (t t' : Targets) : Prop where
  paths : t.paths <+: t'.paths
  domains : t.domains <+: t'.domains
  bounded : t.count ≤ maxExtractedTargets → t'.count ≤ maxExtractedTargets

theorem Grows.refl (t : Targets) : Grows t t :=
  ⟨List.prefix_refl _, List.prefix_refl _, fun h => h⟩

theorem Grows.trans {t u v : Targets} (htu : Grows t u) (huv : Grows u v) : Grows t v :=
  ⟨htu.paths.trans huv.paths, htu.domains.trans huv.domains, fun h => huv.bounded (htu.bounded h)⟩

theorem Grows.count_le {t u : Targets} (h : Grows t u) : t.count ≤ u.count :=
  Nat.add_le_add h.paths.length_le h.domains.length_le

theorem grows_pushPath {t : Targets} (path : List Char) (hroom : t.count < maxExtractedTargets) :
    Grows t (t.pushPath path) := by
  unfold Targets.pushPath
  split
  · exact Grows.refl t
  · refine ⟨List.prefix_append _ _, List.prefix_refl _, fun _ => ?_⟩
    unfold Targets.count at hroom ⊢
    simp only [List.length_append, List.length_singleton]
    omega

theorem grows_pushDomain {t : Targets} (domain : String) (hroom : t.count < maxExtractedTargets) :
    Grows t (t.pushDomain domain) := by
  refine ⟨List.prefix_refl _, List.prefix_append _ _, fun _ => ?_⟩
  unfold Targets.count at hroom ⊢
  simp only [Targets.pushDomain, List.length_append, List.length_singleton]
  omega

variable {ext : Externals}

theorem grows_addHttpTarget (s : List Char) {t : Targets} (hroom : t.count < maxExtractedTargets) :
    Grows t (addHttpTarget ext s t) := by
  unfold addHttpTarget
  split
  · dsimp only
    split
    · exact Grows.refl t
    · exact grows_pushDomain _ hroom
  · exact Grows.refl t

theorem grows_extractFromString {s : String} {t t' : Targets}
    (h : extractFromString ext s t = some t') (hroom : t.count < maxExtractedTargets) :
    Grows t t' := by
  unfold extractFromString at h
  dsimp only at h
  split at h
  · obtain ⟨path, -, rfl⟩ := Option.map_eq_some_iff.mp h
    split
    · exact grows_pushPath _ hroom
    · exact Grows.refl t
  · split at h
    · cases h
      exact grows_addHttpTarget _ hroom
    · split at h
      · cases h
        exact grows_pushPath _ hroom
      · split at h
        · cases h
          unfold addRelativeTarget
          dsimp only
          split
          · exact Grows.refl t
          · exact grows_pushPath _ hroom
        · cases h
          exact Grows.refl t

mutual

/-- The walk only adds targets. -/
theorem grows_inner {depth : Nat} : (value : Json) → (t t' : Targets) →
    extractTargetsInner ext depth value t = some t' → Grows t t'
  | .string s, t, t', h => by
    rw [extractTargetsInner] at h
    split at h
    · rename_i hroom
      simp only [withinLimits, Bool.and_eq_true, decide_eq_true_eq] at hroom
      exact grows_extractFromString h hroom.2
    · cases h
      exact Grows.refl t
  | .object members, t, t', h => by
    rw [extractTargetsInner] at h
    split at h
    · exact grows_members members t t' h
    · cases h
      exact Grows.refl t
  | .array items, t, t', h => by
    rw [extractTargetsInner] at h
    split at h
    · exact grows_items items t t' h
    · cases h
      exact Grows.refl t
  | .null, t, t', h => by cases h; exact Grows.refl t
  | .bool _, t, t', h => by cases h; exact Grows.refl t
  | .number _, t, t', h => by cases h; exact Grows.refl t

theorem grows_items {depth : Nat} : (items : List Json) → (t t' : Targets) →
    extractItems ext depth items t = some t' → Grows t t'
  | [], t, t', h => by cases h; exact Grows.refl t
  | x :: xs, t, t', h => by
    obtain ⟨u, hu, h⟩ := Option.bind_eq_some_iff.mp h
    exact (grows_inner x t u hu).trans (grows_items xs u t' h)

theorem grows_members {depth : Nat} : (members : List (String × Json)) → (t t' : Targets) →
    extractMembers ext depth members t = some t' → Grows t t'
  | [], t, t', h => by cases h; exact Grows.refl t
  | (_, x) :: ms, t, t', h => by
    obtain ⟨u, hu, h⟩ := Option.bind_eq_some_iff.mp h
    exact (grows_inner x t u hu).trans (grows_members ms u t' h)

end

/-! ## Every path is found -/

/-- `LeafAt value n s`: the string `s` is a leaf of the value, under `n` arrays and objects. -/
inductive LeafAt : Json → Nat → String → Prop
  | here {s : String} : LeafAt (.string s) 0 s
  | item {items : List Json} {x : Json} {n : Nat} {s : String} (hx : x ∈ items)
      (hleaf : LeafAt x n s) : LeafAt (.array items) (n + 1) s
  | member {members : List (String × Json)} {key : String} {x : Json} {n : Nat} {s : String}
      (hx : (key, x) ∈ members) (hleaf : LeafAt x n s) : LeafAt (.object members) (n + 1) s

/-- A string that looks like an absolute path. -/
structure AbsolutePath (s : String) : Prop where
  slash : s.toList.head? = some '/'
  noSpace : ' ' ∉ s.toList

/-- The target path of an absolute path. -/
def targetOf (s : String) : String := String.ofList (stripQueryAndFragment s.toList)

theorem extractFromString_absolute {s : String} (hs : AbsolutePath s) (t : Targets) :
    extractFromString ext s t = some { t with paths := t.paths ++ [targetOf s] } := by
  obtain ⟨rest, hrest⟩ : ∃ rest, s.toList = '/' :: rest := by
    cases hcs : s.toList with
    | nil =>
      have hslash := hs.slash
      rw [hcs] at hslash
      cases hslash
    | cons c rest =>
      have hslash := hs.slash
      rw [hcs] at hslash
      exact ⟨rest, by rw [Option.some.inj hslash]⟩
  -- the lower-case text starts with `/` too, so it has neither scheme
  have hlower : (ext.toLowercase s).toList =
      '/' :: lowercaseChars ext.lowerNonAscii ['/'] rest := by
    rw [Externals.toLowercase, hrest, String.toList_ofList]
    rfl
  have hclean : (stripQueryAndFragment s.toList).isEmpty = false := by
    rw [hrest]
    rfl
  have hspace : ¬s.toList.contains ' ' = true := by simpa using hs.noSpace
  unfold extractFromString
  dsimp only
  rw [hlower]
  have hfile : stripPrefix "file://".toList ('/' :: lowercaseChars ext.lowerNonAscii ['/'] rest) =
      none := rfl
  have hhttp : ("http://".toList.isPrefixOf ('/' :: lowercaseChars ext.lowerNonAscii ['/'] rest) ||
      "https://".toList.isPrefixOf ('/' :: lowercaseChars ext.lowerNonAscii ['/'] rest)) = false :=
    rfl
  rw [hfile, hhttp]
  dsimp only
  rw [if_neg Bool.false_ne_true, if_pos ⟨hs.slash, hspace⟩, Targets.pushPath, hclean,
    if_neg Bool.false_ne_true]
  rfl

/-- The targets of every item are kept. -/
theorem grows_of_mem_items {depth : Nat} {items : List Json} {x : Json} (hx : x ∈ items)
    {t t' : Targets} (h : extractItems ext depth items t = some t') :
    ∃ u v, extractTargetsInner ext depth x u = some v ∧ Grows v t' := by
  induction items generalizing t with
  | nil => cases hx
  | cons y ys ih =>
    obtain ⟨u, hu, hrest⟩ := Option.bind_eq_some_iff.mp h
    rcases List.mem_cons.mp hx with rfl | hx
    · exact ⟨t, u, hu, grows_items ys u t' hrest⟩
    · exact ih hx hrest

/-- The targets of every member are kept. -/
theorem grows_of_mem_members {depth : Nat} {members : List (String × Json)} {key : String} {x : Json}
    (hx : (key, x) ∈ members) {t t' : Targets}
    (h : extractMembers ext depth members t = some t') :
    ∃ u v, extractTargetsInner ext depth x u = some v ∧ Grows v t' := by
  induction members generalizing t with
  | nil => cases hx
  | cons m ms ih =>
    obtain ⟨k, y⟩ := m
    obtain ⟨u, hu, hrest⟩ := Option.bind_eq_some_iff.mp h
    rcases List.mem_cons.mp hx with hxy | hx
    · cases hxy
      exact ⟨t, u, hu, grows_members ms u t' hrest⟩
    · exact ih hx hrest

/-- A value that is not walked any more, although its depth is, leaves a full list behind. -/
theorem full_of_not_withinLimits {depth : Nat} {t : Targets} (hdepth : depth < maxParamScanDepth)
    (h : ¬withinLimits depth t = true) : maxExtractedTargets ≤ t.count := by
  simp only [withinLimits, Bool.and_eq_true, decide_eq_true_eq, hdepth, true_and] at h
  omega

/-- **The walk is complete**: an absolute path within the depth limit becomes a target, unless the
    list of targets is full. -/
theorem mem_of_leafAt {value : Json} {n : Nat} {s : String} (hleaf : LeafAt value n s)
    (hs : AbsolutePath s) {depth : Nat} (hdepth : depth + n < maxParamScanDepth) {t t' : Targets}
    (h : extractTargetsInner ext depth value t = some t') :
    targetOf s ∈ t'.paths ∨ maxExtractedTargets ≤ t'.count := by
  -- what a part of the walk has added or filled stays so until its end
  have hkeep : ∀ {s : String} {v t' : Targets}, Grows v t' →
      targetOf s ∈ v.paths ∨ maxExtractedTargets ≤ v.count →
      targetOf s ∈ t'.paths ∨ maxExtractedTargets ≤ t'.count := by
    intro s v t' hgrows hv
    exact hv.imp (fun hmem => hgrows.paths.subset hmem) (fun hfull => hfull.trans hgrows.count_le)
  induction hleaf generalizing depth t t' with
  | here =>
    rw [extractTargetsInner] at h
    split at h
    · rw [extractFromString_absolute hs] at h
      cases h
      exact Or.inl (List.mem_append_right _ List.mem_cons_self)
    · rename_i hlimits
      cases h
      exact Or.inr (full_of_not_withinLimits (by omega) hlimits)
  | item hx _ ih =>
    rw [extractTargetsInner] at h
    split at h
    · obtain ⟨u, v, huv, hgrows⟩ := grows_of_mem_items hx h
      exact hkeep hgrows (ih hs (by omega) huv)
    · rename_i hlimits
      cases h
      exact Or.inr (full_of_not_withinLimits (by omega) hlimits)
  | member hx _ ih =>
    rw [extractTargetsInner] at h
    split at h
    · obtain ⟨u, v, huv, hgrows⟩ := grows_of_mem_members hx h
      exact hkeep hgrows (ih hs (by omega) huv)
    · rename_i hlimits
      cases h
      exact Or.inr (full_of_not_withinLimits (by omega) hlimits)

/-! ## From the arguments to the path rules -/

/-- What `extract_action` returns: the marker of an invalid name, or the targets of the walk. -/
theorem extractAction_cases {toolName : String} {arguments : Json} {action : Action}
    (h : extractAction ext toolName arguments = some action) :
    action = Action.new "<invalid>" "<invalid>" arguments ∨
      extractTargetsFromParams ext arguments ⟨[], []⟩ =
        some ⟨action.targetPaths, action.targetDomains⟩ := by
  unfold extractAction at h
  split at h
  · rename_i validated hvalidated
    obtain ⟨t, ht, rfl⟩ := Option.map_eq_some_iff.mp h
    -- a validated action has no targets yet
    obtain ⟨-, -, hvalidated⟩ := bind_eq_ok_iff.mp hvalidated
    obtain ⟨-, -, hvalidated⟩ := bind_eq_ok_iff.mp hvalidated
    cases hvalidated
    exact Or.inr ht
  · obtain ⟨-, -, rfl⟩ := Option.map_eq_some_iff.mp h
    exact Or.inl rfl

/-- A text without `?` and `#` is its own path. -/
theorem targetOf_eq_self {s : String} (hquery : '?' ∉ s.toList) (hfragment : '#' ∉ s.toList) :
    targetOf s = s := by
  rw [targetOf, stripQueryAndFragment, beforeFirst_eq_self hquery, beforeFirst_eq_self hfragment,
    String.ofList_toList]

/-- **No argument path escapes the path rules**, apart from the four cut-offs.  For every tool name
    and all arguments, a string leaf under fewer than 32 arrays and objects that starts with `/` and
    has no space is a target path of the action up to its first `?` or `#`, unless the action is
    the one for invalid names or has 256 targets already.  So if the leaf has neither `?` nor `#`
    and a blocked glob matches its normalized path, the path check denies. -/
theorem argument_path_reaches_rules (ext : Externals) (toolName : String) (arguments : Json)
    (action : Action) (haction : extractAction ext toolName arguments = some action)
    (depth : Nat) (leaf : String) (hleaf : LeafAt arguments depth leaf)
    (hdepth : depth < maxParamScanDepth) (hslash : leaf.toList.head? = some '/')
    (hspace : ' ' ∉ leaf.toList) :
    action = Action.new "<invalid>" "<invalid>" arguments ∨
      action.targetPaths.length + action.targetDomains.length = maxExtractedTargets ∨
      (targetOf leaf ∈ action.targetPaths ∧
        ('?' ∉ leaf.toList → '#' ∉ leaf.toList →
          leaf ∈ action.targetPaths ∧
          ∀ (κ : Type) (cp : CompiledPolicy κ) (settings : Settings) (rules : CompiledPathRules)
            (normalized : String),
            cp.compiledPathRules = some rules →
            Path.normalizePathBounded leaf settings.maxPathDecodeIterations = .ok normalized →
            (∃ g ∈ rules.blocked, g.2 normalized = true) →
            ∃ reason, checkPathRules settings action cp = some (.deny reason))) := by
  rcases extractAction_cases haction with hinvalid | hwalk
  · exact Or.inl hinvalid
  · have hgrows := grows_inner arguments _ _ hwalk
    have hbound := hgrows.bounded (Nat.zero_le _)
    rcases mem_of_leafAt hleaf ⟨hslash, hspace⟩ (by omega) hwalk with hmem | hfull
    · refine Or.inr (Or.inr ⟨hmem, fun hquery hfragment => ?_⟩)
      rw [targetOf_eq_self hquery hfragment] at hmem
      refine ⟨hmem, fun κ cp settings rules normalized hrules hnorm hblocked => ?_⟩
      exact checkPathRules_of_blocked settings hrules hmem hnorm hblocked
    · exact Or.inr (Or.inl (Nat.le_antisymm hbound hfull))

/-- A call that reads one path. -/
def readFile (path : String) : Json := .object [("path", .string path)]

theorem leafAt_readFile (path : String) : LeafAt (readFile path) 1 path :=
  .member List.mem_cons_self .here

/-- A policy that blocks one path. -/
def blockPasswd : CompiledPolicy Json where
  policy := ⟨"*", "no passwd", .allow, 0, some ⟨[], ["/etc/passwd"]⟩, none⟩
  toolMatcher := .universal
  conditions := noConditions
  compiledPathRules := some ⟨[], [("/etc/passwd", fun s => s == "/etc/passwd")]⟩
  compiledNetworkRules := none
  compiledIpRules := none

/-- An encoded spelling of a blocked path is denied. -/
theorem encoded_passwd_reaches_rules :
    ∃ action reason, extractAction plainExternals "read_file" (readFile "/etc/%70asswd") =
        some action ∧
      checkPathRules ⟨false, 20⟩ action blockPasswd = some (.deny reason) := by
  have haction : extractAction plainExternals "read_file" (readFile "/etc/%70asswd") =
      some ⟨"read_file", "*", readFile "/etc/%70asswd", ["/etc/%70asswd"], [], []⟩ := by
    decide +kernel
  rcases argument_path_reaches_rules plainExternals "read_file" _ _ haction 1 "/etc/%70asswd"
    (leafAt_readFile _) (by decide) (by decide) (by decide) with hinvalid | hfull | ⟨-, hrules⟩
  · exact absurd (congrArg Action.tool hinvalid) (by decide)
  · exact absurd hfull (by decide)
  · obtain ⟨-, hdeny⟩ := hrules (by decide) (by decide)
    obtain ⟨reason, hreason⟩ := hdeny Json blockPasswd ⟨false, 20⟩ _ "/etc/passwd" rfl
      (by decide +kernel) ⟨_, List.mem_cons_self, rfl⟩
    exact ⟨_, reason, haction, hreason⟩

/-- The leaf is found, or the call is rejected. -/
def Found (toolName : String) (arguments : Json) (leaf : String) : Prop :=
  ∀ action ∈ extractAction plainExternals toolName arguments,
    (∃ path ∈ action.targetPaths, Path.normalizePath path = Path.normalizePath leaf) ∨
      (action.validate fun v => (plainJsonText v).utf8ByteSize).isOk = false ∨
      action.tool = "<invalid>"

instance decidableFound (toolName : String) (arguments : Json) (leaf : String) :
    Decidable (Found toolName arguments leaf) := by
  unfold Found
  infer_instance

/-- Arrays in arrays. -/
def nestedArray (value : Json) : Nat → Json
  | 0 => value
  | n + 1 => .array [nestedArray value n]

theorem leafAt_nestedArray (s : String) (n : Nat) : LeafAt (nestedArray (.string s) n) n s := by
  induction n with
  | zero => exact .here
  | succ n ih => exact .item List.mem_cons_self ih

/-- The root 256 times, and one more path. -/
def manyPaths (last : String) : Json :=
  .array (List.replicate 256 (.string "/") ++ [.string last])

theorem leafAt_manyPaths (last : String) : LeafAt (manyPaths last) 1 last :=
  .item (List.mem_append_right _ List.mem_cons_self) .here

/-- Each of the cut-offs lets a path escape. -/
theorem argument_paths_escape :
    (LeafAt (readFile "/etc/my file") 1 "/etc/my file" ∧
      ¬Found "read_file" (readFile "/etc/my file") "/etc/my file") ∧
    (LeafAt (readFile "/etc/a?b") 1 "/etc/a?b" ∧
      ¬Found "read_file" (readFile "/etc/a?b") "/etc/a?b") ∧
    (LeafAt (readFile "/etc/a#b") 1 "/etc/a#b" ∧
      ¬Found "read_file" (readFile "/etc/a#b") "/etc/a#b") ∧
    (LeafAt (nestedArray (.string "/etc/shadow") 32) 32 "/etc/shadow" ∧
      ¬Found "read_file" (nestedArray (.string "/etc/shadow") 32) "/etc/shadow") ∧
    (LeafAt (manyPaths "/etc/shadow") 1 "/etc/shadow" ∧
      ¬Found "read_file" (manyPaths "/etc/shadow") "/etc/shadow") := by
  refine ⟨⟨leafAt_readFile _, ?_⟩, ⟨leafAt_readFile _, ?_⟩, ⟨leafAt_readFile _, ?_⟩,
    ⟨leafAt_nestedArray _ 32, ?_⟩, ⟨leafAt_manyPaths _, ?_⟩⟩
  · decide +kernel
  · decide +kernel
  · decide +kernel
  · decide +kernel
  · decide +kernel

end Vellaveto.Extractor
