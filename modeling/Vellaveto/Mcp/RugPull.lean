/-
  RUG PULLS: a tool that is added or changed after the first `tools/list` response must not be called
  (`vellaveto-mcp/src/rug_pull.rs`, `extract_tool_annotations` of `proxy/bridge/helpers.rs`, the
  handlers of `proxy/bridge/relay.rs`).

  PROGRAM.      Each response is compared with the annotations that the PREVIOUS one left behind.
                Tools that are new, changed or gone are flagged; a call to a flagged tool is denied.
                A response counts as the first one when no annotations are known.

  SPEC.         A tool that a later response lists, and that the FIRST one did not list with the same
                annotations and schema hash, is flagged from then on.

  CORRECTNESS.
    1. `lookup_updatedKnown`     what is known after a response is what that response listed last;
    2. `rugPulled_flagged`       one response flags whatever it lists and was not known as such;
    3. `tracked_handle`          so all that is known and not flagged is as in the first response;
    4. `rug_pull_flagged`        the property, in every session in which no earlier response is empty;
    5. `new_tool_unflagged_after_empty_list`  after an empty list nothing is known, the next response
                                 counts as the first, and its tools are trusted.

  A hash map lists its keys in no particular order; the order of the model's tables matters only at
  the capacity limits.
-/
import Mathlib.Data.Finset.Card
import Vellaveto.Lib.Table
import Vellaveto.Mcp.Extractor

namespace Vellaveto.RugPull

open Vellaveto.Lib
open Vellaveto.Extractor (normalizeMethod)

/-! ## Annotations -/

/-- `ToolAnnotations`. -/
structure ToolAnnotations where
  readOnlyHint : Bool
  destructiveHint : Bool
  idempotentHint : Bool
  openWorldHint : Bool
  inputSchemaHash : Option String
deriving DecidableEq, Repr

/-- `ToolAnnotations::default`. -/
def ToolAnnotations.default : ToolAnnotations := ⟨false, true, false, true, none⟩

/-- A boolean member of the annotation object, or its default. -/
def hint (ann : Json) (key : String) (dflt : Bool) : Bool :=
  ((ann.get key).bind Json.asBool).getD dflt

/-- `parse_annotations`. -/
def parseAnnotations (ann : Json) : ToolAnnotations where
  readOnlyHint := hint ann "readOnlyHint" false
  destructiveHint := hint ann "destructiveHint" true
  idempotentHint := hint ann "idempotentHint" false
  openWorldHint := hint ann "openWorldHint" true
  inputSchemaHash := none

/-- The scanners that detection calls.  Of a squatting alert only the suspicious tool's name is used,
    and of a description finding only the tool's name. -/
structure Scanners where
  /-- Names and texts. -/
  ext : Externals
  /-- `canonical_schema_hash`. -/
  canonicalSchemaHash : Json → Except String String
  /-- `detect_squatting` against the configured known tools. -/
  detectSquatting : String → List String
  /-- `scan_tool_descriptions`. -/
  scanToolDescriptions : Json → List String

/-- `compute_schema_hash_result`. -/
def computeSchemaHashResult (scan : Scanners) (schema : Json) : Except String (Option String) :=
  if schema = .null then .ok none else (scan.canonicalSchemaHash schema).map some

/-! ## One response -/

/-- A tool of a response that has a name. -/
structure ListedTool where
  name : String
  annotations : ToolAnnotations
  invalidSchema : Bool
deriving DecidableEq, Repr

/-- The body of the loop of `detect_rug_pull` up to the comparison: the normalized name and the
    annotations with the schema hash.  A tool without a name is skipped. -/
def listedTool (scan : Scanners) (tool : Json) : Option ListedTool :=
  ((tool.get "name").bind Json.asStr).map fun n =>
    let name := normalizeMethod scan.ext n
    let annotations :=
      match tool.get "annotations" with
      | some ann => parseAnnotations ann
      | none => ToolAnnotations.default
    match tool.get "inputSchema" with
    | none => ⟨name, annotations, false⟩
    | some schema =>
      match computeSchemaHashResult scan schema with
      | .ok hash => ⟨name, { annotations with inputSchemaHash := hash }, false⟩
      | .error _ => ⟨name, { annotations with inputSchemaHash := none }, true⟩

/-- `result.tools`, when it is an array. -/
def responseTools (response : Json) : Option (List Json) :=
  ((response.get "result").bind fun r => r.get "tools").bind Json.asArray

/-- The named tools of a response, in order. -/
def listedTools (scan : Scanners) (response : Json) : List ListedTool :=
  ((responseTools response).getD []).filterMap (listedTool scan)

/-- Known annotations by tool name. -/
abbrev Known := AList fun _ : String => ToolAnnotations

/-- `RugPullResult`. -/
structure RugPullResult where
  changedTools : List String
  newTools : List String
  removedTools : List String
  updatedKnown : Known
  toolCount : Nat
  squattingAlerts : List String
  invalidSchemaTools : List String
  injectionFindings : List String

/-- The annotations that an entry brings under its name. -/
def ListedTool.entry (l : ListedTool) : String × ToolAnnotations := (l.name, l.annotations)

/-- Is the tool known with other annotations? -/
def isChanged (known : Known) (l : ListedTool) : Bool :=
  match known.lookup l.name with
  | some prev => prev ≠ l.annotations
  | none => false

/-- `detect_rug_pull`: each list of the result is filled in the order of the tools; a response
    without a tools array gives the default result. -/
def detectRugPull (scan : Scanners) (response : Json) (known : Known) (isFirstList : Bool) :
    RugPullResult :=
  match responseTools response with
  | none => ⟨[], [], [], ∅, 0, [], [], []⟩
  | some tools =>
    let listed := listedTools scan response
    let removed :=
      if isFirstList then [] else known.keys.filter fun name => name ∉ listed.map (·.name)
    { changedTools := (listed.filter (isChanged known)).map (·.name)
      newTools :=
        if isFirstList then []
        else (listed.filter fun l => (known.lookup l.name).isNone).map (·.name)
      removedTools := removed
      updatedKnown := eraseAll (insertAll known (listed.map ListedTool.entry)) removed
      toolCount := tools.length
      squattingAlerts := []
      invalidSchemaTools := (listed.filter (·.invalidSchema)).map (·.name)
      injectionFindings := [] }

/-- `detect_rug_pull_and_squatting`. -/
def detectRugPullAndSquatting (scan : Scanners) (response : Json) (known : Known)
    (isFirstList : Bool) : RugPullResult :=
  { detectRugPull scan response known isFirstList with
    squattingAlerts :=
      (((responseTools response).getD []).filterMap fun t =>
        (t.get "name").bind Json.asStr).flatMap scan.detectSquatting
    injectionFindings := scan.scanToolDescriptions response }

/-- `flagged_tool_names`: the first occurrence of each name. -/
def RugPullResult.flaggedToolNames (r : RugPullResult) : List String :=
  (r.changedTools ++ r.newTools ++ r.removedTools ++ r.invalidSchemaTools ++ r.squattingAlerts ++
    r.injectionFindings).eraseDups

/-! ## The session -/

def maxKnownToolAnnotations : Nat := 10000
def maxFlaggedTools : Nat := 10000

/-- What the relay keeps about the tools of its child. -/
structure ToolState where
  known : Known
  flagged : Finset String

/-- `RelayState::new` with the flagged tools of earlier sessions. -/
def ToolState.new (flagged : Finset String) : ToolState := ⟨∅, flagged⟩

/-- The loop of `extract_tool_annotations` that flags tools: it stops at the capacity. -/
def flagDetected : Finset String → List String → Finset String
  | flagged, [] => flagged
  | flagged, name :: names =>
    if flagged.card < maxFlaggedTools then flagDetected (insert name flagged) names else flagged

/-- `RelayState::flag_tool`. -/
def flagTool (flagged : Finset String) (name : String) : Finset String :=
  if flagged.card < maxFlaggedTools then insert name flagged else flagged

/-- The cap on the known annotations. -/
def capKnown (known : Known) : Known :=
  eraseAll known (known.keys.take (known.keys.length - maxKnownToolAnnotations))

/-- `extract_tool_annotations`. -/
def extractToolAnnotations (scan : Scanners) (s : ToolState) (response : Json) : ToolState :=
  let isFirstList := s.known.entries.isEmpty
  let result := detectRugPullAndSquatting scan response s.known isFirstList
  ⟨capKnown result.updatedKnown, flagDetected s.flagged result.flaggedToolNames⟩

/-- A `tools/list` response, with the names that the further checks of its handler flag
    (descriptions, manifest, output schemas). -/
structure ListResponse where
  response : Json
  laterFlags : List String
deriving DecidableEq

/-- `handle_tools_list_response`, as far as it changes the known and the flagged tools. -/
def handleToolsListResponse (scan : Scanners) (s : ToolState) (r : ListResponse) : ToolState :=
  let s' := extractToolAnnotations scan s r.response
  { s' with flagged := r.laterFlags.foldl flagTool s'.flagged }

/-- The state after a sequence of responses. -/
def afterResponses (scan : Scanners) (s : ToolState) (rs : List ListResponse) : ToolState :=
  rs.foldl (handleToolsListResponse scan) s

/-- What `handle_tool_call` denies before any policy is asked: with strict validation an invalid
    name, and always a flagged tool.  The name is the one `classify_message` normalized. -/
def deniedBeforePolicies (strictToolNameValidation : Bool) (flagged : Finset String)
    (toolName : String) : Option String :=
  if strictToolNameValidation ∧ validateMcpToolName toolName ≠ .ok () then some "Invalid tool name"
  else if toolName ∈ flagged then
    some s!"Tool '{toolName}' blocked: annotations changed since initial tools/list (rug-pull detected)"
  else none

/-! ## What is known after a response -/

/-- The annotations a response gave a tool, the last ones when it listed the tool twice. -/
def lastListed (listed : List ListedTool) (name : String) : Option ToolAnnotations :=
  lastOf name (listed.map ListedTool.entry)

theorem exists_lastListed {listed : List ListedTool} {l : ListedTool} (h : l ∈ listed) :
    ∃ ann, lastListed listed l.name = some ann :=
  exists_lastOf_of_mem (List.mem_map.mpr ⟨l, h, rfl⟩)

theorem exists_of_lastListed {listed : List ListedTool} {name : String} {ann : ToolAnnotations}
    (h : lastListed listed name = some ann) :
    ∃ l ∈ listed, l.name = name ∧ l.annotations = ann := by
  obtain ⟨l, hl, hentry⟩ := List.mem_map.mp (mem_of_lastOf_eq_some h)
  cases hentry
  exact ⟨l, hl, rfl, rfl⟩

/-- A response replaces all that was known by what it lists itself. -/
theorem lookup_updatedKnown (scan : Scanners) (response : Json) (known : Known) (name : String) :
    (detectRugPull scan response known known.entries.isEmpty).updatedKnown.lookup name =
      lastListed (listedTools scan response) name := by
  rw [detectRugPull]
  cases htools : responseTools response with
  | none => simp [listedTools, htools, lastListed, lastOf]
  | some tools =>
    dsimp only
    rw [lookup_eraseAll, lookup_insertAll]
    show _ = lastListed _ name
    cases hlast : lastListed (listedTools scan response) name with
    | some ann =>
      -- a listed tool is not removed
      obtain ⟨l, hl, rfl, -⟩ := exists_of_lastListed hlast
      rw [lastListed] at hlast
      rw [if_neg, hlast, Option.some_or]
      split
      · exact List.not_mem_nil
      · simp only [List.mem_filter, decide_eq_true_eq, not_and, not_not]
        exact fun _ => List.mem_map.mpr ⟨l, hl, rfl⟩
    | none =>
      rw [lastListed] at hlast
      rw [hlast, Option.none_or]
      -- one that is known and not listed is removed, unless nothing was known
      by_cases hknown : name ∈ known
      · have hempty : known.entries.isEmpty = false := by
          rw [AList.mem_keys, AList.keys] at hknown
          cases hentries : known.entries with
          | nil => rw [hentries] at hknown; cases hknown
          | cons e es => rfl
        have hunlisted : name ∉ (listedTools scan response).map (·.name) := by
          intro hmem
          obtain ⟨l, hl, rfl⟩ := List.mem_map.mp hmem
          obtain ⟨ann, hann⟩ := exists_lastListed hl
          rw [lastListed, hlast] at hann
          cases hann
        rw [if_pos]
        rw [hempty, if_neg Bool.false_ne_true, List.mem_filter]
        exact ⟨AList.mem_keys.mp hknown, by simpa using hunlisted⟩
      · rw [AList.lookup_eq_none.mpr hknown, ite_self]

/-! ## What a response flags -/

/-- A tool that is listed and not known with these annotations is flagged, unless the response
    counts as the first one. -/
theorem rugPulled_flagged {scan : Scanners} {response : Json} {known : Known} {l : ListedTool}
    (hl : l ∈ listedTools scan response) (hnew : known.lookup l.name ≠ some l.annotations) :
    l.name ∈ (detectRugPullAndSquatting scan response known false).flaggedToolNames := by
  have htools : ∃ tools, responseTools response = some tools := by
    cases h : responseTools response with
    | none => simp [listedTools, h] at hl
    | some tools => exact ⟨tools, rfl⟩
  obtain ⟨tools, htools⟩ := htools
  simp only [RugPullResult.flaggedToolNames, detectRugPullAndSquatting, detectRugPull, htools,
    List.mem_eraseDups, List.mem_append, List.mem_map, List.mem_filter]
  cases hprev : known.lookup l.name with
  | some prev =>
    have hne : prev ≠ l.annotations := fun h => hnew (by rw [hprev, h])
    exact .inl (.inl (.inl (.inl (.inl ⟨l, ⟨hl, by simp [isChanged, hprev, hne]⟩, rfl⟩))))
  | none =>
    refine .inl (.inl (.inl (.inl (.inr ?_))))
    simp only [Bool.false_eq_true, if_false, List.mem_map, List.mem_filter]
    exact ⟨l, ⟨hl, by simp [hprev]⟩, rfl⟩

theorem subset_flagDetected (flagged : Finset String) (detected : List String) :
    flagged ⊆ flagDetected flagged detected := by
  induction detected generalizing flagged with
  | nil => exact subset_rfl
  | cons name detected ih =>
    rw [flagDetected]
    split
    · exact (Finset.subset_insert name flagged).trans (ih _)
    · exact subset_rfl

theorem subset_foldl_flagTool (flagged : Finset String) (later : List String) :
    flagged ⊆ later.foldl flagTool flagged := by
  induction later generalizing flagged with
  | nil => exact subset_rfl
  | cons name later ih =>
    refine subset_trans ?_ (ih (flagTool flagged name))
    rw [flagTool]
    split
    · exact Finset.subset_insert name flagged
    · exact subset_rfl

/-- No response takes a flag back. -/
theorem flagged_subset_handle (scan : Scanners) (s : ToolState) (r : ListResponse) :
    s.flagged ⊆ (handleToolsListResponse scan s r).flagged :=
  (subset_flagDetected _ _).trans (subset_foldl_flagTool _ _)

@[simp] theorem afterResponses_cons (scan : Scanners) (s : ToolState) (r : ListResponse)
    (rs : List ListResponse) : afterResponses scan s (r :: rs) =
      afterResponses scan (handleToolsListResponse scan s r) rs := by
  simp only [afterResponses, List.foldl_cons]

theorem afterResponses_append (scan : Scanners) (s : ToolState) (rs rs' : List ListResponse) :
    afterResponses scan s (rs ++ rs') = afterResponses scan (afterResponses scan s rs) rs' :=
  List.foldl_append

theorem flagged_subset_afterResponses (scan : Scanners) (s : ToolState) (rs : List ListResponse) :
    s.flagged ⊆ (afterResponses scan s rs).flagged := by
  induction rs generalizing s with
  | nil => exact subset_rfl
  | cons r rs ih =>
    rw [afterResponses_cons]
    exact (flagged_subset_handle scan s r).trans (ih _)

/-! ## Capacity -/

/-- The names that handling a response can bring in. -/
def namesOf (scan : Scanners) (r : ListResponse) : List String :=
  (listedTools scan r.response).map (·.name) ++
    (((responseTools r.response).getD []).filterMap fun t =>
      (t.get "name").bind Json.asStr).flatMap scan.detectSquatting ++
    scan.scanToolDescriptions r.response ++ r.laterFlags

theorem mem_namesOf_of_listed {scan : Scanners} {r : ListResponse} {l : ListedTool}
    (hl : l ∈ listedTools scan r.response) : l.name ∈ namesOf scan r := by
  simp only [namesOf, List.mem_append]
  exact .inl (.inl (.inl (List.mem_map.mpr ⟨l, hl, rfl⟩)))

/-- The session brings in no more names than the limits allow. -/
def WithinCapacity (scan : Scanners) (initial : Finset String) (rs : List ListResponse) : Prop :=
  (initial ∪ (rs.flatMap (namesOf scan)).toFinset).card ≤ maxFlaggedTools

instance (scan : Scanners) (initial : Finset String) (rs : List ListResponse) :
    Decidable (WithinCapacity scan initial rs) := inferInstanceAs (Decidable (_ ≤ _))

/-- As long as all names fit, a full set already holds them all. -/
theorem flagDetected_eq {names : Finset String} (hcard : names.card ≤ maxFlaggedTools)
    {flagged : Finset String} {detected : List String} (hflagged : flagged ⊆ names)
    (hdetected : ∀ n ∈ detected, n ∈ names) :
    flagDetected flagged detected = flagged ∪ detected.toFinset := by
  induction detected generalizing flagged with
  | nil => simp [flagDetected]
  | cons n detected ih =>
    have hn : n ∈ names := hdetected n List.mem_cons_self
    have htail : ∀ m ∈ detected, m ∈ names := fun m hm => hdetected m (List.mem_cons_of_mem n hm)
    rw [flagDetected]
    split
    · rw [ih (Finset.insert_subset hn hflagged) htail, List.toFinset_cons, Finset.insert_union,
        Finset.union_insert]
    · rename_i hfull
      have hle : names.card ≤ flagged.card := hcard.trans (Nat.le_of_not_lt hfull)
      have hall : flagged = names := Finset.eq_of_subset_of_card_le hflagged hle
      refine (Finset.union_eq_left.mpr ?_).symm
      intro m hm
      rw [hall]
      exact hdetected m (List.mem_toFinset.mp hm)

theorem foldl_flagTool_subset {names flagged : Finset String} {later : List String}
    (hflagged : flagged ⊆ names) (hlater : ∀ n ∈ later, n ∈ names) :
    later.foldl flagTool flagged ⊆ names := by
  induction later generalizing flagged with
  | nil => exact hflagged
  | cons n later ih =>
    refine ih ?_ fun m hm => hlater m (List.mem_cons_of_mem n hm)
    rw [flagTool]
    split
    · exact Finset.insert_subset (hlater n List.mem_cons_self) hflagged
    · exact hflagged

/-- A table whose keys fit is not cut. -/
theorem capKnown_eq {known : Known} {names : Finset String}
    (hcard : names.card ≤ maxKnownToolAnnotations) (hkeys : ∀ n ∈ known.keys, n ∈ names) :
    capKnown known = known := by
  have hlen : known.keys.length ≤ names.card := by
    rw [← List.toFinset_card_of_nodup known.keys_nodup]
    exact Finset.card_le_card fun n hn => hkeys n (List.mem_toFinset.mp hn)
  have hnone : known.keys.length - maxKnownToolAnnotations = 0 :=
    Nat.sub_eq_zero_of_le (hlen.trans hcard)
  rw [capKnown, hnone, List.take_zero]
  rfl

/-! ## Sessions -/

/-- All that is known and not flagged is as in the first response. -/
structure Tracked (first : List ListedTool) (names : Finset String) (s : ToolState) : Prop where
  trusted : ∀ name ann, s.known.lookup name = some ann →
    lastListed first name = some ann ∨ name ∈ s.flagged
  nonempty : s.known.entries.isEmpty = false
  keys_subset : ∀ name ∈ s.known.keys, name ∈ names
  flagged_subset : s.flagged ⊆ names

section Capacity

variable {scan : Scanners} {names : Finset String} {s : ToolState} {r : ListResponse}

/-- Every name that detection flags fits, when those of the response and the known ones do. -/
theorem detected_mem (hkeys : ∀ name ∈ s.known.keys, name ∈ names)
    (hr : ∀ n ∈ namesOf scan r, n ∈ names) (isFirst : Bool) :
    ∀ n ∈ (detectRugPullAndSquatting scan r.response s.known isFirst).flaggedToolNames,
      n ∈ names := by
  have hlisted : ∀ l ∈ listedTools scan r.response, l.name ∈ names := fun l hl =>
    hr _ (mem_namesOf_of_listed hl)
  have hscan : ∀ n ∈ (((responseTools r.response).getD []).filterMap fun t =>
      (t.get "name").bind Json.asStr).flatMap scan.detectSquatting, n ∈ names := by
    intro n hn
    refine hr n ?_
    simp only [namesOf, List.mem_append]
    exact .inl (.inl (.inr hn))
  have hfound : ∀ n ∈ scan.scanToolDescriptions r.response, n ∈ names := by
    intro n hn
    refine hr n ?_
    simp only [namesOf, List.mem_append]
    exact .inl (.inr hn)
  intro n hn
  simp only [RugPullResult.flaggedToolNames, detectRugPullAndSquatting, List.mem_eraseDups,
    List.mem_append] at hn
  rcases hn with hn | hn
  · rcases hn with hn | hn
    · rw [detectRugPull] at hn
      split at hn
      · simp at hn
      · simp only [List.mem_map, List.mem_filter] at hn
        rcases hn with ((⟨l, ⟨hl, -⟩, rfl⟩ | hn) | hn) | ⟨l, ⟨hl, -⟩, rfl⟩
        · exact hlisted l hl
        · split at hn
          · cases hn
          · obtain ⟨l, hl, rfl⟩ := List.mem_map.mp hn
            exact hlisted l (List.mem_filter.mp hl).1
        · split at hn
          · cases hn
          · exact hkeys n (List.mem_filter.mp hn).1
        · exact hlisted l hl
    · exact hscan n hn
  · exact hfound n hn

/-- **One response, within the limits**: what is known is what it listed last, and everything that
    was detected is flagged. -/
theorem handle_spec (hcard : names.card ≤ maxFlaggedTools)
    (hkeys : ∀ name ∈ s.known.keys, name ∈ names) (hflagged : s.flagged ⊆ names)
    (hr : ∀ n ∈ namesOf scan r, n ∈ names) :
    (∀ name, (handleToolsListResponse scan s r).known.lookup name =
      lastListed (listedTools scan r.response) name) ∧
    (∀ n ∈ (detectRugPullAndSquatting scan r.response s.known
        s.known.entries.isEmpty).flaggedToolNames,
      n ∈ (handleToolsListResponse scan s r).flagged) ∧
    (handleToolsListResponse scan s r).flagged ⊆ names := by
  have hdetected := detected_mem hkeys hr s.known.entries.isEmpty
  have hflags := flagDetected_eq hcard hflagged hdetected
  refine ⟨?_, ?_, ?_⟩
  · intro name
    have hcap : capKnown (detectRugPull scan r.response s.known s.known.entries.isEmpty).updatedKnown =
        (detectRugPull scan r.response s.known s.known.entries.isEmpty).updatedKnown := by
      refine capKnown_eq hcard fun n hn => ?_
      obtain ⟨ann, hann⟩ := Option.isSome_iff_exists.mp
        (AList.lookup_isSome.mpr (AList.mem_keys.mpr hn))
      rw [lookup_updatedKnown] at hann
      obtain ⟨l, hl, rfl, -⟩ := exists_of_lastListed hann
      exact hr _ (mem_namesOf_of_listed hl)
    rw [handleToolsListResponse, extractToolAnnotations, detectRugPullAndSquatting]
    dsimp only
    rw [hcap, lookup_updatedKnown]
  · intro n hn
    refine subset_foldl_flagTool _ r.laterFlags ?_
    show n ∈ flagDetected _ _
    rw [hflags]
    exact Finset.mem_union_right _ (List.mem_toFinset.mpr hn)
  · refine foldl_flagTool_subset ?_ ?_
    · show flagDetected _ _ ⊆ names
      rw [hflags]
      refine Finset.union_subset hflagged fun n hn => ?_
      exact hdetected n (List.mem_toFinset.mp hn)
    · intro n hn
      refine hr n ?_
      simp only [namesOf, List.mem_append]
      exact .inr hn

/-- What is known after a response that lists a tool. -/
theorem known_after_listing {l : ListedTool} {known : Known}
    (hl : l ∈ listedTools scan r.response) (hr : ∀ n ∈ namesOf scan r, n ∈ names)
    (hknown : ∀ name, known.lookup name = lastListed (listedTools scan r.response) name) :
    known.entries.isEmpty = false ∧ ∀ name ∈ known.keys, name ∈ names := by
  constructor
  · obtain ⟨ann, hann⟩ := exists_lastListed hl
    rw [← hknown] at hann
    cases hentries : known.entries with
    | nil => simp [AList.lookup, hentries] at hann
    | cons e es => rfl
  · intro name hname
    obtain ⟨ann, hann⟩ := Option.isSome_iff_exists.mp
      (AList.lookup_isSome.mpr (AList.mem_keys.mpr hname))
    rw [hknown] at hann
    obtain ⟨l', hl', rfl, -⟩ := exists_of_lastListed hann
    exact hr _ (mem_namesOf_of_listed hl')

/-- The first response that lists a tool starts the tracking. -/
theorem tracked_first {initial : Finset String} (hcard : names.card ≤ maxFlaggedTools)
    (hinitial : initial ⊆ names) (hr : ∀ n ∈ namesOf scan r, n ∈ names)
    (hlists : listedTools scan r.response ≠ []) :
    Tracked (listedTools scan r.response) names
      (handleToolsListResponse scan (ToolState.new initial) r) := by
  obtain ⟨l, hl⟩ := List.exists_mem_of_ne_nil _ hlists
  have hkeys : ∀ name ∈ (ToolState.new initial).known.keys, name ∈ names := by
    intro name hname
    cases hname
  obtain ⟨hknown, -, hsub⟩ := handle_spec hcard hkeys hinitial hr
  obtain ⟨hne, hkeys'⟩ := known_after_listing hl hr hknown
  refine ⟨?_, hne, hkeys', hsub⟩
  intro name ann hann
  rw [hknown] at hann
  exact .inl hann

/-- A tool that a response lists otherwise than the first one did is flagged by that response. -/
theorem listed_flagged {first : List ListedTool} (hcard : names.card ≤ maxFlaggedTools)
    (hs : Tracked first names s) (hr : ∀ n ∈ namesOf scan r, n ∈ names) {l : ListedTool}
    (hl : l ∈ listedTools scan r.response)
    (hpulled : lastListed first l.name ≠ some l.annotations) :
    l.name ∈ (handleToolsListResponse scan s r).flagged := by
  by_cases hsame : s.known.lookup l.name = some l.annotations
  · -- known with these annotations: it was flagged when it became known
    rcases hs.trusted _ _ hsame with hfirst | hflagged
    · exact absurd hfirst hpulled
    · exact flagged_subset_handle scan s r hflagged
  · obtain ⟨-, hflags, -⟩ := handle_spec hcard hs.keys_subset hs.flagged_subset hr
    refine hflags _ ?_
    rw [hs.nonempty]
    exact rugPulled_flagged hl hsame

/-- Every further response that lists a tool keeps the tracking. -/
theorem tracked_handle {first : List ListedTool} (hcard : names.card ≤ maxFlaggedTools)
    (hs : Tracked first names s) (hr : ∀ n ∈ namesOf scan r, n ∈ names)
    (hlists : listedTools scan r.response ≠ []) :
    Tracked first names (handleToolsListResponse scan s r) := by
  obtain ⟨l, hl⟩ := List.exists_mem_of_ne_nil _ hlists
  obtain ⟨hknown, -, hsub⟩ := handle_spec hcard hs.keys_subset hs.flagged_subset hr
  obtain ⟨hne, hkeys⟩ := known_after_listing hl hr hknown
  refine ⟨?_, hne, hkeys, hsub⟩
  intro name ann hann
  rw [hknown] at hann
  obtain ⟨l', hl', rfl, rfl⟩ := exists_of_lastListed hann
  by_cases hfirst : lastListed first l'.name = some l'.annotations
  · exact .inl hfirst
  · exact .inr (listed_flagged hcard hs hr hl' hfirst)

/-- … and so does a sequence of them. -/
theorem tracked_afterResponses {first : List ListedTool} {rs : List ListResponse}
    (hcard : names.card ≤ maxFlaggedTools) (hs : Tracked first names s)
    (hrs : ∀ r ∈ rs, ∀ n ∈ namesOf scan r, n ∈ names)
    (hlists : ∀ r ∈ rs, listedTools scan r.response ≠ []) :
    Tracked first names (afterResponses scan s rs) := by
  induction rs generalizing s with
  | nil => exact hs
  | cons r rs ih =>
    rw [afterResponses_cons]
    refine ih ?_ (fun x hx => hrs x (List.mem_cons_of_mem r hx))
      (fun x hx => hlists x (List.mem_cons_of_mem r hx))
    exact tracked_handle hcard hs (hrs r List.mem_cons_self) (hlists r List.mem_cons_self)

end Capacity

/-- A call to a flagged tool is denied. -/
theorem deniedBeforePolicies_of_flagged {strict : Bool} {flagged : Finset String} {name : String}
    (h : name ∈ flagged) : (deniedBeforePolicies strict flagged name).isSome := by
  rw [deniedBeforePolicies]
  split
  · rfl
  · rfl

/-- **Rug pulls are flagged.**  Let every response before `r` list a tool with a name.  Then each tool
    that `r` lists, and that the first response did not list last with the same annotations and
    schema hash, is flagged after `r` and after all further responses, and calls to it are denied. -/
theorem rug_pull_flagged (scan : Scanners) (initial : Finset String) (first : ListResponse)
    (pre : List ListResponse) (r : ListResponse) (post : List ListResponse)
    (hcap : WithinCapacity scan initial (first :: pre ++ [r]))
    (hlists : ∀ x ∈ first :: pre, listedTools scan x.response ≠ [])
    (l : ListedTool) (hl : l ∈ listedTools scan r.response)
    (hpulled : lastListed (listedTools scan first.response) l.name ≠ some l.annotations) :
    l.name ∈ (afterResponses scan (ToolState.new initial) (first :: pre ++ r :: post)).flagged ∧
    ∀ strict, (deniedBeforePolicies strict
      (afterResponses scan (ToolState.new initial) (first :: pre ++ r :: post)).flagged
      l.name).isSome := by
  have hnames : ∀ x ∈ first :: pre ++ [r], ∀ n ∈ namesOf scan x,
      n ∈ initial ∪ ((first :: pre ++ [r]).flatMap (namesOf scan)).toFinset := fun x hx n hn =>
    Finset.mem_union_right _ (List.mem_toFinset.mpr (List.mem_flatMap.mpr ⟨x, hx, hn⟩))
  have hfirst := tracked_first hcap Finset.subset_union_left
    (hnames first (by simp)) (hlists first List.mem_cons_self)
  have hpre := tracked_afterResponses hcap hfirst (fun x hx => hnames x (by simp [hx]))
    fun x hx => hlists x (List.mem_cons_of_mem first hx)
  have hflagged := listed_flagged hcap hpre (hnames r (by simp)) hl hpulled
  have hstays : l.name ∈
      (afterResponses scan (ToolState.new initial) (first :: pre ++ r :: post)).flagged := by
    rw [List.cons_append, afterResponses_cons, afterResponses_append, afterResponses_cons]
    exact flagged_subset_afterResponses scan _ post hflagged
  exact ⟨hstays, fun strict => deniedBeforePolicies_of_flagged hstays⟩

/-! ## An empty list in between -/

/-- Scanners that find nothing; the hash of a schema is its text. -/
def quietScanners : Scanners where
  ext := plainExternals
  canonicalSchemaHash := fun schema => .ok (plainJsonText schema)
  detectSquatting := fun _ => []
  scanToolDescriptions := fun _ => []

/-- A response that lists tools with these names and read-only hints. -/
def toolsList (tools : List (String × Bool)) : ListResponse where
  response := .object [("result", .object [("tools", .array (tools.map fun t =>
    .object [("annotations", .object [("readOnlyHint", .bool t.2)]), ("name", .string t.1)]))])]
  laterFlags := []

theorem rug_pull_flagged_write :
    "b" ∈ (afterResponses quietScanners (ToolState.new ∅)
      [toolsList [("a", true), ("b", true)], toolsList [("a", true)],
        toolsList [("a", true), ("b", false)], toolsList []]).flagged :=
  (rug_pull_flagged quietScanners ∅ (toolsList [("a", true), ("b", true)])
    [toolsList [("a", true)]] (toolsList [("a", true), ("b", false)]) [toolsList []]
    (by decide +kernel) (by decide +kernel) ⟨"b", ⟨false, true, false, true, none⟩, false⟩
    (by decide +kernel) (by decide +kernel)).1

/-- After an empty list a tool that the first response did not list is not flagged, and a call to it
    is not denied as a rug pull. -/
theorem new_tool_unflagged_after_empty_list :
    (∀ x ∈ [toolsList [("a", true)], toolsList [], toolsList [("b", false)]],
      (responseTools x.response).isSome) ∧
    WithinCapacity quietScanners ∅
      [toolsList [("a", true)], toolsList [], toolsList [("b", false)]] ∧
    (⟨"b", ⟨false, true, false, true, none⟩, false⟩ : ListedTool) ∈
      listedTools quietScanners (toolsList [("b", false)]).response ∧
    lastListed (listedTools quietScanners (toolsList [("a", true)]).response) "b" = none ∧
    "b" ∉ (afterResponses quietScanners (ToolState.new ∅)
      [toolsList [("a", true)], toolsList [], toolsList [("b", false)]]).flagged ∧
    deniedBeforePolicies true (afterResponses quietScanners (ToolState.new ∅)
      [toolsList [("a", true)], toolsList [], toolsList [("b", false)]]).flagged "b" = none := by
  decide +kernel

end Vellaveto.RugPull
