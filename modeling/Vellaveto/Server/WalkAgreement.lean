/-
  TWO WALKS OVER THE ARGUMENTS (`extract_targets_from_params` of `vellaveto-mcp/src/extractor.rs` and
  `scan_params_for_targets` of `vellaveto-server/src/routes/main.rs`).

  PROGRAM.      The proxy and the server walk the arguments of a call in the same order, with the same limits.
                What they take from a string was patched in one of them and not in the other: the server
                reads a domain from every scheme, takes a remote `file://` host for a domain, asks for a
                boundary behind `localhost`, decodes paths and ends an authority at a backslash.

  SPEC.         Both walks, started on empty lists, find the same targets.

  CORRECTNESS.
    1. `extractFromString_eq`, `scanString_eq`   a string adds at most one target, by a rule of each walk;
    2. `mcpTarget_eq_iff`                        the rules agree exactly on the strings of `SameReading`;
    3. `extractTargetsInner_eq`                  the walks agree if they look at such strings only;
    4. `walks_agree`                             the two, put together.
-/
import Vellaveto.Engine.UrlAuthority
import Vellaveto.Lib.Cuts
import Vellaveto.Server.ParamScan

namespace Vellaveto.Server

open Vellaveto.Lib
open Vellaveto.Domain
open Vellaveto.Extractor (Targets stripQueryAndFragment withinLimits hostOf filePathOf addFileTarget
  addHttpTarget addRelativeTarget extractFromString extractTargetsInner extractItems extractMembers
  extractTargetsFromParams)

/-! ### One string, one target -/

/-- What a string can stand for. -/
inductive Target where
  | path (path : List Char)
  | domain (domain : String)
deriving DecidableEq

/-- Add what a string stands for. -/
def addTarget (t : Targets) : Option Target → Targets
  | none => t
  | some (.path path) => { t with paths := t.paths ++ [String.ofList path] }
  | some (.domain domain) => t.pushDomain domain

theorem addTarget_inj {t : Targets} {x y : Option Target} (h : addTarget t x = addTarget t y) : x = y := by
  have hpaths := congrArg Targets.paths h
  have hdomains := congrArg Targets.domains h
  -- the lengths tell the three kinds apart, the last entry the targets of one kind
  match x, y with
  | none, none => rfl
  | none, some (.path p) => simp [addTarget] at hpaths
  | none, some (.domain d) => simp [addTarget, Targets.pushDomain] at hdomains
  | some (.path p), none => simp [addTarget] at hpaths
  | some (.domain d), none => simp [addTarget, Targets.pushDomain] at hdomains
  | some (.path p), some (.domain d) => simp [addTarget, Targets.pushDomain] at hpaths
  | some (.domain d), some (.path p) => simp [addTarget, Targets.pushDomain] at hpaths
  | some (.path p), some (.path q) =>
    have hlast := List.singleton_inj.mp (List.append_cancel_left hpaths)
    rw [String.ofList_injective hlast]
  | some (.domain d), some (.domain e) =>
    have hlast := List.singleton_inj.mp (List.append_cancel_left hdomains)
    rw [hlast]

section Rules

variable (ext : Externals)

/-- The path that is read from the text of a file. -/
def readPath (path : List Char) : Option (List Char) :=
  if (stripQueryAndFragment path).isEmpty then none else percentDecodeUtf8 (stripQueryAndFragment path)

/-- The domain that is read from the text of an authority. -/
def readDomain (authority : List Char) : Option String :=
  (percentDecodeUtf8 authority).bind fun decoded =>
    if (hostOf decoded).isEmpty then none else some (ext.toLowercase (String.ofList (hostOf decoded)))

/-- A string that is taken for an absolute path. -/
def IsAbsolute (cs : List Char) : Prop := cs.head? = some '/' ∧ ¬cs.contains ' '

instance (cs : List Char) : Decidable (IsAbsolute cs) := inferInstanceAs (Decidable (_ ∧ _))

/-- The path of a string without a scheme, for the proxy: as it stands. -/
def rawPath (cs : List Char) : Option (List Char) :=
  if (stripQueryAndFragment cs).isEmpty then none
  else if IsAbsolute cs then some (stripQueryAndFragment cs)
  else if Extractor.looksLikeRelativePath cs then some ('/' :: stripQueryAndFragment cs)
  else none

/-- The path of a string without a scheme, for the server: decoded. -/
def decodedPath (cs : List Char) : Option (List Char) :=
  if (stripQueryAndFragment cs).isEmpty then none
  else if IsAbsolute cs then percentDecodeUtf8 (stripQueryAndFragment cs)
  else if looksLikeRelativePath cs then (percentDecodeUtf8 (stripQueryAndFragment cs)).map ('/' :: ·)
  else none

/-- `http://` or `https://`. -/
def isHttp (lower : List Char) : Bool :=
  "http://".toList.isPrefixOf lower || "https://".toList.isPrefixOf lower

/-- The domain of an HTTP URL, for the proxy. -/
def mcpDomain (cs : List Char) : Option String :=
  (afterScheme cs).bind fun authority => readDomain ext (beforeFirst '/' authority)

/-- The domain of a URL, for the server. -/
def serverDomain (cs scheme : List Char) : Option String :=
  if isDomainScheme scheme then
    (byteSuffix cs ((String.ofList scheme).utf8ByteSize + 3)).bind fun authority =>
      readDomain ext (beforeFirst '/' (backslashesToSlashes authority))
  else none

/-- `file://localhost` with a boundary behind it. -/
def isLocal (lowerAfterScheme : List Char) : Prop :=
  lowerAfterScheme = "localhost".toList ∨ "localhost/".toList.isPrefixOf lowerAfterScheme

instance (cs : List Char) : Decidable (isLocal cs) := inferInstanceAs (Decidable (_ ∨ _))

/-- The target of a `file://` URI, for the server. -/
def serverFile (cs lowerAfterScheme : List Char) : Option (Option Target) :=
  (byteSuffix cs 7).bind fun afterScheme =>
    if isLocal lowerAfterScheme then
      (byteSuffix afterScheme 9).map fun path => (readPath path).map Target.path
    else if afterScheme.head? = some '/' then some ((readPath afterScheme).map Target.path)
    else if afterScheme.contains '/' then
      some (some (.domain (ext.toLowercase (String.ofList (beforeFirst '/' afterScheme)))))
    else some none

/-- **The rule of the proxy** for a string; `none` for a panic. -/
def mcpTarget (s : String) : Option (Option Target) :=
  match stripPrefix "file://".toList (ext.toLowercase s).toList with
  | some lowerAfterScheme =>
    (filePathOf s.toList lowerAfterScheme).map fun path => (readPath path).map Target.path
  | none =>
    if isHttp (ext.toLowercase s).toList then some ((mcpDomain ext s.toList).map Target.domain)
    else some ((rawPath s.toList).map Target.path)

/-- **The rule of the server** for a string. -/
def serverTarget (s : String) : Option (Option Target) :=
  match stripPrefix "file://".toList (ext.toLowercase s).toList with
  | some lowerAfterScheme => serverFile ext s.toList lowerAfterScheme
  | none =>
    match findScheme (ext.toLowercase s).toList with
    | some scheme => some ((serverDomain ext s.toList scheme).map Target.domain)
    | none => some ((decodedPath s.toList).map Target.path)

/-! ### The rules are those of the walks -/

variable {ext}

theorem percentDecodeUtf8_isEmpty {cs decoded : List Char} (h : percentDecodeUtf8 cs = some decoded) :
    decoded.isEmpty = cs.isEmpty := by
  cases cs with
  | nil =>
    cases h
    rfl
  | cons c cs =>
    cases decoded with
    | nil => exact absurd (percentDecodeUtf8_eq_nil_iff.mp h) (List.cons_ne_nil c cs)
    | cons d decoded => rfl

/-- Both walks read the path of a file in the same way. -/
theorem pushPath_decoded (path : List Char) (t : Targets) :
    (match percentDecodeUtf8 (stripQueryAndFragment path) with
      | some decoded => t.pushPath decoded
      | none => t) = addTarget t ((readPath path).map Target.path) := by
  unfold readPath
  cases hdecoded : percentDecodeUtf8 (stripQueryAndFragment path) with
  | none =>
    dsimp only
    split <;> rfl
  | some decoded =>
    show t.pushPath decoded = _
    rw [Targets.pushPath, percentDecodeUtf8_isEmpty hdecoded]
    split <;> rfl

theorem addDecodedPath_eq (front path : List Char) (t : Targets) :
    addDecodedPath front path t = addTarget t ((readPath path).map fun decoded => .path (front ++ decoded)) := by
  unfold addDecodedPath readPath
  dsimp only
  split
  · rfl
  · cases percentDecodeUtf8 (stripQueryAndFragment path) with
    | none => rfl
    | some decoded => rfl

theorem push_readDomain (authority : List Char) (t : Targets) :
    (match percentDecodeUtf8 authority with
      | some decoded =>
        if (hostOf decoded).isEmpty then t
        else t.pushDomain (ext.toLowercase (String.ofList (hostOf decoded)))
      | none => t) = addTarget t ((readDomain ext authority).map Target.domain) := by
  unfold readDomain
  cases percentDecodeUtf8 authority with
  | none => rfl
  | some decoded =>
    show (if (hostOf decoded).isEmpty then t else _) = addTarget t (Option.map _ (if _ then _ else _))
    split <;> rfl

/-- **A string adds the target of its rule** to what the proxy has found. -/
theorem extractFromString_eq (s : String) (t : Targets) :
    extractFromString ext s t = (mcpTarget ext s).map (addTarget t) := by
  unfold extractFromString mcpTarget
  dsimp only
  cases stripPrefix "file://".toList (ext.toLowercase s).toList with
  | some lowerAfterScheme =>
    show (filePathOf _ _).map _ = ((filePathOf _ _).map _).map _
    rw [Option.map_map]
    exact congrArg (Option.map · _) (funext fun path => pushPath_decoded path t)
  | none =>
    show (if isHttp _ = true then _ else _) = Option.map _ (if isHttp _ = true then _ else _)
    split
    · refine congrArg some ?_
      unfold addHttpTarget mcpDomain
      cases afterScheme s.toList with
      | none => rfl
      | some authority => exact push_readDomain _ t
    · show (if IsAbsolute _ then _ else _) = some (addTarget t ((rawPath _).map _))
      unfold rawPath Targets.pushPath addRelativeTarget
      dsimp only
      split
      · split <;> rfl
      · split
        · split
          · rfl
          · rfl
        · split <;> rfl

theorem scanFile_eq (cs lowerAfterScheme : List Char) (t : Targets) :
    scanFile ext cs lowerAfterScheme t = (serverFile ext cs lowerAfterScheme).map (addTarget t) := by
  unfold scanFile serverFile
  cases byteSuffix cs 7 with
  | none => rfl
  | some after =>
    show (if isLocal _ then _ else _) = Option.map _ (if isLocal _ then _ else _)
    split
    · cases byteSuffix after 9 with
      | none => rfl
      | some path => exact congrArg some (addDecodedPath_eq [] path t)
    · split
      · exact congrArg some (addDecodedPath_eq [] after t)
      · rename_i hslash
        split
        · have hhost : (beforeFirst '/' after).isEmpty = false := by
            cases after with
            | nil => contradiction
            | cons c after =>
              rw [beforeFirst_cons_of_ne fun heq => hslash (by rw [heq]; rfl)]
              rfl
          dsimp only
          rw [hhost]
          rfl
        · rfl

theorem scanUrl_eq (cs scheme : List Char) (t : Targets) :
    scanUrl ext cs scheme t = addTarget t ((serverDomain ext cs scheme).map Target.domain) := by
  unfold scanUrl serverDomain
  cases isDomainScheme scheme with
  | false => rfl
  | true =>
    rw [if_neg (by decide), if_pos rfl]
    cases byteSuffix cs ((String.ofList scheme).utf8ByteSize + 3) with
    | none => rfl
    | some authority => exact push_readDomain _ t

/-- The branch of the server for strings without a scheme. -/
theorem addDecodedPath_decodedPath (cs : List Char) (t : Targets) :
    (if IsAbsolute cs then some (addDecodedPath [] cs t)
      else if looksLikeRelativePath cs then some (addDecodedPath ['/'] cs t) else some t) =
      some (addTarget t ((decodedPath cs).map Target.path)) := by
  rw [addDecodedPath_eq, addDecodedPath_eq]
  unfold decodedPath readPath
  split
  · split
    · rfl
    · cases percentDecodeUtf8 (stripQueryAndFragment cs) with
      | none => rfl
      | some decoded => rfl
  · split
    · split
      · rfl
      · cases percentDecodeUtf8 (stripQueryAndFragment cs) with
        | none => rfl
        | some decoded => rfl
    · split <;> rfl

/-- A string adds the target of its rule to what the server has found. -/
theorem scanString_eq (s : String) (t : Targets) :
    scanString ext s t = (serverTarget ext s).map (addTarget t) := by
  unfold scanString serverTarget
  dsimp only
  cases stripPrefix "file://".toList (ext.toLowercase s).toList with
  | some lowerAfterScheme => exact scanFile_eq s.toList lowerAfterScheme t
  | none =>
    dsimp only
    cases findScheme (ext.toLowercase s).toList with
    | some scheme => exact congrArg some (scanUrl_eq s.toList scheme t)
    | none => exact addDecodedPath_decodedPath s.toList t

/-! ### Where the rules agree -/

/-- The text says the same when it is decoded. -/
def Undecoded (cs : List Char) : Prop := percentDecodeUtf8 cs = some cs

instance (cs : List Char) : Decidable (Undecoded cs) := inferInstanceAs (Decidable (_ = _))

/-- Strings without a scheme: nothing to decode in a path, and what looks like a relative path looks so before
    it is decoded, with slashes for slashes. -/
def SamePath (cs : List Char) : Prop :=
  stripQueryAndFragment cs = [] ∨
    if IsAbsolute cs then Undecoded (stripQueryAndFragment cs)
    else
      (Extractor.looksLikeRelativePath cs = false ∧ looksLikeRelativePath cs = false) ∨
        (Extractor.looksLikeRelativePath cs = true ∧ looksLikeRelativePath cs = true ∧
          Undecoded (stripQueryAndFragment cs))

/-- Strings that the proxy does not take for a path. -/
def NoPath (cs : List Char) : Prop :=
  stripQueryAndFragment cs = [] ∨ (¬IsAbsolute cs ∧ Extractor.looksLikeRelativePath cs = false)

/-- `file://` URIs: of this host.  With another host, or a name that begins with `localhost`, both walks find
    nothing only if no path follows. -/
def SameFile (cs lowerAfterScheme : List Char) : Prop :=
  ∀ afterScheme ∈ byteSuffix cs 7,
    isLocal lowerAfterScheme ∨
      if "localhost".toList.isPrefixOf lowerAfterScheme then
        ∃ rest ∈ byteSuffix afterScheme 9,
          if afterScheme.head? = some '/' then readPath rest = readPath afterScheme
          else '/' ∉ afterScheme ∧ readPath rest = none
      else afterScheme.head? = some '/' ∨ '/' ∉ afterScheme

/-- **The strings that both walks read in the same way.**  An HTTP URL must have the same host whether or not a
    backslash ends its authority, and any other scheme must name no domain and be no path. -/
def SameReading (ext : Externals) (s : String) : Prop :=
  match stripPrefix "file://".toList (ext.toLowercase s).toList with
  | some lowerAfterScheme => SameFile s.toList lowerAfterScheme
  | none =>
    match findScheme (ext.toLowercase s).toList with
    | some scheme =>
      if isHttp (ext.toLowercase s).toList then mcpDomain ext s.toList = serverDomain ext s.toList scheme
      else serverDomain ext s.toList scheme = none ∧ NoPath s.toList
    | none => SamePath s.toList

theorem isPrefixOf_localhost {lowerAfterScheme : List Char} (h : isLocal lowerAfterScheme) :
    "localhost".toList.isPrefixOf lowerAfterScheme = true := by
  rw [List.isPrefixOf_iff_prefix]
  rcases h with rfl | h
  · exact List.prefix_refl _
  · have hslash : "localhost".toList <+: "localhost/".toList := ⟨['/'], rfl⟩
    exact hslash.trans (List.isPrefixOf_iff_prefix.mp h)

theorem file_eq_iff (cs lowerAfterScheme : List Char) :
    ((filePathOf cs lowerAfterScheme).map fun path => (readPath path).map Target.path) =
        serverFile ext cs lowerAfterScheme ↔
      SameFile cs lowerAfterScheme := by
  have hpath : ∀ x y : Option (List Char), x.map Target.path = y.map Target.path ↔ x = y := fun x y =>
    (Option.map_injective fun _ _ h => Target.path.inj h).eq_iff
  have hprefixed := @isPrefixOf_localhost lowerAfterScheme
  unfold filePathOf serverFile SameFile
  generalize "localhost".toList.isPrefixOf lowerAfterScheme = prefixed at hprefixed ⊢
  cases byteSuffix cs 7 with
  | none => exact ⟨fun _ _ hmem => (by cases hmem), fun _ => rfl⟩
  | some after =>
    simp only [Option.bind_eq_bind, Option.bind_some, Option.mem_some_iff, forall_eq']
    by_cases hlocal : isLocal lowerAfterScheme
    · rw [if_pos (hprefixed hlocal), if_pos hlocal]
      exact ⟨fun _ => Or.inl hlocal, fun _ => rfl⟩
    · rw [if_neg hlocal, or_iff_right hlocal]
      split
      · cases hrest : byteSuffix after 9 with
        | none =>
          split <;> simp
          split <;> simp
        | some rest =>
          simp only [Option.map_some, Option.mem_some_iff, exists_eq_left']
          split
          · rw [Option.some_inj, hpath]
          · by_cases hslash : '/' ∈ after
            · simp [hslash]
            · simp [hslash]
      · by_cases hhead : after.head? = some '/'
        · simp [hhead]
        · rw [if_neg hhead, if_neg hhead]
          by_cases hslash : '/' ∈ after
          · simp [hslash, hhead]
          · have hnone : after.dropWhile (fun c => decide (c ≠ '/')) = [] := by
              refine List.dropWhile_eq_nil_iff.mpr fun c hc => ?_
              exact decide_eq_true fun heq => hslash (heq ▸ hc)
            rw [hnone]
            simp [hslash, readPath, stripQueryAndFragment]

theorem rawPath_eq_none_iff (cs : List Char) : rawPath cs = none ↔ NoPath cs := by
  unfold rawPath NoPath
  split
  · rename_i hempty
    simp [List.isEmpty_iff.mp hempty]
  · rename_i hempty
    have hne : ¬stripQueryAndFragment cs = [] := fun h => hempty (List.isEmpty_iff.mpr h)
    rw [or_iff_right hne]
    split
    · rename_i habs
      simp [habs]
    · rename_i habs
      cases Extractor.looksLikeRelativePath cs <;> simp [habs]

/-- The server decodes a string before it takes it for a relative path. -/
theorem isSome_decode_of_relative {cs : List Char} (h : looksLikeRelativePath cs = true) :
    (percentDecodeUtf8 (stripQueryAndFragment cs)).isSome := by
  have hwhole : (percentDecodeUtf8 cs).isSome := by
    unfold looksLikeRelativePath at h
    split at h
    · cases h
    · cases hdecoded : percentDecodeUtf8 cs with
      | none =>
        rw [hdecoded] at h
        cases h
      | some decoded => rfl
  have hquery : (percentDecodeUtf8 (beforeFirst '?' cs)).isSome :=
    isSome_percentDecodeUtf8_beforeFirst (b := 0x3F) rfl (by decide) rfl (by decide) hwhole
  exact isSome_percentDecodeUtf8_beforeFirst (b := 0x23) rfl (by decide) rfl (by decide) hquery

theorem rawPath_eq_decodedPath_iff (cs : List Char) : rawPath cs = decodedPath cs ↔ SamePath cs := by
  unfold rawPath decodedPath SamePath
  by_cases hclean : stripQueryAndFragment cs = []
  · simp [hclean]
  · have hempty : ¬(stripQueryAndFragment cs).isEmpty = true := fun h => hclean (List.isEmpty_iff.mp h)
    rw [if_neg hempty, if_neg hempty, or_iff_right hclean]
    split
    · exact eq_comm
    · rename_i habs
      cases hserver : looksLikeRelativePath cs with
      | false => cases Extractor.looksLikeRelativePath cs <;> simp
      | true =>
        -- the server decodes the whole string before it calls it a relative path
        obtain ⟨decoded, hdecoded⟩ := Option.isSome_iff_exists.mp (isSome_decode_of_relative hserver)
        rw [hdecoded]
        cases Extractor.looksLikeRelativePath cs with
        | false => simp
        | true => simp [Undecoded, hdecoded, eq_comm]

/-- An HTTP URL has a scheme. -/
theorem findScheme_of_isHttp {lower : List Char} (h : isHttp lower = true) : findScheme lower ≠ none := by
  have hinfix : separator <:+: lower := by
    rcases Bool.or_eq_true_iff.mp h with h | h
    · obtain ⟨rest, rfl⟩ := List.isPrefixOf_iff_prefix.mp h
      exact ⟨"http".toList, rest, rfl⟩
    · obtain ⟨rest, rfl⟩ := List.isPrefixOf_iff_prefix.mp h
      exact ⟨"https".toList, rest, rfl⟩
  intro hnone
  exact afterScheme_eq_none_iff.mp (Option.map_eq_none_iff.mp hnone) hinfix

/-- **The rules agree** on these strings and on no others. -/
theorem mcpTarget_eq_iff (s : String) : mcpTarget ext s = serverTarget ext s ↔ SameReading ext s := by
  unfold mcpTarget serverTarget SameReading
  cases stripPrefix "file://".toList (ext.toLowercase s).toList with
  | some lowerAfterScheme => exact file_eq_iff s.toList lowerAfterScheme
  | none =>
    dsimp only
    cases hscheme : findScheme (ext.toLowercase s).toList with
    | none =>
      have hhttp : ¬isHttp (ext.toLowercase s).toList = true := fun h => findScheme_of_isHttp h hscheme
      rw [if_neg hhttp, Option.some_inj]
      dsimp only
      rw [(Option.map_injective fun _ _ h => Target.path.inj h).eq_iff]
      exact rawPath_eq_decodedPath_iff s.toList
    | some scheme =>
      dsimp only
      split
      · rw [Option.some_inj, (Option.map_injective fun _ _ h => Target.domain.inj h).eq_iff]
      · rw [← rawPath_eq_none_iff, Option.some_inj]
        cases rawPath s.toList <;> cases serverDomain ext s.toList scheme <;> simp

end Rules

/-! ### The walks -/

section Walks

variable (ext : Externals)

mutual

/-- The strings that the walk of the proxy looks at: above the depth limit, and before 256 targets are found. -/
def lookedAt (depth : Nat) : Json → Targets → List String
  | .string s, t => if withinLimits depth t then [s] else []
  | .object members, t => if withinLimits depth t then lookedAtMembers (depth + 1) members t else []
  | .array items, t => if withinLimits depth t then lookedAtItems (depth + 1) items t else []
  | .null, _ => []
  | .bool _, _ => []
  | .number _, _ => []

def lookedAtItems (depth : Nat) : List Json → Targets → List String
  | [], _ => []
  | x :: xs, t => lookedAt depth x t ++ ((extractTargetsInner ext depth x t).map (lookedAtItems depth xs)).getD []

def lookedAtMembers (depth : Nat) : List (String × Json) → Targets → List String
  | [], _ => []
  | (_, x) :: ms, t =>
    lookedAt depth x t ++ ((extractTargetsInner ext depth x t).map (lookedAtMembers depth ms)).getD []

end

variable {ext}

/-- One string: the targets are the same exactly if it is read in the same way. -/
theorem extractFromString_eq_iff (s : String) (t : Targets) :
    extractFromString ext s t = scanString ext s t ↔ SameReading ext s := by
  rw [extractFromString_eq, scanString_eq, ← mcpTarget_eq_iff]
  exact (Option.map_injective fun _ _ h => addTarget_inj h).eq_iff

mutual

/-- **The walks agree** where they look at strings that are read in the same way.  The induction is over the
    value; the targets found so far are the same for both walks at every step, so both are stopped by the
    limits at the same place. -/
theorem extractTargetsInner_eq {depth : Nat} : (value : Json) → (t : Targets) →
    (∀ s ∈ lookedAt ext depth value t, SameReading ext s) →
    extractTargetsInner ext depth value t = scanParamsForTargetsInner ext depth value t
  | .string s, t, h => by
    rw [lookedAt] at h
    rw [extractTargetsInner, scanParamsForTargetsInner]
    split
    · rename_i hlimits
      rw [if_pos hlimits] at h
      exact (extractFromString_eq_iff s t).mpr (h s List.mem_cons_self)
    · rfl
  | .object members, t, h => by
    rw [lookedAt] at h
    rw [extractTargetsInner, scanParamsForTargetsInner]
    split
    · rename_i hlimits
      rw [if_pos hlimits] at h
      exact extractMembers_eq members t h
    · rfl
  | .array items, t, h => by
    rw [lookedAt] at h
    rw [extractTargetsInner, scanParamsForTargetsInner]
    split
    · rename_i hlimits
      rw [if_pos hlimits] at h
      exact extractItems_eq items t h
    · rfl
  | .null, _, _ => rfl
  | .bool _, _, _ => rfl
  | .number _, _, _ => rfl

theorem extractItems_eq {depth : Nat} : (items : List Json) → (t : Targets) →
    (∀ s ∈ lookedAtItems ext depth items t, SameReading ext s) →
    extractItems ext depth items t = scanItems ext depth items t
  | [], _, _ => rfl
  | x :: xs, t, h => by
    rw [lookedAtItems, List.forall_mem_append] at h
    rw [extractItems, scanItems, ← extractTargetsInner_eq x t h.1]
    cases hx : extractTargetsInner ext depth x t with
    | none => rfl
    | some u =>
      have hrest := h.2
      rw [hx] at hrest
      exact extractItems_eq xs u hrest

theorem extractMembers_eq {depth : Nat} : (members : List (String × Json)) → (t : Targets) →
    (∀ s ∈ lookedAtMembers ext depth members t, SameReading ext s) →
    extractMembers ext depth members t = scanMembers ext depth members t
  | [], _, _ => rfl
  | (_, x) :: ms, t, h => by
    rw [lookedAtMembers, List.forall_mem_append] at h
    rw [extractMembers, scanMembers, ← extractTargetsInner_eq x t h.1]
    cases hx : extractTargetsInner ext depth x t with
    | none => rfl
    | some u =>
      have hrest := h.2
      rw [hx] at hrest
      exact extractMembers_eq ms u hrest

end

end Walks

/-- **The proxy and the server find the same targets**: for all arguments in which the walk looks at strings
    only that both read in the same way, and for one string exactly if it is such a one, by itself or as
    the one argument of a call. -/
theorem walks_agree (ext : Externals) :
    (∀ value, (∀ s ∈ lookedAt ext 0 value ⟨[], []⟩, SameReading ext s) →
      extractTargetsFromParams ext value ⟨[], []⟩ = scanParamsForTargets ext value ⟨[], []⟩) ∧
    (∀ s, extractTargetsFromParams ext (.string s) ⟨[], []⟩ =
      scanParamsForTargets ext (.string s) ⟨[], []⟩ ↔ SameReading ext s) ∧
    (∀ key s, extractTargetsFromParams ext (.object [(key, .string s)]) ⟨[], []⟩ =
      scanParamsForTargets ext (.object [(key, .string s)]) ⟨[], []⟩ ↔ SameReading ext s) := by
  have hlimits : ∀ depth < 2, withinLimits depth ⟨[], []⟩ = true := by decide
  have hmcp : ∀ depth < 2, ∀ s, extractTargetsInner ext depth (.string s) ⟨[], []⟩ =
      extractFromString ext s ⟨[], []⟩ := fun depth hdepth s => by
    rw [extractTargetsInner, if_pos (hlimits depth hdepth)]
  have hserver : ∀ depth < 2, ∀ s, scanParamsForTargetsInner ext depth (.string s) ⟨[], []⟩ =
      scanString ext s ⟨[], []⟩ := fun depth hdepth s => by
    rw [scanParamsForTargetsInner, if_pos (hlimits depth hdepth)]
  refine ⟨fun value h => extractTargetsInner_eq value _ h, ?_, ?_⟩
  · intro s
    rw [extractTargetsFromParams, scanParamsForTargets, hmcp 0 (by decide), hserver 0 (by decide)]
    exact extractFromString_eq_iff s ⟨[], []⟩
  · intro key s
    rw [extractTargetsFromParams, scanParamsForTargets, extractTargetsInner, scanParamsForTargetsInner,
      if_pos (hlimits 0 (by decide)), if_pos (hlimits 0 (by decide)), extractMembers, scanMembers,
      hmcp 1 (by decide), hserver 1 (by decide)]
    -- nothing follows the one member
    have hlast : ∀ x : Option Targets, (x >>= fun t => extractMembers ext 1 [] t) = x ∧
        (x >>= fun t => scanMembers ext 1 [] t) = x := by
      intro x
      cases x <;> exact ⟨rfl, rfl⟩
    rw [(hlast _).1, (hlast _).2]
    exact extractFromString_eq_iff s ⟨[], []⟩

/-- A call with a path, a URL and a local file. -/
def plainCall : Json :=
  .object [("path", .string "/etc/hosts"), ("uris", .array [.string "file://localhost/a%20b",
    .string "https://user@Example.com:8080/x"]), ("note", .string "see ../x for more")]

/-- All four strings are read in the same way. -/
theorem walks_agree_plainCall :
    extractTargetsFromParams plainExternals plainCall ⟨[], []⟩ =
      scanParamsForTargets plainExternals plainCall ⟨[], []⟩ ∧
    scanParamsForTargets plainExternals plainCall ⟨[], []⟩ =
      some ⟨["/etc/hosts", "/a b"], ["example.com"]⟩ := by
  refine ⟨(walks_agree plainExternals).1 plainCall ?_, by decide +kernel⟩
  have hlooked : lookedAt plainExternals 0 plainCall ⟨[], []⟩ =
      ["/etc/hosts", "file://localhost/a%20b", "https://user@Example.com:8080/x", "see ../x for more"] := by
    decide +kernel
  rw [hlooked]
  intro s hs
  refine (mcpTarget_eq_iff s).mp ?_
  simp only [List.mem_cons, List.not_mem_nil, or_false] at hs
  rcases hs with rfl | rfl | rfl | rfl
  · decide +kernel
  · decide +kernel
  · decide +kernel
  · decide +kernel

/-- The targets of a string for the proxy and for the server. -/
def bothTargets (s : String) : Option Targets × Option Targets :=
  (extractTargetsFromParams plainExternals (.string s) ⟨[], []⟩,
    scanParamsForTargets plainExternals (.string s) ⟨[], []⟩)

/-- **The walks differ**: on another scheme, a remote file, a name that begins with `localhost`, an encoded path
    and a backslash. -/
theorem walks_differ :
    bothTargets "ftp://evil.com/file" = (some ⟨[], []⟩, some ⟨[], ["evil.com"]⟩) ∧
    bothTargets "file://evil.com/tmp/x" = (some ⟨["/tmp/x"], []⟩, some ⟨[], ["evil.com"]⟩) ∧
    bothTargets "file://localhost.evil.com/x" =
      (some ⟨[".evil.com/x"], []⟩, some ⟨[], ["localhost.evil.com"]⟩) ∧
    bothTargets "/etc/%70asswd" = (some ⟨["/etc/%70asswd"], []⟩, some ⟨["/etc/passwd"], []⟩) ∧
    bothTargets "http://evil.com\\@safe.com/" = (some ⟨[], ["safe.com"]⟩, some ⟨[], ["evil.com"]⟩) ∧
    ¬ ∀ value, extractTargetsFromParams plainExternals value ⟨[], []⟩ =
      scanParamsForTargets plainExternals value ⟨[], []⟩ := by
  refine ⟨by decide +kernel, by decide +kernel, by decide +kernel, by decide +kernel, by decide +kernel, ?_⟩
  intro h
  have hftp := h (.string "ftp://evil.com/file")
  exact absurd hftp (by decide +kernel)

end Vellaveto.Server
