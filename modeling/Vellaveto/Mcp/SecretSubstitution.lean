/-
  SECRET SUBSTITUTION (`vellaveto-mcp/src/secret_substitution.rs`).

  PROGRAM.  Before the model sees the parameters of a tool call, every configured secret in their string values
  is replaced by its placeholder, entry after entry; before the call is made, the placeholders are replaced by
  the secrets, in the same order of entries.

  PER STRING.  An entry with parameter paths touches the strings at these paths, an entry without touches all.
  `substituteOutbound_eq` and `restoreInbound_eq`: both directions treat every string on its own, by the pairs
  of the entries that touch it (`pairsAt`).

  RESULT.  A global replacement can join with its surroundings, and object keys are not scanned.
  `secret_substitution_holds`: the parameters come back if no replacement joins (`JoinFree`), and only then if
  every string is touched at most once; a single secret is hidden exactly if it is in no key and covered in
  every string.
-/
import Vellaveto.Json
import Vellaveto.Lib.Masking
import Vellaveto.Lib.Text

namespace Vellaveto.SecretSubstitution

open Vellaveto.Lib Vellaveto.Lib.Masking

/-! ## The program -/

/-- `SecretSubstitution`, the configuration of one secret. -/
structure Config where
  name : String
  envVar : String
  placeholder : String
  toolPatterns : List String
  paramPaths : List String
deriving DecidableEq, Repr

/-- `ResolvedEntry`. -/
structure ResolvedEntry where
  config : Config
  secretValue : Option String
deriving DecidableEq, Repr

def maxSecretValueLen : Nat := 8192

/-- The entry of a configuration, with the variables of the environment. -/
def resolve (env : String → Option String) (config : Config) : ResolvedEntry :=
  ⟨config, (env config.envVar).filter fun v => !(v = "" || maxSecretValueLen < v.utf8ByteSize)⟩

/-- `SecretSubstitutionEngine::new`. -/
def newEngine (env : String → Option String) (configs : List Config) : List ResolvedEntry :=
  configs.map (resolve env)

/-- One pattern of `tool_matches`. -/
def patternMatches (toolName pattern : String) : Bool :=
  let cs := pattern.toList
  if pattern = "*" then true
  else if '*' ∈ cs then
    (beforeFirst '*' cs).isPrefixOf toolName.toList && ((cs.dropWhile (· ≠ '*')).drop 1).isSuffixOf toolName.toList
  else pattern = toolName

/-- `tool_matches`. -/
def toolMatches (patterns : List String) (toolName : String) : Bool :=
  patterns.isEmpty || patterns.any (patternMatches toolName)

/-- Replace in one string, if it contains what is looked for. -/
def replaceIn (find replace s : String) : String :=
  if containsInfix find.toList s.toList then String.ofList (replaceAll find.toList replace.toList s.toList) else s

mutual

/-- `replace_in_value`. -/
def replaceInValue (find replace : String) : Json → Json
  | .string s => .string (replaceIn find replace s)
  | .object ms => .object (replaceInMembers find replace ms)
  | .array xs => .array (replaceInItems find replace xs)
  | .null => .null
  | .bool b => .bool b
  | .number n => .number n

/-- The items of an array. -/
def replaceInItems (find replace : String) : List Json → List Json
  | [] => []
  | x :: xs => replaceInValue find replace x :: replaceInItems find replace xs

/-- The members of an object. -/
def replaceInMembers (find replace : String) : List (String × Json) → List (String × Json)
  | [] => []
  | (k, v) :: ms => (k, replaceInValue find replace v) :: replaceInMembers find replace ms

end

/-- The segments of a path, `split('.')`. -/
def segments (path : String) : List String := (path.toList.splitOn '.').map String.ofList

/-- Replace in the value that `get_param_by_path_mut` finds, if it is a string.  A map has one member of a key. -/
def replaceAtPath (find replace : String) : List String → Json → Json
  | [], .string s => .string (replaceIn find replace s)
  | [], v => v
  | segment :: path, .object ms =>
    .object (ms.map fun m => (m.1, if m.1 = segment then replaceAtPath find replace path m.2 else m.2))
  | _ :: _, v => v

/-- What one entry does, in either direction. -/
def replaceForEntry (config : Config) (find replace toolName : String) (params : Json) : Json :=
  if toolMatches config.toolPatterns toolName then
    if config.paramPaths.isEmpty then replaceInValue find replace params
    else config.paramPaths.foldl (fun params path => replaceAtPath find replace (segments path) params) params
  else params

/-- `substitute_outbound`. -/
def substituteOutbound (entries : List ResolvedEntry) (toolName : String) (params : Json) : Json :=
  entries.foldl (fun params entry =>
    match entry.secretValue with
    | some secret => replaceForEntry entry.config secret entry.config.placeholder toolName params
    | none => params) params

/-- `restore_inbound`. -/
def restoreInbound (entries : List ResolvedEntry) (toolName : String) (params : Json) : Json :=
  entries.foldl (fun params entry =>
    match entry.secretValue with
    | some secret => replaceForEntry entry.config entry.config.placeholder secret toolName params
    | none => params) params

/-! ## Strings of a value -/

/-- Where a string stands: below these keys, or below an array. -/
abbrev Address := Option (List String)

mutual

/-- Change every string, depending on where it stands. -/
def mapStrings (f : Address → String → String) (address : Address) : Json → Json
  | .string s => .string (f address s)
  | .object ms => .object (mapStringsMembers f address ms)
  | .array xs => .array (mapStringsItems f xs)
  | .null => .null
  | .bool b => .bool b
  | .number n => .number n

/-- Below an array. -/
def mapStringsItems (f : Address → String → String) : List Json → List Json
  | [] => []
  | x :: xs => mapStrings f none x :: mapStringsItems f xs

/-- Below the keys of an object. -/
def mapStringsMembers (f : Address → String → String) (address : Address) :
    List (String × Json) → List (String × Json)
  | [] => []
  | (k, v) :: ms => (k, mapStrings f (address.map (· ++ [k])) v) :: mapStringsMembers f address ms

end

mutual

/-- The strings with where they stand. -/
def strings (address : Address) : Json → List (Address × String)
  | .string s => [(address, s)]
  | .object ms => stringsMembers address ms
  | .array xs => stringsItems xs
  | .null => []
  | .bool _ => []
  | .number _ => []

/-- Below an array. -/
def stringsItems : List Json → List (Address × String)
  | [] => []
  | x :: xs => strings none x ++ stringsItems xs

/-- Below the keys of an object. -/
def stringsMembers (address : Address) : List (String × Json) → List (Address × String)
  | [] => []
  | (k, v) :: ms => strings (address.map (· ++ [k])) v ++ stringsMembers address ms

end

mutual

/-- The object keys, at every depth. -/
def keys : Json → List String
  | .object ms => keysMembers ms
  | .array xs => keysItems xs
  | .string _ => []
  | .null => []
  | .bool _ => []
  | .number _ => []

/-- The keys below an array. -/
def keysItems : List Json → List String
  | [] => []
  | x :: xs => keys x ++ keysItems xs

/-- The keys of an object and below them. -/
def keysMembers : List (String × Json) → List String
  | [] => []
  | (k, v) :: ms => k :: keys v ++ keysMembers ms

end

section Strings

variable {f g : Address → String → String} {address : Address}

theorem mapStringsItems_eq (xs : List Json) : mapStringsItems f xs = xs.map (mapStrings f none) := by
  induction xs with
  | nil => rw [mapStringsItems, List.map_nil]
  | cons x xs ih => rw [mapStringsItems, List.map_cons, ih]

theorem mapStringsMembers_eq (ms : List (String × Json)) :
    mapStringsMembers f address ms = ms.map fun m => (m.1, mapStrings f (address.map (· ++ [m.1])) m.2) := by
  induction ms with
  | nil => rw [mapStringsMembers, List.map_nil]
  | cons m ms ih => rw [mapStringsMembers, List.map_cons, ih]

theorem stringsItems_eq (xs : List Json) : stringsItems xs = xs.flatMap (strings none) := by
  induction xs with
  | nil => rw [stringsItems, List.flatMap_nil]
  | cons x xs ih => rw [stringsItems, List.flatMap_cons, ih]

theorem stringsMembers_eq (ms : List (String × Json)) :
    stringsMembers address ms = ms.flatMap fun m => strings (address.map (· ++ [m.1])) m.2 := by
  induction ms with
  | nil => rw [stringsMembers, List.flatMap_nil]
  | cons m ms ih => rw [stringsMembers, List.flatMap_cons, ih]

/-- **Two changes are the same** exactly if they agree on every string. -/
theorem mapStrings_eq_iff (v : Json) : mapStrings f address v = mapStrings g address v ↔
    ∀ s ∈ strings address v, f s.1 s.2 = g s.1 s.2 := by
  induction v using Json.inductionOn generalizing address with
  | null => simp [mapStrings, strings]
  | bool b => simp [mapStrings, strings]
  | number n => simp [mapStrings, strings]
  | string s => simp [mapStrings, strings]
  | array xs ih =>
    rw [mapStrings, mapStrings, strings, Json.array.injEq, mapStringsItems_eq, mapStringsItems_eq, stringsItems_eq,
      List.map_inj_left]
    constructor
    · intro h s hs
      obtain ⟨x, hx, hsx⟩ := List.mem_flatMap.mp hs
      exact (ih x hx).mp (h x hx) s hsx
    · intro h x hx
      exact (ih x hx).mpr fun s hs => h s (List.mem_flatMap.mpr ⟨x, hx, hs⟩)
  | object ms ih =>
    rw [mapStrings, mapStrings, strings, Json.object.injEq, mapStringsMembers_eq, mapStringsMembers_eq,
      stringsMembers_eq, List.map_inj_left]
    constructor
    · intro h s hs
      obtain ⟨m, hm, hsm⟩ := List.mem_flatMap.mp hs
      exact (ih m hm).mp (Prod.ext_iff.mp (h m hm)).2 s hsm
    · intro h m hm
      exact Prod.ext rfl ((ih m hm).mpr fun s hs => h s (List.mem_flatMap.mpr ⟨m, hm, hs⟩))

theorem mapStrings_id (address : Address) (v : Json) : mapStrings (fun _ s => s) address v = v := by
  induction v using Json.inductionOn generalizing address with
  | null => rfl
  | bool b => rfl
  | number n => rfl
  | string s => rfl
  | array xs ih =>
    rw [mapStrings, mapStringsItems_eq]
    refine congrArg Json.array ((List.map_congr_left fun x hx => ?_).trans (List.map_id xs))
    exact ih x hx none
  | object ms ih =>
    rw [mapStrings, mapStringsMembers_eq]
    refine congrArg Json.object ((List.map_congr_left fun m hm => ?_).trans (List.map_id ms))
    exact Prod.ext rfl (ih m hm _)

/-- One change after another. -/
theorem mapStrings_mapStrings (v : Json) :
    mapStrings g address (mapStrings f address v) = mapStrings (fun a s => g a (f a s)) address v := by
  induction v using Json.inductionOn generalizing address with
  | null => rfl
  | bool b => rfl
  | number n => rfl
  | string s => rfl
  | array xs ih =>
    simp only [mapStrings, mapStringsItems_eq, List.map_map]
    exact congrArg Json.array (List.map_congr_left fun x hx => ih x hx)
  | object ms ih =>
    simp only [mapStrings, mapStringsMembers_eq, List.map_map]
    exact congrArg Json.object (List.map_congr_left fun m hm => Prod.ext rfl (ih m hm))

/-- The strings after a change. -/
theorem strings_mapStrings (v : Json) :
    strings address (mapStrings f address v) = (strings address v).map fun s => (s.1, f s.1 s.2) := by
  induction v using Json.inductionOn generalizing address with
  | null => rfl
  | bool b => rfl
  | number n => rfl
  | string s => rfl
  | array xs ih =>
    simp only [mapStrings, strings, mapStringsItems_eq, stringsItems_eq, List.flatMap_map, List.map_flatMap]
    exact List.flatMap_congr fun x hx => ih x hx
  | object ms ih =>
    simp only [mapStrings, strings, mapStringsMembers_eq, stringsMembers_eq, List.flatMap_map, List.map_flatMap]
    exact List.flatMap_congr fun m hm => ih m hm

/-- A string below an address stands behind it, or below an array. -/
theorem address_of_mem (v : Json) {a : Address} {s : String} (h : (a, s) ∈ strings address v) :
    a = none ∨ ∃ path, a = address.map (· ++ path) := by
  induction v using Json.inductionOn generalizing address with
  | null => cases h
  | bool b => cases h
  | number n => cases h
  | string t =>
    rw [strings, List.mem_singleton, Prod.mk.injEq] at h
    refine Or.inr ⟨[], ?_⟩
    rw [h.1]
    cases address with
    | none => rfl
    | some base => rw [Option.map_some, List.append_nil]
  | array xs ih =>
    rw [strings, stringsItems_eq, List.mem_flatMap] at h
    obtain ⟨x, hx, h⟩ := h
    rcases ih x hx h with h | ⟨path, h⟩
    · exact Or.inl h
    · exact Or.inl h
  | object ms ih =>
    rw [strings, stringsMembers_eq, List.mem_flatMap] at h
    obtain ⟨m, hm, h⟩ := h
    rcases ih m hm h with h | ⟨path, h⟩
    · exact Or.inl h
    · refine Or.inr ⟨m.1 :: path, ?_⟩
      rw [h, Option.map_map]
      refine congrArg (Option.map · address) (funext fun base => ?_)
      show base ++ [m.1] ++ path = base ++ m.1 :: path
      rw [List.append_assoc, List.singleton_append]

theorem keysItems_eq (xs : List Json) : keysItems xs = xs.flatMap keys := by
  induction xs with
  | nil => rw [keysItems, List.flatMap_nil]
  | cons x xs ih => rw [keysItems, List.flatMap_cons, ih]

theorem keysMembers_eq (ms : List (String × Json)) : keysMembers ms = ms.flatMap fun m => m.1 :: keys m.2 := by
  induction ms with
  | nil => rw [keysMembers, List.flatMap_nil]
  | cons m ms ih => rw [keysMembers, List.flatMap_cons, ih, List.cons_append]

/-- A change of the strings leaves the keys. -/
theorem keys_mapStrings (v : Json) : keys (mapStrings f address v) = keys v := by
  induction v using Json.inductionOn generalizing address with
  | null => rfl
  | bool b => rfl
  | number n => rfl
  | string s => rfl
  | array xs ih =>
    simp only [mapStrings, keys, mapStringsItems_eq, keysItems_eq, List.flatMap_map]
    exact List.flatMap_congr fun x hx => ih x hx
  | object ms ih =>
    simp only [mapStrings, keys, mapStringsMembers_eq, keysMembers_eq, List.flatMap_map]
    exact List.flatMap_congr fun m hm => congrArg (m.1 :: ·) (ih m hm)

end Strings

/-! ## Every string on its own -/

section PerString

variable {find replace : String}

theorem replaceInItems_eq (xs : List Json) : replaceInItems find replace xs = xs.map (replaceInValue find replace) := by
  induction xs with
  | nil => rw [replaceInItems, List.map_nil]
  | cons x xs ih => rw [replaceInItems, List.map_cons, ih]

theorem replaceInMembers_eq (ms : List (String × Json)) :
    replaceInMembers find replace ms = ms.map fun m => (m.1, replaceInValue find replace m.2) := by
  induction ms with
  | nil => rw [replaceInMembers, List.map_nil]
  | cons m ms ih => rw [replaceInMembers, List.map_cons, ih]

/-- `replace_in_value` touches every string. -/
theorem replaceInValue_eq (address : Address) (v : Json) :
    replaceInValue find replace v = mapStrings (fun _ s => replaceIn find replace s) address v := by
  induction v using Json.inductionOn generalizing address with
  | null => rfl
  | bool b => rfl
  | number n => rfl
  | string s => rfl
  | array xs ih =>
    rw [replaceInValue, mapStrings, replaceInItems_eq, mapStringsItems_eq]
    exact congrArg Json.array (List.map_congr_left fun x hx => ih x hx none)
  | object ms ih =>
    rw [replaceInValue, mapStrings, replaceInMembers_eq, mapStringsMembers_eq]
    exact congrArg Json.object (List.map_congr_left fun m hm => Prod.ext rfl (ih m hm _))

/-- A change of the strings at one address leaves everything that does not lie there. -/
theorem mapStrings_elsewhere {f : String → String} {target address : Address} {v : Json}
    (h : ∀ s ∈ strings address v, s.1 ≠ target) :
    mapStrings (fun a s => if a = target then f s else s) address v = v := by
  refine Eq.trans ((mapStrings_eq_iff v).mpr fun s hs => ?_) (mapStrings_id address v)
  exact if_neg (h s hs)

/-- Below an address, no string stands at the address itself or beside it. -/
theorem ne_target_of_mem {base : List String} {k : String} {path : List String} {v : Json} {s : Address × String}
    (hs : s ∈ strings (some (base ++ [k])) v) (hpath : ∀ rest, path ≠ k :: rest) : s.1 ≠ some (base ++ path) := by
  intro heq
  rcases address_of_mem v hs with h | ⟨rest, h⟩
  · rw [h] at heq
    cases heq
  · rw [h, Option.map_some, Option.some.injEq, List.append_assoc] at heq
    exact hpath rest (List.append_cancel_left heq).symm

/-- No path leads into an array. -/
theorem mapStrings_array (f : String → String) (target : List String) (address : Address) (xs : List Json) :
    mapStrings (fun a s => if a = some target then f s else s) address (.array xs) = .array xs := by
  refine mapStrings_elsewhere fun s hs heq => ?_
  have hs : s ∈ stringsItems xs := hs
  rw [stringsItems_eq, List.mem_flatMap] at hs
  obtain ⟨x, -, hs⟩ := hs
  rcases address_of_mem x hs with h | ⟨rest, h⟩
  · rw [h] at heq
    cases heq
  · rw [h] at heq
    cases heq

/-- Replacing at a path touches the strings that stand there. -/
theorem replaceAtPath_eq (path base : List String) (v : Json) :
    replaceAtPath find replace path v =
      mapStrings (fun a s => if a = some (base ++ path) then replaceIn find replace s else s) (some base) v := by
  induction path generalizing base v with
  | nil =>
    cases v with
    | string s => simp [replaceAtPath, mapStrings]
    | array xs => exact (mapStrings_array _ _ _ xs).symm
    | object ms =>
      refine (mapStrings_elsewhere fun s hs => ?_).symm
      have hs : s ∈ stringsMembers (some base) ms := hs
      rw [stringsMembers_eq, List.mem_flatMap] at hs
      obtain ⟨m, -, hs⟩ := hs
      exact ne_target_of_mem hs fun rest h => nomatch h
    | null => rfl
    | bool b => rfl
    | number n => rfl
  | cons segment path ih =>
    cases v with
    | string s => simp [replaceAtPath, mapStrings]
    | array xs => exact (mapStrings_array _ _ _ xs).symm
    | object ms =>
      rw [replaceAtPath, mapStrings, mapStringsMembers_eq]
      refine congrArg Json.object (List.map_congr_left fun m hm => Prod.ext rfl ?_)
      show (if m.1 = segment then replaceAtPath find replace path m.2 else m.2) =
        mapStrings _ (some (base ++ [m.1])) m.2
      by_cases hkey : m.1 = segment
      · rw [if_pos hkey, ih (base ++ [m.1]) m.2, List.append_assoc, hkey, List.singleton_append]
      · rw [if_neg hkey]
        refine (mapStrings_elsewhere fun s hs => ?_).symm
        exact ne_target_of_mem hs fun rest h => hkey (List.cons.inj h).1.symm
    | null => rfl
    | bool b => rfl
    | number n => rfl

/-! ### Pairs -/

/-- A secret and its placeholder. -/
structure SecretPair where
  secret : String
  placeholder : String
deriving DecidableEq, Repr

/-- How the pair of an entry is applied to the strings at an address: once, or once for every path that leads
    there. -/
def pairsFor (config : Config) (toolName : String) (pair : SecretPair) (a : Address) : List SecretPair :=
  if toolMatches config.toolPatterns toolName then
    if config.paramPaths.isEmpty then [pair]
    else (config.paramPaths.filter fun path => a = some (segments path)).map fun _ => pair
  else []

/-- The pairs that are applied to the strings at an address. -/
def pairsAt (entries : List ResolvedEntry) (toolName : String) (a : Address) : List SecretPair :=
  entries.flatMap fun entry =>
    match entry.secretValue with
    | some secret => pairsFor entry.config toolName ⟨secret, entry.config.placeholder⟩ a
    | none => []

/-- One replacement on the way out. -/
def hide (s : String) (pair : SecretPair) : String := replaceIn pair.secret pair.placeholder s

/-- One replacement on the way back. -/
def reveal (s : String) (pair : SecretPair) : String := replaceIn pair.placeholder pair.secret s

/-- One entry, in either direction. -/
theorem replaceForEntry_eq (step : String → SecretPair → String) (pair : SecretPair)
    (hstep : ∀ s, step s pair = replaceIn find replace s) (config : Config) (toolName : String) (v : Json) :
    replaceForEntry config find replace toolName v =
      mapStrings (fun a s => (pairsFor config toolName pair a).foldl step s) (some []) v := by
  have hpaths : ∀ (paths : List String) (v : Json),
      paths.foldl (fun params path => replaceAtPath find replace (segments path) params) v =
        mapStrings (fun a s => ((paths.filter fun path => a = some (segments path)).map fun _ => pair).foldl step s)
          (some []) v := by
    intro paths
    induction paths with
    | nil => exact fun v => (mapStrings_id _ v).symm
    | cons path paths ih =>
      intro v
      rw [List.foldl_cons, ih, replaceAtPath_eq (segments path) [], mapStrings_mapStrings]
      refine (mapStrings_eq_iff v).mpr fun s _ => ?_
      rw [List.nil_append]
      by_cases hpath : s.1 = some (segments path)
      · simp [hpath, hstep]
      · simp [hpath]
  unfold replaceForEntry pairsFor
  cases toolMatches config.toolPatterns toolName with
  | false => exact (mapStrings_id _ v).symm
  | true =>
    cases config.paramPaths.isEmpty with
    | true =>
      rw [if_pos rfl, if_pos rfl, replaceInValue_eq (some [])]
      refine (mapStrings_eq_iff v).mpr fun s _ => ?_
      exact (hstep s.2).symm
    | false => exact hpaths config.paramPaths v

/-- All entries, in either direction. -/
theorem foldl_entries_eq (step : String → SecretPair → String) (find replace : SecretPair → String)
    (hstep : ∀ s pair, step s pair = replaceIn (find pair) (replace pair) s) (entries : List ResolvedEntry)
    (toolName : String) (v : Json) :
    entries.foldl (fun params entry =>
        match entry.secretValue with
        | some secret =>
          replaceForEntry entry.config (find ⟨secret, entry.config.placeholder⟩)
            (replace ⟨secret, entry.config.placeholder⟩) toolName params
        | none => params) v =
      mapStrings (fun a s => (pairsAt entries toolName a).foldl step s) (some []) v := by
  induction entries generalizing v with
  | nil => exact (mapStrings_id _ v).symm
  | cons entry entries ih =>
    rw [List.foldl_cons, ih]
    cases hsecret : entry.secretValue with
    | none =>
      refine (mapStrings_eq_iff v).mpr fun s _ => ?_
      simp [pairsAt, hsecret]
    | some secret =>
      simp only
      rw [replaceForEntry_eq step ⟨secret, entry.config.placeholder⟩ fun s => hstep s _, mapStrings_mapStrings]
      refine (mapStrings_eq_iff v).mpr fun s _ => ?_
      simp [pairsAt, hsecret, List.foldl_append]

/-- **On the way out** every string is changed on its own. -/
theorem substituteOutbound_eq (entries : List ResolvedEntry) (toolName : String) (v : Json) :
    substituteOutbound entries toolName v =
      mapStrings (fun a s => (pairsAt entries toolName a).foldl hide s) (some []) v :=
  foldl_entries_eq hide (·.secret) (·.placeholder) (fun _ _ => rfl) entries toolName v

/-- **On the way back** every string is changed on its own. -/
theorem restoreInbound_eq (entries : List ResolvedEntry) (toolName : String) (v : Json) :
    restoreInbound entries toolName v =
      mapStrings (fun a s => (pairsAt entries toolName a).foldl reveal s) (some []) v :=
  foldl_entries_eq reveal (·.placeholder) (·.secret) (fun _ _ => rfl) entries toolName v

end PerString

/-! ## The specification -/

/-- The secrets and placeholders in use. -/
def texts (entries : List ResolvedEntry) : List String :=
  entries.flatMap fun entry =>
    match entry.secretValue with
    | some secret => [secret, entry.config.placeholder]
    | none => []

/-- No secret and no placeholder is empty or part of another one. -/
structure Independent (entries : List ResolvedEntry) : Prop where
  nonempty : ∀ text ∈ texts entries, text ≠ ""
  apart : (texts entries).Pairwise fun a b => ¬ a.toList <:+: b.toList ∧ ¬ b.toList <:+: a.toList

/-- The pair, as a word and a key. -/
def SecretPair.mask (pair : SecretPair) : MaskPair Char := ⟨pair.secret.toList, pair.placeholder.toList⟩

/-- In every string, no replacement joins with its surroundings. -/
def NothingJoins (entries : List ResolvedEntry) (toolName : String) (params : Json) : Prop :=
  ∀ s ∈ strings (some []) params, JoinFree ((pairsAt entries toolName s.1).map (·.mask)) s.2.toList

/-- No string and no object key contains the text. -/
def Hidden (secret : String) (params : Json) : Prop :=
  (∀ s ∈ strings (some []) params, ¬ secret.toList <:+: s.2.toList) ∧
    ∀ key ∈ keys params, ¬ secret.toList <:+: key.toList

section Spec

variable {entries : List ResolvedEntry} {toolName : String} {params : Json}

theorem toList_replaceIn {find : String} (hfind : find ≠ "") (replace s : String) :
    (replaceIn find replace s).toList = replaceAll find.toList replace.toList s.toList := by
  have hne : find.toList ≠ [] := fun h => hfind (String.toList_eq_nil_iff.mp h)
  unfold replaceIn
  split
  · rw [String.toList_ofList]
  · rename_i hnot
    have hnone : ∀ i, i < s.toList.length → ¬ find.toList <+: s.toList.drop i ++ [] := by
      intro i _ hstart
      rw [List.append_nil] at hstart
      exact hnot (containsInfix_iff.mpr (hstart.isInfix.trans (List.drop_suffix i s.toList).isInfix))
    have hsame := replaceAll_append hne replace.toList hnone
    have hempty : replaceAll find.toList replace.toList [] = [] := by simp [replaceAll, hne, replaceFrom]
    rw [List.append_nil, hempty, List.append_nil] at hsame
    exact hsame.symm

/-- Replacements one after another, on the letters. -/
theorem toList_foldl (step : String → SecretPair → String) (find replace : SecretPair → String)
    (hstep : ∀ s pair, step s pair = replaceIn (find pair) (replace pair) s) {pairs : List SecretPair}
    (h : ∀ pair ∈ pairs, find pair ≠ "") (s : String) :
    (pairs.foldl step s).toList =
      pairs.foldl (fun text pair => replaceAll (find pair).toList (replace pair).toList text) s.toList := by
  induction pairs generalizing s with
  | nil => rfl
  | cons pair pairs ih =>
    rw [List.forall_mem_cons] at h
    rw [List.foldl_cons, ih h.2, List.foldl_cons, hstep, toList_replaceIn h.1]

/-- The pairs in use are of the entries. -/
theorem mem_texts_of_mem_pairsAt {a : Address} {pair : SecretPair} (h : pair ∈ pairsAt entries toolName a) :
    pair.secret ∈ texts entries ∧ pair.placeholder ∈ texts entries := by
  obtain ⟨entry, hentry, hpair⟩ := List.mem_flatMap.mp h
  cases hsecret : entry.secretValue with
  | none =>
    rw [hsecret] at hpair
    cases hpair
  | some secret =>
    rw [hsecret] at hpair
    have hsame : pair = ⟨secret, entry.config.placeholder⟩ := by
      simp only [pairsFor] at hpair
      split at hpair
      · split at hpair
        · exact List.mem_singleton.mp hpair
        · obtain ⟨_, _, rfl⟩ := List.mem_map.mp hpair
          rfl
      · cases hpair
    subst hsame
    exact ⟨List.mem_flatMap.mpr ⟨entry, hentry, by simp [hsecret]⟩,
      List.mem_flatMap.mpr ⟨entry, hentry, by simp [hsecret]⟩⟩

theorem ne_empty_of_mem_pairsAt (h : Independent entries) {a : Address} {pair : SecretPair}
    (hpair : pair ∈ pairsAt entries toolName a) : pair.secret ≠ "" ∧ pair.placeholder ≠ "" := by
  have hmem := mem_texts_of_mem_pairsAt hpair
  exact ⟨h.nonempty _ hmem.1, h.nonempty _ hmem.2⟩

theorem mask_ne_nil (h : Independent entries) (toolName : String) (a : Address) :
    (∀ e ∈ (pairsAt entries toolName a).map (·.mask), e.word ≠ []) ∧
      ∀ e ∈ (pairsAt entries toolName a).map (·.mask), e.key ≠ [] := by
  refine ⟨fun e he => ?_, fun e he => ?_⟩
  · obtain ⟨pair, hpair, rfl⟩ := List.mem_map.mp he
    exact fun hnil => (ne_empty_of_mem_pairsAt h hpair).1 (String.toList_eq_nil_iff.mp hnil)
  · obtain ⟨pair, hpair, rfl⟩ := List.mem_map.mp he
    exact fun hnil => (ne_empty_of_mem_pairsAt h hpair).2 (String.toList_eq_nil_iff.mp hnil)

/-- The way out and back, string by string. -/
theorem restore_substitute_iff (h : Independent entries) :
    restoreInbound entries toolName (substituteOutbound entries toolName params) = params ↔
      ∀ s ∈ strings (some []) params,
        ((pairsAt entries toolName s.1).map (·.mask)).foldl (fun text e => replaceAll e.key e.word text)
          (((pairsAt entries toolName s.1).map (·.mask)).foldl (fun text e => replaceAll e.word e.key text)
            s.2.toList) = s.2.toList := by
  have hid := mapStrings_id (some []) params
  rw [substituteOutbound_eq, restoreInbound_eq, mapStrings_mapStrings]
  refine (Eq.congr_right hid.symm).trans ((mapStrings_eq_iff params).trans ?_)
  refine forall₂_congr fun s _ => ?_
  rw [← String.toList_inj, List.foldl_map, List.foldl_map,
    toList_foldl reveal (·.placeholder) (·.secret) (fun _ _ => rfl) fun pair hpair =>
      (ne_empty_of_mem_pairsAt h hpair).2,
    toList_foldl hide (·.secret) (·.placeholder) (fun _ _ => rfl) fun pair hpair =>
      (ne_empty_of_mem_pairsAt h hpair).1]
  rfl

/-- **Where nothing joins**, the parameters come back. -/
theorem restore_substitute (h : Independent entries) (hjoins : NothingJoins entries toolName params) :
    restoreInbound entries toolName (substituteOutbound entries toolName params) = params := by
  refine (restore_substitute_iff h).mpr fun s hs => ?_
  have hne := mask_ne_nil h toolName s.1
  exact restore_hide hne.1 hne.2 (hjoins s hs)

/-- **Where every string is touched at most once**, the parameters come back only if nothing joins. -/
theorem nothingJoins_of_restore (h : Independent entries)
    (honce : ∀ s ∈ strings (some []) params, (pairsAt entries toolName s.1).length ≤ 1)
    (hback : restoreInbound entries toolName (substituteOutbound entries toolName params) = params) :
    NothingJoins entries toolName params := by
  intro s hs
  have hback := (restore_substitute_iff h).mp hback s hs
  have hne := mask_ne_nil h toolName s.1
  have honce := honce s hs
  cases hpairs : pairsAt entries toolName s.1 with
  | nil => exact ⟨letters s.2.toList, letters s.2.toList, .nil _, .nil _⟩
  | cons pair pairs =>
    obtain rfl : pairs = [] := by
      rw [hpairs, List.length_cons] at honce
      exact List.length_eq_zero_iff.mp (by omega)
    rw [hpairs, List.map_singleton] at hback hne
    rw [List.map_singleton]
    exact (restore_hide_iff (hne.1 _ (List.mem_singleton.mpr rfl)) (hne.2 _ (List.mem_singleton.mpr rfl))).mp hback

/-- **A single secret is hidden** exactly if no key contains it and it is covered in every string. -/
theorem hidden_iff {entry : ResolvedEntry} {secret : String} (h : Independent [entry])
    (hsecret : entry.secretValue = some secret) (htool : toolMatches entry.config.toolPatterns toolName = true)
    (hpaths : entry.config.paramPaths = []) :
    Hidden secret (substituteOutbound [entry] toolName params) ↔
      (∀ key ∈ keys params, ¬ secret.toList <:+: key.toList) ∧
        ∀ s ∈ strings (some []) params,
          Covered ⟨secret.toList, entry.config.placeholder.toList⟩ s.2.toList := by
  have hpairs : ∀ a, pairsAt [entry] toolName a = [⟨secret, entry.config.placeholder⟩] := by
    intro a
    simp [pairsAt, hsecret, pairsFor, htool, hpaths]
  have htexts : texts [entry] = [secret, entry.config.placeholder] := by simp [texts, hsecret]
  have hne : secret ≠ "" := h.nonempty secret (by simp [htexts])
  have hword : secret.toList ≠ [] := fun hnil => hne (String.toList_eq_nil_iff.mp hnil)
  have hapart := h.apart
  rw [htexts, List.pairwise_pair] at hapart
  unfold Hidden
  rw [substituteOutbound_eq, strings_mapStrings, keys_mapStrings, List.forall_mem_map, and_comm]
  refine and_congr_right fun _ => forall₂_congr fun s _ => ?_
  have hcovered : Covered ⟨secret.toList, entry.config.placeholder.toList⟩ s.2.toList ↔
      ¬ secret.toList <:+: replaceAll secret.toList entry.config.placeholder.toList s.2.toList :=
    covered_iff hword hapart.2
  rw [hcovered, hpairs, List.foldl_cons, List.foldl_nil, hide, toList_replaceIn hne]

end Spec

/-- **Secrets come back where no replacement joins with its surroundings**, and only there if every string is
    touched at most once; **a single secret is hidden** exactly if no key contains it and it is covered in every
    string. -/
theorem secret_substitution_holds (entries : List ResolvedEntry) (toolName : String) (params : Json)
    (h : Independent entries) :
    (NothingJoins entries toolName params →
        restoreInbound entries toolName (substituteOutbound entries toolName params) = params) ∧
      ((∀ s ∈ strings (some []) params, (pairsAt entries toolName s.1).length ≤ 1) →
        (restoreInbound entries toolName (substituteOutbound entries toolName params) = params ↔
          NothingJoins entries toolName params)) ∧
      ∀ entry secret, entries = [entry] → entry.secretValue = some secret →
        toolMatches entry.config.toolPatterns toolName = true → entry.config.paramPaths = [] →
        (Hidden secret (substituteOutbound entries toolName params) ↔
          (∀ key ∈ keys params, ¬ secret.toList <:+: key.toList) ∧
            ∀ s ∈ strings (some []) params,
              Covered ⟨secret.toList, entry.config.placeholder.toList⟩ s.2.toList) := by
  refine ⟨restore_substitute h, fun honce => ⟨nothingJoins_of_restore h honce, restore_substitute h⟩, ?_⟩
  rintro entry secret rfl hsecret htool hpaths
  exact hidden_iff h hsecret htool hpaths

/-- An entry for all tools and all strings. -/
def exampleEntry (secret placeholder : String) : ResolvedEntry :=
  ⟨⟨"key", "KEY", placeholder, [], []⟩, some secret⟩

/-- Parameters with one string. -/
def exampleParams (key text : String) : Json := .object [(key, .string text)]

/-- A token in a header is hidden and comes back. -/
theorem secret_substitution_holds_token :
    NothingJoins [exampleEntry "tok" "<KEY>"] "send" (exampleParams "auth" "Bearer tok") ∧
      ∀ s ∈ strings (some []) (exampleParams "auth" "Bearer tok"),
        Covered ⟨"tok".toList, "<KEY>".toList⟩ s.2.toList := by
  have hindependent : Independent [exampleEntry "tok" "<KEY>"] := ⟨by decide +kernel, by decide +kernel⟩
  obtain ⟨-, hback, hhidden⟩ := secret_substitution_holds [exampleEntry "tok" "<KEY>"] "send"
    (exampleParams "auth" "Bearer tok") hindependent
  refine ⟨(hback (by decide +kernel)).mp (by decide +kernel), ?_⟩
  exact ((hhidden (exampleEntry "tok" "<KEY>") "tok" rfl rfl rfl rfl).mp
    ⟨by decide +kernel, by decide +kernel⟩).2

-- With several entries two joined replacements can undo each other: here the second secret is found across the
-- first placeholder, and the text comes back all the same.
example : restoreInbound [exampleEntry "ka" "qa", exampleEntry "ab" "ac"] "send"
    (substituteOutbound [exampleEntry "ka" "qa", exampleEntry "ab" "ac"] "send" (exampleParams "text" "kab")) =
      exampleParams "text" "kab" := by
  decide +kernel

/-- **Neither holds always**: the end of a placeholder may meet the text before it, the placeholder may complete
    the secret again, and keys stay as they are. -/
theorem substitution_neither_restores_nor_hides :
    (Independent [exampleEntry "k" "xyx"] ∧ Hidden "xyx" (exampleParams "text" "xyk") ∧
        restoreInbound [exampleEntry "k" "xyx"] "send"
          (substituteOutbound [exampleEntry "k" "xyx"] "send" (exampleParams "text" "xyk")) ≠
            exampleParams "text" "xyk") ∧
      (Independent [exampleEntry "ab" "bc"] ∧ Hidden "bc" (exampleParams "text" "aab") ∧
        ¬ Hidden "ab" (substituteOutbound [exampleEntry "ab" "bc"] "send" (exampleParams "text" "aab"))) ∧
      Hidden "bc" (exampleParams "ab" "") ∧
        ¬ Hidden "ab" (substituteOutbound [exampleEntry "ab" "bc"] "send" (exampleParams "ab" "")) := by
  refine ⟨⟨⟨?_, ?_⟩, ⟨?_, ?_⟩, ?_⟩, ⟨⟨?_, ?_⟩, ⟨?_, ?_⟩, fun h => absurd h.1 ?_⟩, ⟨?_, ?_⟩, fun h => absurd h.2 ?_⟩
  all_goals decide +kernel

end Vellaveto.SecretSubstitution
