/-
  THE QUERY SANITIZER (`vellaveto-mcp-shield/src/sanitizer.rs`).

  `sanitize` exchanges every span the scanner returns for a placeholder `[PII_{CAT}_{TOKEN}]` and
  records what it stands for; `desanitize` replaces each recorded placeholder, one after the other,
  in the order a `HashMap` happens to list them.  `walkJson` does either to every string of a JSON
  value, object keys included.

  What the source leaves open is a parameter here:

  * the random `u64`s are the `tokens` of the state, drawn from the front.  The source draws until
    the placeholder is new; a call that has used up the list has not returned (`Stop.drawing`);
  * the order of a `HashMap` is a `HashOrder`;
  * `upper` is the upper-case mapping of `str::to_uppercase` outside ASCII.

  `sanitize` slices the input at the ends of the matches, which panics when they are not character
  boundaries in order; `Stop.panic` is that outcome, and `sanitizePieces_ne_panic` excludes it.
  `exists_tokens_sanitize` says that a call with room in the table can return.

  A piece of the output remembers where it comes from, which no later step looks at: that is what
  "in clear" means.
-/
import Mathlib.Data.List.AList
import Vellaveto.Json
import Vellaveto.Lib.Effect
import Vellaveto.Lib.SortedMap
import Vellaveto.Lib.Replace
import Vellaveto.Lib.Table
import Vellaveto.Shield.Pii

namespace Vellaveto.Shield

open Vellaveto.Lib

/-- `MAX_PII_MAPPINGS`. -/
def maxPiiMappings : Nat := 50000

/-- `MAX_JSON_DEPTH`. -/
def maxJsonDepth : Nat := 20

/-- `ShieldError`, as far as the parts of the shield that are modelled raise it.  The other error of the
    sanitizer is a poisoned lock, and no call panics while it holds one. -/
inductive ShieldError where
  | sanitization (reason : String)
  | desanitization (reason : String)
  | encryption (reason : String)
  | decryption (reason : String)
  | sessionIsolation (reason : String)
  | config (reason : String)
  | credentialVault (reason : String)
  | io (reason : String)
deriving DecidableEq, Repr

/-- How a call can end without a value. -/
inductive Stop where
  | error (e : ShieldError)
  | panic
  | drawing
deriving DecidableEq, Repr

/-- `PiiMapping`. -/
structure PiiMapping where
  original : Text
  category : String
deriving DecidableEq, Repr

/-- A `HashMap` from placeholders to mappings. -/
abbrev Mappings := AList fun _ : Text => PiiMapping

/-- `QuerySanitizer`, with the random numbers it is going to draw. -/
structure QuerySanitizer where
  scanner : PiiScanner
  mappings : Mappings
  sequence : Nat
  tokens : List UInt64

/-- `QuerySanitizer::new`. -/
def QuerySanitizer.new (scanner : PiiScanner) (tokens : List UInt64) : QuerySanitizer :=
  ⟨scanner, ∅, 0, tokens⟩

/-- A method of the sanitizer. -/
abbrev Call := Act QuerySanitizer Stop

/-! ## Placeholders -/

/-- `str::to_uppercase`. -/
def toUppercase (upper : Char → List Char) (cs : Text) : Text :=
  cs.flatMap fun c => if isAscii c then [c.toUpper] else upper c

/-- One digit of `{:X}`. -/
def upperHexDigit (n : Nat) : Char := if n < 10 then Char.ofNat (48 + n) else Char.ofNat (55 + n)

/-- `{:016X}` of a `u64`. -/
def upperHex16 (token : UInt64) : Text :=
  (List.range 16).map fun i => upperHexDigit (token.toNat / 16 ^ (15 - i) % 16)

/-- `format!("[PII_{}_{:016X}]", category.to_uppercase(), token)`. -/
def placeholder (upper : Char → List Char) (category : String) (token : UInt64) : Text :=
  ['[', 'P', 'I', 'I', '_'] ++ toUppercase upper category.toList ++ '_' :: upperHex16 token ++ [']']

/-- The loop that draws until the placeholder is new, with the tokens that are left. -/
def drawFresh (upper : Char → List Char) (mappings : Mappings) (category : String) :
    List UInt64 → Option (Text × List UInt64)
  | [] => none
  | token :: tokens =>
    let candidate := placeholder upper category token
    if candidate ∈ mappings then drawFresh upper mappings category tokens
    else some (candidate, tokens)

/-- Draw a placeholder and record what it stands for. -/
def recordMatch (upper : Char → List Char) (m : PiiMatch) : Call Text := fun s =>
  match drawFresh upper s.mappings m.category s.tokens with
  | none => (.error .drawing, { s with tokens := [] })
  | some (key, tokens) =>
    (.ok key,
      { s with
        mappings := s.mappings.insert key ⟨m.text, m.category⟩
        sequence := min (s.sequence + 1) u64Max
        tokens := tokens })

/-! ## Sanitizing -/

/-- A piece of the output: bytes `start` to `stop` of the input as they are, or a placeholder for a
    match. -/
inductive Piece where
  | clear (start stop : Nat) (text : Text)
  | masked (key : Text) (m : PiiMatch)
deriving DecidableEq, Repr

namespace Piece

/-- The text that is pushed. -/
def text : Piece → Text
  | clear _ _ text => text
  | masked key _ => key

/-- Byte `i` of the input is in the output as it was. -/
def ShowsByte : Piece → Nat → Prop
  | clear start stop _, i => start ≤ i ∧ i < stop
  | masked _ _, _ => False

end Piece

/-- The loop of `sanitize` over the matches. -/
def sanitizeLoop (upper : Char → List Char) (input : Text) :
    List PiiMatch → Nat → List Piece → Call (List Piece)
  | [], lastEnd, result => do
    let rest ← Act.orStop .panic (byteSuffix input lastEnd)
    pure (result ++ [.clear lastEnd (String.utf8Len input) rest])
  | m :: ms, lastEnd, result => do
    let s ← Act.read
    if maxPiiMappings ≤ s.mappings.entries.length then
      Act.stop (.error (.sanitization "PII mapping capacity exhausted (fail-closed)"))
    else do
      let gap ← Act.orStop .panic (slice input lastEnd m.start)
      let key ← recordMatch upper m
      sanitizeLoop upper input ms m.stop (result ++ [.clear lastEnd m.start gap, .masked key m])

/-- `sanitize`, up to the concatenation of the pieces. -/
def sanitizePieces (upper : Char → List Char) (input : Text) : Call (List Piece) := do
  let s ← Act.read
  let found := s.scanner.findMatches input
  if found.isEmpty then pure [.clear 0 (String.utf8Len input) input]
  else sanitizeLoop upper input found 0 []

/-- `sanitize`. -/
def sanitize (upper : Char → List Char) (input : Text) : Call Text := do
  let pieces ← sanitizePieces upper input
  pure (pieces.flatMap Piece.text)

/-! ## Desanitizing -/

/-- An order in which a `HashMap` lists its entries. -/
structure HashOrder where
  entries : Mappings → List (Σ _ : Text, PiiMapping)
  perm : ∀ mappings, (entries mappings).Perm mappings.entries

/-- `desanitize`. -/
def desanitize (order : HashOrder) (input : Text) : Call Text := do
  let s ← Act.read
  if s.mappings.entries.isEmpty then pure input
  else
    pure ((order.entries s.mappings).foldl
      (fun result e => replaceAll e.1 e.2.original result) input)

/-- `clear`. -/
def clearMappings : Call Unit := Act.update fun s => { s with mappings := ∅, sequence := 0 }

/-! ## JSON values -/

/-- The depth check at the head of `walk_json`. -/
def checkDepth (depth : Nat) : Call Unit :=
  if maxJsonDepth < depth then Act.stop (.error (.sanitization "JSON recursion depth exceeded"))
  else pure ()

mutual

/-- `walk_json`, with what it does to a string as `process`. -/
def walkJson (process : Text → Call Text) : Json → Nat → Call Json
  | .string s, depth => do
    checkDepth depth
    let processed ← process s.toList
    pure (.string (String.ofList processed))
  | .array items, depth => do
    checkDepth depth
    let result ← walkItems process items (depth + 1)
    pure (.array result)
  | .object members, depth => do
    checkDepth depth
    let result ← walkMembers process members (depth + 1) []
    pure (.object result)
  | .null, depth => do
    checkDepth depth
    pure .null
  | .bool b, depth => do
    checkDepth depth
    pure (.bool b)
  | .number n, depth => do
    checkDepth depth
    pure (.number n)

/-- The loop over the items of an array. -/
def walkItems (process : Text → Call Text) : List Json → Nat → Call (List Json)
  | [], _ => pure []
  | item :: items, depth => do
    let value ← walkJson process item depth
    let values ← walkItems process items depth
    pure (value :: values)

/-- The loop over the members of an object. -/
def walkMembers (process : Text → Call Text) :
    List (String × Json) → Nat → List (String × Json) → Call (List (String × Json))
  | [], _, result => pure result
  | (key, val) :: members, depth, result => do
    let processed ← process key.toList
    let value ← walkJson process val depth
    walkMembers process members depth (insertKey (String.ofList processed) value result)

end

/-- `sanitize_json`. -/
def sanitizeJson (upper : Char → List Char) (value : Json) : Call Json :=
  walkJson (sanitize upper) value 0

/-- `desanitize_json`. -/
def desanitizeJson (order : HashOrder) (value : Json) : Call Json :=
  walkJson (desanitize order) value 0

/-! ## What a call leaves behind -/

/-- The categories a placeholder can name. -/
def PiiScanner.categories (scanner : PiiScanner) : List String :=
  scanner.defaultPatterns.map NamedPiiRegex.name ++ scanner.customPatterns.map Prod.fst

theorem category_mem_of_mem_reported {scanner : PiiScanner} {input : Text} {m : PiiMatch}
    (hm : m ∈ scanner.reported input) : m.category ∈ scanner.categories := by
  rcases List.mem_append.mp hm with h | h
  · obtain ⟨named, hnamed, h⟩ := List.mem_flatMap.mp h
    obtain ⟨n, _, rfl⟩ := List.mem_map.mp (List.mem_filter.mp h).1
    exact List.mem_append_left _ (List.mem_map.mpr ⟨named, hnamed, rfl⟩)
  · obtain ⟨p, hp, h⟩ := List.mem_flatMap.mp h
    obtain ⟨n, _, rfl⟩ := List.mem_map.mp h
    exact List.mem_append_right _ (List.mem_map.mpr ⟨p, hp, rfl⟩)

/-- A placeholder for one of the categories. -/
def IsPlaceholder (upper : Char → List Char) (categories : List String) (key : Text) : Prop :=
  ∃ category ∈ categories, ∃ token, key = placeholder upper category token

/-- The table only grows: what was recorded stays, and what is new is a placeholder for one of the
    categories. -/
structure Grows (upper : Char → List Char) (categories : List String) (s t : QuerySanitizer) :
    Prop where
  scanner : t.scanner = s.scanner
  lookup : ∀ key v, s.mappings.lookup key = some v → t.mappings.lookup key = some v
  keys : ∀ key ∈ t.mappings, key ∈ s.mappings ∨ IsPlaceholder upper categories key

section Grows

variable {upper : Char → List Char} {categories : List String}

theorem Grows.refl (s : QuerySanitizer) : Grows upper categories s s :=
  ⟨rfl, fun _ _ h => h, fun _ h => Or.inl h⟩

theorem Grows.trans (s t u : QuerySanitizer) (hst : Grows upper categories s t)
    (htu : Grows upper categories t u) : Grows upper categories s u := by
  refine ⟨htu.scanner.trans hst.scanner, fun key v h => htu.lookup key v (hst.lookup key v h), ?_⟩
  intro key hkey
  rcases htu.keys key hkey with h | h
  · exact hst.keys key h
  · exact Or.inr h

/-- What is drawn is new, and a placeholder of the category. -/
theorem drawFresh_eq_some {mappings : Mappings} {category : String} {tokens rest : List UInt64}
    {key : Text} (h : drawFresh upper mappings category tokens = some (key, rest)) :
    key ∉ mappings ∧ ∃ token, key = placeholder upper category token := by
  induction tokens with
  | nil => cases h
  | cons token tokens ih =>
    simp only [drawFresh] at h
    split at h
    · exact ih h
    · rename_i hfresh
      cases h
      exact ⟨hfresh, token, rfl⟩

theorem keeps_recordMatch {m : PiiMatch} (hm : m.category ∈ categories) :
    (recordMatch upper m).Keeps (Grows upper categories) := by
  intro s
  unfold recordMatch
  split
  · exact ⟨rfl, fun _ _ h => h, fun _ h => Or.inl h⟩
  · rename_i key tokens hdraw
    obtain ⟨hfresh, token, rfl⟩ := drawFresh_eq_some hdraw
    refine ⟨rfl, ?_, ?_⟩
    · intro k v hk
      have hne : k ≠ placeholder upper m.category token := by
        rintro rfl
        rw [AList.lookup_eq_none.mpr hfresh] at hk
        cases hk
      rw [AList.lookup_insert_ne hne]
      exact hk
    · intro k hk
      rcases AList.mem_insert _ |>.mp hk with rfl | hk
      · exact Or.inr ⟨m.category, hm, token, rfl⟩
      · exact Or.inl hk

/-- The recorded mapping can be looked up. -/
theorem lookup_of_recordMatch {m : PiiMatch} {s t : QuerySanitizer} {key : Text}
    (h : recordMatch upper m s = (.ok key, t)) :
    t.mappings.lookup key = some ⟨m.text, m.category⟩ := by
  unfold recordMatch at h
  split at h
  · cases h
  · cases h
    exact AList.lookup_insert _

theorem keeps_sanitizeLoop (input : Text) {ms : List PiiMatch}
    (hms : ∀ m ∈ ms, m.category ∈ categories) (lastEnd : Nat) (result : List Piece) :
    (sanitizeLoop upper input ms lastEnd result).Keeps (Grows upper categories) := by
  induction ms generalizing lastEnd result with
  | nil =>
    exact (Act.keeps_orStop Grows.refl _ _).bind Grows.trans fun _ => Act.keeps_pure Grows.refl _
  | cons m ms ih =>
    refine (Act.keeps_read Grows.refl).bind Grows.trans fun s => ?_
    split
    · exact Act.keeps_stop Grows.refl _
    · refine (Act.keeps_orStop Grows.refl _ _).bind Grows.trans fun gap => ?_
      refine (keeps_recordMatch (hms m List.mem_cons_self)).bind Grows.trans fun key => ?_
      exact ih (fun n hn => hms n (List.mem_cons_of_mem m hn)) _ _

end Grows

/-- What `sanitize` returned, once the state is at hand. -/
theorem sanitizePieces_apply (upper : Char → List Char) (input : Text) (s : QuerySanitizer) :
    sanitizePieces upper input s =
      if (s.scanner.findMatches input).isEmpty then
        (.ok [.clear 0 (String.utf8Len input) input], s)
      else sanitizeLoop upper input (s.scanner.findMatches input) 0 [] s := by
  show (if (s.scanner.findMatches input).isEmpty then _ else _ : Call (List Piece)) s = _
  split <;> rfl

/-- **Every call of `sanitize` only adds to the table**, also one that fails half-way. -/
theorem grows_sanitize (upper : Char → List Char) (input : Text) (s : QuerySanitizer) :
    Grows upper s.scanner.categories s (sanitize upper input s).2 := by
  have hpieces : Grows upper s.scanner.categories s (sanitizePieces upper input s).2 := by
    rw [sanitizePieces_apply]
    split
    · exact Grows.refl s
    · refine keeps_sanitizeLoop input (fun m hm => ?_) 0 [] s
      exact category_mem_of_mem_reported (PiiScanner.mem_reported_of_mem_findMatches hm)
  rcases h : sanitizePieces upper input s with ⟨e | pieces, t⟩
  · rw [sanitize, Act.bind_of_error h]
    rw [h] at hpieces
    exact hpieces
  · rw [sanitize, Act.bind_of_ok h]
    rw [h] at hpieces
    exact hpieces

/-! ## What a call returns -/

/-- The pieces for the matches `ms` and the input from `lastEnd` on. -/
inductive Assembled (input : Text) : List PiiMatch → Nat → List Piece → Prop where
  | last {lastEnd : Nat} {rest : Text} (hrest : byteSuffix input lastEnd = some rest) :
      Assembled input [] lastEnd [.clear lastEnd (String.utf8Len input) rest]
  | next {m : PiiMatch} {ms : List PiiMatch} {lastEnd : Nat} {gap key : Text} {ps : List Piece}
      (hgap : slice input lastEnd m.start = some gap) (hps : Assembled input ms m.stop ps) :
      Assembled input (m :: ms) lastEnd (.clear lastEnd m.start gap :: .masked key m :: ps)

/-- The matches are spans of the input from `lastEnd` on, one after the other. -/
structure InOrder (input : Text) (ms : List PiiMatch) (lastEnd : Nat) : Prop where
  spans : ∀ m ∈ ms, m.IsSpan input
  disjoint : ms.Pairwise fun a b => a.stop ≤ b.start
  start : ∀ m ∈ ms, lastEnd ≤ m.start

theorem InOrder.tail {input : Text} {m : PiiMatch} {ms : List PiiMatch} {lastEnd : Nat}
    (h : InOrder input (m :: ms) lastEnd) : InOrder input ms m.stop :=
  ⟨fun n hn => h.spans n (List.mem_cons_of_mem m hn), (List.pairwise_cons.mp h.disjoint).2,
    (List.pairwise_cons.mp h.disjoint).1⟩

theorem inOrder_findMatches (scanner : PiiScanner) (input : Text) :
    InOrder input (scanner.findMatches input) 0 :=
  ⟨fun _ hm => PiiScanner.isSpan_of_mem_findMatches hm, scanner.pairwise_findMatches input,
    fun _ _ => Nat.zero_le _⟩

section Returned

variable {upper : Char → List Char} {input : Text} {ms : List PiiMatch} {lastEnd : Nat}
  {s t : QuerySanitizer}

/-- One round of the loop that is followed by a return. -/
theorem sanitizeLoop_cons_eq_ok {m : PiiMatch} {result pieces : List Piece}
    (h : sanitizeLoop upper input (m :: ms) lastEnd result s = (.ok pieces, t)) :
    ∃ gap key u, slice input lastEnd m.start = some gap ∧ recordMatch upper m s = (.ok key, u) ∧
      sanitizeLoop upper input ms m.stop (result ++ [.clear lastEnd m.start gap, .masked key m]) u =
        (.ok pieces, t) := by
  obtain ⟨_, _, hread, h⟩ := Act.bind_eq_ok.mp h
  cases hread
  split at h
  · cases h
  · obtain ⟨gap, _, hslice, h⟩ := Act.bind_eq_ok.mp h
    obtain ⟨hgap, rfl⟩ := Act.orStop_eq_ok.mp hslice
    obtain ⟨key, u, hkey, h⟩ := Act.bind_eq_ok.mp h
    exact ⟨gap, key, u, hgap, hkey, h⟩

/-- The pieces follow the matches, and each placeholder among them is recorded. -/
theorem assembled_of_sanitizeLoop {result pieces : List Piece}
    (h : sanitizeLoop upper input ms lastEnd result s = (.ok pieces, t)) :
    ∃ ps, pieces = result ++ ps ∧ Assembled input ms lastEnd ps ∧
      ∀ key m, .masked key m ∈ ps → t.mappings.lookup key = some ⟨m.text, m.category⟩ := by
  induction ms generalizing lastEnd result s with
  | nil =>
    obtain ⟨rest, _, hsuffix, h⟩ := Act.bind_eq_ok.mp h
    obtain ⟨hrest, rfl⟩ := Act.orStop_eq_ok.mp hsuffix
    obtain ⟨rfl, rfl⟩ := Act.pure_eq_ok.mp h
    refine ⟨_, rfl, Assembled.last hrest, ?_⟩
    intro key m hmem
    simp at hmem
  | cons m ms ih =>
    obtain ⟨gap, key, u, hgap, hkey, h⟩ := sanitizeLoop_cons_eq_ok h
    obtain ⟨ps, rfl, hps, hlookup⟩ := ih h
    refine ⟨_, by rw [List.append_assoc]; rfl, Assembled.next hgap hps, ?_⟩
    intro key' m' hmem
    simp only [List.mem_cons, Piece.masked.injEq, reduceCtorEq, false_or] at hmem
    rcases hmem with ⟨rfl, rfl⟩ | hmem
    · -- the rest of the loop keeps what was just recorded
      have hgrows := @keeps_sanitizeLoop upper (ms.map PiiMatch.category)
        input ms (fun n hn => List.mem_map_of_mem hn) m'.stop
        (result ++ [.clear lastEnd m'.start gap, .masked key' m']) u
      have hlookup := hgrows.lookup key' _ (lookup_of_recordMatch hkey)
      rwa [h] at hlookup
    · exact hlookup key' m' hmem

/-- **No slice of `sanitize` panics.** -/
theorem sanitizeLoop_ne_panic {result : List Piece} (horder : InOrder input ms lastEnd)
    (hb : IsBoundary input lastEnd) :
    sanitizeLoop upper input ms lastEnd result s ≠ (.error .panic, t) := by
  intro h
  induction ms generalizing lastEnd result s with
  | nil =>
    obtain ⟨u, hu⟩ := hb
    obtain ⟨rest, hrest, _⟩ := exists_byteSuffix hu
    rw [sanitizeLoop, hrest] at h
    cases h
  | cons m ms ih =>
    have hm := horder.spans m List.mem_cons_self
    obtain ⟨u, hu⟩ := hb
    obtain ⟨gap, hgap, _⟩ := exists_slice hu hm.start_boundary (horder.start m List.mem_cons_self)
    rw [sanitizeLoop, hgap] at h
    rcases Act.bind_eq_error.mp h with h | ⟨_, _, hread, h⟩
    · cases h
    · cases hread
      split at h
      · cases h
      · rcases Act.bind_eq_error.mp h with h | ⟨_, _, hpure, h⟩
        · cases h
        · cases hpure
          rcases Act.bind_eq_error.mp h with h | ⟨key, v, _, h⟩
          · unfold recordMatch at h
            split at h <;> cases h
          · exact ih horder.tail hm.stop_boundary h

end Returned

theorem sanitizePieces_ne_panic (upper : Char → List Char) (input : Text) (s t : QuerySanitizer) :
    sanitizePieces upper input s ≠ (.error .panic, t) := by
  rw [sanitizePieces_apply]
  split
  · simp
  · exact sanitizeLoop_ne_panic (inOrder_findMatches _ _) (isBoundary_zero input)

/-! ## The call returns

  The draw could go on for ever; it does not have to, because the table is never so full that every
  token is taken. -/

/-- The digits of a number determine it. -/
theorem eq_of_hexDigits {k n m : Nat} (hn : n < 16 ^ k) (hm : m < 16 ^ k)
    (h : ∀ j, j < k → n / 16 ^ j % 16 = m / 16 ^ j % 16) : n = m := by
  induction k generalizing n m with
  | zero =>
    rw [Nat.pow_zero] at hn hm
    omega
  | succ k ih =>
    have hlow : n % 16 = m % 16 := by simpa using h 0 (Nat.zero_lt_succ k)
    have hhigh : n / 16 = m / 16 := by
      rw [Nat.pow_succ] at hn hm
      refine ih (by omega) (by omega) fun j hj => ?_
      have hj := h (j + 1) (Nat.succ_lt_succ hj)
      rwa [Nat.pow_succ, Nat.mul_comm, ← Nat.div_div_eq_div_mul, ← Nat.div_div_eq_div_mul] at hj
    omega

theorem upperHex16_injective : Function.Injective upperHex16 := by
  intro a b hab
  have hdigit : ∀ n < 16, ∀ m < 16, upperHexDigit n = upperHexDigit m → n = m := by decide
  refine UInt64.toNat_inj.mp (eq_of_hexDigits (k := 16) a.toNat_lt b.toNat_lt fun j hj => ?_)
  have hmap := List.map_inj_left.mp hab (15 - j) (List.mem_range.mpr (by omega))
  rw [show 15 - (15 - j) = j by omega] at hmap
  exact hdigit _ (Nat.mod_lt _ (by decide)) _ (Nat.mod_lt _ (by decide)) hmap

theorem placeholder_injective (upper : Char → List Char) (category : String) :
    Function.Injective (placeholder upper category) := by
  intro a b hab
  unfold placeholder at hab
  have hdigits := List.append_cancel_left (List.append_cancel_right hab)
  exact upperHex16_injective (List.cons.inj hdigits).2

/-- A table of fewer than `2 ^ 64` entries leaves a placeholder of each category free. -/
theorem exists_fresh_token (upper : Char → List Char) (mappings : Mappings) (category : String)
    (hsize : mappings.entries.length < 2 ^ 64) :
    ∃ token, placeholder upper category token ∉ mappings := by
  by_contra hall
  push Not at hall
  -- the first tokens, one more than there are entries, would all be keys
  let taken := (List.range (mappings.entries.length + 1)).map fun n =>
    placeholder upper category (UInt64.ofNat n)
  have hnodup : taken.Nodup := by
    refine List.Nodup.map_on (fun n hn m hm hnm => ?_) List.nodup_range
    have hn := List.mem_range.mp hn
    have hm := List.mem_range.mp hm
    have hbound : UInt64.size = 2 ^ 64 := rfl
    have htoken := congrArg UInt64.toNat (placeholder_injective upper category hnm)
    rwa [UInt64.toNat_ofNat_of_lt' (by omega), UInt64.toNat_ofNat_of_lt' (by omega)] at htoken
  have hsub : taken ⊆ mappings.keys := by
    intro key hkey
    obtain ⟨n, _, rfl⟩ := List.mem_map.mp hkey
    exact AList.mem_keys.mp (hall _)
  have hlen := (List.subperm_of_subset hnodup hsub).length_le
  simp [taken, AList.keys, List.keys] at hlen

/-- With room for the matches, some draws let the loop finish. -/
theorem exists_tokens_sanitizeLoop (upper : Char → List Char) {input : Text} {ms : List PiiMatch}
    {lastEnd : Nat} (horder : InOrder input ms lastEnd) (hb : IsBoundary input lastEnd)
    (result : List Piece) (s : QuerySanitizer)
    (hroom : s.mappings.entries.length + ms.length ≤ maxPiiMappings) :
    ∃ tokens pieces t,
      sanitizeLoop upper input ms lastEnd result { s with tokens := tokens } = (.ok pieces, t) := by
  induction ms generalizing lastEnd result s with
  | nil =>
    obtain ⟨u, hu⟩ := hb
    obtain ⟨rest, hrest, _⟩ := exists_byteSuffix hu
    refine ⟨[], result ++ [.clear lastEnd (String.utf8Len input) rest], { s with tokens := [] }, ?_⟩
    rw [sanitizeLoop, hrest]
    rfl
  | cons m ms ih =>
    have hm := horder.spans m List.mem_cons_self
    obtain ⟨u, hu⟩ := hb
    obtain ⟨gap, hgap, _⟩ := exists_slice hu hm.start_boundary (horder.start m List.mem_cons_self)
    rw [List.length_cons] at hroom
    have hlarge : maxPiiMappings < 2 ^ 64 := by decide
    obtain ⟨token, hfresh⟩ := exists_fresh_token upper s.mappings m.category (by omega)
    -- after drawing `token` the table has one entry more
    let next : QuerySanitizer :=
      { s with
        mappings := s.mappings.insert (placeholder upper m.category token) ⟨m.text, m.category⟩
        sequence := min (s.sequence + 1) u64Max }
    have hnext : next.mappings.entries.length = s.mappings.entries.length + 1 := by
      show (AList.insert _ _ s.mappings).entries.length = _
      rw [AList.insert_of_notMem hfresh, List.length_cons]
    obtain ⟨tokens, pieces, t, htokens⟩ := ih horder.tail hm.stop_boundary
      (result ++ [.clear lastEnd m.start gap, .masked (placeholder upper m.category token) m]) next
      (by omega)
    refine ⟨token :: tokens, pieces, t, ?_⟩
    have hdraw : drawFresh upper s.mappings m.category (token :: tokens) =
        some (placeholder upper m.category token, tokens) := by
      simp only [drawFresh]
      rw [if_neg hfresh]
    have hrecord : recordMatch upper m { s with tokens := token :: tokens } =
        (.ok (placeholder upper m.category token), { next with tokens := tokens }) := by
      unfold recordMatch
      rw [hdraw]
    have hfull : ¬ maxPiiMappings ≤ s.mappings.entries.length := by omega
    rw [sanitizeLoop, hgap, Act.bind_of_ok Act.read_apply, if_neg hfull]
    exact (Act.bind_of_ok hrecord).trans htokens

/-- **Where the table has room for what is found, `sanitize` can return.** -/
theorem exists_tokens_sanitize (upper : Char → List Char) (input : Text) (s : QuerySanitizer)
    (hroom : s.mappings.entries.length + (s.scanner.findMatches input).length ≤ maxPiiMappings) :
    ∃ tokens out t, sanitize upper input { s with tokens := tokens } = (.ok out, t) := by
  have hpieces : ∃ tokens pieces t,
      sanitizePieces upper input { s with tokens := tokens } = (.ok pieces, t) := by
    simp only [sanitizePieces_apply]
    split
    · exact ⟨[], _, _, rfl⟩
    · exact exists_tokens_sanitizeLoop upper (inOrder_findMatches _ _) (isBoundary_zero input) [] s
        hroom
  obtain ⟨tokens, pieces, t, h⟩ := hpieces
  exact ⟨tokens, pieces.flatMap Piece.text, t, Act.bind_of_ok h⟩

end Vellaveto.Shield
