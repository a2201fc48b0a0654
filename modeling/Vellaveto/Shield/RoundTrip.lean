/-
  DOES `desanitize` RESTORE WHAT `sanitize` TOOK OUT?

  `desanitize` performs one global replacement for every recorded placeholder, of whatever call,
  and a text that was restored half-way is searched for the placeholders that are left.  So the
  round trip rests on what the placeholders look like.

  1. **Texts** (`desanitize_sanitize`) — a sanitized text is a list of segments, plain ones and
     placeholders, and `Lib.restore_all` restores them one key after the other: no placeholder
     starts in plain or restored text, because the input does not contain `[PII_`, and none starts
     inside another placeholder, because they are `OverlapFree`.

  2. **JSON values** (`walkJson_inverse`) — by induction over the value.  In an object the keys
     change too, so the members come back in another order; a `BTreeMap` does not see it.

  3. **Runs** (`pii_round_trip`) — whatever is done in between, short of `clear`, only adds to the
     table.

  The condition on the placeholders is one on the CATEGORY NAMES.  Names without brackets meet it
  (`unambiguous_of_no_brackets`), the built-in ones among them.  A custom pattern may have any name
  without control characters, and one that spells a placeholder of another category breaks the
  round trip: `bracketed_name_breaks_round_trip`.
-/
import Mathlib.Data.List.Perm.Basic
import Vellaveto.Lib.Run
import Vellaveto.Shield.Masking

namespace Vellaveto.Shield

open Vellaveto.Lib

/-! ## Texts -/

/-- The text that every placeholder starts with, `[PII_`. -/
def placeholderMarker : Text := ['[', 'P', 'I', 'I', '_']

/-- The text does not contain `[PII_`. -/
def NoMarker (input : Text) : Prop := ¬ placeholderMarker <:+: input

instance (input : Text) : Decidable (NoMarker input) :=
  inferInstanceAs (Decidable (¬ placeholderMarker <:+: input))

/-- No placeholder of these categories starts inside another one. -/
def Unambiguous (upper : Char → List Char) (categories : List String) : Prop :=
  OverlapFree (IsPlaceholder upper categories)

/-- Every recorded key is a placeholder of one of the scanner's categories. -/
def Tracked (upper : Char → List Char) (s : QuerySanitizer) : Prop :=
  ∀ key ∈ s.mappings, IsPlaceholder upper s.scanner.categories key

theorem Tracked.of_grows {upper : Char → List Char} {s t : QuerySanitizer} (hs : Tracked upper s)
    (h : Grows upper s.scanner.categories s t) : Tracked upper t := by
  intro key hkey
  rw [h.scanner]
  rcases h.keys key hkey with hkey | hkey
  · exact hs key hkey
  · exact hkey

theorem marked_placeholder (upper : Char → List Char) (categories : List String) :
    Marked '[' ['P', 'I', 'I', '_'] (IsPlaceholder upper categories) := by
  refine ⟨?_, by decide⟩
  rintro _ ⟨category, _, token, rfl⟩
  rw [placeholder, List.append_assoc, List.append_assoc]
  exact List.prefix_append _ _

/-- A piece as a segment of the text. -/
def Piece.segment : Piece → Segment Char
  | clear _ _ text => .plain text
  | masked key m => .mark key m.text

/-- Without the replacements, the segments are the output. -/
theorem renderAll_segments (pieces : List Piece) :
    renderAll [] (pieces.map Piece.segment) = pieces.flatMap Piece.text := by
  rw [renderAll, List.flatMap_map]
  refine congrArg List.flatten (List.map_congr_left fun piece _ => ?_)
  cases piece <;> simp [Piece.segment, Segment.render, Piece.text]

/-- With the originals put back, they are the input. -/
theorem originalText_of_assembled {input before : Text} {ms : List PiiMatch} {lastEnd : Nat}
    {ps : List Piece} (hps : Assembled input ms lastEnd ps) (hspans : ∀ m ∈ ms, m.IsSpan input)
    (hbefore : bytePrefix input lastEnd = some before) :
    before ++ originalText (ps.map Piece.segment) = input := by
  induction hps generalizing before with
  | last hrest =>
    obtain ⟨v, hv, hinput⟩ := exists_byteSuffix hbefore
    obtain rfl := Option.some.inj (hv.symm.trans hrest)
    simpa [originalText, Piece.segment, Segment.original] using hinput.symm
  | @next m ms lastEnd gap key ps hgap hps ih =>
    have hm := hspans m List.mem_cons_self
    have hgap' := bytePrefix_of_slice hbefore hgap
    have htext := bytePrefix_of_slice hgap' hm.slice_eq
    have ih := ih (fun n hn => hspans n (List.mem_cons_of_mem m hn)) htext
    calc before ++ originalText ((.clear lastEnd m.start gap :: .masked key m :: ps).map Piece.segment)
        = before ++ (gap ++ (m.text ++ originalText (ps.map Piece.segment))) := rfl
      _ = before ++ gap ++ m.text ++ originalText (ps.map Piece.segment) := by
          simp only [List.append_assoc]
      _ = input := ih

/-- What `sanitize` returned is made of segments of the input, and the table of any later state has
    every placeholder of it. -/
theorem segments_of_sanitize {upper : Char → List Char} {input out : Text} {s t : QuerySanitizer}
    (h : sanitize upper input s = (.ok out, t)) :
    ∃ segments, out = renderAll [] segments ∧ originalText segments = input ∧
      ∀ key original, .mark key original ∈ segments →
        ∃ v, t.mappings.lookup key = some v ∧ v.original = original := by
  obtain ⟨pieces, _, hpieces, h⟩ := Act.bind_eq_ok.mp h
  obtain ⟨rfl, rfl⟩ := Act.pure_eq_ok.mp h
  rw [sanitizePieces_apply] at hpieces
  refine ⟨pieces.map Piece.segment, (renderAll_segments pieces).symm, ?_⟩
  split at hpieces
  · cases hpieces
    simp [originalText, Piece.segment, Segment.original]
  · obtain ⟨ps, rfl, hps, hlookup⟩ := assembled_of_sanitizeLoop hpieces
    constructor
    · have hzero : bytePrefix input 0 = some [] := by cases input <;> rfl
      exact originalText_of_assembled hps (inOrder_findMatches _ _).spans hzero
    · intro key original hmem
      obtain ⟨piece, hpiece, hsegment⟩ := List.mem_map.mp hmem
      cases piece with
      | clear => cases hsegment
      | masked key m =>
        cases hsegment
        exact ⟨_, hlookup key m hpiece, rfl⟩

/-- `desanitize` is the replacements, also when there are none. -/
theorem desanitize_apply (order : HashOrder) (input : Text) (s : QuerySanitizer) :
    desanitize order input s =
      (.ok ((order.entries s.mappings).foldl
        (fun result e => replaceAll e.1 e.2.original result) input), s) := by
  show (if s.mappings.entries.isEmpty then _ else _ : Call Text) s = _
  split
  · rename_i hempty
    have hnil : order.entries s.mappings = [] := by
      have hperm := order.perm s.mappings
      rw [List.isEmpty_iff.mp hempty] at hperm
      exact hperm.eq_nil
    rw [hnil]
    rfl
  · rfl

/-- **A text without `[PII_` is restored**, by every later table and in every order. -/
theorem desanitize_sanitize {upper : Char → List Char} {input out : Text} {s t u : QuerySanitizer}
    (hfree : Unambiguous upper s.scanner.categories) (hclean : NoMarker input)
    (h : sanitize upper input s = (.ok out, t)) (hu : Tracked upper u)
    (hscanner : u.scanner = s.scanner)
    (hlater : ∀ key v, t.mappings.lookup key = some v → u.mappings.lookup key = some v)
    (order : HashOrder) : desanitize order out u = (.ok input, u) := by
  obtain ⟨segments, rfl, rfl, hmarks⟩ := segments_of_sanitize h
  rw [Tracked, hscanner] at hu
  have hmem : ∀ e, e ∈ order.entries u.mappings ↔ u.mappings.lookup e.1 = some e.2 := by
    intro e
    rw [(order.perm u.mappings).mem_iff]
    exact AList.mem_lookup_iff.symm
  have hmarks' : ∀ key original, .mark key original ∈ segments →
      ∃ v, u.mappings.lookup key = some v ∧ v.original = original := by
    intro key original hmark
    obtain ⟨v, hv, hvo⟩ := hmarks key original hmark
    exact ⟨v, hlater key v hv, hvo⟩
  have hkeys : ∀ key original, .mark key original ∈ segments →
      IsPlaceholder upper s.scanner.categories key := by
    intro key original hmark
    obtain ⟨v, hv, _⟩ := hmarks' key original hmark
    exact hu key (AList.lookup_isSome.mp (Option.isSome_of_eq_some hv))
  -- the replacements, as pairs of a key and what it stands for
  have hpairs : ∀ k v, (k, v) ∈ (order.entries u.mappings).map (fun e => (e.1, e.2.original)) ↔
      ∃ w, u.mappings.lookup k = some w ∧ w.original = v := by
    intro k v
    constructor
    · intro hkv
      obtain ⟨e, he, heq⟩ := List.mem_map.mp hkv
      cases heq
      exact ⟨e.2, (hmem e).mp he, rfl⟩
    · rintro ⟨w, hw, rfl⟩
      exact List.mem_map.mpr ⟨⟨k, w⟩, (hmem ⟨k, w⟩).mpr hw, rfl⟩
  have hrestore : ((order.entries u.mappings).map fun e => (e.1, e.2.original)).foldl
      (fun text e => replaceAll e.1 e.2 text) (renderAll [] segments) = originalText segments := by
    refine restore_all (marked_placeholder upper s.scanner.categories) hfree hkeys hclean ?_ ?_ ?_
    · rintro ⟨k, v⟩ he
      obtain ⟨w, hw, _⟩ := (hpairs k v).mp he
      exact hu k (AList.lookup_isSome.mp (Option.isSome_of_eq_some hw))
    · rintro ⟨k, v⟩ he original hmark
      obtain ⟨w, hw, rfl⟩ := (hpairs k v).mp he
      obtain ⟨w', hw', rfl⟩ := hmarks' k original hmark
      rw [Option.some.inj (hw'.symm.trans hw)]
    · intro key original hmark
      obtain ⟨w, hw, rfl⟩ := hmarks' key original hmark
      exact Or.inr ⟨(key, w.original), (hpairs key w.original).mpr ⟨w, hw, rfl⟩, rfl⟩
  rw [desanitize_apply, ← hrestore, List.foldl_map]

/-! ## JSON values -/

mutual

/-- A value as `serde_json` holds it, the members of an object in key order, in which every string
    and every key satisfies `P`. -/
def JsonOf (P : Text → Prop) : Json → Prop
  | .string s => P s.toList
  | .array items => JsonOfItems P items
  | .object members => KeySorted members ∧ JsonOfMembers P members
  | .null => True
  | .bool _ => True
  | .number _ => True

def JsonOfItems (P : Text → Prop) : List Json → Prop
  | [] => True
  | item :: items => JsonOf P item ∧ JsonOfItems P items

def JsonOfMembers (P : Text → Prop) : List (String × Json) → Prop
  | [] => True
  | (key, val) :: members => P key.toList ∧ JsonOf P val ∧ JsonOfMembers P members

end

section Walk

variable {process : Text → Call Text} {R : QuerySanitizer → QuerySanitizer → Prop}
  (hrefl : ∀ s, R s s) (htrans : ∀ s t u, R s t → R t u → R s u)

include hrefl in
theorem keeps_checkDepth (depth : Nat) : (checkDepth depth).Keeps R := by
  unfold checkDepth
  split
  · exact Act.keeps_stop hrefl _
  · exact Act.keeps_pure hrefl _

include hrefl htrans

mutual

/-- The walk keeps what its action on strings keeps. -/
theorem keeps_walkJson (hprocess : ∀ text, (process text).Keeps R) :
    ∀ (value : Json) (depth : Nat), (walkJson process value depth).Keeps R
  | .string s, depth => by
    rw [walkJson]
    refine (keeps_checkDepth hrefl depth).bind htrans fun _ => ?_
    exact (hprocess _).bind htrans fun _ => Act.keeps_pure hrefl _
  | .array items, depth => by
    rw [walkJson]
    refine (keeps_checkDepth hrefl depth).bind htrans fun _ => ?_
    exact (keeps_walkItems hprocess items (depth + 1)).bind htrans fun _ => Act.keeps_pure hrefl _
  | .object members, depth => by
    rw [walkJson]
    refine (keeps_checkDepth hrefl depth).bind htrans fun _ => ?_
    exact (keeps_walkMembers hprocess members (depth + 1) []).bind htrans
      fun _ => Act.keeps_pure hrefl _
  | .null, depth => by
    rw [walkJson]
    exact (keeps_checkDepth hrefl depth).bind htrans fun _ => Act.keeps_pure hrefl _
  | .bool b, depth => by
    rw [walkJson]
    exact (keeps_checkDepth hrefl depth).bind htrans fun _ => Act.keeps_pure hrefl _
  | .number n, depth => by
    rw [walkJson]
    exact (keeps_checkDepth hrefl depth).bind htrans fun _ => Act.keeps_pure hrefl _

theorem keeps_walkItems (hprocess : ∀ text, (process text).Keeps R) :
    ∀ (items : List Json) (depth : Nat), (walkItems process items depth).Keeps R
  | [], depth => Act.keeps_pure hrefl _
  | item :: items, depth => by
    rw [walkItems]
    refine (keeps_walkJson hprocess item depth).bind htrans fun _ => ?_
    exact (keeps_walkItems hprocess items depth).bind htrans fun _ => Act.keeps_pure hrefl _

theorem keeps_walkMembers (hprocess : ∀ text, (process text).Keeps R) :
    ∀ (members : List (String × Json)) (depth : Nat) (result : List (String × Json)),
      (walkMembers process members depth result).Keeps R
  | [], depth, result => Act.keeps_pure hrefl _
  | (key, val) :: members, depth, result => by
    rw [walkMembers]
    refine (hprocess _).bind htrans fun _ => ?_
    refine (keeps_walkJson hprocess val depth).bind htrans fun _ => ?_
    exact keeps_walkMembers hprocess members depth _

end

end Walk

section Inverse

variable {take restore : Text → Call Text} {P : Text → Prop} {I : QuerySanitizer → Prop}
  {R : QuerySanitizer → QuerySanitizer → Prop}

/-- `q` is a processed member, and from `t` on its key and its value are restored to those of `e`. -/
def RestoresTo (restore : Text → Call Text) (R : QuerySanitizer → QuerySanitizer → Prop)
    (t : QuerySanitizer) (depth : Nat) (q e : String × Json) : Prop :=
  ∀ u, R t u → restore q.1.toList u = (.ok e.1.toList, u) ∧
    walkJson restore q.2 depth u = (.ok e.2, u)

/-- The walk over members that are restored one by one. -/
theorem walkMembers_of_restoresTo {t u : QuerySanitizer} (hu : R t u) {depth : Nat}
    {qs es : List (String × Json)} (h : List.Forall₂ (RestoresTo restore R t depth) qs es)
    (result : List (String × Json)) :
    walkMembers restore qs depth result u = (.ok (insertAllKeys result es), u) := by
  induction h generalizing result with
  | nil => rfl
  | @cons q e qs es hqe _ ih =>
    obtain ⟨hkey, hval⟩ := hqe u hu
    rw [walkMembers, Act.bind_of_ok hkey, Act.bind_of_ok hval, ih, String.ofList_toList]
    rfl

/-- Members that are restored to distinct keys have distinct keys. -/
theorem nodup_of_restoresTo {t u : QuerySanitizer} (hu : R t u) {depth : Nat}
    {qs es : List (String × Json)} (h : List.Forall₂ (RestoresTo restore R t depth) qs es)
    (hes : (es.map Prod.fst).Nodup) : (qs.map Prod.fst).Nodup := by
  have hkeys : (qs.map Prod.fst).map (fun k => (restore k.toList u).1) =
      (es.map Prod.fst).map fun k => .ok k.toList := by
    induction h with
    | nil => rfl
    | @cons q e qs es hqe _ ih =>
      rw [List.map_cons, List.map_cons, List.map_cons, List.map_cons, (hqe u hu).1,
        ih (List.nodup_cons.mp hes).2]
  have hinj : Function.Injective fun k : String => (Except.ok k.toList : Except Stop Text) :=
    fun k l hkl => String.toList_injective (Except.ok.inj hkl)
  exact List.Nodup.of_map _ (hkeys ▸ hes.map hinj)

/-- **An object comes back as it was**: its members return in the order of the processed keys, and
    the map puts them in their own. -/
theorem walkMembers_insertAllKeys {t u : QuerySanitizer} (hu : R t u) {depth : Nat}
    {qs es : List (String × Json)} (h : List.Forall₂ (RestoresTo restore R t depth) qs es)
    (hes : KeySorted es) :
    walkMembers restore (insertAllKeys [] qs) depth [] u = (.ok es, u) := by
  have hqs := nodup_of_restoresTo hu h hes.nodup_keys
  have hperm : (insertAllKeys [] qs).Perm (qs ++ []) :=
    perm_insertAllKeys hqs fun _ _ _ hd => nomatch hd
  rw [List.append_nil] at hperm
  obtain ⟨es', hforall, hes'⟩ := List.perm_comp_forall₂ hperm h
  rw [walkMembers_of_restoresTo hu hforall, insertAllKeys_eq_of_perm hes hes']

/-- The depth check does not look at the state. -/
theorem checkDepth_eq_ok {depth : Nat} {a : Unit} {s t : QuerySanitizer}
    (h : checkDepth depth s = (.ok a, t)) : s = t ∧ ∀ u, checkDepth depth u = (.ok (), u) := by
  unfold checkDepth at h ⊢
  split at h
  · cases h
  · rename_i hdepth
    cases h
    refine ⟨rfl, fun u => ?_⟩
    rw [if_neg hdepth]
    rfl

/-- A value without texts passes both ways unchanged, if it is not too deep. -/
theorem walkJson_leaf_inverse {value w : Json} {depth : Nat} {s t : QuerySanitizer}
    (hleaf : ∀ process, walkJson process value depth = (do
      checkDepth depth
      pure value))
    (h : walkJson take value depth s = (.ok w, t)) (u : QuerySanitizer) :
    walkJson restore w depth u = (.ok value, u) := by
  rw [hleaf] at h
  obtain ⟨_, s', hcheck, h⟩ := Act.bind_eq_ok.mp h
  obtain ⟨rfl, hdepth⟩ := checkDepth_eq_ok hcheck
  obtain ⟨rfl, rfl⟩ := Act.pure_eq_ok.mp h
  rw [hleaf, Act.bind_of_ok (hdepth u)]
  rfl

/-- `restore` undoes `take` on the texts of `P`: from states of `I` on, and at all states that are
    later by `R`. -/
structure UndoneBy (take restore : Text → Call Text) (P : Text → Prop) (I : QuerySanitizer → Prop)
    (R : QuerySanitizer → QuerySanitizer → Prop) : Prop where
  refl : ∀ s, R s s
  trans : ∀ s t u, R s t → R t u → R s u
  invariant : ∀ s t, I s → R s t → I t
  keeps : ∀ text, (take text).Keeps R
  undo : ∀ x y s t, P x → I s → take x s = (.ok y, t) → ∀ u, R t u → restore y u = (.ok x, u)

mutual

/-- **Walking with an action and then with its inverse returns the value**, at any later state. -/
theorem walkJson_inverse (hundo : UndoneBy take restore P I R) :
    ∀ (value w : Json) (depth : Nat) (s t : QuerySanitizer), JsonOf P value → I s → walkJson take value depth s = (.ok w, t) →
      ∀ u, R t u → walkJson restore w depth u = (.ok value, u)
  | .string x, w, depth, s, t, hvalue, hs, h, u, hu => by
    rw [walkJson] at h
    obtain ⟨_, s', hcheck, h⟩ := Act.bind_eq_ok.mp h
    obtain ⟨rfl, hdepth⟩ := checkDepth_eq_ok hcheck
    obtain ⟨y, t', hy, h⟩ := Act.bind_eq_ok.mp h
    obtain ⟨rfl, ht⟩ := Act.pure_eq_ok.mp h
    subst ht
    have hx := hundo.undo x.toList y s t' hvalue hs hy u hu
    rw [walkJson, Act.bind_of_ok (hdepth u), String.toList_ofList, Act.bind_of_ok hx,
      String.ofList_toList]
    rfl
  | .array items, w, depth, s, t, hvalue, hs, h, u, hu => by
    rw [walkJson] at h
    obtain ⟨_, s', hcheck, h⟩ := Act.bind_eq_ok.mp h
    obtain ⟨rfl, hdepth⟩ := checkDepth_eq_ok hcheck
    obtain ⟨ws, t', hws, h⟩ := Act.bind_eq_ok.mp h
    obtain ⟨rfl, ht⟩ := Act.pure_eq_ok.mp h
    subst ht
    have hitems := walkItems_inverse hundo items ws (depth + 1) s t' hvalue hs hws u hu
    rw [walkJson, Act.bind_of_ok (hdepth u), Act.bind_of_ok hitems]
    rfl
  | .object members, w, depth, s, t, hvalue, hs, h, u, hu => by
    rw [walkJson] at h
    obtain ⟨_, s', hcheck, h⟩ := Act.bind_eq_ok.mp h
    obtain ⟨rfl, hdepth⟩ := checkDepth_eq_ok hcheck
    obtain ⟨out, t', hout, h⟩ := Act.bind_eq_ok.mp h
    obtain ⟨rfl, ht⟩ := Act.pure_eq_ok.mp h
    subst ht
    obtain ⟨hsorted, hmembers⟩ := hvalue
    obtain ⟨qs, rfl, hqs⟩ := walkMembers_inverse hundo members (depth + 1) [] out s t'
      hmembers hs hout
    rw [walkJson, Act.bind_of_ok (hdepth u),
      Act.bind_of_ok (walkMembers_insertAllKeys hu hqs hsorted)]
    rfl
  | .null, w, depth, s, t, hvalue, hs, h, u, hu =>
    walkJson_leaf_inverse (fun _ => by rw [walkJson]) h u
  | .bool b, w, depth, s, t, hvalue, hs, h, u, hu =>
    walkJson_leaf_inverse (fun _ => by rw [walkJson]) h u
  | .number n, w, depth, s, t, hvalue, hs, h, u, hu =>
    walkJson_leaf_inverse (fun _ => by rw [walkJson]) h u

theorem walkItems_inverse (hundo : UndoneBy take restore P I R) :
    ∀ (items ws : List Json) (depth : Nat) (s t : QuerySanitizer), JsonOfItems P items → I s → walkItems take items depth s = (.ok ws, t) →
      ∀ u, R t u → walkItems restore ws depth u = (.ok items, u)
  | [], ws, depth, s, t, hitems, hs, h, u, hu => by
    rw [walkItems] at h
    obtain ⟨rfl, rfl⟩ := Act.pure_eq_ok.mp h
    rfl
  | item :: items, ws, depth, s, t, hitems, hs, h, u, hu => by
    rw [walkItems] at h
    obtain ⟨w, s', hw, h⟩ := Act.bind_eq_ok.mp h
    obtain ⟨ws', t', hws', h⟩ := Act.bind_eq_ok.mp h
    obtain ⟨rfl, ht⟩ := Act.pure_eq_ok.mp h
    subst ht
    have hstep : R s s' := by
      have := keeps_walkJson hundo.refl hundo.trans hundo.keeps item depth s
      rwa [hw] at this
    have hlater : R s' t' := by
      have := keeps_walkItems hundo.refl hundo.trans hundo.keeps items depth s'
      rwa [hws'] at this
    have hs' : I s' := hundo.invariant s s' hs hstep
    have hitem := walkJson_inverse hundo item w depth s s' hitems.1 hs hw u
      (hundo.trans _ _ _ hlater hu)
    have hrest := walkItems_inverse hundo items ws' depth s' t' hitems.2 hs' hws' u hu
    rw [walkItems, Act.bind_of_ok hitem, Act.bind_of_ok hrest]
    rfl

theorem walkMembers_inverse (hundo : UndoneBy take restore P I R) :
    ∀ (members : List (String × Json)) (depth : Nat) (result out : List (String × Json))
      (s t : QuerySanitizer),
    JsonOfMembers P members → I s → walkMembers take members depth result s = (.ok out, t) →
      ∃ qs, out = insertAllKeys result qs ∧
        List.Forall₂ (RestoresTo restore R t depth) qs members
  | [], depth, result, out, s, t, hmembers, hs, h => by
    rw [walkMembers] at h
    obtain ⟨rfl, rfl⟩ := Act.pure_eq_ok.mp h
    exact ⟨[], rfl, List.Forall₂.nil⟩
  | (key, val) :: members, depth, result, out, s, t, hmembers, hs, h => by
    rw [walkMembers] at h
    obtain ⟨k, s₁, hk, h⟩ := Act.bind_eq_ok.mp h
    obtain ⟨w, s₂, hw, h⟩ := Act.bind_eq_ok.mp h
    have hkstep : R s s₁ := by
      have := hundo.keeps key.toList s
      rwa [hk] at this
    have hwstep : R s₁ s₂ := by
      have := keeps_walkJson hundo.refl hundo.trans hundo.keeps val depth s₁
      rwa [hw] at this
    have hlater : R s₂ t := by
      have := keeps_walkMembers hundo.refl hundo.trans hundo.keeps members depth
        (insertKey (String.ofList k) w result) s₂
      rwa [h] at this
    have hs₁ := hundo.invariant s s₁ hs hkstep
    obtain ⟨qs, hout, hqs⟩ := walkMembers_inverse hundo members depth _ out s₂ t hmembers.2.2
      (hundo.invariant s₁ s₂ hs₁ hwstep) h
    refine ⟨(String.ofList k, w) :: qs, hout, List.Forall₂.cons ?_ hqs⟩
    intro u hu
    have hsince : R s₂ u := hundo.trans _ _ _ hlater hu
    constructor
    · show restore (String.ofList k).toList u = _
      rw [String.toList_ofList]
      exact hundo.undo key.toList k s s₁ hmembers.1 hs hk u (hundo.trans _ _ _ hwstep hsince)
    · exact walkJson_inverse hundo val w depth s₁ s₂ hmembers.2.1 hs₁ hw u hsince

end

end Inverse

/-! ## Runs -/

/-- A call on the sanitizer. -/
inductive SanitizerOp where
  | sanitize (input : Text)
  | desanitize (order : HashOrder) (input : Text)
  | sanitizeJson (value : Json)
  | desanitizeJson (order : HashOrder) (value : Json)
  | clear

/-- The state after a call, whatever it returned. -/
def sanitizerStep (upper : Char → List Char) (s : QuerySanitizer) : SanitizerOp → Option QuerySanitizer
  | .sanitize input => some (sanitize upper input s).2
  | .desanitize order input => some (desanitize order input s).2
  | .sanitizeJson value => some (sanitizeJson upper value s).2
  | .desanitizeJson order value => some (desanitizeJson order value s).2
  | .clear => some (clearMappings s).2

/-- What is sanitized at `s` can be restored later, before the table is cleared. -/
structure PiiRoundTrip (upper : Char → List Char) (s : QuerySanitizer) : Prop where
  text : ∀ input out t, NoMarker input → sanitize upper input s = (.ok out, t) →
    ∀ later u, .clear ∉ later → run (sanitizerStep upper) t later = some u →
      ∀ order, desanitize order out u = (.ok input, u)
  json : ∀ value out t, JsonOf NoMarker value → sanitizeJson upper value s = (.ok out, t) →
    ∀ later u, .clear ∉ later → run (sanitizerStep upper) t later = some u →
      ∀ order, desanitizeJson order out u = (.ok value, u)

section Runs

variable {upper : Char → List Char} {scanner : PiiScanner}

/-- The state of a sanitizer with this scanner. -/
def Owned (upper : Char → List Char) (scanner : PiiScanner) (s : QuerySanitizer) : Prop :=
  s.scanner = scanner ∧ Tracked upper s

/-- Later, with nothing cleared in between. -/
def Later (upper : Char → List Char) (scanner : PiiScanner) (s t : QuerySanitizer) : Prop :=
  Owned upper scanner s → Grows upper scanner.categories s t

theorem Owned.later {s t : QuerySanitizer} (hs : Owned upper scanner s)
    (h : Later upper scanner s t) : Owned upper scanner t := by
  have hgrows := h hs
  obtain ⟨rfl, htracked⟩ := hs
  exact ⟨hgrows.scanner, htracked.of_grows hgrows⟩

theorem Later.refl (s : QuerySanitizer) : Later upper scanner s s := fun _ => Grows.refl s

theorem Later.trans (s t u : QuerySanitizer) (hst : Later upper scanner s t)
    (htu : Later upper scanner t u) : Later upper scanner s u :=
  fun hs => Grows.trans s t u (hst hs) (htu (hs.later hst))

theorem later_sanitize (input : Text) : (sanitize upper input).Keeps (Later upper scanner) := by
  rintro s ⟨rfl, _⟩
  exact grows_sanitize upper input s

/-- `desanitize` undoes `sanitize`. -/
theorem undoneBy_desanitize (hnames : Unambiguous upper scanner.categories) (order : HashOrder) :
    UndoneBy (sanitize upper) (desanitize order) NoMarker (Owned upper scanner)
      (Later upper scanner) where
  refl := Later.refl
  trans := Later.trans
  invariant _ _ hs h := hs.later h
  keeps := later_sanitize
  undo input out s t hclean hs h u htu := by
    have hst : Later upper scanner s t := by
      have hkeeps : Later upper scanner s (sanitize upper input s).2 := later_sanitize input s
      rwa [h] at hkeeps
    have ht := hs.later hst
    have hu := ht.later htu
    obtain ⟨rfl, _⟩ := hs
    exact desanitize_sanitize hnames hclean h hu.2 hu.1 (htu ht).lookup order

theorem desanitize_state (order : HashOrder) (input : Text) (s : QuerySanitizer) :
    (desanitize order input s).2 = s := by
  rw [desanitize_apply]

theorem desanitizeJson_state (order : HashOrder) (value : Json) (s : QuerySanitizer) :
    (desanitizeJson order value s).2 = s := by
  have hkeeps : (walkJson (desanitize order) value 0).Keeps Eq :=
    keeps_walkJson Eq.refl (fun _ _ _ hst htu => hst.trans htu)
      (fun text s => (desanitize_state order text s).symm) value 0
  exact (hkeeps s).symm

/-- One call that does not clear the table. -/
theorem later_sanitizerStep {s t : QuerySanitizer} {op : SanitizerOp} (hop : op ≠ .clear)
    (h : sanitizerStep upper s op = some t) : Later upper scanner s t := by
  cases op with
  | sanitize input =>
    cases h
    exact later_sanitize input s
  | desanitize order input =>
    cases h
    rw [desanitize_state]
    exact Later.refl s
  | sanitizeJson value =>
    cases h
    exact keeps_walkJson Later.refl Later.trans later_sanitize value 0 s
  | desanitizeJson order value =>
    cases h
    rw [desanitizeJson_state]
    exact Later.refl s
  | clear => exact absurd rfl hop

theorem owned_sanitizerStep {s t : QuerySanitizer} {op : SanitizerOp}
    (hs : Owned upper scanner s) (h : sanitizerStep upper s op = some t) :
    Owned upper scanner t := by
  by_cases hop : op = .clear
  · subst hop
    cases h
    refine ⟨hs.1, ?_⟩
    intro key hkey
    exact absurd hkey (AList.notMem_empty key)
  · exact hs.later (later_sanitizerStep hop h)

theorem owned_run {tokens : List UInt64} {ops : List SanitizerOp} {s : QuerySanitizer}
    (h : run (sanitizerStep upper) (.new scanner tokens) ops = some s) : Owned upper scanner s := by
  have hnew : Owned upper scanner (.new scanner tokens) :=
    ⟨rfl, fun key hkey => absurd hkey (AList.notMem_empty key)⟩
  exact run_invariant (fun _ _ _ hs hstep => owned_sanitizerStep hs hstep) hnew h

theorem later_run {s u : QuerySanitizer} {later : List SanitizerOp} (hclear : .clear ∉ later)
    (h : run (sanitizerStep upper) s later = some u) : Later upper scanner s u := by
  refine run_invariant_mem (fun t op t' hop ht hstep => ?_) (Later.refl s) h
  have hne : op ≠ .clear := fun heq => hclear (heq ▸ hop)
  exact Later.trans s t t' ht (later_sanitizerStep hne hstep)

end Runs

/-- **The round trip**: with category names whose placeholders do not overlap, whatever has been
    sanitized, in whatever order the table is listed, is restored at any later time before the
    table is cleared. -/
theorem pii_round_trip (upper : Char → List Char) (scanner : PiiScanner) (tokens : List UInt64)
    (hnames : Unambiguous upper scanner.categories) (ops : List SanitizerOp) (s : QuerySanitizer)
    (hs : run (sanitizerStep upper) (.new scanner tokens) ops = some s) : PiiRoundTrip upper s := by
  have howned : Owned upper scanner s := owned_run hs
  constructor
  · intro input out t hclean hok later u hclear hlater order
    exact (undoneBy_desanitize hnames order).undo input out s t hclean howned hok u
      (later_run hclear hlater)
  · intro value out t hclean hok later u hclear hlater order
    exact walkJson_inverse (undoneBy_desanitize hnames order) value out 0 s t hclean howned hok u
      (later_run hclear hlater)

/-! ## Names -/

theorem mem_upperHex16 {token : UInt64} {c : Char} (hc : c ∈ upperHex16 token) :
    c ≠ '[' ∧ c ≠ ']' := by
  obtain ⟨i, _, rfl⟩ := List.mem_map.mp hc
  have hdigits : ∀ n < 16, upperHexDigit n ≠ '[' ∧ upperHexDigit n ≠ ']' := by decide
  exact hdigits _ (Nat.mod_lt _ (by decide))

/-- The placeholder of a name without brackets has none inside. -/
theorem placeholder_delimited {upper : Char → List Char} {category : String}
    (hopen : '[' ∉ toUppercase upper category.toList)
    (hclose : ']' ∉ toUppercase upper category.toList) (token : UInt64) :
    ∃ body, placeholder upper category token = '[' :: (body ++ [']']) ∧ '[' ∉ body ∧ ']' ∉ body := by
  refine ⟨['P', 'I', 'I', '_'] ++ toUppercase upper category.toList ++ '_' :: upperHex16 token,
    ?_, ?_, ?_⟩
  · simp [placeholder]
  · have hhex : '[' ∉ upperHex16 token := fun hmem => (mem_upperHex16 hmem).1 rfl
    simp [hopen, hhex]
  · have hhex : ']' ∉ upperHex16 token := fun hmem => (mem_upperHex16 hmem).2 rfl
    simp [hclose, hhex]

/-- **Names without brackets give placeholders that do not overlap.** -/
theorem unambiguous_of_no_brackets {upper : Char → List Char} {categories : List String}
    (h : ∀ category ∈ categories, '[' ∉ toUppercase upper category.toList ∧
      ']' ∉ toUppercase upper category.toList) : Unambiguous upper categories := by
  refine overlapFree_of_delimited (a := '[') (b := ']') ?_ (by decide)
  rintro _ ⟨category, hcategory, token, rfl⟩
  obtain ⟨hopen, hclose⟩ := h category hcategory
  exact placeholder_delimited hopen hclose token

theorem toUppercase_ascii (upper : Char → List Char) {cs : Text}
    (hcs : ∀ c ∈ cs, isAscii c = true) : toUppercase upper cs = cs.map Char.toUpper := by
  induction cs with
  | nil => rfl
  | cons c cs ih =>
    have ih := ih fun d hd => hcs d (List.mem_cons_of_mem c hd)
    have hc : isAscii c = true := hcs c List.mem_cons_self
    simp only [toUppercase, List.flatMap_cons, hc, if_true] at ih ⊢
    rw [ih]
    rfl

/-- The built-in names are among them. -/
theorem unambiguous_allPatterns (upper : Char → List Char) (compile : String → Option Regex) :
    Unambiguous upper (PiiScanner.categories ⟨allPatterns compile, []⟩) := by
  have hnames : ∀ name ∈ patternTable.map Prod.fst, name.toList.all isAscii = true ∧
      '[' ∉ name.toList.map Char.toUpper ∧ ']' ∉ name.toList.map Char.toUpper := by
    decide +kernel
  refine unambiguous_of_no_brackets fun category hcategory => ?_
  have hmem : category ∈ patternTable.map Prod.fst := by
    rw [PiiScanner.categories, List.map_nil, List.append_nil] at hcategory
    obtain ⟨named, hnamed, rfl⟩ := List.mem_map.mp hcategory
    obtain ⟨row, hrow, hcompiled⟩ := List.mem_filterMap.mp hnamed
    obtain ⟨regex, _, rfl⟩ := Option.map_eq_some_iff.mp hcompiled
    exact List.mem_map_of_mem hrow
  obtain ⟨hascii, hbrackets⟩ := hnames category hmem
  rw [toUppercase_ascii upper (List.all_eq_true.mp hascii)]
  exact hbrackets

/-- A path is masked and restored. -/
theorem pii_round_trip_path :
    (sanitize (fun c => [c]) pathWithAddress (.new pathScanner [7])).1 =
        .ok "[PII_PATH_0000000000000007]@example.com".toList ∧
      PiiRoundTrip (fun c => [c]) (.new pathScanner [7]) :=
  ⟨by decide +kernel,
    pii_round_trip _ pathScanner [7] (unambiguous_of_no_brackets (by decide +kernel)) [] _ rfl⟩

/-! ## A name that spells a placeholder -/

/-- The custom pattern is named after a placeholder of the built-in category `email`. -/
def bracketScanner : PiiScanner where
  defaultPatterns :=
    [⟨"email", spanOf "a@b.co".toList 0 6 (by decide) ⟨_, rfl⟩ ⟨_, rfl⟩, false⟩]
  customPatterns :=
    [("x[PII_EMAIL_0000000000000000]",
      spanOf "secret".toList 0 6 (by decide) ⟨_, rfl⟩ ⟨_, rfl⟩)]

/-- The table listed from the oldest entry on. -/
def oldestFirst : HashOrder where
  entries mappings := mappings.entries.reverse
  perm mappings := mappings.entries.reverse_perm

/-- The state after the address was sanitized, with the token `0`. -/
def afterAddress : QuerySanitizer :=
  (sanitize (fun c => [c]) "a@b.co".toList (.new bracketScanner [0, 1])).2

/-- The placeholder for `secret`, with the token `1`. -/
def bracketPlaceholder : Text := "[PII_X[PII_EMAIL_0000000000000000]_0000000000000001]".toList

/-- The placeholder of the address is replaced inside the other one, which then is not found. -/
theorem bracketed_name_breaks_round_trip :
    ¬ ∀ upper scanner tokens ops s, run (sanitizerStep upper) (.new scanner tokens) ops = some s →
      PiiRoundTrip upper s := by
  intro h
  have hround := h (fun c => [c]) bracketScanner [0, 1] [.sanitize "a@b.co".toList] afterAddress rfl
  have hok : (sanitize (fun c => [c]) "secret".toList afterAddress).1 = .ok bracketPlaceholder := by
    decide +kernel
  have hrestored := hround.text "secret".toList bracketPlaceholder
    (sanitize (fun c => [c]) "secret".toList afterAddress).2 (by decide) (Prod.ext hok rfl) [] _
    (List.not_mem_nil) rfl oldestFirst
  have hbroken : (desanitize oldestFirst bracketPlaceholder
      (sanitize (fun c => [c]) "secret".toList afterAddress).2).1 ≠ .ok "secret".toList := by
    decide +kernel
  exact hbroken (congrArg Prod.fst hrestored)

end Vellaveto.Shield
