/-
  READING ACCEPTED ENTRIES BACK (`log_entry` of `vellaveto-audit/src/logger.rs`, `load_entries` of
  `verification.rs`).

  PROGRAM.      `log_entry` bounds the parts of an entry one by one: the JSON text of the parameters, that of
                the metadata, the number of targets, each path and domain.  Names, addresses and reasons
                have no bound.  `load_entries` skips every line of more than 1 MiB.

  SPEC.         The line of an accepted entry is read back as that entry.

  CORRECTNESS.
    1. `textSize_object`           the size of an object is the sum of its members, with their names, escapes
                                   and separators;
    2. `textSize_entry`            so is the size of a line, with the hash that is put in last;
    3. `accepted_read_back_iff`    the line is read back exactly if that sum is at most 1 MiB, and the parameters
                                   and the metadata survive the way through their text;
    4. `long_name_skipped`         an accepted entry that is not.
-/
import Vellaveto.Audit.CleanRun
import Vellaveto.Audit.RotationSize
import Vellaveto.JsonText

namespace Vellaveto.Audit

open Vellaveto.Lib
open Vellaveto.Json (jsonText literal escaped escapeChar moreMembers)

variable {H T : Type}

/-! ### Sizes -/

section Sizes

variable (number : JsonNumber → List Char)

/-- The bytes of the text of a value. -/
def textSize (v : Json) : Nat := String.utf8Len (jsonText number v)

/-- The bytes of a member: its name, the colon and the value. -/
def memberSize (m : String × Json) : Nat := String.utf8Len (literal m.1) + 1 + textSize number m.2

/-- The bytes of some members, each with the comma or brace behind it. -/
def membersSize (ms : List (String × Json)) : Nat := (ms.map fun m => memberSize number m + 1).sum

@[simp] theorem membersSize_nil : membersSize number [] = 0 := rfl

@[simp] theorem membersSize_cons (m : String × Json) (ms : List (String × Json)) :
    membersSize number (m :: ms) = memberSize number m + 1 + membersSize number ms := List.sum_cons

@[simp] theorem membersSize_append (ms ns : List (String × Json)) :
    membersSize number (ms ++ ns) = membersSize number ms + membersSize number ns := by
  simp [membersSize]

theorem utf8Len_moreMembers (ms : List (String × Json)) :
    String.utf8Len (moreMembers number ms) = 1 + membersSize number ms := by
  induction ms with
  | nil => rfl
  | cons m ms ih =>
    obtain ⟨k, v⟩ := m
    rw [Json.moreMembers_cons, membersSize_cons]
    simp only [String.utf8Len_cons, String.utf8Len_append, ih, memberSize, textSize]
    have hcomma : (',' : Char).utf8Size = 1 := by decide
    have hcolon : (':' : Char).utf8Size = 1 := by decide
    omega

/-- **The size of an object.** -/
theorem textSize_object {ms : List (String × Json)} (h : ms ≠ []) :
    textSize number (.object ms) = 1 + membersSize number ms := by
  cases ms with
  | nil => exact absurd rfl h
  | cons m ms =>
    obtain ⟨k, v⟩ := m
    rw [textSize, Json.jsonText_object_cons, membersSize_cons]
    simp only [String.utf8Len_cons, String.utf8Len_append, utf8Len_moreMembers, memberSize, textSize]
    have hbrace : ('\x7b' : Char).utf8Size = 1 := by decide
    have hcolon : (':' : Char).utf8Size = 1 := by decide
    omega

end Sizes

/-! ### The property and the condition -/

/-- The members of an entry without an envelope. -/
def entryMembers (e : AuditEntry) : List (String × Json) :=
  [("id", .string e.id), ("action", actionJson e.action), ("verdict", verdictJson e.verdict),
      ("timestamp", .string e.timestamp), ("metadata", e.metadata),
      ("sequence", .number (.posInt e.sequence))] ++
    optionalMember "entry_hash" e.entryHash ++ optionalMember "prev_hash" e.prevHash ++
    optionalMember "commitment" e.commitment ++ optionalMember "tenant_id" e.tenantId

/-- `serde_json` on the entries that `log_entry` writes.  A line is the compact text of its entry; and it is
    read as that entry exactly if the two values that can be anything survive (`survives depth v`): strings
    and integers always do, a float may be rounded, and nesting has a limit. -/
structure SerdeLaws (texts : Texts T) (number : JsonNumber → List Char) (survives : Nat → Json → Prop) :
    Prop where
  len : ∀ e, e.acisEnvelope = none →
    texts.len (texts.entryLine e) = textSize number (.object (entryMembers e))
  parse : ∀ e, e.acisEnvelope = none →
    (texts.parseEntry (texts.entryLine e) = some e ↔ survives 2 e.action.parameters ∧ survives 1 e.metadata)

/-- **The property**: in whatever log the line stands, `load_entries` returns the entry for it. -/
def ReadBack (texts : Texts T) (e : AuditEntry) : Prop :=
  ∀ before behind, texts.readEntries (before ++ texts.entryLine e :: behind) =
    texts.readEntries before ++ e :: texts.readEntries behind

/-- The bytes that the hash adds to a line: its member has 79, and a comma. -/
def hashMemberSize : Nat := 80

/-- **The condition** on an entry before it is hashed: braces, members and hash have at most 1 MiB, and its
    parameters and metadata survive. -/
structure Fits (number : JsonNumber → List Char) (survives : Nat → Json → Prop) (e : AuditEntry) : Prop where
  size : 1 + membersSize number (entryMembers e) + hashMemberSize ≤ maxAuditLineSize
  parameters : survives 2 e.action.parameters
  metadata : survives 1 e.metadata

/-! ### The size of a line -/

section Lines

variable {number : JsonNumber → List Char} {survives : Nat → Json → Prop} {texts : Texts T} {e : AuditEntry}

theorem utf8Len_hexByte (b : UInt8) : String.utf8Len (escaped (hexByte b)) = 2 := by
  have hdigit : ∀ n < 16, escapeChar (hexChar n) = [hexChar n] ∧ (hexChar n).utf8Size = 1 := by decide
  have hhi := hdigit (b.toNat / 16) (by have := b.toNat_lt; omega)
  have hlo := hdigit (b.toNat % 16) (by omega)
  show String.utf8Len (escapeChar _ ++ (escapeChar _ ++ [])) = 2
  rw [hhi.1, hlo.1]
  simp [hhi.2, hlo.2]

/-- Hexadecimal digits need no escapes. -/
theorem utf8Len_literal_hexEncode (bs : List UInt8) :
    String.utf8Len (literal (hexEncode bs)) = 2 * bs.length + 2 := by
  have hdigits : String.utf8Len (escaped (bs.flatMap hexByte)) = 2 * bs.length := by
    induction bs with
    | nil => rfl
    | cons b bs ih =>
      have hcons : escaped ((b :: bs).flatMap hexByte) = escaped (hexByte b) ++ escaped (bs.flatMap hexByte) := by
        rw [List.flatMap_cons, escaped, List.flatMap_append]
        rfl
      rw [hcons, String.utf8Len_append, utf8Len_hexByte, ih, List.length_cons]
      omega
  have hquote : ('\"' : Char).utf8Size = 1 := by decide
  rw [literal, hexEncode, String.toList_ofList, String.utf8Len_cons, String.utf8Len_append, hdigits]
  simp only [String.utf8Len_cons, String.utf8Len_nil, hquote]

/-- The member of the hash. -/
theorem memberSize_hash {d : Digests H} (hsize : d.FixedSize) (h : H) :
    memberSize number ("entry_hash", .string (d.encodeHashHex h)) + 1 = hashMemberSize := by
  have hname : String.utf8Len (literal "entry_hash") = 12 := by decide
  show String.utf8Len (literal "entry_hash") + 1 + String.utf8Len (literal (hexEncode (d.bytes h))) + 1 = 80
  rw [hname, utf8Len_literal_hexEncode, hsize h]
  rfl

/-- **The size of a line**, from the entry before it is hashed. -/
theorem textSize_entry {d : Digests H} (hsize : d.FixedSize) (hnone : e.entryHash = none) (h : H) :
    textSize number (.object (entryMembers { e with entryHash := some (d.encodeHashHex h) })) =
      1 + membersSize number (entryMembers e) + hashMemberSize := by
  rw [textSize_object number (by simp [entryMembers])]
  have hmember : memberSize number ("entry_hash", .string (d.encodeHashHex h)) + 1 = hashMemberSize :=
    memberSize_hash hsize h
  simp only [entryMembers, membersSize_append, hnone]
  have hhash : membersSize number (optionalMember "entry_hash" (some (d.encodeHashHex h))) = hashMemberSize := by
    rw [← hmember]
    rfl
  have hno : membersSize number (optionalMember "entry_hash" none) = 0 := rfl
  omega

theorem readEntries_line (texts : Texts T) (e : AuditEntry) :
    texts.readEntries [texts.entryLine e] =
      if maxAuditLineSize < texts.len (texts.entryLine e) then []
      else (texts.parseEntry (texts.entryLine e)).toList := by
  by_cases hlen : maxAuditLineSize < texts.len (texts.entryLine e)
  · simp [Texts.readEntries, hlen]
  · cases hparse : texts.parseEntry (texts.entryLine e) with
    | none => simp [Texts.readEntries, hlen, hparse, texts.blank_entryLine]
    | some e' => simp [Texts.readEntries, hlen, hparse, texts.blank_entryLine]

/-- An entry is read back exactly if its line can be. -/
theorem readBack_iff : ReadBack texts e ↔ texts.Readable e := by
  constructor
  · intro h
    have hone : texts.readEntries [texts.entryLine e] = [e] := h [] []
    rw [readEntries_line] at hone
    split at hone
    · cases hone
    · rename_i hlen
      refine ⟨Nat.not_lt.mp hlen, ?_⟩
      exact Option.toList_eq_singleton_iff.mp hone
  · intro h before behind
    have hsplit : before ++ texts.entryLine e :: behind = before ++ ([texts.entryLine e] ++ behind) := rfl
    rw [hsplit, readEntries_append, readEntries_append, readEntries_readable h]
    rfl

/-- The entry is read back exactly if it fits before it is hashed. -/
theorem readBack_hashed_iff {d : Digests H} (hserde : SerdeLaws texts number survives)
    (hsize : d.FixedSize) (hnone : e.entryHash = none) (hacis : e.acisEnvelope = none) (h : H) :
    ReadBack texts { e with entryHash := some (d.encodeHashHex h) } ↔ Fits number survives e := by
  have hlen := hserde.len { e with entryHash := some (d.encodeHashHex h) } hacis
  have hparse := hserde.parse { e with entryHash := some (d.encodeHashHex h) } hacis
  rw [textSize_entry hsize hnone] at hlen
  rw [readBack_iff]
  constructor
  · intro hread
    have hbound := hread.len
    rw [hlen] at hbound
    obtain ⟨hparameters, hmetadata⟩ := hparse.mp hread.parse
    exact ⟨hbound, hparameters, hmetadata⟩
  · intro hfits
    refine ⟨?_, hparse.mpr ⟨hfits.parameters, hfits.metadata⟩⟩
    rw [hlen]
    exact hfits.size

end Lines

/-- **Accepted entries are read back** exactly if they fit: for every action, verdict and metadata that
    `log_entry` accepts, in any state and with any configuration. -/
theorem accepted_read_back_iff (env : Env H T) (cfg : Config) {number : JsonNumber → List Char}
    {survives : Nat → Json → Prop} (hserde : SerdeLaws env.texts number survives)
    (hsize : env.digests.FixedSize) (io : EntryIo) (action : Action) (verdict : Verdict) (metadata : Json)
    (s s' : AuditLogger H T)
    (haccepts : logEntry env cfg io ⟨action, verdict, metadata, none⟩ s = (.ok (), s')) :
    let base := entryBase env cfg s ⟨io, ⟨action, verdict, metadata, none⟩⟩
    let draft := nextEntry env io ⟨action, verdict, metadata, none⟩ base
    ∃ hash, s'.lines = base.lines ++ [env.texts.entryLine { draft with entryHash := some hash }] ∧
      (ReadBack env.texts { draft with entryHash := some hash } ↔ Fits number survives draft) := by
  intro base draft
  have hstep : okStep env cfg s ⟨io, ⟨action, verdict, metadata, none⟩⟩ = some s' := by
    rw [okStep, haccepts]
  obtain ⟨hash, hhash, hlines, -⟩ := okStep_fields hstep
  refine ⟨hash, hlines, ?_⟩
  obtain ⟨h, rfl⟩ : ∃ h, hash = env.digests.encodeHashHex h := by
    rw [CallHash, computeEntryHash] at hhash
    split at hhash
    · cases hhash
    · exact ⟨_, (Except.ok.inj hhash).symm⟩
  have hfields : ∀ req, req.acisEnvelope = none →
      (nextEntry env io req base).entryHash = none ∧ (nextEntry env io req base).acisEnvelope = none := by
    intro req hreq
    rw [nextEntry, clampTimestamp]
    split
    · exact ⟨rfl, by rw [draftEntry, hreq]; rfl⟩
    · exact ⟨rfl, by rw [draftEntry, hreq]; rfl⟩
  obtain ⟨hnone, hacis⟩ := hfields ⟨action, verdict, metadata, none⟩ rfl
  exact readBack_hashed_iff hserde hsize hnone hacis h

/-! ### A long name -/

/-- Plain lines with the length of their JSON text. -/
def serdeTexts : Texts PlainLine :=
  { plainTexts with
    len := fun line =>
      match line with
      | .entry e => textSize Json.plainNumber (.object (entryMembers e))
      | line => line.text.utf8ByteSize }

/-- Without floats everything survives. -/
theorem serdeTexts_laws : SerdeLaws serdeTexts Json.plainNumber (fun _ _ => True) where
  len _ _ := rfl
  parse e _ := by
    show some e = some e ↔ _
    simp

/-- An entry without parameters and metadata. -/
theorem accepted_read_back_plain :
    let env := { plainEnv (Digests.ofSha256 firstBytes) with texts := serdeTexts }
    ∃ e s', logEntry env plainConfig (plainCall "1" "30" none).io ⟨.new "t" "f" .null, .allow, .object [], none⟩
        (AuditLogger.new plainConfig Disk.empty) = (.ok (), s') ∧
      s'.lines = [env.texts.entryLine e] ∧ ReadBack env.texts e := by
  intro env
  have hok : (logEntry env plainConfig (plainCall "1" "30" none).io ⟨.new "t" "f" .null, .allow, .object [], none⟩
      (AuditLogger.new plainConfig Disk.empty)).1 = .ok () := by decide +kernel
  obtain ⟨hash, hlines, hiff⟩ := accepted_read_back_iff env plainConfig serdeTexts_laws (fixedSize_ofSha256 _) _ _ _ _
    _ _ (Prod.ext hok rfl)
  refine ⟨_, _, Prod.ext hok rfl, hlines, hiff.mpr ⟨?_, trivial, trivial⟩⟩
  decide +kernel

/-- A name longer than a line may be. -/
def longName : String := String.ofList (List.replicate (maxAuditLineSize + 1) 'a')

/-- What a call with an action that has only a name does to an empty log without a Merkle tree. -/
theorem logEntry_name (d : Digests H) {tool : String} (htool : hasDangerousChars tool = false) :
    let env := plainEnv d
    let cfg := { plainConfig with merkle := none }
    ∃ e s', logEntry env cfg (plainCall "1" "30" none).io ⟨.new tool "f" .null, .allow, .object [], none⟩
        (AuditLogger.new cfg Disk.empty) = (.ok (), s') ∧
      s'.lines = [env.texts.entryLine e] ∧ e.action.tool = tool := by
  intro env cfg
  have hvalid : validateRequest env ⟨.new tool "f" .null, .allow, .object [], none⟩ = .ok () :=
    validateRequest_name d htool
  have htoolOf : ∀ hash, (hashedEntry env (plainCall "1" "30" none).io
      ⟨.new tool "f" .null, .allow, .object [], none⟩ (AuditLogger.new cfg Disk.empty) hash).action.tool =
        tool := by
    intro hash
    rw [action_hashedEntry]
    rfl
  simp only [logEntry, hvalid]
  exact ⟨_, _, rfl, rfl, htoolOf _⟩

/-- **A long name is accepted and its entry skipped.** -/
theorem long_name_skipped :
    let env := plainEnv (Digests.ofSha256 firstBytes)
    let cfg := { plainConfig with merkle := none }
    ∃ e s', logEntry env cfg (plainCall "1" "30" none).io ⟨.new longName "f" .null, .allow, .object [], none⟩
        (AuditLogger.new cfg Disk.empty) = (.ok (), s') ∧
      s'.lines = [env.texts.entryLine e] ∧ env.texts.readEntries s'.lines = [] ∧ ¬ ReadBack env.texts e := by
  intro env cfg
  obtain ⟨e, s', hlog, hlines, htool⟩ :=
    logEntry_name (Digests.ofSha256 firstBytes) (hasDangerousChars_replicate (maxAuditLineSize + 1))
  have hlen : maxAuditLineSize < env.texts.len (env.texts.entryLine e) := by
    have hline := len_plain_entryLine e
    rw [htool, utf8ByteSize_replicate] at hline
    exact hline
  refine ⟨e, s', hlog, hlines, ?_, fun hread => ?_⟩
  · rw [hlines, readEntries_line, if_pos hlen]
  · exact absurd (readBack_iff.mp hread).len (Nat.not_le.mpr hlen)

end Vellaveto.Audit
