/-
  EVERY LINE OF THE LOG (`load_entries` and `verify_chain` of `vellaveto-audit/src/verification.rs`), from the
  bytes of the file.

  PROGRAM.      The file is read line by line.  Blank lines, lines of more than 1 MiB and lines that are no
                entry are skipped, with a warning; a line that is not UTF-8 ends the load with an error.
                The chain is verified over the entries that remain.

  SPEC.         A report of `valid` accounts for every line of the file.

  CORRECTNESS.
    1. `valid_checks_every_entry`   a line is skipped for one of the three reasons, or its entry was checked
                                    in its place; the report counts the checked lines;
    2. `corrupt_line_reported_valid`   a line that is no entry is one of those reasons.

  `Files.lean` takes a file as the list of its lines; here the lines are cut from the bytes.
-/
import Vellaveto.Audit.Files
import Vellaveto.Lib.Percent

namespace Vellaveto.Audit

open Vellaveto.Lib

/-! ### The program -/

/-- A carriage return before the newline is dropped; the line stands in reverse. -/
def dropReturn : List UInt8 → List UInt8
  | 13 :: acc => acc
  | acc => acc

/-- The rest of `lines`, with the bytes of the line so far in reverse. -/
def linesLoop : List UInt8 → List UInt8 → List (List UInt8)
  | acc, [] => if acc.isEmpty then [] else [acc.reverse]
  | acc, b :: bs => if b = 10 then (dropReturn acc).reverse :: linesLoop [] bs else linesLoop (b :: acc) bs

/-- `BufReader::lines`: a last line without a newline is a line. -/
def fileLines (content : List UInt8) : List (List UInt8) := linesLoop [] content

variable {H : Type} (parse : String → Option AuditEntry)

/-- One round of the loop of `load_entries`; `parse` is `serde_json::from_str::<AuditEntry>`. -/
def lineEntry (line : List UInt8) : Except AuditError (Option AuditEntry) :=
  match utf8Decode line with
  | none => .error (.io "stream did not contain valid UTF-8")
  | some cs =>
    if cs.all isWhitespace then .ok none
    else if maxAuditLineSize < line.length then .ok none
    else .ok (parse (String.ofList cs))

/-- The loop of `load_entries`. -/
def lineEntries : List (List UInt8) → Except AuditError (List AuditEntry)
  | [] => .ok []
  | line :: rest =>
    match lineEntry parse line with
    | .error e => .error e
    | .ok entry =>
      match lineEntries rest with
      | .error e => .error e
      | .ok entries => .ok (entry.toList ++ entries)

/-- `load_entries`, from the bytes of the file. -/
def loadFile (file : Option (List UInt8)) : Except AuditError (List AuditEntry) :=
  match file with
  | none => .ok []
  | some content =>
    if maxAuditLogSize < content.length then
      .error (.validation ("Audit log too large (" ++ toString content.length ++ " bytes, max " ++
        toString maxAuditLogSize ++ " bytes). Use log rotation."))
    else lineEntries parse (fileLines content)

/-- `verify_chain`, from the bytes of the file. -/
def verifyFile (d : Digests H) (c : Canonical) (file : Option (List UInt8)) :
    Except AuditError ChainVerification :=
  match loadFile parse file with
  | .error e => .error e
  | .ok entries => verifyEntries d c entries

/-! ### The lines that are checked -/

/-- A line that is skipped: blank, too long, or no entry. -/
def Skipped (line : List UInt8) : Prop :=
  ∃ cs, utf8Decode line = some cs ∧
    (cs.all isWhitespace = true ∨ maxAuditLineSize < line.length ∨ parse (String.ofList cs) = none)

/-- A line with an entry, which is read. -/
def Holds (line : List UInt8) (entry : AuditEntry) : Prop :=
  ∃ cs, utf8Decode line = some cs ∧ cs.all isWhitespace = false ∧ line.length ≤ maxAuditLineSize ∧
    parse (String.ofList cs) = some entry

variable {parse}

theorem lineEntry_eq_none {line : List UInt8} (h : lineEntry parse line = .ok none) :
    Skipped parse line := by
  rw [lineEntry] at h
  split at h
  · cases h
  rename_i cs hcs
  refine ⟨cs, hcs, ?_⟩
  split at h
  · rename_i hblank
    exact .inl hblank
  split at h
  · rename_i hlong
    exact .inr (.inl hlong)
  · exact .inr (.inr (Except.ok.inj h))

theorem lineEntry_eq_some {line : List UInt8} {entry : AuditEntry}
    (h : lineEntry parse line = .ok (some entry)) : Holds parse line entry := by
  rw [lineEntry] at h
  split at h
  · cases h
  rename_i cs hcs
  split at h
  · cases h
  rename_i hblank
  split at h
  · cases h
  rename_i hlong
  exact ⟨cs, hcs, eq_false_of_ne_true hblank, Nat.not_lt.mp hlong, Except.ok.inj h⟩

/-- A load that comes to the end of the lines. -/
theorem lineEntries_cons_eq_ok {line : List UInt8} {rest : List (List UInt8)} {entries : List AuditEntry}
    (h : lineEntries parse (line :: rest) = .ok entries) :
    ∃ entry tail, lineEntry parse line = .ok entry ∧ lineEntries parse rest = .ok tail ∧
      entries = entry.toList ++ tail := by
  rw [lineEntries] at h
  split at h
  · cases h
  rename_i entry hentry
  split at h
  · cases h
  rename_i tail htail
  exact ⟨entry, tail, hentry, htail, (Except.ok.inj h).symm⟩

section Accounting

variable {d : Digests H} {c : Canonical}

/-- The report counts the entries. -/
theorem verifyLoop_entriesChecked {st : ChainState} {i : Nat} {entries : List AuditEntry}
    {v : ChainVerification} (h : verifyLoop d c st i entries = .ok v) (hv : v.valid = true) :
    v.entriesChecked = i + entries.length := by
  induction entries generalizing st i with
  | nil =>
    cases h
    rfl
  | cons entry rest ih =>
    rw [verifyLoop] at h
    split at h
    · cases h
    · cases h
      cases hv
    · rw [ih h, List.length_cons]
      omega

/-- How the lines of a file fare, from a state of the walk on: each is skipped, or its entry is accepted in
    the state after the entries of the lines before it. -/
inductive Accounted (parse : String → Option AuditEntry) (d : Digests H) (c : Canonical) :
    ChainState → List (List UInt8) → Nat → Prop where
  | nil (st : ChainState) : Accounted parse d c st [] 0
  | skipped {st : ChainState} {line : List UInt8} {rest : List (List UInt8)} {n : Nat}
      (hline : Skipped parse line) (hrest : Accounted parse d c st rest n) :
      Accounted parse d c st (line :: rest) n
  | checked {st : ChainState} {line : List UInt8} {entry : AuditEntry} {rest : List (List UInt8)} {n : Nat}
      (hline : Holds parse line entry) (haccepted : Accepted d c st entry)
      (hrest : Accounted parse d c (st.next entry) rest n) : Accounted parse d c st (line :: rest) (n + 1)

/-- By induction on the lines: what the walk says of the entries, it says of their lines. -/
theorem accounted_of_chainRun {lines : List (List UInt8)} {entries : List AuditEntry}
    {st st' : ChainState} (hload : lineEntries parse lines = .ok entries)
    (hrun : chainRun d c st entries = .ok (some st')) : Accounted parse d c st lines entries.length := by
  induction lines generalizing st entries with
  | nil =>
    cases hload
    exact .nil st
  | cons line rest ih =>
    obtain ⟨entry, tail, hentry, htail, rfl⟩ := lineEntries_cons_eq_ok hload
    cases entry with
    | none => exact .skipped (lineEntry_eq_none hentry) (ih htail hrun)
    | some entry =>
      obtain ⟨haccepted, hrest⟩ := (chainRun_cons d c).mp hrun
      exact .checked (lineEntry_eq_some hentry) haccepted (ih htail hrest)

end Accounting

/-- **A valid report accounts for every line that is an entry.**  The file is of the size that is read, each
    of its lines is skipped for one of the three reasons or its entry was checked after those of the lines
    before it, and `entries_checked` is the number of the checked lines. -/
theorem valid_checks_every_entry (parse : String → Option AuditEntry) (d : Digests H) (c : Canonical)
    (content : List UInt8) (v : ChainVerification)
    (hverify : verifyFile parse d c (some content) = .ok v) (hvalid : v.valid = true) :
    content.length ≤ maxAuditLogSize ∧
      Accounted parse d c .start (fileLines content) v.entriesChecked := by
  rw [verifyFile, loadFile] at hverify
  split at hverify
  · cases hverify
  rename_i entries hload
  split at hload
  · cases hload
  rename_i hsize
  refine ⟨Nat.not_lt.mp hsize, ?_⟩
  obtain ⟨st, hrun⟩ := (verifyEntries_valid_iff d c entries).mp ⟨v, hverify, hvalid⟩
  have hcount : v.entriesChecked = 0 + entries.length := verifyLoop_entriesChecked hverify hvalid
  rw [hcount, Nat.zero_add]
  exact accounted_of_chainRun hload hrun

/-! ### A line that is no entry -/

/-- An entry from before the chain. -/
def legacyEntry : AuditEntry :=
  ⟨"e", .new "t" "f" .null, .allow, "2026-01-01T00:00:00Z", .null, 0, none, none, none, none, none⟩

def legacyLine : String := plainJsonText (entryJson legacyEntry)

/-- What `serde_json` reads from the two lines below. -/
def parseLegacy (line : String) : Option AuditEntry := if line = legacyLine then some legacyEntry else none

/-- The line of the entry, and then one that is no JSON. -/
def corruptLog : List UInt8 := strBytes legacyLine ++ 10 :: strBytes "this is not valid json\n"

theorem valid_checks_every_entry_corrupt :
    corruptLog.length ≤ maxAuditLogSize ∧
      Accounted parseLegacy shortDigests plainCanonical .start (fileLines corruptLog) 1 :=
  valid_checks_every_entry parseLegacy shortDigests plainCanonical corruptLog ⟨true, 1, none⟩
    (by decide +kernel) rfl

/-- **A valid report with a line that was never checked**: the last line of the file is not blank, and is no
    entry. -/
theorem corrupt_line_reported_valid :
    ReportsValid (verifyFile parseLegacy shortDigests plainCanonical (some corruptLog)) ∧
      ∃ line, (fileLines corruptLog).getLast? = some line ∧
        (∃ cs, utf8Decode line = some cs ∧ cs.all isWhitespace = false) ∧
        ∀ entry, ¬ Holds parseLegacy line entry := by
  refine ⟨by decide +kernel, strBytes "this is not valid json", by decide +kernel,
    ⟨"this is not valid json".toList, by decide +kernel, by decide +kernel⟩, ?_⟩
  rintro entry ⟨cs, hcs, -, -, hparse⟩
  have htext : utf8Decode (strBytes "this is not valid json") = some "this is not valid json".toList := by
    decide +kernel
  obtain rfl : "this is not valid json".toList = cs := Option.some.inj (htext.symm.trans hcs)
  have hnone : parseLegacy "this is not valid json" = none := by decide +kernel
  cases hnone.symm.trans hparse

end Vellaveto.Audit
