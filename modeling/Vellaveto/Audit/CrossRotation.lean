/-
  VERIFICATION ACROSS ROTATIONS (`verify_across_rotations` of `vellaveto-audit/src/rotation.rs`,
  `verified_rotation_manifest.rs`).

  PROGRAM.      The verifier reads the manifest line by line: each line names the hash of the line
                before it, is signed, and names a rotated file with the number of its entries and the
                hash of the last one.  A file that is there is read: its entries are counted, the hash of
                the last one is compared, and their hashes are chained from an absent one on; an entry
                without a hash is passed over.  The model is of a build without `pqc-hybrid`.

  SPEC.         With the manifest that the logger has written, a file that passes holds, in the fields
                that are hashed, the entries that were in the log when it was rotated out.

  CORRECTNESS.  From the last hash backwards the entries of the file are those of the log, for as long as
                the log goes on; where the log starts a new segment, the file may go on with entries that
                have no hash.
    1. `looseChain_sound`         a file with no more entries than the log, and its last hash;
    2. `fileFault_none`           what a file has passed;
    3. `archived_step`            the manifest records what the runs of the logger rotate out;
    4. `rotated_files_sound`      so the files are sound, if each log was one segment;
    5. `forged_segment_accepted`  a log of two segments, and a forged file.
-/
import Vellaveto.Audit.Checkpoints
import Vellaveto.Audit.Crash

namespace Vellaveto.Audit

open Vellaveto.Lib

variable {H T : Type}

def maxManifestSize : Nat := 10 * 1024 * 1024
def maxManifestLineSize : Nat := 64 * 1024

def rotationStartHashLinkValid (claimedStartHashIsEmpty hasPreviousTailHash
    claimedStartHashMatchesPreviousTail : Bool) : Bool :=
  claimedStartHashIsEmpty || !hasPreviousTailHash || claimedStartHashMatchesPreviousTail

def rotatedFileReferenceValid (hasTraversal isAbsolute isBareFilename isEmpty : Bool) : Bool :=
  !hasTraversal && !isAbsolute && isBareFilename && !isEmpty

def missingRotatedFileAllowed (filesChecked : Nat) : Bool := filesChecked == 0

/-! ## Names and files -/

/-- The file name is accepted: a bare one. -/
def rotatedFileValid (name : String) : Bool :=
  let components := name.toList.splitOn '/'
  let hasTraversal := "..".toList ∈ components
  let isAbsolute := name.toList.head? = some '/'
  let isBareFilename := '/' ∉ name.toList ∧ name ≠ "" ∧ name ≠ "." ∧ name ≠ ".."
  rotatedFileReferenceValid hasTraversal isAbsolute isBareFilename (name = "")

/-- `Path::join` on the directory of the log, for a bare file name. -/
def joinPath (dir name : String) : String :=
  if dir = "" then name
  else if dir.toList.getLast? = some '/' then dir ++ name
  else dir ++ "/" ++ name

/-- The text file of that name in the directory of the log. -/
def Disk.fileNamed (cfg : Config) (disk : Disk T) (name : String) : Option (List T) :=
  if name = cfg.stem ++ cfg.extension then disk.log
  else if name = cfg.stem ++ ".rotation-manifest.jsonl" then disk.manifest
  else if name = cfg.stem ++ ".checkpoints.jsonl" then disk.checkpoints
  else disk.rotated.lookup name

/-- The entries of a rotated file.  A long line is read here. -/
def Texts.fileEntries (texts : Texts T) (lines : List T) : List AuditEntry :=
  lines.filterMap fun line => if texts.blank line then none else texts.parseEntry line

/-- The hashes of a rotated file, from entry `j` on: the reason if the chain is broken. -/
def internalChain (d : Digests H) (c : Canonical) (path : String) (j : Nat)
    (prevHash : Option String) : List AuditEntry → Except AuditError (Option String)
  | [] => .ok none
  | ae :: rest =>
    if ae.prevHash ≠ prevHash then
      .ok (some ("Internal chain broken at entry " ++ toString j ++ " in " ++ path))
    else
      match ae.entryHash with
      | none => internalChain d c path (j + 1) prevHash rest
      | some eh =>
        match computeEntryHash d c ae with
        | .error e => .error e
        | .ok computed =>
          if eh ≠ computed then
            .ok (some ("Hash mismatch at entry " ++ toString j ++ " in " ++ path ++
              " (tampering detected)"))
          else internalChain d c path (j + 1) (some eh) rest

/-- One rotated file: the reason if it does not pass. -/
def fileFault (env : Env H T) (path : String) (expectedTailHash : String) (expectedCount : Nat)
    (lines : List T) : Except AuditError (Option String) :=
  if maxAuditLogSize < env.texts.fileLen lines then
    .ok (some ("Rotated file exceeds size limit (" ++ toString (env.texts.fileLen lines) ++
      " bytes, max " ++ toString maxAuditLogSize ++ " bytes): " ++ path))
  else
    let entries := env.texts.fileEntries lines
    if entries.length ≠ expectedCount then
      .ok (some ("Entry count mismatch in " ++ path ++ ": expected " ++ toString expectedCount ++
        ", got " ++ toString entries.length))
    else
      let actualTailHash := (entries.getLast?.bind (·.entryHash)).getD ""
      if actualTailHash ≠ expectedTailHash then
        .ok (some ("Tail hash mismatch in " ++ path ++ ": expected " ++ expectedTailHash ++ ", got " ++
          actualTailHash))
      else internalChain env.digests env.canonical path 0 none entries

/-! ## The manifest -/

/-- A text field of a manifest line, empty if it is absent. -/
def textField (entry : Json) (key : String) : String := ((entry.get key).bind Json.asStr).getD ""

/-- The manifest entry that was signed. -/
def unsignedManifest (entry : Json) : Json :=
  ["signature", "verifying_key", "pqc_signature", "pqc_verifying_key", "signature_version"].foldl
    (fun v key => removeMember key v) entry

/-- The signature of a manifest line: the reason if it does not pass.  With a trusted key every line
    must be signed; without one a signature is still checked. -/
def signatureFault (env : Env H T) (ed : Ed25519) (cfg : Config) (i : Nat) (entry : Json) :
    Option String :=
  let named (text : String) : Option String := some ("Manifest entry " ++ toString i ++ text)
  match (entry.get "signature").bind Json.asStr with
  | none =>
    if cfg.trustedVerifyingKey.isSome then named " is unsigned but signing is required" else none
  | some sigHex =>
    let vkHex := textField entry "verifying_key"
    if cfg.trustedVerifyingKey.any (· ≠ vkHex) then named " signed by untrusted key"
    else
      match env.canonical.json (unsignedManifest entry) with
      | .error _ => named " failed to canonicalize"
      | .ok canonical =>
        match hexDecode vkHex with
        | .error _ => named " has invalid verifying key hex"
        | .ok vk =>
          match hexDecode sigHex with
          | .error _ => named " has invalid signature hex"
          | .ok sig =>
            let digest (domainSeparated : Bool) : List UInt8 :=
              env.digests.bytes (env.digests.manifestDigest canonical domainSeparated)
            if vk.length ≠ 32 then named " verifying key wrong length"
            else if sig.length ≠ 64 then named " signature wrong length"
            else if (ed.keyError vk).isSome then named " has invalid verifying key"
            else if !ed.verify vk (digest true) sig && !ed.verify vk (digest false) sig then
              named " Ed25519 signature invalid"
            else if 2 ≤ (((entry.get "signature_version").bind Json.asU64).map UInt64.toNat).getD 1 then
              named " v2 requires pqc-hybrid feature to verify"
            else none

/-- What the verifier carries from line to line. -/
structure ManifestState (T : Type) where
  filesChecked : Nat
  previousLine : Option T
  previousTailHash : Option String

def ManifestState.start : ManifestState T := ⟨0, none, none⟩

/-- One line of the manifest that is not blank: the reason if it does not pass, or the next state. -/
def manifestStep (env : Env H T) (ed : Ed25519) (cfg : Config) (dir : String) (disk : Disk T) (i : Nat)
    (st : ManifestState T) (line : T) : Except AuditError (Except String (ManifestState T)) :=
  if maxManifestLineSize < env.texts.len line then
    .ok (.error ("Manifest entry " ++ toString i ++ " exceeds max line size (" ++
      toString (env.texts.len line) ++ " > " ++ toString maxManifestLineSize ++ ")"))
  else
    match env.texts.parseJson line with
    | .error e => .error (.serialization e)
    | .ok entry =>
      let claimedPrevious := textField entry "previous_hash"
      let expectedPrevious := (st.previousLine.map env.lineHash).getD "genesis"
      if claimedPrevious ≠ expectedPrevious then
        .ok (.error ("Manifest entry " ++ toString i ++ " hash chain broken: expected previous_hash " ++
          expectedPrevious ++ ", got " ++ claimedPrevious))
      else
        match signatureFault env ed cfg i entry with
        | some reason => .ok (.error reason)
        | none =>
          let claimedStartHash := textField entry "start_hash"
          if !rotationStartHashLinkValid (claimedStartHash = "") st.previousTailHash.isSome
              (st.previousTailHash = some claimedStartHash) then
            .ok (.error ("Cross-rotation linkage broken at segment " ++ toString i ++ ": start_hash '" ++
              claimedStartHash ++ "' does not match previous tail_hash '" ++
              st.previousTailHash.getD "" ++ "'"))
          else
            let rotatedFile := textField entry "rotated_file"
            let expectedTailHash := textField entry "tail_hash"
            let expectedCount := (((entry.get "entry_count").bind Json.asU64).map UInt64.toNat).getD 0
            if !rotatedFileValid rotatedFile then
              .ok (.error ("Rotated file path traversal detected: " ++ rotatedFile))
            else
              let path := joinPath dir rotatedFile
              match disk.fileNamed cfg rotatedFile with
              | none =>
                -- only the oldest files may be missing: they are the ones that are pruned
                if !missingRotatedFileAllowed st.filesChecked then
                  .ok (.error ("Rotated file missing (not pruned — gap in sequence): " ++ path))
                else .ok (.ok ⟨st.filesChecked, some line, some expectedTailHash⟩)
              | some lines =>
                match fileFault env path expectedTailHash expectedCount lines with
                | .error e => .error e
                | .ok (some reason) => .ok (.error reason)
                | .ok none => .ok (.ok ⟨st.filesChecked + 1, some line, some expectedTailHash⟩)

/-- The loop over the lines, from number `i` on. -/
def manifestLoop (env : Env H T) (ed : Ed25519) (cfg : Config) (dir : String) (disk : Disk T) (i : Nat)
    (st : ManifestState T) : List T → Except AuditError RotationVerification
  | [] => .ok ⟨true, st.filesChecked, none⟩
  | line :: rest =>
    if env.texts.blank line then manifestLoop env ed cfg dir disk (i + 1) st rest
    else
      match manifestStep env ed cfg dir disk i st line with
      | .error e => .error e
      | .ok (.error reason) => .ok ⟨false, i, some reason⟩
      | .ok (.ok st') => manifestLoop env ed cfg dir disk (i + 1) st' rest

/-- `verify_across_rotations`, with the directory of the log. -/
def verifyAcrossRotations (env : Env H T) (ed : Ed25519) (cfg : Config) (dir : String) (disk : Disk T) :
    Except AuditError RotationVerification :=
  match disk.manifest with
  | none => .ok ⟨true, 0, none⟩
  | some lines =>
    if maxManifestSize < env.texts.fileLen lines then
      .error (.io ("Rotation manifest file exceeds maximum size (" ++
        toString (env.texts.fileLen lines) ++ " > " ++ toString maxManifestSize ++ ")"))
    else manifestLoop env ed cfg dir disk 0 .start lines

/-- The rotated files are found to be valid. -/
def RotationsValid (r : Except AuditError RotationVerification) : Prop :=
  ∃ v, r = .ok v ∧ v.valid = true

instance (r : Except AuditError RotationVerification) : Decidable (RotationsValid r) :=
  match r with
  | .error _ => isFalse fun ⟨_, h, _⟩ => by cases h
  | .ok v => decidable_of_iff (v.valid = true)
      ⟨fun h => ⟨v, rfl, h⟩, fun ⟨_, h, hv⟩ => Except.ok.inj h ▸ hv⟩

/-! ## What a file has passed -/

/-- The entries are linked from `prev` to `head`; those without a hash are passed over. -/
def LooseChain (d : Digests H) (c : Canonical) (prev : Option String) :
    List AuditEntry → Option String → Prop
  | [], head => head = prev
  | e :: es, head =>
    e.prevHash = prev ∧
      match e.entryHash with
      | none => LooseChain d c prev es head
      | some hash => computeEntryHash d c e = .ok hash ∧ LooseChain d c (some hash) es head

section File

variable {d : Digests H} {c : Canonical} {prev head : Option String} {file : List AuditEntry}

theorem looseChain_of_internalChain {path : String} {j : Nat}
    (h : internalChain d c path j prev file = .ok none) : ∃ head, LooseChain d c prev file head := by
  induction file generalizing prev j with
  | nil => exact ⟨prev, rfl⟩
  | cons e es ih =>
    rw [internalChain] at h
    split at h
    · cases h
    rename_i hprev
    have hprev : e.prevHash = prev := not_not.mp hprev
    cases hhash : e.entryHash with
    | none =>
      rw [hhash] at h
      obtain ⟨head, hrest⟩ := ih h
      refine ⟨head, hprev, ?_⟩
      rw [hhash]
      exact hrest
    | some hash =>
      rw [hhash] at h
      dsimp only at h
      split at h
      · cases h
      rename_i computed hcomputed
      split at h
      · cases h
      rename_i heq
      obtain rfl : hash = computed := not_not.mp heq
      obtain ⟨head, hrest⟩ := ih h
      refine ⟨head, hprev, ?_⟩
      rw [hhash]
      exact ⟨hcomputed, hrest⟩

/-- The last entry of a chain: it has no hash and changes nothing, or it is the head. -/
theorem looseChain_concat {f : AuditEntry} (h : LooseChain d c prev (file ++ [f]) head) :
    ∃ mid, LooseChain d c prev file mid ∧ f.prevHash = mid ∧
      ((f.entryHash = none ∧ head = mid) ∨
        ∃ hash, f.entryHash = some hash ∧ computeEntryHash d c f = .ok hash ∧ head = some hash) := by
  induction file generalizing prev with
  | nil =>
    obtain ⟨hprev, hrest⟩ := h
    refine ⟨prev, rfl, hprev, ?_⟩
    cases hhash : f.entryHash with
    | none =>
      rw [hhash] at hrest
      exact .inl ⟨rfl, hrest⟩
    | some hash =>
      rw [hhash] at hrest
      exact .inr ⟨hash, rfl, hrest.1, hrest.2⟩
  | cons e es ih =>
    obtain ⟨hprev, hrest⟩ := h
    cases hhash : e.entryHash with
    | none =>
      rw [hhash] at hrest
      obtain ⟨mid, hmid, hlast⟩ := ih hrest
      refine ⟨mid, ⟨hprev, ?_⟩, hlast⟩
      rw [hhash]
      exact hmid
    | some hash =>
      rw [hhash] at hrest
      obtain ⟨mid, hmid, hlast⟩ := ih hrest.2
      refine ⟨mid, ⟨hprev, ?_⟩, hlast⟩
      rw [hhash]
      exact ⟨hrest.1, hmid⟩

/-- A log of one segment: every entry is hashed, and linked to the one before it. -/
structure OneSegment (d : Digests H) (c : Canonical) (log : List AuditEntry) : Prop where
  hashed : ∀ e ∈ log, ∃ hash, e.entryHash = some hash ∧ computeEntryHash d c e = .ok hash
  linked : log.IsChain fun a b => b.prevHash = a.entryHash

/-- The sizes of all entries fit into memory, and the hashes of an entry of the log and of one of the
    file do not collide. -/
def NoCollisions (d : Digests H) (c : Canonical) (log file : List AuditEntry) : Prop :=
  ∀ e ∈ log, ∀ f ∈ file, e.Fits c ∧ f.Fits c ∧ Distinguishes d c e f

theorem computeEntryHash_ne_empty (hbytes : ∀ bs, d.bytes (d.sha256 bs) ≠ []) {e : AuditEntry}
    {hash : String} (h : computeEntryHash d c e = .ok hash) : hash ≠ "" := by
  obtain ⟨bs, -, rfl⟩ := computeEntryHash_eq_ok.mp h
  rw [Digests.encodeHashHex]
  cases hcons : d.bytes (d.sha256 bs) with
  | nil => exact absurd hcons (hbytes bs)
  | cons b rest => exact hexEncode_cons_ne_empty b rest

/-- **From the last hash backwards.**  A file with no more entries than a log of one segment, and with
    its last hash, has the entries of the log. -/
theorem looseChain_sound (hbytes : ∀ bs, d.bytes (d.sha256 bs) ≠ []) {log : List AuditEntry}
    (hlog : OneSegment d c log) {last : AuditEntry} (hlast : log.getLast? = some last)
    (hfile : LooseChain d c none file last.entryHash) (hlen : file.length ≤ log.length)
    (hno : NoCollisions d c log file) :
    file.length = log.length ∧ file.map (·.covered) = log.map (·.covered) := by
  induction file using List.reverseRecOn generalizing log last with
  | nil =>
    obtain ⟨hash, hhash, -⟩ := hlog.hashed last (List.mem_of_getLast? hlast)
    have hnone : last.entryHash = none := hfile
    rw [hhash] at hnone
    cases hnone
  | append_singleton front f ih =>
    obtain ⟨init, rfl⟩ : ∃ init, log = init ++ [last] := List.getLast?_eq_some_iff.mp hlast
    obtain ⟨hash, hhash, hcomputed⟩ := hlog.hashed last (by simp)
    have hnofront : ∀ log', log' ⊆ init ++ [last] → NoCollisions d c log' front :=
      fun log' hsub e he x hx => hno e (hsub he) x (List.mem_append_left _ hx)
    rw [List.length_append, List.length_singleton] at hlen
    obtain ⟨mid, hfront, hprev, ⟨-, hhead⟩ | ⟨hash', -, hcomputed', hhead⟩⟩ := looseChain_concat hfile
    · -- an entry without a hash would make the file longer than the log
      rw [← hhead] at hfront
      obtain ⟨hsame, -⟩ := ih hlog hlast hfront (by omega) (hnofront _ fun _ h => h)
      omega
    · have hsame : hash' = hash := Option.some.inj (hhead.symm.trans hhash)
      subst hsame
      obtain ⟨hfit, hfit', hdist⟩ := hno last (by simp) f (by simp)
      have hcovered := covered_eq_of_hash_eq hfit hfit' hdist hcomputed hcomputed'
      rw [List.length_append, List.length_singleton] at hlen ⊢
      rw [List.length_append, List.length_singleton, List.map_append, List.map_append]
      cases hinit : init.getLast? with
      | none =>
        have hnil : init = [] := List.getLast?_eq_none_iff.mp hinit
        subst hnil
        have hfrontnil : front = [] := List.length_eq_zero_iff.mp (by simpa using hlen)
        subst hfrontnil
        simp [hcovered]
      | some before =>
        obtain ⟨init', rfl⟩ : ∃ init', init = init' ++ [before] := List.getLast?_eq_some_iff.mp hinit
        have hlink : last.prevHash = before.entryHash := by
          have hpair := (List.isChain_append.mp hlog.linked).2.2
          exact hpair before (by simp) last (by simp)
        obtain ⟨hash₀, hhash₀, hcomputed₀⟩ := hlog.hashed before (by simp)
        have hmid : mid = before.entryHash := by
          -- an absent hash is hashed like an empty one, and this one is not empty
          have hfield := congrArg CoveredFields.prevHash hcovered
          have hne := computeEntryHash_ne_empty hbytes hcomputed₀
          simp only [AuditEntry.covered, hlink, hhash₀, Option.getD_some] at hfield
          rw [← hprev, hhash₀]
          cases hp : f.prevHash with
          | none =>
            rw [hp] at hfield
            exact absurd hfield hne
          | some p =>
            rw [hp] at hfield
            rw [hfield]
            rfl
        rw [hmid] at hfront
        have hrest : OneSegment d c (init' ++ [before]) :=
          ⟨fun e he => hlog.hashed e (List.mem_append_left _ he),
            (List.isChain_append.mp hlog.linked).1⟩
        obtain ⟨hlen', hmap⟩ := ih hrest hinit hfront (by omega)
          (hnofront _ (List.subset_append_left _ _))
        refine ⟨by omega, ?_⟩
        rw [hmap]
        simp [hcovered]

/-- What a file has passed. -/
theorem fileFault_none {env : Env H T} {path expectedTailHash : String} {expectedCount : Nat}
    {lines : List T} (h : fileFault env path expectedTailHash expectedCount lines = .ok none) :
    (env.texts.fileEntries lines).length = expectedCount ∧
      ((env.texts.fileEntries lines).getLast?.bind (·.entryHash)).getD "" = expectedTailHash ∧
      ∃ head, LooseChain env.digests env.canonical none (env.texts.fileEntries lines) head := by
  rw [fileFault] at h
  split at h
  · cases h
  dsimp only at h
  split at h
  · cases h
  rename_i hcount
  split at h
  · cases h
  rename_i htail
  exact ⟨not_not.mp hcount, not_not.mp htail, looseChain_of_internalChain h⟩

/-- **A file that passes** against the count and the last hash of a log of one segment. -/
theorem covered_of_fileFault {env : Env H T}
    (hbytes : ∀ bs, env.digests.bytes (env.digests.sha256 bs) ≠ []) {path : String} {lines : List T}
    {log : List AuditEntry} (hlog : OneSegment env.digests env.canonical log)
    (hno : NoCollisions env.digests env.canonical log (env.texts.fileEntries lines))
    (h : fileFault env path ((log.getLast?.bind (·.entryHash)).getD "") log.length lines = .ok none) :
    (env.texts.fileEntries lines).map (·.covered) = log.map (·.covered) := by
  obtain ⟨hcount, htail, head, hchain⟩ := fileFault_none h
  generalize env.texts.fileEntries lines = file at hcount htail hchain hno
  cases hlast : log.getLast? with
  | none =>
    obtain rfl : log = [] := List.getLast?_eq_none_iff.mp hlast
    obtain rfl : file = [] := List.length_eq_zero_iff.mp hcount
    rfl
  | some last =>
    obtain ⟨hash, hhash, hcomputed⟩ := hlog.hashed last (List.mem_of_getLast? hlast)
    have hne := computeEntryHash_ne_empty hbytes hcomputed
    rw [hlast, Option.bind_some, hhash, Option.getD_some] at htail
    -- the file ends with a hashed entry, so the walk ends with its hash
    have hhead : head = last.entryHash := by
      rcases List.eq_nil_or_concat file with rfl | ⟨front, f, rfl⟩
      · exact absurd htail hne.symm
      · rw [List.concat_eq_append] at hchain htail
        rw [List.getLast?_concat, Option.bind_some] at htail
        obtain ⟨mid, -, -, ⟨hnone, -⟩ | ⟨hash', hhash', -, hhead⟩⟩ := looseChain_concat hchain
        · rw [hnone] at htail
          exact absurd htail hne.symm
        · rw [hhash', Option.getD_some] at htail
          rw [hhead, hhash, htail]
    rw [hhead] at hchain
    exact (looseChain_sound hbytes hlog hlast hchain (Nat.le_of_eq hcount) hno).2

end File

/-! ## What the manifest has passed -/

/-- The line records that the log was rotated out under this name. -/
structure RecordedBy (env : Env H T) (r : String × List AuditEntry) (line : T) : Prop where
  json : ∃ (m : ManifestEntry) (signed : Option (String × String)),
    line = env.texts.jsonLine (m.toJson signed) ∧ m.rotatedFile = r.1 ∧
      m.entryCount = r.2.length ∧ m.tailHash = (r.2.getLast?.bind (·.entryHash)).getD ""
  count : r.2.length ≤ u64Max

section Manifest

variable {env : Env H T} {ed : Ed25519} {cfg : Config} {dir : String} {disk : Disk T}

theorem manifestLoop_valid {lines : List T} {i : Nat} {st : ManifestState T}
    {v : RotationVerification} (h : manifestLoop env ed cfg dir disk i st lines = .ok v)
    (hvalid : v.valid = true) {line : T} (hline : line ∈ lines)
    (hblank : env.texts.blank line = false) :
    ∃ j before after, manifestStep env ed cfg dir disk j before line = .ok (.ok after) := by
  induction lines generalizing i st with
  | nil => cases hline
  | cons x xs ih =>
    rw [manifestLoop] at h
    split at h
    · rename_i hx
      rcases List.mem_cons.mp hline with rfl | hmem
      · rw [hblank] at hx
        cases hx
      · exact ih h hmem
    · split at h
      · cases h
      · cases h
        cases hvalid
      · rename_i st' hstep
        rcases List.mem_cons.mp hline with rfl | hmem
        · exact ⟨i, st, st', hstep⟩
        · exact ih h hmem

/-- A line that passes names a file that is missing or passes. -/
theorem manifestStep_file {i : Nat} {st st' : ManifestState T} {line : T} {entry : Json}
    {lines : List T} (h : manifestStep env ed cfg dir disk i st line = .ok (.ok st'))
    (hparse : env.texts.parseJson line = .ok entry)
    (hfile : disk.fileNamed cfg (textField entry "rotated_file") = some lines) :
    fileFault env (joinPath dir (textField entry "rotated_file")) (textField entry "tail_hash")
      ((((entry.get "entry_count").bind Json.asU64).map UInt64.toNat).getD 0) lines = .ok none := by
  rw [manifestStep] at h
  split at h
  · cases h
  rw [hparse] at h
  dsimp only at h
  split at h
  · cases h
  split at h
  · cases h
  split at h
  · cases h
  split at h
  · cases h
  rw [hfile] at h
  dsimp only at h
  split at h
  · cases h
  · cases h
  · assumption

theorem textField_toJson (m : ManifestEntry) (signed : Option (String × String)) :
    textField (m.toJson signed) "rotated_file" = m.rotatedFile ∧
      textField (m.toJson signed) "tail_hash" = m.tailHash ∧
      ((m.toJson signed).get "entry_count") = some (.number (.posInt m.entryCount)) := by
  cases signed with
  | none => exact ⟨rfl, rfl, rfl⟩
  | some s => exact ⟨rfl, rfl, rfl⟩

/-- **A file that a recorded line names**, in a directory that passes, has the entries of the log. -/
theorem covered_of_recordedBy (hbytes : ∀ bs, env.digests.bytes (env.digests.sha256 bs) ≠ [])
    (hvalid : RotationsValid (verifyAcrossRotations env ed cfg dir disk))
    {r : String × List AuditEntry} {line : T} (hline : line ∈ disk.manifest.getD [])
    (hrecorded : RecordedBy env r line) (hlog : OneSegment env.digests env.canonical r.2)
    {lines : List T} (hfile : disk.fileNamed cfg r.1 = some lines)
    (hno : NoCollisions env.digests env.canonical r.2 (env.texts.fileEntries lines)) :
    (env.texts.fileEntries lines).map (·.covered) = r.2.map (·.covered) := by
  obtain ⟨v, hv, hvalid⟩ := hvalid
  rw [verifyAcrossRotations] at hv
  cases hmanifest : disk.manifest with
  | none =>
    rw [hmanifest] at hline
    cases hline
  | some manifest =>
    rw [hmanifest] at hline hv
    dsimp only at hv
    split at hv
    · cases hv
    obtain ⟨m, signed, rfl, hname, hcount, htail⟩ := hrecorded.json
    obtain ⟨j, before, after, hstep⟩ := manifestLoop_valid hv hvalid hline (env.texts.blank_jsonLine m signed)
    obtain ⟨hfname, hftail, hfcount⟩ := textField_toJson m signed
    have hfault := manifestStep_file hstep (env.texts.parseJson_jsonLine m signed)
      (by rw [hfname, hname]; exact hfile)
    have hnat : (((m.toJson signed).get "entry_count").bind Json.asU64 |>.map UInt64.toNat).getD 0 =
        r.2.length := by
      have hle := hrecorded.count
      rw [hfcount, Option.bind_some, Json.asU64, hcount, if_pos hle]
      show (UInt64.ofNat r.2.length).toNat = r.2.length
      exact UInt64.toNat_ofNat_of_lt' (Nat.lt_succ_of_le hle)
    rw [hnat, hftail, htail] at hfault
    exact covered_of_fileFault hbytes hlog hno hfault

end Manifest

/-! ## What the logger rotates out -/

/-- The entries whose lines are in the active log, and the logs that were rotated out, by name. -/
abbrev Logs := List AuditEntry × List (String × List AuditEntry)

/-- The logs after some writes. -/
def logsAfter (logs : Logs) (ws : List (FileWrite H T)) : Logs :=
  ws.foldl (fun logs w =>
    match w with
    | .renameLog name => ([], logs.2 ++ [(name, logs.1)])
    | .appendLine entry => (logs.1 ++ [entry], logs.2)
    | _ => logs) logs

/-- The logger, and beside it all it has logged. -/
structure Archive (H T : Type) where
  logger : AuditLogger H T
  logs : Logs

/-- A call, which may fail anywhere, or a restart. -/
inductive ArchiveOp where
  | log (call : LogCall)
  | restart

def archiveStep (env : Env H T) (cfg : Config) (a : Archive H T) : ArchiveOp → Option (Archive H T)
  | .log call =>
    some ⟨(logEntry env cfg call.io call.req a.logger).2,
      logsAfter a.logs (writesOf env cfg a.logger call)⟩
  | .restart => some ⟨(restart env cfg a.logger.disk).2, a.logs⟩

/-- The logger knows the active log, and the manifest records the others, each of one segment. -/
structure Archived (env : Env H T) (a : Archive H T) : Prop where
  lines : LinesOf env.texts a.logger.lines a.logs.1
  hashed : ∀ e ∈ a.logs.1, ∃ hash, e.entryHash = some hash ∧
    computeEntryHash env.digests env.canonical e = .ok hash
  segments : a.logs.1.IsChain fun x y => y.prevHash = none ∨ y.prevHash = x.entryHash
  head : a.logger.lastHash = none ∨
    ∃ last, a.logs.1.getLast? = some last ∧ a.logger.lastHash = last.entryHash
  manifest : List.Forall₂ (RecordedBy env) a.logs.2 (a.logger.disk.manifest.getD [])
  oneSegment : ∀ r ∈ a.logs.2, OneSegment env.digests env.canonical r.2

section Archive

variable {env : Env H T} {cfg : Config} {s : AuditLogger H T} {logs : Logs} {call : LogCall}

theorem logsAfter_append (logs : Logs) (xs ys : List (FileWrite H T)) :
    logsAfter logs (xs ++ ys) = logsAfter (logsAfter logs xs) ys := List.foldl_append

theorem logsAfter_leafWrites (logs : Logs) (fault : Option String) (tree : Option (MerkleTree H))
    (hash : String) : logsAfter logs (leafWrites env fault tree hash) = logs := by
  unfold leafWrites
  repeat' split
  all_goals rfl

theorem logsAfter_renameWrites (logs : Logs) (io : RotationIo) (s : AuditLogger H T) (name : String) :
    logsAfter logs (renameWrites io s name) = ([], logs.2 ++ [(name, logs.1)]) := by
  rw [renameWrites]
  split
  · rfl
  · split <;> rfl

/-- **A line that is written** goes on with the segment or starts a new one. -/
theorem archived_writeLine (h : Archived env ⟨s, logs⟩) {hash : String}
    (hhash : computeEntryHash env.digests env.canonical (nextEntry env call.io call.req s) = .ok hash)
    (hread : env.texts.Readable (hashedEntry env call.io call.req s hash)) {s' : AuditLogger H T}
    (hlines : s'.lines = s.lines ++ [env.texts.entryLine (hashedEntry env call.io call.req s hash)])
    (hlast : s'.lastHash = some hash) (hmanifest : s'.disk.manifest = s.disk.manifest) :
    Archived env ⟨s', (logs.1 ++ [hashedEntry env call.io call.req s hash], logs.2)⟩ := by
  refine ⟨?_, ?_, ?_, ?_, ?_, h.oneSegment⟩
  · show LinesOf env.texts s'.lines _
    rw [hlines]
    exact h.lines.concat hread
  · intro e he
    rcases List.mem_append.mp he with hold | hnew
    · exact h.hashed e hold
    · rw [List.mem_singleton] at hnew
      subst hnew
      exact ⟨hash, rfl, hhash⟩
  · refine List.isChain_append.mpr ⟨h.segments, List.isChain_singleton _, ?_⟩
    intro x hx y hy
    obtain rfl : hashedEntry env call.io call.req s hash = y := Option.some.inj hy
    rw [prevHash_hashedEntry]
    rcases h.head with hnone | ⟨last, hgetLast, hhead⟩
    · exact .inl hnone
    · obtain rfl : last = x := Option.some.inj (hgetLast.symm.trans hx)
      exact .inr hhead
  · exact .inr ⟨_, List.getLast?_concat, hlast⟩
  · show List.Forall₂ _ logs.2 (s'.disk.manifest.getD [])
    rw [hmanifest]
    exact h.manifest

/-- A line of the log is read back as it is written. -/
def FileWrite.LineReadable (texts : Texts T) : FileWrite H T → Prop
  | .appendLine e => texts.Readable e
  | _ => True

instance (texts : Texts T) (w : FileWrite H T) : Decidable (w.LineReadable texts) :=
  match w with
  | .appendLine e => inferInstanceAs (Decidable (texts.Readable e))
  | .renameLog _ | .renameLeaves _ | .keepLeaves | .appendManifest _ | .prune _ | .appendLeaf _ =>
    isTrue trivial

/-- **The append**, whatever becomes of it. -/
theorem archived_appendEntry (h : Archived env ⟨s, logs⟩)
    (hread : ∀ w ∈ entryWrites env call s, w.LineReadable env.texts) :
    Archived env ⟨(appendEntry env cfg call.io call.req s).2, logsAfter logs (entryWrites env call s)⟩ := by
  cases hout : appendEntry env cfg call.io call.req s with
  | mk r s' =>
    rw [entryWrites] at hread ⊢
    obtain ⟨rfl, -, hnot⟩ | ⟨hash, hhash, happend, hrest⟩ := appendEntry_cases hout
    · cases hhash : computeEntryHash env.digests env.canonical (nextEntry env call.io call.req s') with
      | error e => exact h
      | ok hash =>
        dsimp only
        rw [if_pos (Option.isSome_iff_ne_none.mpr (hnot hash hhash))]
        exact h
    · rw [hhash, happend] at hread ⊢
      dsimp only [Option.isSome_none] at hread ⊢
      rw [if_neg Bool.false_ne_true] at hread ⊢
      have hlogs : logsAfter logs (.appendLine (hashedEntry env call.io call.req s hash) ::
          leafWrites env call.io.leafAppend s.merkleTree hash) =
          (logs.1 ++ [hashedEntry env call.io call.req s hash], logs.2) :=
        logsAfter_leafWrites _ _ _ _
      have hline : env.texts.Readable (hashedEntry env call.io call.req s hash) :=
        hread _ List.mem_cons_self
      rw [hlogs]
      obtain ⟨e, -, rfl, -⟩ | ⟨t, ht, rfl, -⟩ := hrest
      · exact archived_writeLine h hhash hline rfl rfl rfl
      · obtain ⟨tree, leaves, rfl⟩ := appendLeaf_eq_ok ht
        exact archived_writeLine h hhash hline rfl rfl rfl

/-- A log in which no entry but the first starts a segment. -/
theorem linked_of_segments {log : List AuditEntry}
    (h : log.IsChain fun x y => y.prevHash = none ∨ y.prevHash = x.entryHash)
    (hsome : ∀ e ∈ log.tail, e.prevHash ≠ none) : log.IsChain fun x y => y.prevHash = x.entryHash := by
  induction log with
  | nil => exact List.isChain_nil
  | cons x xs ih =>
    cases xs with
    | nil => exact List.isChain_singleton x
    | cons y ys =>
      obtain ⟨hxy, hrest⟩ := List.isChain_cons_cons.mp h
      refine List.isChain_cons_cons.mpr ⟨hxy.resolve_left (hsome y List.mem_cons_self), ih hrest ?_⟩
      exact fun e he => hsome e (List.mem_cons_of_mem y he)

theorem length_le_fileLen (texts : Texts T) (lines : List T) : lines.length ≤ texts.fileLen lines := by
  induction lines with
  | nil => exact Nat.zero_le _
  | cons line lines ih =>
    have hcons : texts.fileLen (line :: lines) = texts.len line + 1 + texts.fileLen lines := by
      simp [Texts.fileLen]
    rw [List.length_cons, hcons]
    omega

/-- The line that a rotation adds to the manifest records the log. -/
theorem recordedBy_rotationLine {io : RotationIo} {log entries : List AuditEntry} {tailHash : String}
    {line : T} (hlines : LinesOf env.texts s.lines log)
    (hcheck : checkRotation env cfg io s.disk.log = .rotate entries tailHash)
    (hline : s.rotationLine env cfg io entries tailHash = .ok line) :
    RecordedBy env (s.rotatedName cfg io, log) line := by
  obtain ⟨-, lines, hlog, hentries, -, -, hsize, htail⟩ := checkRotation_eq_rotate hcheck
  have hs : s.lines = lines := by
    rw [AuditLogger.lines, hlog]
    rfl
  rw [hs] at hlines
  obtain rfl : entries = log := hentries.trans hlines.readEntries
  have hcount : entries.length ≤ u64Max := by
    have hle := length_le_fileLen env.texts lines
    have hmap : lines.length = entries.length := by rw [hlines.eq, List.length_map]
    rw [maxAuditLogSize] at hsize
    rw [u64Max]
    omega
  refine ⟨?_, hcount⟩
  rw [AuditLogger.rotationLine, manifestLine] at hline
  split at hline
  · cases hline
  cases hline
  refine ⟨_, _, rfl, rfl, rfl, ?_⟩
  show tailHash = _
  rcases htail with ⟨rfl, rfl⟩ | ⟨last, hlast, hhash⟩
  · rfl
  · rw [hlast, Option.bind_some, hhash]
    rfl

/-- **A rotation** records the log that it rotates out. -/
theorem archived_rotated (h : Archived env ⟨s, logs⟩) {io : RotationIo} {entries : List AuditEntry}
    {tailHash : String} {line : T}
    (hcheck : checkRotation env cfg io s.disk.log = .rotate entries tailHash)
    (hline : s.rotationLine env cfg io entries tailHash = .ok line)
    (hsegment : ∀ e ∈ logs.1.tail, e.prevHash ≠ none) :
    Archived env ⟨(s.rotated cfg io line).startFile, ([], logs.2 ++ [(s.rotatedName cfg io, logs.1)])⟩ := by
  obtain ⟨-, lines, hlog, -⟩ := checkRotation_eq_rotate hcheck
  have hrecorded := recordedBy_rotationLine h.lines hcheck hline
  refine ⟨?_, ?_, List.isChain_nil, .inl rfl, ?_, ?_⟩
  · show LinesOf env.texts (s.rotated cfg io line).startFile.lines []
    rw [lines_rotated hlog]
    exact LinesOf.nil _
  · intro e he
    cases he
  · show List.Forall₂ _ _ ((s.rotated cfg io line).disk.manifest.getD [])
    rw [manifest_rotated]
    exact List.rel_append h.manifest (.cons hrecorded .nil)
  · intro r hr
    rcases List.mem_append.mp hr with hold | hnew
    · exact h.oneSegment r hold
    · rw [List.mem_singleton] at hnew
      subst hnew
      exact ⟨h.hashed, linked_of_segments h.segments hsegment⟩

/-- The head after a restart: the last entry of the log, or none. -/
theorem lastHash_restart (env : Env H T) (cfg : Config) (disk : Disk T) :
    (restart env cfg disk).2.lastHash = none ∨
      ∃ last, (env.texts.readEntries (disk.log.getD [])).getLast? = some last ∧
        (restart env cfg disk).2.lastHash = last.entryHash := by
  have htree : ∀ s : AuditLogger H T, (s.restoreTree env).2.lastHash = s.lastHash := by
    intro s
    rw [AuditLogger.restoreTree]
    split
    · rfl
    · split <;> rfl
  cases hload : env.texts.loadEntries disk.log with
  | error e =>
    left
    have hnew : (AuditLogger.new cfg disk : AuditLogger H T).disk.log = disk.log := rfl
    rw [restart, AuditLogger.initializeChain, hnew, hload]
    rfl
  | ok entries =>
    have hentries := loadEntries_lines hload
    by_cases hne : entries = []
    · subst hne
      rw [restart_nil hload]
      exact .inl rfl
    · cases hverify : verifyEntries env.digests env.canonical entries with
      | error e =>
        left
        have hempty : entries.isEmpty = false := by simpa using hne
        have hnew : (AuditLogger.new cfg disk : AuditLogger H T).disk.log = disk.log := rfl
        rw [restart, AuditLogger.initializeChain, hnew, hload]
        simp only [hempty, Bool.false_eq_true, if_false, AuditLogger.verifyChain, hnew, hload, hverify]
        rfl
      | ok verification =>
        rw [restart_cons hload hne hverify, htree]
        show (AuditLogger.restoreHead _ verification entries).lastHash = none ∨ ∃ last : AuditEntry, _ ∧
          (AuditLogger.restoreHead _ verification entries).lastHash = last.entryHash
        rw [AuditLogger.restoreHead]
        split
        · split
          · rename_i last hlast
            rw [hentries] at hlast
            exact .inr ⟨last, hlast, rfl⟩
          · exact .inl rfl
        · exact .inl rfl

/-- **A restart** keeps what is known. -/
theorem archived_restart (cfg : Config) (h : Archived env ⟨s, logs⟩) :
    Archived env ⟨(restart env cfg s.disk).2, logs⟩ := by
  obtain ⟨leaves, hdisk⟩ : ∃ leaves, (restart env cfg s.disk).2.disk =
      { s.disk with leaves := leaves } := restart_disk rfl
  have hlines : (restart env cfg s.disk).2.lines = s.lines := by
    rw [AuditLogger.lines, hdisk]
    rfl
  have hread : env.texts.readEntries (s.disk.log.getD []) = logs.1 := h.lines.readEntries
  refine ⟨?_, h.hashed, h.segments, ?_, ?_, h.oneSegment⟩
  · show LinesOf env.texts (restart env cfg s.disk).2.lines logs.1
    rw [hlines]
    exact h.lines
  · have hhead := lastHash_restart env cfg s.disk
    rw [hread] at hhead
    exact hhead
  · show List.Forall₂ _ _ ((restart env cfg s.disk).2.disk.manifest.getD [])
    rw [hdisk]
    exact h.manifest

/-- **What a call does**, as writes and as a state: nothing; the append; a rotation that fails after the
    renaming; or a rotation and the append. -/
theorem logEntry_writes (env : Env H T) (cfg : Config) (s : AuditLogger H T) (call : LogCall) :
    (writesOf env cfg s call = [] ∧ (logEntry env cfg call.io call.req s).2 = s) ∨
    (writesOf env cfg s call = entryWrites env call s ∧
      (logEntry env cfg call.io call.req s).2 = (appendEntry env cfg call.io call.req s).2) ∨
    (validateRequest env call.req = .ok () ∧ ∃ entries tailHash,
      checkRotation env cfg call.io.rotation s.disk.log = .rotate entries tailHash ∧
      call.io.rotation.rename = none ∧
      (call.io.rotation.manifestRead.isSome ∨ call.io.rotation.manifestAppend.isSome ∨
          (s.rotationLine env cfg call.io.rotation entries tailHash).isOk = false ∨
        ∃ line, s.rotationLine env cfg call.io.rotation entries tailHash = .ok line ∧
          writesOf env cfg s call =
            renameWrites call.io.rotation s (s.rotatedName cfg call.io.rotation) ++
              .appendManifest line :: .prune call.io.rotation ::
                entryWrites env call (s.rotated cfg call.io.rotation line).startFile ∧
          (logEntry env cfg call.io call.req s).2 =
            (appendEntry env cfg call.io call.req
              (s.rotated cfg call.io.rotation line).startFile).2)) := by
  rw [logEntry, writesOf]
  cases hvalid : validateRequest env call.req with
  | error e => exact .inl ⟨rfl, rfl⟩
  | ok u =>
    rw [maybeRotate]
    cases hcheck : checkRotation env cfg call.io.rotation s.disk.log with
    | fail e => exact .inl ⟨rfl, rfl⟩
    | skip => exact .inr (.inl ⟨rfl, rfl⟩)
    | rotate entries tailHash =>
      simp only [performRotation, manifest_renameAway]
      cases hrename : call.io.rotation.rename with
      | some message => exact .inl ⟨rfl, rfl⟩
      | none =>
        refine .inr (.inr ⟨trivial, entries, tailHash, rfl, rfl, ?_⟩)
        cases hread : call.io.rotation.manifestRead with
        | some message => exact .inl rfl
        | none =>
          refine .inr ?_
          cases happend : call.io.rotation.manifestAppend with
          | some message => exact .inl rfl
          | none =>
            refine .inr ?_
            cases hline : s.rotationLine env cfg call.io.rotation entries tailHash with
            | error e => exact .inl rfl
            | ok line =>
              refine .inr ⟨line, rfl, ?_, ?_⟩
              · rw [manifestWrites, hread, happend, hline]
                rfl
              · rw [AuditLogger.rotationLine, AuditLogger.rotatedName] at hline
                rw [hline]
                rfl

/-- What holds of the entries and the tail hash, if the log is to be rotated. -/
def RotationCheck.IfRotates (P : List AuditEntry → String → Prop) : RotationCheck → Prop
  | .rotate entries tailHash => P entries tailHash
  | _ => True

instance (P : List AuditEntry → String → Prop) [∀ es t, Decidable (P es t)] (check : RotationCheck) :
    Decidable (check.IfRotates P) :=
  match check with
  | .rotate entries tailHash => inferInstanceAs (Decidable (P entries tailHash))
  | .skip => isTrue trivial
  | .fail _ => isTrue trivial

/-- **The condition.**  A line that is written is read back as it was written.  If the log is renamed,
    the manifest can be read and written, and no entry of the log but the first starts a segment. -/
structure SealsLog (env : Env H T) (cfg : Config) (a : Archive H T) (call : LogCall) : Prop where
  readable : ∀ w ∈ writesOf env cfg a.logger call, w.LineReadable env.texts
  rotation : validateRequest env call.req = .ok () → call.io.rotation.rename = none →
    (checkRotation env cfg call.io.rotation a.logger.disk.log).IfRotates fun entries tailHash =>
      call.io.rotation.manifestRead = none ∧ call.io.rotation.manifestAppend = none ∧
        (a.logger.rotationLine env cfg call.io.rotation entries tailHash).isOk = true ∧
        ∀ e ∈ a.logs.1.tail, e.prevHash ≠ none

instance (env : Env H T) (cfg : Config) (a : Archive H T) (call : LogCall) :
    Decidable (SealsLog env cfg a call) :=
  decidable_of_iff
    ((∀ w ∈ writesOf env cfg a.logger call, w.LineReadable env.texts) ∧
      (validateRequest env call.req = .ok () → call.io.rotation.rename = none →
        (checkRotation env cfg call.io.rotation a.logger.disk.log).IfRotates fun entries tailHash =>
          call.io.rotation.manifestRead = none ∧ call.io.rotation.manifestAppend = none ∧
            (a.logger.rotationLine env cfg call.io.rotation entries tailHash).isOk = true ∧
            ∀ e ∈ a.logs.1.tail, e.prevHash ≠ none))
    ⟨fun h => ⟨h.1, h.2⟩, fun h => ⟨h.readable, h.rotation⟩⟩

def SealsLogOp (env : Env H T) (cfg : Config) (a : Archive H T) : ArchiveOp → Prop
  | .log call => SealsLog env cfg a call
  | .restart => True

instance (env : Env H T) (cfg : Config) (a : Archive H T) (op : ArchiveOp) :
    Decidable (SealsLogOp env cfg a op) :=
  match op with
  | .log call => inferInstanceAs (Decidable (SealsLog env cfg a call))
  | .restart => isTrue trivial

/-- **A step** keeps the logs and the manifest together. -/
theorem archived_step {a a' : Archive H T} {op : ArchiveOp} (h : Archived env a)
    (hseals : SealsLogOp env cfg a op) (hstep : archiveStep env cfg a op = some a') :
    Archived env a' := by
  obtain ⟨s, logs⟩ := a
  cases op with
  | restart =>
    obtain rfl := Option.some.inj hstep
    exact archived_restart cfg h
  | log call =>
    obtain rfl := Option.some.inj hstep
    have hread := hseals.readable
    dsimp only at hread ⊢
    obtain ⟨hws, hs'⟩ | ⟨hws, hs'⟩ | ⟨hvalid, entries, tailHash, hcheck, hrename, hrest⟩ :=
      logEntry_writes env cfg s call
    · rw [hws, hs']
      exact h
    · rw [hws] at hread
      rw [hws, hs']
      exact archived_appendEntry h hread
    · have hrotation := hseals.rotation hvalid hrename
      dsimp only at hrotation
      rw [hcheck] at hrotation
      obtain ⟨hmread, hmappend, hok, hsegment⟩ := hrotation
      rw [hmread, hmappend, hok] at hrest
      obtain hfail | hfail | hfail | ⟨line, hline, hws, hs'⟩ := hrest
      · cases hfail
      · cases hfail
      · cases hfail
      · rw [hws] at hread
        rw [hws, hs', logsAfter_append, logsAfter_renameWrites]
        refine archived_appendEntry (archived_rotated h hcheck hline hsegment) ?_
        intro w hw
        exact hread w (List.mem_append_right _ (List.mem_cons_of_mem _ (List.mem_cons_of_mem _ hw)))

end Archive

/-- **Sound across rotations.**  The logger is run on an empty directory, with calls that may fail
    anywhere and restarts; every step meets the condition.  Take any directory with the manifest that
    the logger has written.  If it is found valid, then every file in it under whose name a log was
    rotated out has, in the fields that are hashed, the entries of that log, in order. -/
theorem rotated_files_sound (env : Env H T) (ed : Ed25519) (cfg : Config) (dir : String)
    (hbytes : ∀ bs, env.digests.bytes (env.digests.sha256 bs) ≠ []) {ops : List ArchiveOp}
    {a : Archive H T}
    (hseals : EachStep (archiveStep env cfg) (fun a op _ => SealsLogOp env cfg a op)
      ⟨AuditLogger.new cfg Disk.empty, ([], [])⟩ ops)
    (hrun : run (archiveStep env cfg) ⟨AuditLogger.new cfg Disk.empty, ([], [])⟩ ops = some a)
    {disk : Disk T} (hmanifest : disk.manifest = a.logger.disk.manifest)
    (hvalid : RotationsValid (verifyAcrossRotations env ed cfg dir disk))
    {name : String} {log : List AuditEntry} (hlog : (name, log) ∈ a.logs.2) {lines : List T}
    (hfile : disk.fileNamed cfg name = some lines)
    (hno : NoCollisions env.digests env.canonical log (env.texts.fileEntries lines)) :
    (env.texts.fileEntries lines).map (·.covered) = log.map (·.covered) := by
  have harchived : Archived env a := by
    refine run_invariant_of_eachStep (I := Archived env) ?_ hseals ?_ hrun
    · intro a op a' _ h hC hstep
      exact archived_step h hC hstep
    · refine ⟨LinesOf.nil _, ?_, List.isChain_nil, .inl rfl, .nil, ?_⟩
      · intro e he
        cases he
      · intro r hr
        cases hr
  obtain ⟨line, hline, hrecorded⟩ : ∃ line ∈ a.logger.disk.manifest.getD [],
      RecordedBy env (name, log) line := by
    have hall := harchived.manifest
    obtain ⟨i, hi, hget⟩ := List.getElem_of_mem hlog
    obtain ⟨hlen, hrel⟩ := List.forall₂_iff_get.mp hall
    have hrec := hrel i hi (hlen ▸ hi)
    rw [List.get_eq_getElem, hget] at hrec
    exact ⟨_, List.get_mem _ _, hrec⟩
  rw [← hmanifest] at hline
  exact covered_of_recordedBy hbytes hvalid hline hrecorded (harchived.oneSegment _ hlog) hfile hno

/-! ### A log of two segments -/

instance (c : Canonical) (e : AuditEntry) : Decidable (e.Fits c) :=
  decidable_of_iff
    (e.sequence < 2 ^ 64 ∧ (strBytes e.id).length < 2 ^ 64 ∧ (strBytes e.timestamp).length < 2 ^ 64 ∧
      (strBytes (e.prevHash.getD "")).length < 2 ^ 64 ∧
      (∀ bs, c.action e.action = .ok bs → bs.length < 2 ^ 64) ∧
      (∀ bs, c.verdict e.verdict = .ok bs → bs.length < 2 ^ 64) ∧
      ∀ bs, c.json e.metadata = .ok bs → bs.length < 2 ^ 64)
    ⟨fun h => ⟨h.1, h.2.1, h.2.2.1, h.2.2.2.1, h.2.2.2.2.1, h.2.2.2.2.2.1, h.2.2.2.2.2.2⟩,
      fun h => ⟨h.sequence, h.id, h.timestamp, h.prevHash, h.action, h.verdict, h.metadata⟩⟩

instance [DecidableEq H] (d : Digests H) (c : Canonical) (e f : AuditEntry) :
    Decidable (Distinguishes d c e f) :=
  decidable_of_iff
    ((∀ bs, c.action e.action = .ok bs → c.action f.action = .ok bs → e.action = f.action) ∧
      (∀ bs, c.verdict e.verdict = .ok bs → c.verdict f.verdict = .ok bs → e.verdict = f.verdict) ∧
      (∀ bs, c.json e.metadata = .ok bs → c.json f.metadata = .ok bs → e.metadata = f.metadata) ∧
      ∀ bs, entryPreimage c e = .ok bs → ∀ bs', entryPreimage c f = .ok bs' →
        d.sha256 bs = d.sha256 bs' → bs = bs')
    ⟨fun h => ⟨h.1, h.2.1, h.2.2.1, fun bs bs' hbs hbs' => h.2.2.2 bs hbs bs' hbs'⟩,
      fun h => ⟨h.action, h.verdict, h.metadata, fun bs hbs bs' hbs' => h.sha256 bs bs' hbs hbs'⟩⟩

instance [DecidableEq H] (d : Digests H) (c : Canonical) (log file : List AuditEntry) :
    Decidable (NoCollisions d c log file) :=
  inferInstanceAs (Decidable (∀ e ∈ log, ∀ f ∈ file, _))

/-- The key of the manifest is pinned. -/
def pinnedConfig (maxFileSize : Nat) : Config :=
  { signedConfig maxFileSize with trustedVerifyingKey := some (hexEncode plainSigner.verifyingKey) }

theorem shortDigests_bytes (bs : List UInt8) : shortDigests.bytes (shortDigests.sha256 bs) ≠ [] :=
  List.cons_ne_nil _ _

/-- A log of one entry is rotated out. -/
theorem rotated_files_sound_one :
    let env := plainEnv shortDigests
    ∃ a ∈ run (archiveStep env (pinnedConfig 1)) ⟨AuditLogger.new (pinnedConfig 1) Disk.empty, ([], [])⟩
        [.log (plainCall "1" "30" none), .log (plainCall "2" "31" none)],
      ∃ r ∈ a.logs.2, ∃ lines ∈ a.logger.disk.fileNamed (pinnedConfig 1) r.1,
        (env.texts.fileEntries lines).map (·.covered) = r.2.map (·.covered) := by
  intro env
  have hrun : ∃ a ∈ run (archiveStep env (pinnedConfig 1))
        ⟨AuditLogger.new (pinnedConfig 1) Disk.empty, ([], [])⟩
        [.log (plainCall "1" "30" none), .log (plainCall "2" "31" none)],
      ∃ r ∈ a.logs.2, ∃ lines ∈ a.logger.disk.fileNamed (pinnedConfig 1) r.1,
        RotationsValid (verifyAcrossRotations env plainEd25519 (pinnedConfig 1) "" a.logger.disk) ∧
        NoCollisions env.digests env.canonical r.2 (env.texts.fileEntries lines) := by
    decide +kernel
  obtain ⟨a, hrun, ⟨name, log⟩, hlog, lines, hfile, hvalid, hno⟩ := hrun
  refine ⟨a, hrun, (name, log), hlog, lines, hfile, ?_⟩
  refine rotated_files_sound env plainEd25519 (pinnedConfig 1) "" shortDigests_bytes ?_ hrun rfl hvalid
    hlog hfile hno
  decide +kernel

/-- The file of a log, with all entries but the last replaced by others that have no hash. -/
def forgeFile (log : List AuditEntry) : List PlainLine :=
  (log.dropLast.map fun e => .entry { e with id := "x", entryHash := none, prevHash := none }) ++
    log.getLast?.toList.map .entry

/-- **A log of two segments.**  After a leaf that could not be written, the log is rejected at a restart
    and goes on with a new segment.  The forged file has the entry of that segment, and before it three
    entries that were never logged. -/
theorem forged_segment_accepted :
    let env := plainEnv shortDigests
    plainEd25519.Accepts plainSigner ∧
    ∃ a ∈ run (archiveStep env (pinnedConfig 600))
        ⟨AuditLogger.new (pinnedConfig 600) Disk.empty, ([], [])⟩
        [.log (plainCall "1" "30" none), .log (plainCall "2" "31" (some "No space left on device")),
          .log (plainCall "3" "32" none), .restart, .log (plainCall "4" "33" none),
          .log (plainCall "5" "34" none)],
      ∃ r ∈ a.logs.2,
        NoCollisions env.digests env.canonical r.2 (env.texts.fileEntries (forgeFile r.2)) ∧
        RotationsValid (verifyAcrossRotations env plainEd25519 (pinnedConfig 600) ""
          { a.logger.disk with rotated := [(r.1, forgeFile r.2)] }) ∧
        (env.texts.fileEntries (forgeFile r.2)).map (·.covered) ≠ r.2.map (·.covered) := by
  refine ⟨plainEd25519_accepts, ?_⟩
  decide +kernel

end Vellaveto.Audit
