/-
  HYBRID SIGNATURES of the rotation manifest (`maybe_rotate`, `verify_across_rotations` of
  `vellaveto-audit/src/rotation.rs` with the feature `pqc-hybrid`, `pqc.rs`).

  PROGRAM.      The canonical text of an entry is hashed BEHIND THE DOMAIN of rotation manifests, and both
                keys sign this digest.  The verifier strips the signature fields and hashes what is left: for
                Ed25519 with the domain and, for older manifests, without it; for ML-DSA only without it.

  SPEC.         Both signatures of an entry that the logger has signed are accepted.

  CORRECTNESS.
    1. `unsignedManifest_hybridJson`      what is stripped is what was added;
    2. `edSignatureFault_eq_none_iff`     the Ed25519 signature passes, if the key is trusted;
    3. `hybrid_manifest_accepted_iff`     both pass exactly if the two digests of the text are the same,
                                          which takes a collision of SHA-256;
    4. `hybrid_manifest_rejected`         an entry as the logger signs it.
-/
import Vellaveto.Audit.CrossRotation

namespace Vellaveto.Audit

open Vellaveto.Lib

variable {H T : Type}

/-! ### ML-DSA-65 -/

def mlDsa65PkLen : Nat := 1952
def mlDsa65SkLen : Nat := 4032
def mlDsa65SigLen : Nat := 3309

/-- `MANIFEST_CONTEXT`. -/
def manifestContext : List UInt8 := strBytes "vellaveto-manifest-v1"

/-- The `fips204` crate. -/
structure MlDsa where
  /-- `try_from_bytes` of the two kinds of keys: the text of the error, if these are no key -/
  privateKeyError : List UInt8 → Option String
  publicKeyError : List UInt8 → Option String
  /-- the random bytes, the key, the message and the context -/
  trySign : List UInt8 → List UInt8 → List UInt8 → List UInt8 → Except String (List UInt8)
  /-- the key, the message, the signature and the context -/
  verify : List UInt8 → List UInt8 → List UInt8 → List UInt8 → Bool

/-- `ml_dsa_sign`. -/
def mlDsaSign (dsa : MlDsa) (coins : List UInt8) (skHex : String) (message context : List UInt8) :
    Except AuditError String :=
  match hexDecode skHex with
  | .error e => .error (.validation ("Invalid ML-DSA secret key hex: " ++ e.display))
  | .ok sk =>
    if sk.length ≠ mlDsa65SkLen then
      .error (.validation ("ML-DSA secret key wrong length: " ++ toString sk.length ++ " (expected " ++
        toString mlDsa65SkLen ++ ")"))
    else
      match dsa.privateKeyError sk with
      | some e => .error (.validation ("Invalid ML-DSA secret key bytes: " ++ e))
      | none =>
        match dsa.trySign coins sk message context with
        | .error e => .error (.validation ("ML-DSA-65 signing failed: " ++ e))
        | .ok sig => .ok (hexEncode sig)

/-- `ml_dsa_verify`. -/
def mlDsaVerify (dsa : MlDsa) (pkHex : String) (message : List UInt8) (sigHex : String)
    (context : List UInt8) : Except AuditError Unit :=
  match hexDecode pkHex with
  | .error e => .error (.validation ("Invalid ML-DSA public key hex: " ++ e.display))
  | .ok pk =>
    if pk.length ≠ mlDsa65PkLen then
      .error (.validation ("ML-DSA public key wrong length: " ++ toString pk.length ++ " (expected " ++
        toString mlDsa65PkLen ++ ")"))
    else
      match dsa.publicKeyError pk with
      | some e => .error (.validation ("Invalid ML-DSA public key bytes: " ++ e))
      | none =>
        match hexDecode sigHex with
        | .error e => .error (.validation ("Invalid ML-DSA signature hex: " ++ e.display))
        | .ok sig =>
          if sig.length ≠ mlDsa65SigLen then
            .error (.validation ("ML-DSA signature wrong length: " ++ toString sig.length ++
              " (expected " ++ toString mlDsa65SigLen ++ ")"))
          else if dsa.verify pk message sig context then .ok ()
          else .error (.validation "ML-DSA-65 signature verification failed")

/-- The public key of a pair accepts exactly the digest that was signed, in the context of manifests. -/
structure MlDsa.Accepts (dsa : MlDsa) (d : Digests H) (sk pk : List UInt8) : Prop where
  publicLen : pk.length = mlDsa65PkLen
  publicKeyError : dsa.publicKeyError pk = none
  signatureLen : ∀ {coins message sig},
    dsa.trySign coins sk message manifestContext = .ok sig → sig.length = mlDsa65SigLen
  verify : ∀ {coins sig} {signed : H},
    dsa.trySign coins sk (d.bytes signed) manifestContext = .ok sig →
      ∀ asked : H, dsa.verify pk (d.bytes asked) sig manifestContext = true ↔ asked = signed

/-! ### The entry -/

/-- The keys of a logger with hybrid signatures. -/
structure HybridConfig extends Config where
  pqcSecretKeyHex : Option String
  pqcPublicKeyHex : Option String

/-- The three fields of the second signature. -/
def addPqcFields (sigHex pkHex : String) (entry : Json) : Json :=
  insertMember "signature_version" (.number (.posInt 2)) <|
    insertMember "pqc_verifying_key" (.string pkHex) <| insertMember "pqc_signature" (.string sigHex) entry

/-- The manifest entry of `maybe_rotate`, with its signatures. -/
def hybridManifestJson (env : Env H T) (dsa : MlDsa) (cfg : HybridConfig) (coins : List UInt8)
    (m : ManifestEntry) : Except AuditError Json :=
  match env.canonical.json (m.toJson none) with
  | .error e => .error e
  | .ok canonical =>
    let unsignedDigest := env.digests.bytes (env.digests.manifestDigest canonical true)
    let signed := m.toJson (cfg.signingKey.map fun key => signManifest env key canonical)
    match cfg.pqcSecretKeyHex, cfg.pqcPublicKeyHex with
    | some skHex, some pkHex =>
      match mlDsaSign dsa coins skHex unsignedDigest manifestContext with
      | .error e => .error e
      | .ok pqcSig => .ok (addPqcFields pqcSig pkHex signed)
    | _, _ => .ok signed

/-! ### The verifier -/

/-- "Manifest entry i …". -/
def manifestFault (i : Nat) (text : String) : String := "Manifest entry " ++ toString i ++ text

/-- The Ed25519 signature of a manifest line: the reason if it does not pass. -/
def edSignatureFault (env : Env H T) (ed : Ed25519) (cfg : Config) (i : Nat) (entry : Json)
    (sigHex : String) : Option String :=
  let vkHex := textField entry "verifying_key"
  if cfg.trustedVerifyingKey.any (· ≠ vkHex) then some (manifestFault i " signed by untrusted key")
  else
    match env.canonical.json (unsignedManifest entry) with
    | .error _ => some (manifestFault i " failed to canonicalize")
    | .ok canonical =>
      match hexDecode vkHex with
      | .error _ => some (manifestFault i " has invalid verifying key hex")
      | .ok vk =>
        match hexDecode sigHex with
        | .error _ => some (manifestFault i " has invalid signature hex")
        | .ok sig =>
          let digest (domainSeparated : Bool) : List UInt8 :=
            env.digests.bytes (env.digests.manifestDigest canonical domainSeparated)
          if vk.length ≠ 32 then some (manifestFault i " verifying key wrong length")
          else if sig.length ≠ 64 then some (manifestFault i " signature wrong length")
          else if (ed.keyError vk).isSome then some (manifestFault i " has invalid verifying key")
          else if !ed.verify vk (digest true) sig && !ed.verify vk (digest false) sig then
            some (manifestFault i " Ed25519 signature invalid")
          else none

/-- `AuditError` as a text. -/
def AuditError.display : AuditError → String
  | .io message => "IO error: " ++ message
  | .serialization message => "Serialization error: " ++ message
  | .validation message => "Validation error: " ++ message

/-- The ML-DSA signature of a manifest line of version 2. -/
def pqcSignatureFault (env : Env H T) (dsa : MlDsa) (cfg : Config) (i : Nat) (entry : Json) :
    Except AuditError (Option String) :=
  match (entry.get "pqc_signature").bind Json.asStr with
  | none => .error (.validation (manifestFault i " v2 missing pqc_signature"))
  | some pqcSigHex =>
    match (entry.get "pqc_verifying_key").bind Json.asStr with
    | none => .error (.validation (manifestFault i " v2 missing pqc_verifying_key"))
    | some pqcVkHex =>
      if cfg.trustedPqcVerifyingKey.any (· ≠ pqcVkHex) then
        .ok (some (manifestFault i " signed by untrusted PQC key"))
      else
        match env.canonical.json (unsignedManifest entry) with
        | .error e => .error e
        | .ok pqcCanonical =>
          let pqcDigest := env.digests.bytes (env.digests.sha256 pqcCanonical)
          match mlDsaVerify dsa pqcVkHex pqcDigest pqcSigHex manifestContext with
          | .ok () => .ok none
          | .error e => .ok (some (manifestFault i (" ML-DSA-65 signature invalid: " ++ e.display)))

/-- Both signatures of a manifest line. -/
def hybridSignatureFault (env : Env H T) (ed : Ed25519) (dsa : MlDsa) (cfg : Config) (i : Nat)
    (entry : Json) : Except AuditError (Option String) :=
  match (entry.get "signature").bind Json.asStr with
  | none =>
    if cfg.trustedVerifyingKey.isSome then
      .ok (some (manifestFault i " is unsigned but signing is required"))
    else .ok none
  | some sigHex =>
    match edSignatureFault env ed cfg i entry sigHex with
    | some reason => .ok (some reason)
    | none =>
      if 2 ≤ (((entry.get "signature_version").bind Json.asU64).map UInt64.toNat).getD 1 then
        pqcSignatureFault env dsa cfg i entry
      else .ok none

/-! ### What is signed and what is verified -/

section Fields

variable (m : ManifestEntry) (signed : String × String) (sigHex pkHex : String)

/-- The entry with all fields, in the order of their names. -/
theorem addPqcFields_toJson :
    addPqcFields sigHex pkHex (m.toJson (some signed)) =
      .object [("entry_count", .number (.posInt m.entryCount)),
        ("max_sequence", .number (.posInt m.maxSequence)), ("pqc_signature", .string sigHex),
        ("pqc_verifying_key", .string pkHex), ("previous_hash", .string m.previousHash),
        ("rotated_file", .string m.rotatedFile), ("signature", .string signed.1),
        ("signature_version", .number (.posInt 2)), ("start_hash", .string m.startHash),
        ("tail_hash", .string m.tailHash), ("timestamp", .string m.timestamp),
        ("verifying_key", .string signed.2)] := by
  simp [addPqcFields, insertMember, insertSorted, ManifestEntry.toJson, strLe]

/-- What is stripped is what was added. -/
theorem unsignedManifest_hybridJson :
    unsignedManifest (addPqcFields sigHex pkHex (m.toJson (some signed))) = m.toJson none := by
  rw [addPqcFields_toJson]
  simp [unsignedManifest, removeMember, ManifestEntry.toJson]

theorem get_signature :
    ((addPqcFields sigHex pkHex (m.toJson (some signed))).get "signature").bind Json.asStr =
      some signed.1 := by
  rw [addPqcFields_toJson]
  rfl

theorem get_verifyingKey :
    textField (addPqcFields sigHex pkHex (m.toJson (some signed))) "verifying_key" = signed.2 := by
  rw [addPqcFields_toJson]
  rfl

theorem get_pqcSignature :
    ((addPqcFields sigHex pkHex (m.toJson (some signed))).get "pqc_signature").bind Json.asStr =
      some sigHex := by
  rw [addPqcFields_toJson]
  rfl

theorem get_pqcVerifyingKey :
    ((addPqcFields sigHex pkHex (m.toJson (some signed))).get "pqc_verifying_key").bind Json.asStr =
      some pkHex := by
  rw [addPqcFields_toJson]
  rfl

theorem get_signatureVersion :
    ((((addPqcFields sigHex pkHex (m.toJson (some signed))).get "signature_version").bind
      Json.asU64).map UInt64.toNat).getD 1 = 2 := by
  rw [addPqcFields_toJson]
  rfl

end Fields

/-- The keys of the logger: each accepts exactly what it has signed. -/
structure HybridKeys (cfg : HybridConfig) (ed : Ed25519) (dsa : MlDsa) (d : Digests H) (key : Signer)
    (skHex pkHex : String) : Prop where
  signingKey : cfg.signingKey = some key
  secretKey : cfg.pqcSecretKeyHex = some skHex
  publicKey : cfg.pqcPublicKeyHex = some pkHex
  ed : ed.Accepts key
  dsa : ∃ sk pk, hexDecode skHex = .ok sk ∧ hexDecode pkHex = .ok pk ∧ dsa.Accepts d sk pk

/-- The trusted keys, if any are set, are those of the logger. -/
def Trusted (cfg : HybridConfig) (key : Signer) (pkHex : String) : Prop :=
  (∀ t ∈ cfg.trustedVerifyingKey, t = hexEncode key.verifyingKey) ∧
    ∀ t ∈ cfg.trustedPqcVerifyingKey, t = pkHex

section Keys

variable {env : Env H T} {ed : Ed25519} {dsa : MlDsa} {cfg : HybridConfig} {key : Signer}
  {skHex pkHex : String} {coins canonical : List UInt8} {m : ManifestEntry}

theorem any_ne_iff {trusted : Option String} {s : String} :
    trusted.any (· ≠ s) = true ↔ ¬ ∀ t ∈ trusted, t = s := by
  cases trusted with
  | none => simp
  | some t => simp

/-- **What `maybe_rotate` writes** with both keys. -/
theorem hybridManifestJson_eq_ok {entry : Json} (hkeys : HybridKeys cfg ed dsa env.digests key skHex pkHex)
    (hcanonical : env.canonical.json (m.toJson none) = .ok canonical)
    (hentry : hybridManifestJson env dsa cfg coins m = .ok entry) :
    ∃ sigHex, mlDsaSign dsa coins skHex (env.digests.bytes (env.digests.manifestDigest canonical true))
        manifestContext = .ok sigHex ∧
      entry = addPqcFields sigHex pkHex (m.toJson (some (signManifest env key canonical))) := by
  simp only [hybridManifestJson, hcanonical, hkeys.signingKey, hkeys.secretKey, hkeys.publicKey,
    Option.map_some] at hentry
  split at hentry
  · cases hentry
  · rename_i sigHex hsig
    exact ⟨sigHex, hsig, (Except.ok.inj hentry).symm⟩

/-- The entry is written once the second signature is made. -/
theorem hybridManifestJson_of_sign {sigHex : String}
    (hkeys : HybridKeys cfg ed dsa env.digests key skHex pkHex)
    (hcanonical : env.canonical.json (m.toJson none) = .ok canonical)
    (hsign : mlDsaSign dsa coins skHex
      (env.digests.bytes (env.digests.manifestDigest canonical true)) manifestContext = .ok sigHex) :
    hybridManifestJson env dsa cfg coins m =
      .ok (addPqcFields sigHex pkHex (m.toJson (some (signManifest env key canonical)))) := by
  simp only [hybridManifestJson, hcanonical, hkeys.signingKey, hkeys.secretKey, hkeys.publicKey,
    Option.map_some, hsign]

/-- The Ed25519 signature passes, if the key is trusted: the digest with the domain is tried. -/
theorem edSignatureFault_eq_none_iff (hed : ed.Accepts key)
    (hcanonical : env.canonical.json (m.toJson none) = .ok canonical) (i : Nat) (sigHex : String) :
    edSignatureFault env ed cfg.toConfig i
        (addPqcFields sigHex pkHex (m.toJson (some (signManifest env key canonical))))
        (signManifest env key canonical).1 = none ↔
      ∀ t ∈ cfg.trustedVerifyingKey, t = hexEncode key.verifyingKey := by
  simp only [edSignatureFault, get_verifyingKey, unsignedManifest_hybridJson, hcanonical]
  have hverify : ed.verify key.verifyingKey (env.digests.bytes (env.digests.manifestDigest canonical true))
      (key.sign (env.digests.bytes (env.digests.manifestDigest canonical true))) = true :=
    (hed.verify _ _).mpr rfl
  simp only [signManifest, hexDecode_hexEncode, hed.keyLen, hed.signatureLen, hed.keyError, hverify]
  split
  · rename_i huntrusted
    exact iff_of_false (fun h => by cases h) (any_ne_iff.mp huntrusted)
  · rename_i htrusted
    exact iff_of_true (by simp) (not_not.mp fun h => htrusted (any_ne_iff.mpr h))

/-- The ML-DSA signature of a digest passes exactly for that digest. -/
theorem mlDsaVerify_eq_ok_iff {sk pk : List UInt8} (hsk : hexDecode skHex = .ok sk)
    (hpk : hexDecode pkHex = .ok pk) (hdsa : dsa.Accepts env.digests sk pk) {signed asked : H}
    {sigHex : String}
    (hsign : mlDsaSign dsa coins skHex (env.digests.bytes signed) manifestContext = .ok sigHex) :
    mlDsaVerify dsa pkHex (env.digests.bytes asked) sigHex manifestContext = .ok () ↔ asked = signed := by
  rw [mlDsaSign, hsk] at hsign
  dsimp only at hsign
  split at hsign
  · cases hsign
  split at hsign
  · cases hsign
  split at hsign
  · cases hsign
  rename_i sig htry
  cases hsign
  have hverify := hdsa.verify htry asked
  simp only [mlDsaVerify, hpk, hdsa.publicLen, hdsa.publicKeyError, hexDecode_hexEncode,
    hdsa.signatureLen htry, ne_eq, not_true_eq_false, if_false]
  split
  · rename_i haccepted
    exact iff_of_true rfl (hverify.mp haccepted)
  · rename_i hrejected
    exact iff_of_false (fun h => by cases h) fun heq => hrejected (hverify.mpr heq)

/-- The ML-DSA part passes exactly if the key is trusted and the two digests of the text are the same. -/
theorem pqcSignatureFault_eq_none_iff {sk pk : List UInt8} (hsk : hexDecode skHex = .ok sk)
    (hpk : hexDecode pkHex = .ok pk) (hdsa : dsa.Accepts env.digests sk pk)
    (hcanonical : env.canonical.json (m.toJson none) = .ok canonical) {sigHex : String}
    (hsign : mlDsaSign dsa coins skHex
      (env.digests.bytes (env.digests.manifestDigest canonical true)) manifestContext = .ok sigHex)
    (signed : String × String) (i : Nat) :
    pqcSignatureFault env dsa cfg.toConfig i (addPqcFields sigHex pkHex (m.toJson (some signed))) =
        .ok none ↔
      (∀ t ∈ cfg.trustedPqcVerifyingKey, t = pkHex) ∧
        env.digests.sha256 canonical = env.digests.manifestDigest canonical true := by
  have hverify : mlDsaVerify dsa pkHex (env.digests.bytes (env.digests.sha256 canonical)) sigHex
      manifestContext = .ok () ↔ env.digests.sha256 canonical = env.digests.manifestDigest canonical true :=
    mlDsaVerify_eq_ok_iff hsk hpk hdsa hsign
  simp only [pqcSignatureFault, get_pqcSignature, get_pqcVerifyingKey, unsignedManifest_hybridJson,
    hcanonical]
  split
  · rename_i huntrusted
    exact iff_of_false (fun h => by cases h) fun h => any_ne_iff.mp huntrusted h.1
  rename_i huntrusted
  have htrusted : ∀ t ∈ cfg.trustedPqcVerifyingKey, t = pkHex :=
    not_not.mp fun h => huntrusted (any_ne_iff.mpr h)
  split
  · rename_i haccepted
    exact iff_of_true rfl ⟨htrusted, hverify.mp haccepted⟩
  · rename_i e hrejected
    refine iff_of_false (fun h => by cases h) fun h => ?_
    cases hrejected.symm.trans (hverify.mpr h.2)

/-- Both parts together, for an entry with the fields of both signatures. -/
theorem hybridSignatureFault_eq_none_iff (hkeys : HybridKeys cfg ed dsa env.digests key skHex pkHex)
    (hcanonical : env.canonical.json (m.toJson none) = .ok canonical) {sigHex : String}
    (hsign : mlDsaSign dsa coins skHex
      (env.digests.bytes (env.digests.manifestDigest canonical true)) manifestContext = .ok sigHex)
    (i : Nat) :
    hybridSignatureFault env ed dsa cfg.toConfig i
        (addPqcFields sigHex pkHex (m.toJson (some (signManifest env key canonical)))) = .ok none ↔
      Trusted cfg key pkHex ∧
        env.digests.sha256 canonical = env.digests.manifestDigest canonical true := by
  obtain ⟨sk, pk, hsk, hpk, hdsa⟩ := hkeys.dsa
  have hpqc : pqcSignatureFault env dsa cfg.toConfig i
      (addPqcFields sigHex pkHex (m.toJson (some (signManifest env key canonical)))) = .ok none ↔ _ :=
    pqcSignatureFault_eq_none_iff hsk hpk hdsa hcanonical hsign _ i
  have hed : edSignatureFault env ed cfg.toConfig i
      (addPqcFields sigHex pkHex (m.toJson (some (signManifest env key canonical))))
      (signManifest env key canonical).1 = none ↔ _ :=
    edSignatureFault_eq_none_iff hkeys.ed hcanonical i sigHex
  rw [hybridSignatureFault, get_signature, Trusted, and_assoc, ← hpqc, ← hed]
  dsimp only
  split
  · rename_i reason hreason
    rw [hreason]
    exact iff_of_false (fun h => by cases h) fun h => by cases h.1
  · rename_i hnone
    rw [if_pos (get_signatureVersion ..).ge]
    exact ⟨fun h => ⟨hnone, h⟩, fun h => h.2⟩

end Keys

/-- **Hybrid signatures are accepted only on a collision.**  Both signatures of an entry that the logger has
    signed pass exactly if its keys are trusted and SHA-256 gives its canonical text the same digest with
    and without the domain in front of it. -/
theorem hybrid_manifest_accepted_iff (env : Env H T) (ed : Ed25519) (dsa : MlDsa) (cfg : HybridConfig)
    (key : Signer) (skHex pkHex : String) (hkeys : HybridKeys cfg ed dsa env.digests key skHex pkHex)
    (coins : List UInt8) (m : ManifestEntry) (canonical : List UInt8)
    (hcanonical : env.canonical.json (m.toJson none) = .ok canonical) (entry : Json)
    (hentry : hybridManifestJson env dsa cfg coins m = .ok entry) (i : Nat) :
    hybridSignatureFault env ed dsa cfg.toConfig i entry = .ok none ↔
      Trusted cfg key pkHex ∧
        env.digests.sha256 canonical =
          env.digests.sha256 (lengthPrefixed (strBytes domainRotationManifest) ++ canonical) := by
  obtain ⟨sigHex, hsign, rfl⟩ := hybridManifestJson_eq_ok hkeys hcanonical hentry
  exact hybridSignatureFault_eq_none_iff hkeys hcanonical hsign i

/-! ### An entry of the logger -/

/-- The checksum, filled up to 32 bytes. -/
def paddedDigests : Digests Hash32 :=
  .ofSha256 fun bs => ⟨UInt8.ofNat (checksum bs / 256) :: UInt8.ofNat (checksum bs % 256) ::
    List.replicate 30 0, rfl⟩

/-- A signature is the message, filled up with zeros. -/
def padSignature (message : List UInt8) : List UInt8 :=
  (message ++ List.replicate mlDsa65SigLen 0).take mlDsa65SigLen

def plainMlDsa : MlDsa where
  privateKeyError _ := none
  publicKeyError _ := none
  trySign _ _ message _ := .ok (padSignature message)
  verify _ message signature _ := signature = padSignature message

theorem padSignature_inj {a b : Hash32} (h : padSignature a.1 = padSignature b.1) : a = b := by
  have hfront : ∀ c : Hash32, (padSignature c.1).take 32 = c.1 := by
    intro c
    rw [padSignature, List.take_take, List.take_append_of_le_length (by rw [c.2]; decide)]
    exact List.take_of_length_le c.2.le
  exact Subtype.ext ((hfront a).symm.trans ((congrArg (List.take 32) h).trans (hfront b)))

theorem plainMlDsa_accepts :
    plainMlDsa.Accepts paddedDigests (List.replicate mlDsa65SkLen 0) (List.replicate mlDsa65PkLen 0) where
  publicLen := List.length_replicate
  publicKeyError := rfl
  signatureLen {coins message sig} h := by
    cases h
    rw [padSignature, List.length_take, List.length_append, List.length_replicate]
    omega
  verify {coins sig signed} h asked := by
    cases h
    rw [plainMlDsa, decide_eq_true_iff]
    exact ⟨fun heq => (padSignature_inj heq).symm, fun heq => by rw [heq]⟩

def plainSkHex : String := hexEncode (List.replicate mlDsa65SkLen 0)
def plainPkHex : String := hexEncode (List.replicate mlDsa65PkLen 0)

/-- A logger with both keys that trusts no key in particular. -/
def hybridConfig : HybridConfig :=
  { signedConfig 1 with pqcSecretKeyHex := some plainSkHex, pqcPublicKeyHex := some plainPkHex }

theorem hybridConfig_keys :
    HybridKeys hybridConfig plainEd25519 plainMlDsa paddedDigests plainSigner plainSkHex plainPkHex where
  signingKey := rfl
  secretKey := rfl
  publicKey := rfl
  ed := plainEd25519_accepts
  dsa := ⟨_, _, hexDecode_hexEncode _, hexDecode_hexEncode _, plainMlDsa_accepts⟩

def firstManifest : ManifestEntry :=
  ⟨"2026-01-01T00:00:00+00:00", "audit.2026.log", "aa", "", 1, 0, "genesis"⟩

/-- Its canonical text. -/
def firstText : List UInt8 := strBytes (plainJsonText (firstManifest.toJson none))

/-- The second signature of the entry. -/
def firstSigHex : String :=
  hexEncode (padSignature ((plainEnv paddedDigests).digests.bytes
    ((plainEnv paddedDigests).digests.manifestDigest firstText true)))

theorem plainMlDsa_sign (message : List UInt8) :
    mlDsaSign plainMlDsa [] plainSkHex message manifestContext = .ok (hexEncode (padSignature message)) := by
  rw [mlDsaSign, plainSkHex, hexDecode_hexEncode]
  dsimp only
  rw [if_neg (not_not.mpr List.length_replicate)]
  rfl

theorem firstManifest_signed :
    mlDsaSign plainMlDsa [] plainSkHex ((plainEnv paddedDigests).digests.bytes
      ((plainEnv paddedDigests).digests.manifestDigest firstText true)) manifestContext = .ok firstSigHex :=
  plainMlDsa_sign _

/-- The entry that the logger writes. -/
def firstEntry : Json :=
  addPqcFields firstSigHex plainPkHex
    (firstManifest.toJson (some (signManifest (plainEnv paddedDigests) plainSigner firstText)))

theorem canonical_firstManifest :
    (plainEnv paddedDigests).canonical.json (firstManifest.toJson none) = .ok firstText := rfl

theorem firstEntry_written :
    hybridManifestJson (plainEnv paddedDigests) plainMlDsa hybridConfig [] firstManifest = .ok firstEntry :=
  have hkeys : HybridKeys hybridConfig plainEd25519 plainMlDsa (plainEnv paddedDigests).digests plainSigner
      plainSkHex plainPkHex := hybridConfig_keys
  hybridManifestJson_of_sign hkeys canonical_firstManifest firstManifest_signed

theorem hybrid_manifest_accepted_iff_first :
    hybridManifestJson (plainEnv paddedDigests) plainMlDsa hybridConfig [] firstManifest = .ok firstEntry ∧
      (hybridSignatureFault (plainEnv paddedDigests) plainEd25519 plainMlDsa hybridConfig.toConfig 0
          firstEntry = .ok none ↔
        Trusted hybridConfig plainSigner plainPkHex ∧
          paddedDigests.sha256 firstText =
            paddedDigests.sha256 (lengthPrefixed (strBytes domainRotationManifest) ++ firstText)) :=
  ⟨firstEntry_written, hybrid_manifest_accepted_iff (plainEnv paddedDigests) plainEd25519 plainMlDsa
    hybridConfig plainSigner plainSkHex plainPkHex hybridConfig_keys [] firstManifest firstText
    canonical_firstManifest firstEntry firstEntry_written 0⟩

/-- **An entry of the logger is rejected**, although its keys accept what they have signed. -/
theorem hybrid_manifest_rejected :
    HybridKeys hybridConfig plainEd25519 plainMlDsa paddedDigests plainSigner plainSkHex plainPkHex ∧
      hybridManifestJson (plainEnv paddedDigests) plainMlDsa hybridConfig [] firstManifest =
        .ok firstEntry ∧
      hybridSignatureFault (plainEnv paddedDigests) plainEd25519 plainMlDsa hybridConfig.toConfig 0
        firstEntry ≠ .ok none := by
  refine ⟨hybridConfig_keys, firstEntry_written, fun h => ?_⟩
  have hkeys : HybridKeys hybridConfig plainEd25519 plainMlDsa (plainEnv paddedDigests).digests plainSigner
      plainSkHex plainPkHex := hybridConfig_keys
  have hne : (plainEnv paddedDigests).digests.sha256 firstText ≠
      (plainEnv paddedDigests).digests.manifestDigest firstText true := by
    decide +kernel
  exact hne ((hybridSignatureFault_eq_none_iff hkeys canonical_firstManifest firstManifest_signed 0).mp h).2

end Vellaveto.Audit
