/-
  DPOP PROOFS (`vellaveto-mcp/src/nhi.rs`, and of `vellaveto-types/src/uri_util.rs` the normalization of
  the request URI).

  A proof carries an identifier of its own, the `jti`.  `verify_dpop_proof` remembers the identifiers of the
  proofs it has accepted for an hour, and refuses one that it remembers.  The memory is a queue: entries
  older than an hour are dropped from its front, and when it has more than 10000 entries the first one is
  dropped as well, however young it is.  (`vellaveto-http-proxy/src/oauth.rs` refuses the proof instead.)

    1. **Program** — `verifyDpopProof` with all its checks, and the nonces (`DpopNonceTracker`), which are
       consumed and generated on the way.  Clock readings and random nonces are arguments of a call.
    2. **One call** — `verifyDpopProof_spec`: a proof that is accepted was not remembered, and its `jti`
       is recorded.
    3. **Runs** — `DpopSystem` keeps the proofs accepted so far.  `no_replay_while_room`: while the clock
       does not go back and the queue has room for every proof that matches its request, no `jti` is
       accepted twice within an hour.
    4. **A flood** — `flood_forgets`: 10000 other proofs in one second push a `jti` out of the queue, and
       it is accepted again.
-/
import Mathlib.Data.List.TakeWhile
import Vellaveto.Lib.Counters
import Vellaveto.Lib.Percent
import Vellaveto.Lib.Run
import Vellaveto.Lib.Table
import Vellaveto.Shield.Sanitizer

namespace Vellaveto.Nhi

open Vellaveto.Lib
open Vellaveto.Shield (toUppercase)

/-! ### Request URIs -/

/-- The unreserved characters. -/
def isUnreserved (ch : UInt8) : Bool :=
  (0x30 ≤ ch && ch ≤ 0x39) || (0x41 ≤ ch && ch ≤ 0x5A) || (0x61 ≤ ch && ch ≤ 0x7A) ||
    ch == 0x2D || ch == 0x2E || ch == 0x5F || ch == 0x7E

/-- A byte as a character. -/
def byteChar (b : UInt8) : Char := Char.ofNat b.toNat

/-- `decode_unreserved_percent`, from the bytes. -/
def decodeUnreservedPercent : List UInt8 → List Char
  | [] => []
  | 0x25 :: hi :: lo :: bs =>
    match hexDigit hi, hexDigit lo with
    | some h, some l =>
      if isUnreserved (h * 16 + l) then byteChar (h * 16 + l) :: decodeUnreservedPercent bs
      else '%' :: (byteChar hi).toUpper :: (byteChar lo).toUpper :: decodeUnreservedPercent bs
    | _, _ => '%' :: decodeUnreservedPercent (hi :: lo :: bs)
  | b :: bs => byteChar b :: decodeUnreservedPercent bs

/-- The text up to and with the first `://`, and the text behind it. -/
def splitScheme : List Char → Option (List Char × List Char)
  | [] => none
  | c :: cs =>
    if [':', '/', '/'].isPrefixOf (c :: cs) then some ([':', '/', '/'], cs.drop 2)
    else (splitScheme cs).map fun (scheme, rest) => (c :: scheme, rest)

/-- `normalize_dpop_htu`: scheme and authority in lower case, the path as it is. -/
def normalizeDpopHtu (u : String) : List Char :=
  let decoded := decodeUnreservedPercent (utf8Encode (trimEndMatches '/' u.toList))
  match splitScheme decoded with
  | some (scheme, rest) =>
    (scheme ++ rest.takeWhile (· != '/')).map Char.toLower ++ rest.dropWhile (· != '/')
  | none => decoded

example : normalizeDpopHtu "HTTPS://API.Example.com/%7Euser/%2fA/" =
    "https://api.example.com/~user/%2FA".toList := by decide +kernel

/-! ### Nonces -/

/-- `MAX_DPOP_NONCES`. -/
def maxDpopNonces : Nat := 10000

/-- `DpopNonceTracker`. -/
structure DpopNonceTracker where
  nonces : AList fun _ : String => Nat
  ttlSecs : Nat

/-- `DpopNonceTracker::new`. -/
def DpopNonceTracker.new : DpopNonceTracker := ⟨∅, 300⟩

/-- The order of `sort_by_key`. -/
def olderNonce (a b : Σ _ : String, Nat) : Prop := a.2 ≤ b.2

instance : DecidableRel olderNonce := fun a b => inferInstanceAs (Decidable (a.2 ≤ b.2))

/-- `generate_nonce`, with the random nonce and the clock reading. -/
def DpopNonceTracker.generateNonce (t : DpopNonceTracker) (nonce : String) (now : Nat) :
    DpopNonceTracker × Except String String :=
  let live := retain (fun _ ts => now - ts < t.ttlSecs) t.nonces
  let kept :=
    if maxDpopNonces ≤ live.keys.length then
      eraseAll live (((live.entries.insertionSort olderNonce).take (maxDpopNonces / 10)).map (·.1))
    else live
  if maxDpopNonces ≤ kept.keys.length then
    ({ t with nonces := kept },
      .error s!"DPoP nonce tracker at capacity ({maxDpopNonces}); try again later")
  else ({ t with nonces := kept.insert nonce now }, .ok nonce)

/-- `consume`. -/
def DpopNonceTracker.consume (t : DpopNonceTracker) (nonce : String) (now : Nat) :
    DpopNonceTracker × Bool :=
  match t.nonces.lookup nonce with
  | some createdAt => ({ t with nonces := t.nonces.erase nonce }, now - createdAt < t.ttlSecs)
  | none => (t, false)

/-! ### Proofs -/

/-- `NhiDpopProof`, as far as it is read. -/
structure NhiDpopProof where
  htm : String
  htu : String
  ath : Option String
  nonce : Option String
  jti : String
  deriving DecidableEq, Repr

/-- `NhiDpopVerificationResult`. -/
structure NhiDpopVerificationResult where
  valid : Bool
  thumbprint : Option String
  error : Option String
  newNonce : Option String
  deriving DecidableEq, Repr

/-- What is read of the configuration, with the upper-case mapping outside ASCII. -/
structure DpopConfig where
  enabled : Bool
  requireNonce : Bool
  requireAth : Bool
  upper : Char → List Char

/-- The state that the verification works on. -/
structure DpopState where
  usedJtis : List (String × Nat)
  nonces : DpopNonceTracker
  dpopVerificationsLastHour : Nat

/-- The arguments of `verify_dpop_proof`, the clock readings in their order and the next random
    nonce. -/
structure DpopRequest where
  proof : NhiDpopProof
  expectedMethod : String
  expectedUri : String
  accessTokenHash : Option String
  now : Nat
  consumeNow : Nat
  generateNow : Nat
  freshNonce : String
  deriving DecidableEq, Repr

/-- A refusal. -/
def refused (error : String) (newNonce : Option String) : NhiDpopVerificationResult :=
  ⟨false, none, some error, newNonce⟩

/-- `generate_dpop_nonce(..).ok()`. -/
def DpopState.generateDpopNonce (s : DpopState) (nonce : String) (now : Nat) :
    DpopState × Option String :=
  let (nonces, result) := s.nonces.generateNonce nonce now
  ({ s with nonces := nonces }, result.toOption)

/-- The checks of the method and of the URI. -/
def checkMethodAndUri (config : DpopConfig) (r : DpopRequest) : Except String Unit :=
  if toUppercase config.upper r.proof.htm.toList ≠
      toUppercase config.upper r.expectedMethod.toList then
    .error "DPoP HTTP method does not match expected value"
  else if !(r.proof.htu.toList.all isAscii) || !(r.expectedUri.toList.all isAscii) then
    .error "DPoP htu contains non-ASCII characters"
  else if normalizeDpopHtu r.proof.htu ≠ normalizeDpopHtu r.expectedUri then
    .error "DPoP URI does not match expected value"
  else .ok ()

/-- The check of the hash of the access token. -/
def checkAth (config : DpopConfig) (r : DpopRequest) : Except String Unit :=
  if config.requireAth then
    match r.accessTokenHash with
    | some expectedAth =>
      if r.proof.ath ≠ some expectedAth then .error "Access token hash mismatch" else .ok ()
    | none => .error "Access token hash required but not provided"
  else .ok ()

/-- The check of the nonce: the state it leaves, and whether it passes. -/
def checkNonce (config : DpopConfig) (s : DpopState) (r : DpopRequest) : DpopState × Bool :=
  if config.requireNonce then
    match r.proof.nonce with
    | some nonce =>
      let (nonces, valid) := s.nonces.consume nonce r.consumeNow
      ({ s with nonces := nonces }, valid)
    | none => (s, false)
  else (s, true)

/-- The identifiers that are left when those older than an hour are dropped from the front. -/
def cleanJtis (now : Nat) (usedJtis : List (String × Nat)) : List (String × Nat) :=
  usedJtis.dropWhile fun e => 3600 < now - e.2

/-- One more identifier; the first one goes when there are too many. -/
def recordJti (jti : String) (now : Nat) (usedJtis : List (String × Nat)) : List (String × Nat) :=
  let pushed := usedJtis ++ [(jti, now)]
  if maxDpopNonces < pushed.length then pushed.tail else pushed

/-- `verify_dpop_proof`. -/
def verifyDpopProof (config : DpopConfig) (s : DpopState) (r : DpopRequest) :
    DpopState × NhiDpopVerificationResult :=
  if !config.enabled then (s, refused "NHI manager disabled" none)
  else
    let cleaned := { s with usedJtis := cleanJtis r.now s.usedJtis }
    if cleaned.usedJtis.any fun e => e.1 == r.proof.jti then
      let (s', newNonce) := cleaned.generateDpopNonce r.freshNonce r.generateNow
      (s', refused "JTI already used (replay attack)" newNonce)
    else
      match checkMethodAndUri config r with
      | .error e => (cleaned, refused e none)
      | .ok () =>
        let (consumed, nonceValid) := checkNonce config cleaned r
        if !nonceValid then
          let reason :=
            if r.proof.nonce.isSome then "Invalid or expired nonce"
            else "Nonce required but not provided"
          let (s', newNonce) := consumed.generateDpopNonce r.freshNonce r.generateNow
          (s', refused reason newNonce)
        else
          match checkAth config r with
          | .error e => (consumed, refused e none)
          | .ok () =>
            ({ consumed with
                usedJtis := recordJti r.proof.jti r.now consumed.usedJtis
                dpopVerificationsLastHour :=
                  saturatingAdd (2 ^ 64 - 1) consumed.dpopVerificationsLastHour 1 },
              ⟨true, none, none, none⟩)

/-! ### One call -/

section Call

variable {config : DpopConfig} {s : DpopState} {r : DpopRequest}

@[simp] theorem usedJtis_checkNonce (config : DpopConfig) (s : DpopState) (r : DpopRequest) :
    (checkNonce config s r).1.usedJtis = s.usedJtis := by
  unfold checkNonce
  split
  · split <;> rfl
  · rfl

/-- The proof is for this method, this URI and, where that is required, this access token. -/
def Matches (config : DpopConfig) (r : DpopRequest) : Prop :=
  checkMethodAndUri config r = .ok () ∧ checkAth config r = .ok ()

/-- **One call.**  It forgets identifiers only by their age, unless it accepts the proof; then the proof
    matches its request, its identifier was not remembered, and is recorded. -/
theorem verifyDpopProof_spec (config : DpopConfig) (s : DpopState) (r : DpopRequest) :
    ((verifyDpopProof config s r).2.valid = false ∧
      ((verifyDpopProof config s r).1.usedJtis = s.usedJtis ∨
        (verifyDpopProof config s r).1.usedJtis = cleanJtis r.now s.usedJtis)) ∨
    ((verifyDpopProof config s r).2.valid = true ∧ Matches config r ∧
      (∀ e ∈ cleanJtis r.now s.usedJtis, e.1 ≠ r.proof.jti) ∧
      (verifyDpopProof config s r).1.usedJtis =
        recordJti r.proof.jti r.now (cleanJtis r.now s.usedJtis)) := by
  unfold verifyDpopProof
  split
  · exact .inl ⟨rfl, .inl rfl⟩
  simp only
  split
  · exact .inl ⟨rfl, .inr rfl⟩
  rename_i hnew
  cases hmatch : checkMethodAndUri config r with
  | error e => exact .inl ⟨rfl, .inr rfl⟩
  | ok =>
    simp only
    split
    · left
      exact ⟨rfl, .inr (usedJtis_checkNonce config _ r)⟩
    · cases hath : checkAth config r with
      | error e => exact .inl ⟨rfl, .inr (usedJtis_checkNonce config _ r)⟩
      | ok =>
        right
        refine ⟨rfl, ⟨hmatch, hath⟩, ?_, ?_⟩
        · intro e he heq
          exact hnew (List.any_eq_true.mpr ⟨e, he, by simp [heq]⟩)
        · simp only [usedJtis_checkNonce]

end Call

/-! ### Runs -/

/-- The state, the last clock reading and the proofs that were accepted, each with its time. -/
structure DpopSystem where
  state : DpopState
  clock : Nat
  accepted : List (String × Nat)

def DpopSystem.new : DpopSystem where
  state := ⟨[], .new, 0⟩
  clock := 0
  accepted := []

/-- A call, or another order of the table of nonces. -/
inductive DpopAction where
  | verify (r : DpopRequest)
  | generateNonce (nonce : String) (now : Nat)
  | rehash (nonces : AList fun _ : String => Nat)

def dpopStep (config : DpopConfig) (s : DpopSystem) : DpopAction → Option DpopSystem
  | .verify r =>
    let (state, result) := verifyDpopProof config s.state r
    some
      { state := state
        clock := r.now
        accepted := if result.valid then s.accepted ++ [(r.proof.jti, r.now)] else s.accepted }
  | .generateNonce nonce now => some { s with state := (s.state.generateDpopNonce nonce now).1 }
  | .rehash nonces =>
    if nonces.entries.Perm s.state.nonces.nonces.entries then
      some { s with state := { s.state with nonces := { s.state.nonces with nonces := nonces } } }
    else none

theorem dpopStep_verify (config : DpopConfig) (s : DpopSystem) (r : DpopRequest) :
    dpopStep config s (.verify r) = some
      { state := (verifyDpopProof config s.state r).1
        clock := r.now
        accepted :=
          if (verifyDpopProof config s.state r).2.valid then s.accepted ++ [(r.proof.jti, r.now)]
          else s.accepted } := rfl

/-- No identifier was accepted twice within an hour. -/
def NoReplay (accepted : List (String × Nat)) : Prop :=
  accepted.Pairwise fun e e' => e.1 = e'.1 → e.2 + 3600 < e'.2

/-- The clock does not go back. -/
def ClockRuns (s : DpopSystem) : DpopAction → Prop
  | .verify r => s.clock ≤ r.now
  | _ => True

/-- The queue has room for a proof that matches its request: fewer than 10000 of the identifiers in it
    are left when the old ones are dropped. -/
def HasRoom (config : DpopConfig) (s : DpopSystem) : DpopAction → Prop
  | .verify r =>
    Matches config r → (cleanJtis r.now s.state.usedJtis).length < maxDpopNonces
  | _ => True

instance (s : DpopSystem) : (a : DpopAction) → Decidable (ClockRuns s a)
  | .verify r => inferInstanceAs (Decidable (s.clock ≤ r.now))
  | .generateNonce .. | .rehash _ => isTrue trivial

instance (config : DpopConfig) (r : DpopRequest) : Decidable (Matches config r) :=
  inferInstanceAs (Decidable (_ ∧ _))

instance (config : DpopConfig) (s : DpopSystem) : (a : DpopAction) → Decidable (HasRoom config s a)
  | .verify _ => inferInstanceAs (Decidable (_ → _))
  | .generateNonce .. | .rehash _ => isTrue trivial

/-- What is remembered: everything accepted within the last hour. -/
structure Remembers (s : DpopSystem) : Prop where
  past : ∀ e ∈ s.accepted, e.2 ≤ s.clock
  live : ∀ e ∈ s.accepted, s.clock ≤ e.2 + 3600 → e ∈ s.state.usedJtis
  noReplay : NoReplay s.accepted

section Steps

variable {config : DpopConfig} {s s' : DpopSystem} {a : DpopAction}

/-- Cleaning drops nothing that is younger than an hour. -/
theorem mem_cleanJtis {now : Nat} {usedJtis : List (String × Nat)} {e : String × Nat}
    (he : e ∈ usedJtis) (hlive : now ≤ e.2 + 3600) : e ∈ cleanJtis now usedJtis := by
  rw [cleanJtis]
  rw [← @List.takeWhile_append_dropWhile _ (fun e : String × Nat => 3600 < now - e.2) usedJtis] at he
  rcases List.mem_append.mp he with hold | hkept
  · have hage := List.mem_takeWhile_imp hold
    simp only [decide_eq_true_eq] at hage
    omega
  · exact hkept

theorem recordJti_of_room {jti : String} {now : Nat} {usedJtis : List (String × Nat)}
    (hroom : usedJtis.length < maxDpopNonces) :
    recordJti jti now usedJtis = usedJtis ++ [(jti, now)] := by
  unfold recordJti
  simp only
  rw [if_neg]
  rw [List.length_append, List.length_singleton]
  omega

/-- **One step** with a clock that runs and a queue with room. -/
theorem Remembers.step (h : Remembers s) (hclock : ClockRuns s a) (hroom : HasRoom config s a)
    (hstep : dpopStep config s a = some s') : Remembers s' := by
  cases a with
  | generateNonce nonce now =>
    cases hstep
    exact ⟨h.past, h.live, h.noReplay⟩
  | rehash nonces =>
    simp only [dpopStep] at hstep
    split at hstep
    · cases hstep
      exact ⟨h.past, h.live, h.noReplay⟩
    · cases hstep
  | verify r =>
    replace hclock : s.clock ≤ r.now := hclock
    rw [dpopStep_verify] at hstep
    rw [← Option.some.inj hstep]
    rcases verifyDpopProof_spec config s.state r with
      ⟨hinvalid, hkept⟩ | ⟨hvalid, hmatch, hnew, hrecorded⟩
    · simp only [hinvalid, Bool.false_eq_true, if_false]
      refine ⟨fun e he => Nat.le_trans (h.past e he) hclock, fun e he hlive => ?_, h.noReplay⟩
      have hmem := h.live e he (Nat.le_trans hclock hlive)
      show e ∈ (verifyDpopProof config s.state r).1.usedJtis
      rcases hkept with hsame | hcleaned
      · rw [hsame]
        exact hmem
      · rw [hcleaned]
        exact mem_cleanJtis hmem hlive
    · have hqueue := @recordJti_of_room r.proof.jti r.now _ (hroom hmatch)
      simp only [hvalid, if_true]
      refine ⟨fun e he => ?_, fun e he hlive => ?_, ?_⟩
      · rcases List.mem_append.mp he with hold | hone
        · exact Nat.le_trans (h.past e hold) hclock
        · rw [List.mem_singleton.mp hone]
      · show e ∈ (verifyDpopProof config s.state r).1.usedJtis
        rw [hrecorded, hqueue]
        rcases List.mem_append.mp he with hold | hone
        · have hmem := h.live e hold (Nat.le_trans hclock hlive)
          exact List.mem_append_left _ (mem_cleanJtis hmem hlive)
        · exact List.mem_append_right _ hone
      · -- an earlier use within the hour would be remembered
        refine List.pairwise_append.mpr ⟨h.noReplay, List.pairwise_singleton _ _, ?_⟩
        intro e he e' he' heq
        cases List.mem_singleton.mp he'
        by_contra hyoung
        have hlive : r.now ≤ e.2 + 3600 := Nat.le_of_not_lt hyoung
        have hmem := mem_cleanJtis (h.live e he (Nat.le_trans hclock hlive)) hlive
        exact hnew e hmem heq

end Steps

/-- **No replay while there is room.**  In every state of a run with a clock that does not go back, in
    which the queue has room for every proof that matches its request, no identifier was accepted twice
    within an hour. -/
theorem no_replay_while_room (config : DpopConfig) (actions : List DpopAction)
    (hclock : EachStep (dpopStep config) (fun s a _ => ClockRuns s a) .new actions)
    (hroom : EachStep (dpopStep config) (fun s a _ => HasRoom config s a) .new actions) :
    EachStep (dpopStep config) (fun _ _ s => NoReplay s.accepted) .new actions := by
  refine EachStep.of_invariant (I := Remembers) ?_ (hclock.and hroom) ?_
  · intro s a s' _ hs hcond hstep
    have hs' := hs.step hcond.1 hcond.2 hstep
    exact ⟨hs', hs'.noReplay⟩
  · refine ⟨?_, ?_, List.Pairwise.nil⟩
    · intro e he
      cases he
    · intro e he
      cases he

/-! ### A flood -/

/-- A configuration that asks for no nonce and no token hash. -/
def openConfig : DpopConfig where
  enabled := true
  requireNonce := false
  requireAth := false
  upper := fun c => [c]

/-- A request in the first second, with a proof that matches it. -/
def matchingRequest (jti : String) : DpopRequest where
  proof := ⟨"GET", "https://a/b", none, none, jti⟩
  expectedMethod := "GET"
  expectedUri := "https://a/b"
  accessTokenHash := none
  now := 0
  consumeNow := 0
  generateNow := 0
  freshNonce := "n"

/-- A proof is refused the second time. -/
theorem no_replay_while_room_twice :
    let twice := ["a", "b", "a"].map fun jti => DpopAction.verify (matchingRequest jti)
    EachStep (dpopStep openConfig) (fun _ _ s => NoReplay s.accepted) .new twice ∧
      (run (dpopStep openConfig) .new twice).map (·.accepted) = some [("a", 0), ("b", 0)] :=
  ⟨no_replay_while_room openConfig _ (by decide +kernel) (by decide +kernel), by decide +kernel⟩

section Flood

/-- Nothing is old in the first second. -/
theorem cleanJtis_zero (usedJtis : List (String × Nat)) : cleanJtis 0 usedJtis = usedJtis := by
  cases usedJtis with
  | nil => rfl
  | cons e es => simp [cleanJtis]

theorem recordJti_eq_drop {jti : String} {now : Nat} {usedJtis : List (String × Nat)}
    (hle : usedJtis.length ≤ maxDpopNonces) :
    recordJti jti now usedJtis =
      (usedJtis ++ [(jti, now)]).drop (usedJtis.length + 1 - maxDpopNonces) := by
  unfold recordJti
  simp only [List.length_append, List.length_singleton]
  split
  · rename_i hfull
    rw [show usedJtis.length + 1 - maxDpopNonces = 1 by omega, List.drop_one]
  · rename_i hroom
    rw [show usedJtis.length + 1 - maxDpopNonces = 0 by omega, List.drop_zero]

theorem checkMethodAndUri_matching (jti : String) :
    checkMethodAndUri openConfig (matchingRequest jti) = .ok () := by
  unfold checkMethodAndUri
  rw [if_neg, if_neg, if_neg]
  · exact fun h => h rfl
  · show ¬ (!"https://a/b".toList.all isAscii || !"https://a/b".toList.all isAscii) = true
    decide +kernel
  · exact fun h => h rfl

/-- A new identifier is accepted. -/
theorem verifyDpopProof_matching {s : DpopState} {jti : String}
    (hnew : ∀ e ∈ s.usedJtis, e.1 ≠ jti) :
    (verifyDpopProof openConfig s (matchingRequest jti)).1.usedJtis = recordJti jti 0 s.usedJtis ∧
      (verifyDpopProof openConfig s (matchingRequest jti)).2.valid = true := by
  have hclean : cleanJtis (matchingRequest jti).now s.usedJtis = s.usedJtis := cleanJtis_zero _
  have hnone : ¬ (s.usedJtis.any fun e => e.1 == (matchingRequest jti).proof.jti) = true := by
    rw [List.any_eq_true]
    rintro ⟨e, he, heq⟩
    exact hnew e he (beq_iff_eq.mp heq)
  unfold verifyDpopProof
  rw [if_neg (by decide)]
  simp only [hclean]
  rw [if_neg hnone, checkMethodAndUri_matching]
  exact ⟨rfl, rfl⟩

/-- The queue keeps the last 10000 of the identifiers, whatever came before. -/
theorem run_matching {s : DpopSystem} {jtis : List String}
    (hle : s.state.usedJtis.length ≤ maxDpopNonces)
    (hnodup : (s.state.usedJtis.map (·.1) ++ jtis).Nodup) :
    ∃ s', run (dpopStep openConfig) s (jtis.map (.verify ∘ matchingRequest)) = some s' ∧
      s'.state.usedJtis = (s.state.usedJtis ++ jtis.map (·, 0)).drop
        (s.state.usedJtis.length + jtis.length - maxDpopNonces) ∧
      s'.accepted = s.accepted ++ jtis.map (·, 0) := by
  induction jtis generalizing s with
  | nil =>
    refine ⟨s, rfl, ?_, (List.append_nil _).symm⟩
    have hzero : s.state.usedJtis.length + 0 - maxDpopNonces = 0 := by omega
    rw [List.map_nil, List.append_nil, List.length_nil, hzero, List.drop_zero]
  | cons jti jtis ih =>
    have hnew : ∀ e ∈ s.state.usedJtis, e.1 ≠ jti := by
      intro e he heq
      have hapart := (List.nodup_append.mp hnodup).2.2
      exact hapart e.1 (List.mem_map_of_mem he) jti List.mem_cons_self heq
    obtain ⟨hqueue, hvalid⟩ := verifyDpopProof_matching hnew
    rw [recordJti_eq_drop hle] at hqueue
    have hstep := dpopStep_verify openConfig s (matchingRequest jti)
    rw [hvalid, if_pos rfl] at hstep
    generalize verifyDpopProof openConfig s.state (matchingRequest jti) = result at hqueue hstep
    have hlength := congrArg List.length hqueue
    rw [List.length_drop, List.length_append, List.length_singleton] at hlength
    have hle' : result.1.usedJtis.length ≤ maxDpopNonces := by omega
    have hnodup' : (result.1.usedJtis.map (·.1) ++ jtis).Nodup := by
      -- what is left is a part of what was there
      rw [hqueue, List.map_drop, List.map_append]
      rw [List.append_cons] at hnodup
      exact hnodup.sublist ((List.drop_sublist _ _).append_right jtis)
    obtain ⟨s', hrun, hqueue', haccepted⟩ :=
      @ih ⟨result.1, 0, s.accepted ++ [(jti, 0)]⟩ hle' hnodup'
    refine ⟨s', run_cons_eq_some.mpr ⟨_, hstep, hrun⟩, ?_, ?_⟩
    · have hpart : s.state.usedJtis.length + 1 - maxDpopNonces ≤
          (s.state.usedJtis ++ [(jti, 0)]).length := by
        rw [List.length_append, List.length_singleton]
        omega
      have hindex : s.state.usedJtis.length + 1 - maxDpopNonces +
          (result.1.usedJtis.length + jtis.length - maxDpopNonces) =
            s.state.usedJtis.length + (jtis.length + 1) - maxDpopNonces := by omega
      rw [hqueue', hqueue, ← List.drop_append_of_le_length hpart, List.drop_drop, ← hqueue, hindex,
        List.append_assoc]
      rfl
    · rw [haccepted, List.append_assoc]
      rfl

/-- The identifiers of the flood. -/
def floodJti (i : Nat) : String := String.ofList (List.replicate i 'x')

theorem nodup_floodJti (n : Nat) : ("a" :: (List.range n).map floodJti).Nodup := by
  refine List.nodup_cons.mpr ⟨?_, List.nodup_range.map fun i j hij => ?_⟩
  · intro hmem
    obtain ⟨i, -, hi⟩ := List.mem_map.mp hmem
    have ha : List.replicate i 'x' = ['a'] := String.ofList_injective (hi.trans rfl)
    have hxa : 'a' ∈ List.replicate i 'x' := by rw [ha]; exact List.mem_singleton_self 'a'
    exact absurd (List.eq_of_mem_replicate hxa) (by decide)
  · have hlen := congrArg List.length (String.ofList_injective hij)
    rwa [List.length_replicate, List.length_replicate] at hlen

/-- An identifier, 10000 others, and the first one again. -/
def flood : List DpopAction :=
  (("a" :: (List.range maxDpopNonces).map floodJti).map (.verify ∘ matchingRequest)) ++
    [.verify (matchingRequest "a")]

theorem flood_clock : EachStep (dpopStep openConfig) (fun s a _ => ClockRuns s a) .new flood := by
  have htrue : EachStep (dpopStep openConfig) (fun _ _ _ => True) .new flood :=
    eachStep_of_step fun _ _ _ _ => trivial
  refine EachStep.of_invariant (I := fun s => s.clock = 0) ?_ htrue rfl
  intro s a s' ha hs _ hstep
  obtain ⟨jti, rfl⟩ : ∃ jti, a = .verify (matchingRequest jti) := by
    rcases List.mem_append.mp ha with hfirst | hlast
    · obtain ⟨jti, -, hjti⟩ := List.mem_map.mp hfirst
      exact ⟨jti, hjti.symm⟩
    · exact ⟨"a", List.mem_singleton.mp hlast⟩
  rw [dpopStep_verify] at hstep
  rw [← Option.some.inj hstep]
  exact ⟨rfl, Nat.le_of_eq hs⟩

/-- **A flood.**  The clock stands still, and a proof is accepted again in the second in which it was
    accepted first. -/
theorem flood_forgets :
    EachStep (dpopStep openConfig) (fun s a _ => ClockRuns s a) .new flood ∧
      ¬ EachStep (dpopStep openConfig) (fun _ _ s => NoReplay s.accepted) .new flood := by
  refine ⟨flood_clock, fun heach => ?_⟩
  obtain ⟨s, hrun, hqueue, haccepted⟩ := @run_matching .new _ (Nat.zero_le _) (nodup_floodJti maxDpopNonces)
  obtain ⟨-, hlast⟩ := heach.append hrun
  have hnew : ∀ e ∈ s.state.usedJtis, e.1 ≠ "a" := by
    have hone : 0 + ("a" :: (List.range maxDpopNonces).map floodJti).length - maxDpopNonces = 1 := by
      rw [List.length_cons, List.length_map, List.length_range]
      omega
    intro e he heq
    rw [hqueue, show DpopSystem.new.state.usedJtis = [] from rfl, List.length_nil, hone] at he
    obtain ⟨jti, hjti, rfl⟩ := List.mem_map.mp he
    exact (List.nodup_cons.mp (nodup_floodJti maxDpopNonces)).1 (heq ▸ hjti)
  obtain ⟨-, hvalid⟩ := verifyDpopProof_matching hnew
  have hstep := dpopStep_verify openConfig s (matchingRequest "a")
  rw [hvalid, if_pos rfl] at hstep
  have hno := (hlast _ hstep).1
  rw [haccepted] at hno
  have hfirst : ("a", 0) ∈ DpopSystem.new.accepted ++
      ("a" :: (List.range maxDpopNonces).map floodJti).map (·, 0) := List.mem_cons_self
  have hpair := (List.pairwise_append.mp hno).2.2 _ hfirst _ (List.mem_singleton_self _) rfl
  exact absurd hpair (by decide)

end Flood

end Vellaveto.Nhi
