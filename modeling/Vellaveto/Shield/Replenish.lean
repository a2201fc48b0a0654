/-
  REPLENISHING THE VAULT (`vellaveto-mcp-shield/src/credential_vault.rs`).

  `replenish` generates credentials "until the vault has at least `replenish_threshold` available, up to
  `pool_size`".  The bound is compared with the number of ALL entries.  An entry that was consumed,
  expired or reclaimed is never removed, so it takes a place of the pool for ever, although a credential
  that is reclaimed is said to be freed from it.

    1. `replenishLoop_restores_iff`   one call, by induction on the rounds: a round keeps the number of
                                      used entries and adds one available entry;
    2. `replenish_restores_iff`       along every run of the vault, every call that returns leaves the
                                      threshold available exactly if each was made with that many
                                      available, or with room for them beside the used entries.
-/
import Vellaveto.Shield.CredentialVault

namespace Vellaveto.Shield

open Vellaveto.Lib

namespace CredentialVault

/-- `available_count`. -/
def availableCount (v : CredentialVault) : Nat := v.entries.countP fun e => e.status == .available

/-- The entries in any other status. -/
def usedCount (v : CredentialVault) : Nat := v.entries.countP fun e => !(e.status == .available)

theorem length_entries (v : CredentialVault) :
    v.entries.length = v.availableCount + v.usedCount := by
  rw [availableCount, usedCount, List.length_eq_countP_add_countP fun e => e.status == .available]
  congr 2
  funext e
  cases e.status == .available <;> rfl

/-- The threshold is there already, or the pool has room for it beside the used entries. -/
def HasRoom (v : CredentialVault) : Prop :=
  v.replenishThreshold ≤ v.availableCount ∨ v.usedCount + v.replenishThreshold ≤ v.poolSize

end CredentialVault

section Call

variable {v w : CredentialVault} {c : BlindCredential} {io : AppendIo} {epoch : Nat}
  {draws : Nat → Draw} {rounds added n : Nat}

/-- A credential that was added is available, and no other entry has changed. -/
theorem addValidated_counts (h : addValidated c io v = (.ok (), w)) :
    w.poolSize = v.poolSize ∧ w.replenishThreshold = v.replenishThreshold ∧
      w.availableCount = v.availableCount + 1 ∧ w.usedCount = v.usedCount := by
  rw [addValidated, Act.bind_of_ok Act.read_apply] at h
  split at h
  · cases h
  rw [Act.bind_of_ok (Act.update_apply _)] at h
  cases io with
  | ok =>
    cases h
    refine ⟨rfl, rfl, ?_, ?_⟩
    · simp [CredentialVault.availableCount]
    · simp [CredentialVault.usedCount]
  | failed e got => cases h
  | stopped got => cases h

theorem addCredential_counts (h : addCredential c io v = (.ok (), w)) :
    w.poolSize = v.poolSize ∧ w.replenishThreshold = v.replenishThreshold ∧
      w.availableCount = v.availableCount + 1 ∧ w.usedCount = v.usedCount := by
  rw [addCredential] at h
  cases hvalid : c.validate with
  | error reason =>
    rw [hvalid] at h
    cases h
  | ok =>
    rw [hvalid] at h
    exact addValidated_counts h

/-- **One call.**  The rounds go on until enough is available or the pool is full. -/
theorem replenishLoop_restores_iff (hrounds : v.poolSize - v.entries.length < rounds)
    (h : replenishLoop epoch draws rounds added v = (.ok n, w)) :
    w.replenishThreshold ≤ w.availableCount ↔ v.HasRoom := by
  unfold CredentialVault.HasRoom
  have hlength := v.length_entries
  induction rounds generalizing v added with
  | zero => omega
  | succ rounds ih =>
    rw [replenishLoop, Act.bind_of_ok Act.read_apply] at h
    have hneeds : v.needsReplenishment = true ↔ v.availableCount < v.replenishThreshold := by
      simp [CredentialVault.needsReplenishment, CredentialVault.availableCount]
    split at h
    · -- enough is available
      rename_i henough
      cases h
      rw [Bool.not_eq_true', ← Bool.not_eq_true, hneeds] at henough
      omega
    rename_i hlow
    rw [Bool.not_eq_true', Bool.not_eq_false, hneeds] at hlow
    split at h
    · -- the pool is full
      cases h
      omega
    · obtain ⟨_, u, hadd, hrest⟩ := Act.bind_eq_ok.mp h
      obtain ⟨hpool, hthreshold, havailable, hused⟩ := addCredential_counts hadd
      have hlength' := u.length_entries
      have hiff := ih (by omega) hrest hlength'
      omega

theorem replenish_restores (h : replenish draws v = (.ok n, w)) :
    w.replenishThreshold ≤ w.availableCount ↔ v.HasRoom := by
  rw [replenish, Act.bind_of_ok Act.read_apply] at h
  exact replenishLoop_restores_iff (Nat.lt_succ_self _) h

end Call

/-! ### Runs -/

/-- A call of `replenish` that returns leaves the threshold available. -/
def RestoresAvailability (s : VaultSystem) (op : VaultOp) (s' : VaultSystem) : Prop :=
  ∀ draws n, op = .replenish draws → s.running = true → (replenish draws s.vault).1 = .ok n →
    s'.vault.replenishThreshold ≤ s'.vault.availableCount

/-- A call of `replenish` that returns is made in a vault with room. -/
def ReplenishesWithRoom (s : VaultSystem) (op : VaultOp) : Prop :=
  ∀ draws n, op = .replenish draws → s.running = true → (replenish draws s.vault).1 = .ok n →
    s.vault.HasRoom

/-- **Replenishing restores availability** along a run exactly if there is always room for it. -/
theorem replenish_restores_iff (env : VaultEnv) (ops : List VaultOp) :
    EachStep (vaultStep env) RestoresAvailability VaultSystem.new ops ↔
      EachStep (vaultStep env) (fun s op _ => ReplenishesWithRoom s op) VaultSystem.new ops := by
  refine eachStep_congr (I := fun _ => True) (fun _ _ _ _ _ => trivial) ?_ trivial
  intro s op s' _ hstep
  refine forall_congr' fun draws => forall_congr' fun n => imp_congr_right fun hop =>
    imp_congr_right fun hrunning => imp_congr_right fun hok => ?_
  subst hop
  have hvault : s'.vault = (replenish draws s.vault).2 := by
    cases hstep
    rw [VaultSystem.after, if_pos hrunning]
  rw [hvault]
  exact replenish_restores (Prod.ext hok rfl)

/-- A pool of two with a threshold of one: two credentials are generated and consumed, one of them by a
    session that ended and one by a session that was reclaimed, and the third call of `replenish` returns
    with nothing available. -/
theorem used_pool_not_replenished :
    ∃ s ∈ run (vaultStep ⟨fun _ => 100, "misread"⟩) VaultSystem.new
        [.openVault 2 1 none, .replenish fun _ => ⟨fun _ => 1, fun _ => 2, .ok⟩,
          .consumeCredential 10 .ok, .markConsumed 0 .ok,
          .replenish fun _ => ⟨fun _ => 3, fun _ => 4, .ok⟩, .consumeCredential 20 .ok,
          .reclaimOrphanedActive 4000 .ok],
      s.running = true ∧ s.vault.replenishThreshold = 1 ∧ s.vault.poolSize = 2 ∧
      (replenish (fun _ => ⟨fun _ => 5, fun _ => 6, .ok⟩) s.vault).1 = .ok 0 ∧
      (replenish (fun _ => ⟨fun _ => 5, fun _ => 6, .ok⟩) s.vault).2.availableCount = 0 := by
  decide +kernel

end Vellaveto.Shield
