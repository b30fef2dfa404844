import PersistHotStuff.Source.Commit

/-!
# Membership

The part of a replica that decides who votes and under which keys. A committed
command acts on it alone, so the membership after a log is a fold over the
commands of the log.
-/

namespace PersistHotStuff

open Basis

/-- A count may be reached only if it is one more than a multiple of three. -/
theorem Replica.canApplyNewValidatorCount_mod {k : Nat}
    (h : canApplyNewValidatorCount k = true) :
    4 ≤ k ∧ k % 3 = 1 := by
  unfold canApplyNewValidatorCount at h
  split at h
  · cases h
  · exact ⟨by omega, by simpa using h⟩

/-- What membership commands read and write. -/
structure Membership where
  activeValidators : OrdMap ReplicaId Unit
  configEpoch : Nat
  n : Nat
  f : Nat
  publicKeys : OrdMap ReplicaId Bytes
  deriving DecidableEq

namespace Membership

/-- The fault threshold of a validator count. -/
def faults (n : Nat) : Nat := if n = 0 then 0 else (n - 1) / 3

/-- The membership with another validator set and other keys, one epoch later. -/
def advance (m : Membership) (activeValidators : OrdMap ReplicaId Unit)
    (publicKeys : OrdMap ReplicaId Bytes) : Membership where
  activeValidators := activeValidators
  configEpoch := saturatingAdd m.configEpoch 1
  n := activeValidators.length
  f := faults activeValidators.length
  publicKeys := publicKeys

variable [Ed25519]

/-- Whether a command changes the membership. -/
def effective (m : Membership) : ConsensusCommand → Bool
  | .joinValidator replicaId publicKey =>
      !m.activeValidators.contains replicaId &&
        Replica.canApplyNewValidatorCount (m.activeValidators.length + 1) &&
        decide (publicKey.length = 32) && Ed25519.isKey publicKey
  | .removeValidator replicaId =>
      m.activeValidators.contains replicaId &&
        Replica.canApplyNewValidatorCount (m.activeValidators.length - 1)
  | _ => false

/-- What an effective command does. -/
def change (m : Membership) : ConsensusCommand → Membership
  | .joinValidator replicaId publicKey =>
      m.advance (m.activeValidators.insert replicaId ()) (m.publicKeys.insert replicaId publicKey)
  | .removeValidator replicaId =>
      m.advance (m.activeValidators.erase replicaId) (m.publicKeys.erase replicaId)
  | _ => m

/-- The membership after a committed command. -/
def apply (m : Membership) (command : ConsensusCommand) : Membership :=
  if m.effective command then m.change command else m

/-- The membership after the commands of a log. -/
def fold (m : Membership) (commands : List ConsensusCommand) : Membership := commands.foldl apply m

theorem apply_of_not_effective {m : Membership} {command : ConsensusCommand}
    (h : m.effective command = false) : m.apply command = m := by
  simp only [apply, h, Bool.false_eq_true, if_false]

/-- Commands that are not effective leave the membership alone. -/
theorem fold_of_not_effective {m : Membership} {commands : List ConsensusCommand}
    (h : ∀ command ∈ commands, m.effective command = false) : m.fold commands = m := by
  induction commands with
  | nil => rfl
  | cons command commands ih =>
    obtain ⟨hcommand, hrest⟩ := List.forall_mem_cons.mp h
    rw [fold, List.foldl_cons, apply_of_not_effective hcommand]
    exact ih hrest

/-- An effective command moves the epoch. -/
theorem apply_configEpoch {m : Membership} {command : ConsensusCommand}
    (h : m.effective command = true) :
    (m.apply command).configEpoch = saturatingAdd m.configEpoch 1 := by
  simp only [apply, h, if_true]
  cases command with
  | noOp => cases h
  | clientTx payload => cases h
  | joinValidator replicaId publicKey => rfl
  | removeValidator replicaId => rfl

/-- An effective command changes the validator count by one, to one more than a multiple of
three. -/
theorem length_apply {m : Membership} {command : ConsensusCommand}
    (h : m.effective command = true) :
    m.activeValidators.length % 3 ≠ 1 ∧ 4 ≤ (m.apply command).activeValidators.length ∧
      (m.apply command).activeValidators.length % 3 = 1 := by
  simp only [apply, h, if_true]
  cases command with
  | noOp => cases h
  | clientTx payload => cases h
  | joinValidator replicaId publicKey =>
    simp only [effective, Bool.and_eq_true, Bool.not_eq_true'] at h
    obtain ⟨h4, h3⟩ := Replica.canApplyNewValidatorCount_mod h.1.1.2
    simp only [change, advance, OrdMap.length_insert_of_not_contains () h.1.1.1]
    omega
  | removeValidator replicaId =>
    simp only [effective, Bool.and_eq_true] at h
    obtain ⟨h4, h3⟩ := Replica.canApplyNewValidatorCount_mod h.2
    have hlen := OrdMap.length_erase_of_contains h.1
    simp only [change, advance]
    omega

/-- One more than a multiple of three is never left. -/
theorem not_effective_of_mod {m : Membership} (h : m.activeValidators.length % 3 = 1)
    (command : ConsensusCommand) : m.effective command = false := by
  cases heff : m.effective command with
  | false => rfl
  | true => exact absurd h (length_apply heff).1

end Membership

namespace Replica

variable {σ : Type}

/-- The membership a replica holds. -/
def membership (r : Replica σ) : Membership where
  activeValidators := r.activeValidators
  configEpoch := r.configEpoch
  n := r.config.n
  f := r.config.f
  publicKeys := r.keystore.publicKeys

/-- Quorums depend on the validator set alone. -/
theorem dynamicQuorumSize_congr {r s : Replica σ} (h : s.activeValidators = r.activeValidators) :
    s.dynamicQuorumSize = r.dynamicQuorumSize := by
  rw [dynamicQuorumSize, dynamicQuorumSize, dynamicF, dynamicF, dynamicN, dynamicN, h]

/-- Leaders depend on the validator set alone, unless it is empty. -/
theorem dynamicLeaderForView_congr {r s : Replica σ} (h : s.activeValidators = r.activeValidators)
    (hne : r.activeValidators.isEmpty = false) (view : Nat) :
    s.dynamicLeaderForView view = r.dynamicLeaderForView view := by
  have hpos : 0 < r.activeValidators.length := by
    rw [OrdMap.isEmpty, List.isEmpty_eq_false_iff] at hne
    exact List.length_pos_iff.mpr hne
  have hidx : view % r.activeValidators.length < r.activeValidators.keys.length := by
    rw [OrdMap.length_keys]
    exact Nat.mod_lt _ hpos
  simp only [dynamicLeaderForView, h, hne, Bool.false_eq_true, if_false,
    List.getElem?_eq_getElem hidx, Option.getD_some]

/-- Put a membership into a replica. -/
def withMembership (r : Replica σ) (m : Membership)
    (votePool : OrdMap Hash (List Signature)) : Replica σ :=
  { r with
    config := { r.config with n := m.n, f := m.f }
    keystore := { r.keystore with publicKeys := m.publicKeys }
    activeValidators := m.activeValidators
    configEpoch := m.configEpoch
    votePool := votePool }

/-- A committed command acts on the membership, and empties the vote pool when it is effective. -/
theorem applyMembershipCommand_eq [Ed25519] (r : Replica σ) (command : ConsensusCommand) :
    r.applyMembershipCommand command =
      r.withMembership (r.membership.apply command)
        (if r.membership.effective command then OrdMap.empty else r.votePool) := by
  cases command with
  | noOp => rfl
  | clientTx payload => rfl
  | joinValidator replicaId publicKey =>
    simp only [applyMembershipCommand, Membership.apply, Membership.change, Membership.effective,
      membership]
    by_cases hc : r.activeValidators.contains replicaId = true
    · simp only [hc, if_true, Bool.not_true, Bool.false_and, Bool.false_eq_true, if_false]
      rfl
    · by_cases hn : canApplyNewValidatorCount (r.activeValidators.length + 1) = true
      · by_cases hl : publicKey.length = 32
        · by_cases hk : Ed25519.isKey publicKey = true
          · simp [KeyStore.addPublicKey, hc, hn, hl, hk]
            rfl
          · simp [KeyStore.addPublicKey, hc, hn, hl, hk]
            rfl
        · simp [KeyStore.addPublicKey, hc, hn, hl]
          rfl
      · simp [hc, hn]
        rfl
  | removeValidator replicaId =>
    simp only [applyMembershipCommand, Membership.apply, Membership.change, Membership.effective,
      membership]
    by_cases hc : r.activeValidators.contains replicaId = true
    · by_cases hn : canApplyNewValidatorCount (r.activeValidators.length - 1) = true
      · simp [hc, hn]
        rfl
      · simp [hc, hn]
        rfl
    · simp [hc]
      rfl

end Replica

end PersistHotStuff
