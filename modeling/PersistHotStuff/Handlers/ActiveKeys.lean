import PersistHotStuff.Handlers.Call
import PersistHotStuff.Handlers.Reconfiguration

/-!
# Keys of the active validators

Verification of a certificate reads the registered keys and never the validator
set. Every membership change registers and removes the key together with the
validator, so the keys stay those of the set, and a certificate that is accepted
carries a quorum of signatures of active validators.
-/

namespace PersistHotStuff

open Basis

/-- Keys are registered for exactly the active validators. -/
def Membership.Keyed (m : Membership) : Prop :=
  ∀ id, m.publicKeys.contains id = m.activeValidators.contains id

/-- Two maps with the same keys know the same replicas. -/
theorem Membership.keyed_of_keys {m : Membership}
    (h : m.publicKeys.keys = m.activeValidators.keys) : m.Keyed := by
  intro id
  rw [Bool.eq_iff_iff, ← OrdMap.mem_keys, ← OrdMap.mem_keys, h]

/-- A membership command keeps keys and validators together. -/
theorem Membership.Keyed.apply [Ed25519] {m : Membership} (h : m.Keyed)
    (command : ConsensusCommand) : (m.apply command).Keyed := by
  cases heff : m.effective command with
  | false => rwa [apply_of_not_effective heff]
  | true =>
    simp only [Membership.apply, heff, if_true]
    intro id
    cases command with
    | noOp => exact h id
    | clientTx payload => exact h id
    | joinValidator replicaId publicKey =>
      simp only [change, advance, OrdMap.contains_insert, h id]
    | removeValidator replicaId =>
      have hid := h id
      simp only [OrdMap.contains] at hid
      simp only [change, advance, OrdMap.contains, OrdMap.get?_erase]
      split
      · rfl
      · exact hid

/-- What a replica may be given: a call of a handler, or a block to execute. -/
inductive Delivery
  | call (c : Call)
  | execute (block : Block)
  deriving DecidableEq

namespace Replica

variable {σ : Type} [Ed25519] [Sha256] [Bincode LogEntry] [Crc32] [App σ]

/-- The state after a delivery at a time. -/
def deliver (r : Replica σ) (d : Nat × Delivery) : Replica σ :=
  match d.2 with
  | .call c => r.step (d.1, c)
  | .execute block => r.executeAndCommit d.1 block

/-- Every call keeps keys and validators together. -/
theorem keyed_step {r : Replica σ} (h : r.membership.Keyed) (c : Nat × Call) :
    (r.step c).membership.Keyed :=
  step_membership_preserves (fun _ command hm => hm.apply command) h c

/-- So does everything a replica may be given. -/
theorem keyed_deliver {r : Replica σ} (h : r.membership.Keyed) (d : Nat × Delivery) :
    (r.deliver d).membership.Keyed := by
  obtain ⟨now, delivery⟩ := d
  cases delivery with
  | call c => exact keyed_step h (now, c)
  | execute block =>
    rw [deliver, executeAndCommit_membership]
    exact h.apply block.command

omit [Bincode LogEntry] [Crc32] [App σ] in
/-- A signer whose signature verifies is an active validator. -/
theorem validSigners_subset {r : Replica σ} (h : r.membership.Keyed) (qc : QuorumCert) :
    r.keystore.validSigners qc ⊆ r.voters := by
  intro id hid
  obtain ⟨sig, -, rfl, hverify⟩ := KeyStore.mem_validSigners.mp hid
  rw [mem_voters]
  refine (h sig.signer).symm.trans ?_
  rw [KeyStore.verify] at hverify
  change r.keystore.publicKeys.contains sig.signer = true
  cases hkey : r.keystore.publicKeys.get? sig.signer with
  | none => rw [hkey] at hverify; cases hverify
  | some vk => rw [OrdMap.contains, hkey]; rfl

/-- A certificate with signatures that should not help: repeated ones, ones of replicas that are
not validators, and further ones of signers that already count. -/
structure Padded (r : Replica σ) (qc padded : QuorumCert) : Prop where
  blockHash : padded.blockHash = qc.blockHash
  view : padded.view = qc.view
  epoch : padded.epoch = qc.epoch
  keeps : ∀ sig ∈ qc.signatures, sig ∈ padded.signatures
  extra : ∀ sig ∈ padded.signatures, sig ∈ qc.signatures ∨ sig.signer ∉ r.voters ∨
    ∃ counted ∈ qc.signatures, counted.signer = sig.signer ∧
      r.keystore.verify counted qc.blockHash qc.view qc.epoch = true

omit [Bincode LogEntry] [Crc32] [App σ] in
/-- Such signatures leave the signers that count as they are. -/
theorem Padded.validSigners {r : Replica σ} {qc padded : QuorumCert} (h : Padded r qc padded)
    (hkeys : r.membership.Keyed) : r.keystore.validSigners padded = r.keystore.validSigners qc := by
  refine Finset.Subset.antisymm (fun id hid => ?_) (fun id hid => ?_)
  · have hvoter := validSigners_subset hkeys padded hid
    obtain ⟨sig, hsig, rfl, hverify⟩ := KeyStore.mem_validSigners.mp hid
    rw [h.blockHash, h.view, h.epoch] at hverify
    rcases h.extra sig hsig with hold | houtside | ⟨counted, hin, hsigner, hcounts⟩
    · exact KeyStore.mem_validSigners.mpr ⟨sig, hold, rfl, hverify⟩
    · exact absurd hvoter houtside
    · exact KeyStore.mem_validSigners.mpr ⟨counted, hin, hsigner, hcounts⟩
  · obtain ⟨sig, hsig, rfl, hverify⟩ := KeyStore.mem_validSigners.mp hid
    rw [← h.blockHash, ← h.view, ← h.epoch] at hverify
    exact KeyStore.mem_validSigners.mpr ⟨sig, h.keeps sig hsig, rfl, hverify⟩

omit [App σ] in
/-- The answer to a proposal is the outcome of its checks. -/
theorem validateAndInsertProposal_snd (r : Replica σ) (now : Nat) (block : Block) :
    (r.validateAndInsertProposal now block).2 = r.acceptsProposal block := by
  rcases r.validateAndInsertProposal_cases now block with ⟨ha, h⟩ | ⟨ha, h⟩ <;> rw [h, ha]

omit [Bincode LogEntry] [Crc32] [App σ] in
/-- A proposal fares as it would with the signatures that should not help left out. -/
theorem Padded.acceptsProposal {r : Replica σ} {qc padded : QuorumCert} (h : Padded r qc padded)
    (hkeys : r.membership.Keyed) {block : Block} (hqc : block.qc = some padded) :
    r.acceptsProposal block = r.acceptsProposal { block with qc := some qc } := by
  have hverify : r.keystore.verifyQc padded r.dynamicQuorumSize =
      r.keystore.verifyQc qc r.dynamicQuorumSize := by
    rw [KeyStore.verifyQc, KeyStore.verifyQc, h.validSigners hkeys]
  rw [Bool.eq_iff_iff, acceptsProposal_iff, acceptsProposal_iff, hqc]
  simp only [Option.mem_def, Option.some.injEq, forall_eq', h.epoch, h.blockHash, hverify]

/-- Along any run the registered keys stay those of the active validators, an accepted certificate
carries valid signatures of a quorum of them, and padding it with other signatures changes no
answer. -/
theorem accepts_only_active_signers (r : Replica σ) (hkeys : r.membership.Keyed)
    (ds : List (Nat × Delivery)) :
    (run deliver r ds).membership.Keyed ∧
      (∀ (now : Nat) (block : Block) (qc : QuorumCert), block.qc = some qc →
        ((run deliver r ds).validateAndInsertProposal now block).2 = true →
        ∃ signers : Finset ReplicaId, signers ⊆ (run deliver r ds).voters ∧
          (run deliver r ds).dynamicQuorumSize ≤ signers.card ∧
          ∀ id ∈ signers, ∃ sig ∈ qc.signatures, sig.signer = id ∧
            (run deliver r ds).keystore.verify sig qc.blockHash qc.view
              (run deliver r ds).configEpoch = true) ∧
      ∀ (now : Nat) (block : Block) (qc padded : QuorumCert), block.qc = some padded →
        Padded (run deliver r ds) qc padded →
        ((run deliver r ds).validateAndInsertProposal now block).2 =
          ((run deliver r ds).validateAndInsertProposal now { block with qc := some qc }).2 := by
  have hkept : (run deliver r ds).membership.Keyed :=
    run_preserves (I := fun s : Replica σ => s.membership.Keyed) (fun _ d h => keyed_deliver h d)
      hkeys ds
  generalize run deliver r ds = s at hkept ⊢
  refine ⟨hkept, fun now block qc hqc haccepted => ?_, fun now block qc padded hqc hpadded => ?_⟩
  · rw [validateAndInsertProposal_snd, acceptsProposal_iff] at haccepted
    obtain ⟨-, -, -, hchecks⟩ := haccepted
    obtain ⟨hepoch, hquorum, -⟩ := hchecks qc hqc
    refine ⟨s.keystore.validSigners qc, validSigners_subset hkept qc, ?_, fun id hid => ?_⟩
    · simpa [KeyStore.verifyQc] using hquorum
    · rw [← hepoch]
      exact KeyStore.mem_validSigners.mp hid
  · rw [validateAndInsertProposal_snd, validateAndInsertProposal_snd]
    exact hpadded.acceptsProposal hkept hqc

end Replica

section Samples

open Sample

/-- A block of the second epoch, with a certificate that a replica outside has signed as well. -/
def secondEpochBlock : Block :=
  { block 9 0 1 1 (some (qc [0, 1, 3, 7] 0 0 1)) with epoch := 1 }

/-- After the fourth validator has joined, its signature counts. -/
theorem accepts_only_active_signers_joined :
    ((run Replica.deliver (party 3 0) [(1, .execute joinFourth.2)]).validateAndInsertProposal 2
        secondEpochBlock).2 = true ∧
      ∃ signers : Finset ReplicaId,
        signers ⊆ (run Replica.deliver (party 3 0) [(1, .execute joinFourth.2)]).voters ∧
        (run Replica.deliver (party 3 0) [(1, .execute joinFourth.2)]).dynamicQuorumSize ≤
          signers.card ∧
        ∀ id ∈ signers, ∃ sig ∈ (qc [0, 1, 3, 7] 0 0 1).signatures, sig.signer = id ∧
          (run Replica.deliver (party 3 0) [(1, .execute joinFourth.2)]).keystore.verify sig 0 0
            (run Replica.deliver (party 3 0) [(1, .execute joinFourth.2)]).configEpoch = true := by
  have haccepted : ((run Replica.deliver (party 3 0)
      [(1, .execute joinFourth.2)]).validateAndInsertProposal 2 secondEpochBlock).2 = true := by
    decide
  have hkeys : (party 3 0).membership.Keyed := Membership.keyed_of_keys (by decide)
  exact ⟨haccepted, (Replica.accepts_only_active_signers (party 3 0) hkeys
    [(1, .execute joinFourth.2)]).2.1 2 secondEpochBlock _ rfl haccepted⟩

end Samples

end PersistHotStuff
