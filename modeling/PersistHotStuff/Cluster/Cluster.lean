import PersistHotStuff.Basis.Quorum
import PersistHotStuff.Cluster.Roster

/-!
# A cluster of validators

Every validator has a node, and any of them may take the next step: a call with
whatever the network delivers, a snapshot, a crash with recovery. The history
keeps which blocks each validator accepted; accepting is what a correct one
signs a vote for. Messages need no state of their own: a proposal, a vote or a
certificate may be anything the faulty validators can put together from the
votes signed so far, delivered in any order, never, or many times.
-/

namespace PersistHotStuff

open Basis

/-- The nodes of all validators and the blocks accepted so far, oldest first. -/
structure Cluster (σ : Type) where
  nodes : ReplicaId → Node σ
  accepted : List (ReplicaId × Block)

/-- What one validator does next. -/
inductive ClusterOp
  | node (op : NodeOp)
  /-- The replica crashes, is recovered and rejoins the listed others. -/
  | recoverReplica (config : Config) (keystore : KeyStore) (others : List ReplicaId)
  deriving DecidableEq

/-- The validators: `3f + 1` of them, at most `f` faulty, with the keys registered for them. -/
structure Committee where
  f : Nat
  faulty : Finset ReplicaId
  keys : OrdMap ReplicaId Bytes
  few : faulty.card ≤ f
  members : ∀ i, keys.contains i = true → i < 3 * f + 1

namespace Committee

/-- The number of validators. -/
def n (k : Committee) : Nat := 3 * k.f + 1

/-- A validator that is not faulty. -/
def Correct (k : Committee) (i : ReplicaId) : Prop := i < k.n ∧ i ∉ k.faulty

instance (k : Committee) : DecidablePred k.Correct := fun i =>
  inferInstanceAs (Decidable (i < k.n ∧ i ∉ k.faulty))

/-- Correct validators can be enumerated. -/
instance (k : Committee) {P : ReplicaId → Prop} [DecidablePred P] :
    Decidable (∀ i, k.Correct i → P i) :=
  decidable_of_iff (∀ i < k.n, k.Correct i → P i)
    ⟨fun h i hi => h i hi.1 hi, fun h i _ hi => h i hi⟩

theorem n_mod (k : Committee) : k.n % 3 = 1 := by
  rw [n]
  omega

/-- Two quorums have a correct validator in common. -/
theorem exists_correct (k : Committee) {a b : Finset ReplicaId} (ha : a ⊆ Finset.range k.n)
    (hb : b ⊆ Finset.range k.n) (hla : 2 * k.f + 1 ≤ a.card) (hlb : 2 * k.f + 1 ≤ b.card) :
    ∃ i, k.Correct i ∧ i ∈ a ∧ i ∈ b := by
  have hcard : (Finset.range k.n).card + k.faulty.card < a.card + b.card := by
    have := k.few
    rw [Finset.card_range, n]
    omega
  obtain ⟨i, hia, hib, hi⟩ := exists_common_correct ha hb hcard
  exact ⟨i, ⟨Finset.mem_range.mp (ha hia), hi⟩, hia, hib⟩

end Committee

namespace Cluster

variable {σ : Type} [Ed25519] [Sha256]

section Step

variable [Bincode LogEntry] [Bincode Snapshot] [Crc32] [App σ]

/-- The block a step accepts, and so signs. -/
def signs (c : Cluster σ) (op : ReplicaId × Nat × ClusterOp) : Option Block :=
  match op.2.2 with
  | .node (.call (.validateAndInsertProposal block)) =>
      if (c.nodes op.1).replica.acceptsProposal block then some block else none
  | _ => none

/-- The node that takes a step, after it. A recovery that fails changes nothing. -/
def nodeAfter (c : Cluster σ) (op : ReplicaId × Nat × ClusterOp) : Node σ :=
  match op.2.2 with
  | .node nodeOp => (c.nodes op.1).step (op.2.1, nodeOp)
  | .recoverReplica config keystore others =>
      let node := c.nodes op.1
      let disk := node.replica.onDisk node.dir
      match Simulation.openReplica op.2.1 op.1 config keystore disk with
      | .ok recovered =>
          let (replica, dir) := Simulation.rejoin op.2.1
            (others.map fun j => (c.nodes j).replica) recovered disk
          ⟨replica, dir⟩
      | .error _ => node

/-- One step of one validator at a time. -/
def step (c : Cluster σ) (op : ReplicaId × Nat × ClusterOp) : Cluster σ where
  nodes := Function.update c.nodes op.1 (c.nodeAfter op)
  accepted := c.accepted ++ ((c.signs op).map fun block => (op.1, block)).toList

/-- Acceptance grows by the block that is signed. -/
theorem mem_accepted_step {c : Cluster σ} {op : ReplicaId × Nat × ClusterOp}
    {p : ReplicaId × Block} :
    p ∈ (c.step op).accepted ↔ p ∈ c.accepted ∨ p.1 = op.1 ∧ p.2 ∈ c.signs op := by
  simp only [step, List.mem_append, Option.mem_toList, Option.map_eq_some_iff, Option.mem_def]
  refine or_congr_right ?_
  constructor
  · rintro ⟨block, hb, rfl⟩
    exact ⟨rfl, hb⟩
  · rintro ⟨hi, hb⟩
    exact ⟨p.2, hb, Prod.ext hi.symm rfl⟩

/-- A correct validator is recovered with its own configuration and keys. -/
def Admissible (k : Committee) (_ : Cluster σ) (op : ReplicaId × Nat × ClusterOp) : Prop :=
  k.Correct op.1 →
    match op.2.2 with
    | .node (.restart config keystore) => config.n = k.n ∧ keystore.publicKeys = k.keys
    | .recoverReplica config keystore _ => config.n = k.n ∧ keystore.publicKeys = k.keys
    | _ => True

/-- The correct validators are on the roster. -/
def OnRoster (k : Committee) (c : Cluster σ) : Prop :=
  ∀ i, k.Correct i → Node.Roster k.n k.keys (c.nodes i)

/-- Every step keeps the correct validators on the roster. -/
theorem OnRoster.step [LawfulBincode Snapshot] {k : Committee} {c : Cluster σ}
    (h : OnRoster k c) {op : ReplicaId × Nat × ClusterOp} (hop : Admissible k c op) :
    OnRoster k (c.step op) := by
  intro i hi
  by_cases hne : i = op.1
  · subst hne
    have hroster := h op.1 hi
    have hop := hop hi
    simp only [Cluster.step, Function.update_self]
    obtain ⟨i, now, op⟩ := op
    cases op with
    | node nodeOp =>
      refine hroster.step k.n_mod fun config keystore heq => ?_
      simp only at heq
      subst heq
      exact hop
    | recoverReplica config keystore others =>
      simp only [nodeAfter]
      cases hopen : Simulation.openReplica now i config keystore
          ((c.nodes i).replica.onDisk (c.nodes i).dir) with
      | error e => exact hroster
      | ok recovered => exact hroster.rejoin hop.1 hop.2 hopen _
  · simp only [Cluster.step, Function.update_of_ne hne]
    exact h i hi

end Step

/-- No signature of a correct validator in a certificate is forged: who signed a vote accepted the
block. -/
def Unforged (k : Committee) (c : Cluster σ) (ks : KeyStore) (qc : QuorumCert) : Prop :=
  ∀ sig ∈ qc.signatures, k.Correct sig.signer →
    ks.verify sig qc.blockHash qc.view qc.epoch = true →
      ∃ block, (sig.signer, block) ∈ c.accepted ∧ block.hash = qc.blockHash ∧
        block.view = qc.view ∧ block.epoch = qc.epoch

/-- Signatures of correct validators that have accepted the block are not forged. -/
theorem unforged_of_accepted {k : Committee} {c : Cluster σ} {ks : KeyStore} {qc : QuorumCert}
    (h : ∀ sig ∈ qc.signatures, k.Correct sig.signer → ∃ p ∈ c.accepted, p.1 = sig.signer ∧
      p.2.hash = qc.blockHash ∧ p.2.view = qc.view ∧ p.2.epoch = qc.epoch) :
    Unforged k c ks qc := by
  intro sig hin hcorrect _
  obtain ⟨⟨i, block⟩, hp, hi, hblock⟩ := h sig hin hcorrect
  have hi' : i = sig.signer := hi
  exact ⟨block, hi' ▸ hp, hblock⟩

/-- A certificate that verifies at a correct validator, made of signatures that were given. -/
def Certified (k : Committee) (c : Cluster σ) (qc : QuorumCert) : Prop :=
  ∃ i, k.Correct i ∧ Unforged k c (c.nodes i).replica.keystore qc ∧
    (c.nodes i).replica.keystore.verifyQc qc (c.nodes i).replica.dynamicQuorumSize = true

/-- The signers of a certificate are a quorum, and the correct ones have accepted the block. -/
theorem Certified.signers [Bincode Snapshot] {k : Committee} {c : Cluster σ}
    (hroster : OnRoster k c) {qc : QuorumCert} (h : Certified k c qc) :
    ∃ signers ⊆ Finset.range k.n, 2 * k.f + 1 ≤ signers.card ∧
      ∀ i ∈ signers, k.Correct i → ∃ block, (i, block) ∈ c.accepted ∧
        block.hash = qc.blockHash ∧ block.view = qc.view ∧ block.epoch = qc.epoch := by
  obtain ⟨i, hi, hunforged, hverify⟩ := h
  have hkeystore := (hroster i hi).publicKeys
  have hquorum : (c.nodes i).replica.dynamicQuorumSize = 2 * k.f + 1 := by
    simp only [Replica.dynamicQuorumSize, Replica.dynamicF, Replica.dynamicN,
      (hroster i hi).validators, length_defaultValidators, Committee.n]
    rw [if_neg (by omega)]
    omega
  rw [hquorum, KeyStore.verifyQc, decide_eq_true_eq] at hverify
  refine ⟨_, ?_, hverify, ?_⟩
  · intro j hj
    obtain ⟨sig, -, rfl, hv⟩ := KeyStore.mem_validSigners.mp hj
    rw [KeyStore.verify, hkeystore] at hv
    refine Finset.mem_range.mpr (k.members _ ?_)
    cases hk : k.keys.get? sig.signer with
    | none =>
      rw [hk] at hv
      cases hv
    | some vk => exact OrdMap.contains_iff.mpr ⟨vk, hk⟩
  · intro j hj hcorrect
    obtain ⟨sig, hin, rfl, hv⟩ := KeyStore.mem_validSigners.mp hj
    exact hunforged sig hin hcorrect hv

end Cluster

end PersistHotStuff
