import PersistHotStuff.Basis.Codec
import PersistHotStuff.Source.KeyValue
import PersistHotStuff.Source.Simulation

/-!
# Sample parameters

Concrete functions in place of the cryptographic and serialisation crates, for
evaluating the model: a signature is the key followed by the message, a digest
is its input, and values are serialised by canonical codecs.
-/

namespace PersistHotStuff.Sample

open Basis

/-- Signatures that anyone can read but that name their key and message. -/
scoped instance : Ed25519 where
  verifyingKey key := key
  sign key message := key ++ message
  verify key message signature := signature == key ++ message
  isKey _ := true

scoped instance : LawfulEd25519 := ⟨fun _ _ => beq_self_eq_true _⟩

scoped instance : Sha256 := ⟨fun bs => bs⟩

scoped instance : Crc32 := ⟨fun _ => 0⟩

/-- Commands behind a tag. -/
def command : Codec ConsensusCommand :=
  (Codec.unit.sum (Codec.string.sum ((Codec.nat.pair Codec.byte.list).sum Codec.nat))).iso
    (fun
      | .noOp => .inl ()
      | .clientTx payload => .inr (.inl payload)
      | .joinValidator replicaId publicKey => .inr (.inr (.inl (replicaId, publicKey)))
      | .removeValidator replicaId => .inr (.inr (.inr replicaId)))
    (fun
      | .inl _ => .noOp
      | .inr (.inl payload) => .clientTx payload
      | .inr (.inr (.inl p)) => .joinValidator p.1 p.2
      | .inr (.inr (.inr replicaId)) => .removeValidator replicaId)
    (fun c => by cases c <;> rfl)
    (fun a => by rcases a with _ | _ | _ | _ <;> rfl)

/-- The reason of a view change behind a tag. -/
def reason : Codec ViewChangeReason :=
  (Codec.unit.sum Codec.unit).iso
    (fun
      | .timeout => .inl ()
      | .commit => .inr ())
    (fun
      | .inl _ => .timeout
      | .inr _ => .commit)
    (fun r => by cases r <;> rfl) (fun a => by cases a <;> rfl)

/-- Hash, parent, view, epoch and proposer of a block. -/
def header : Codec (Nat × Option Nat × Nat × Nat × Nat) :=
  Codec.nat.pair (Codec.nat.option.pair (Codec.nat.pair (Codec.nat.pair Codec.nat)))

/-- Four numbers. -/
def quadruple : Codec (Nat × Nat × Nat × Nat) :=
  Codec.nat.pair (Codec.nat.pair (Codec.nat.pair Codec.nat))

/-- Log entries behind a tag. -/
def logEntry : Codec LogEntry :=
  ((header.pair (Codec.nat.option.pair (Codec.nat.option.pair (command.pair Codec.nat)))).sum
    (quadruple.sum ((Codec.nat.pair quadruple).sum (quadruple.sum
      ((header.pair (command.pair (Codec.nat.pair Codec.nat))).sum
        ((Codec.nat.pair (Codec.nat.pair (reason.pair Codec.nat))).sum
          (Codec.nat.pair (Codec.nat.option.pair Codec.nat)))))))).iso
    (fun
      | .blockInserted hash parent view epoch proposer qcBlockHash qcView command timestamp =>
          .inl ((hash, parent, view, epoch, proposer), qcBlockHash, qcView, command, timestamp)
      | .voteReceived blockHash view signer timestamp =>
          .inr (.inl (blockHash, view, signer, timestamp))
      | .qcFormed blockHash view epoch signerCount timestamp =>
          .inr (.inr (.inl (blockHash, view, epoch, signerCount, timestamp)))
      | .highQcUpdated blockHash view epoch timestamp =>
          .inr (.inr (.inr (.inl (blockHash, view, epoch, timestamp))))
      | .blockCommitted hash parent view epoch proposer command commitIndex timestamp =>
          .inr (.inr (.inr (.inr (.inl
            ((hash, parent, view, epoch, proposer), command, commitIndex, timestamp)))))
      | .viewChanged oldView newView reason timestamp =>
          .inr (.inr (.inr (.inr (.inr (.inl (oldView, newView, reason, timestamp))))))
      | .snapshotTaken snapshotId lastCommittedHash timestamp =>
          .inr (.inr (.inr (.inr (.inr (.inr (snapshotId, lastCommittedHash, timestamp)))))))
    (fun
      | .inl ((hash, parent, view, epoch, proposer), qcBlockHash, qcView, command, timestamp) =>
          .blockInserted hash parent view epoch proposer qcBlockHash qcView command timestamp
      | .inr (.inl (blockHash, view, signer, timestamp)) =>
          .voteReceived blockHash view signer timestamp
      | .inr (.inr (.inl (blockHash, view, epoch, signerCount, timestamp))) =>
          .qcFormed blockHash view epoch signerCount timestamp
      | .inr (.inr (.inr (.inl (blockHash, view, epoch, timestamp)))) =>
          .highQcUpdated blockHash view epoch timestamp
      | .inr (.inr (.inr (.inr (.inl
          ((hash, parent, view, epoch, proposer), command, commitIndex, timestamp))))) =>
          .blockCommitted hash parent view epoch proposer command commitIndex timestamp
      | .inr (.inr (.inr (.inr (.inr (.inl (oldView, newView, reason, timestamp)))))) =>
          .viewChanged oldView newView reason timestamp
      | .inr (.inr (.inr (.inr (.inr (.inr (snapshotId, lastCommittedHash, timestamp)))))) =>
          .snapshotTaken snapshotId lastCommittedHash timestamp)
    (fun e => by cases e <;> rfl)
    (fun a => by rcases a with _ | _ | _ | _ | _ | _ | _ <;> rfl)

/-- Stored blocks. -/
def serializableBlock : Codec SerializableBlock :=
  (header.pair (Codec.nat.option.pair (Codec.nat.option.pair command))).iso
    (fun b => ((b.hash, b.parent, b.view, b.epoch, b.proposer), b.qcBlockHash, b.qcView, b.command))
    (fun a => ⟨a.1.1, a.1.2.1, a.1.2.2.1, a.1.2.2.2.1, a.1.2.2.2.2, a.2.1, a.2.2.1, a.2.2.2⟩)
    (fun _ => rfl) (fun _ => rfl)

/-- Stored certificates. -/
def serializableQC : Codec SerializableQC :=
  (Codec.nat.pair (Codec.nat.pair Codec.nat)).iso
    (fun qc => (qc.blockHash, qc.view, qc.epoch)) (fun a => ⟨a.1, a.2.1, a.2.2⟩)
    (fun _ => rfl) (fun _ => rfl)

/-- Snapshots, field after field. -/
def snapshot : Codec Snapshot :=
  (quadruple.pair (Codec.nat.pair (Codec.nat.list.pair (serializableBlock.list.pair
    (Codec.nat.option.pair (serializableQC.option.pair (serializableBlock.list.pair
      (Codec.nat.pair Codec.byte.list.option)))))))).iso
    (fun s => ((s.snapshotId, s.timestamp, s.replicaId, s.currentView), s.configEpoch,
      s.activeValidators, s.committedLog, s.committedUpTo, s.highQc, s.blockTree, s.nextHash,
      s.appState))
    (fun a => ⟨a.1.1, a.1.2.1, a.1.2.2.1, a.1.2.2.2, a.2.1, a.2.2.1, a.2.2.2.1, a.2.2.2.2.1,
      a.2.2.2.2.2.1, a.2.2.2.2.2.2.1, a.2.2.2.2.2.2.2.1, a.2.2.2.2.2.2.2.2⟩)
    (fun _ => rfl) (fun _ => rfl)

scoped instance : Bincode LogEntry := ⟨logEntry.write, logEntry.decode⟩

scoped instance : Bincode Snapshot := ⟨snapshot.write, snapshot.decode⟩

scoped instance : LawfulBincode LogEntry := ⟨logEntry.decode_write⟩

scoped instance : LawfulBincode Snapshot := ⟨snapshot.decode_write⟩

scoped instance : StrictBincode LogEntry := ⟨fun e _ => logEntry.decode_take e⟩

scoped instance : StrictBincode Snapshot := ⟨fun s _ => snapshot.decode_take s⟩

/-- Stores, as their entries in order. -/
def store : Codec (OrdMap String String) :=
  (Codec.string.pair Codec.string).list.embed OrdMap.entries
    (fun l => if (OrdMap.ofList l).entries = l then some (OrdMap.ofList l) else none)
    (fun m => by simp)
    (fun l m h => by
      split at h
      · rename_i hl
        rw [← Option.some.inj h, hl]
      · cases h)

scoped instance : Bincode (OrdMap String String) := ⟨store.write, store.decode⟩

scoped instance : LawfulBincode (OrdMap String String) := ⟨store.decode_write⟩

/-- The signing key of a sample replica, thirty-two bytes. -/
def signingKey (id : ReplicaId) : Bytes := List.replicate 32 (UInt8.ofNat id)

/-- The key store of one of `n` replicas. -/
def keyStore (n id : Nat) : KeyStore where
  myId := id
  mySigningKey := signingKey id
  publicKeys := OrdMap.ofList ((List.range n).map fun i => (i, signingKey i))

/-- One of `n` replicas at genesis. -/
def party (n id : Nat) : Replica NoOpApp :=
  freshReplica 0 (Simulation.replicaConfig n ((n - 1) / 3) id) (keyStore n id)

/-- A vote of one of the sample replicas. -/
def vote (signer blockHash view epoch : Nat) : Vote where
  blockHash := blockHash
  view := view
  epoch := epoch
  signature := (keyStore 0 signer).sign blockHash view epoch

/-- A certificate signed by the listed replicas. -/
def qc (signers : List ReplicaId) (blockHash view epoch : Nat) : QuorumCert where
  blockHash := blockHash
  view := view
  epoch := epoch
  signatures := signers.map fun i => (keyStore 0 i).sign blockHash view epoch

/-- A block of epoch 0 without payload. -/
def block (hash parent view proposer : Nat) (qc : Option QuorumCert) : Block where
  hash := hash
  parent := some parent
  view := view
  epoch := 0
  proposer := proposer
  qc := qc
  command := .noOp

end PersistHotStuff.Sample
