import PersistHotStuff.Source.Crypto
import PersistHotStuff.Source.Wal

/-!
# Snapshots

A point-in-time capture of a replica, written to a binary file and a checksum
sidecar. A directory is what it holds for one replica: the log, the temporary
log of a truncation, and the snapshot files keyed by the sequence number in
their names.
-/

namespace PersistHotStuff

open Basis

/-- A snapshot-friendly copy of a block: its certificate is reduced to hash and view. -/
structure SerializableBlock where
  hash : Hash
  parent : Option Hash
  view : Nat
  epoch : Nat
  proposer : ReplicaId
  qcBlockHash : Option Hash
  qcView : Option Nat
  command : ConsensusCommand
  deriving DecidableEq, Repr

/-- A snapshot-friendly copy of a certificate, without signatures. -/
structure SerializableQC where
  blockHash : Hash
  view : Nat
  epoch : Nat
  deriving DecidableEq, Repr

/-- The full point-in-time state of a replica, ready for serialisation. -/
structure Snapshot where
  snapshotId : Nat
  timestamp : Nat
  replicaId : ReplicaId
  currentView : Nat
  configEpoch : Nat
  activeValidators : List ReplicaId
  committedLog : List SerializableBlock
  committedUpTo : Option Hash
  highQc : Option SerializableQC
  blockTree : List SerializableBlock
  nextHash : Hash
  appState : Option Bytes
  deriving DecidableEq, Repr

/-- The certificate rebuilt from a stored hash and view, with the epoch of its block. -/
def stubQc (qcBlockHash qcView : Option Nat) (epoch : Nat) : Option QuorumCert :=
  match qcBlockHash, qcView with
  | some blockHash, some view => some { blockHash, view, epoch, signatures := [] }
  | _, _ => none

namespace SerializableBlock

/-- Strip a block. -/
def fromBlock (b : Block) : SerializableBlock where
  hash := b.hash
  parent := b.parent
  view := b.view
  epoch := b.epoch
  proposer := b.proposer
  qcBlockHash := b.qc.map QuorumCert.blockHash
  qcView := b.qc.map QuorumCert.view
  command := b.command

/-- Rebuild a block, its certificate without signatures. -/
def toBlock (b : SerializableBlock) : Block where
  hash := b.hash
  parent := b.parent
  view := b.view
  epoch := b.epoch
  proposer := b.proposer
  qc := stubQc b.qcBlockHash b.qcView b.epoch
  command := b.command

end SerializableBlock

namespace SerializableQC

/-- Drop the signatures. -/
def fromQc (qc : QuorumCert) : SerializableQC := ⟨qc.blockHash, qc.view, qc.epoch⟩

/-- Rebuild a certificate with an empty signature list. -/
def toQc (qc : SerializableQC) : QuorumCert where
  blockHash := qc.blockHash
  view := qc.view
  epoch := qc.epoch
  signatures := []

end SerializableQC

/-- Errors of snapshot operations. -/
inductive SnapshotError
  | io (e : FileError)
  | serialization
  | checksumMismatch (expected actual : List Char)
  | notFound
  deriving DecidableEq, Repr

/-- The files of one replica in its data directory. -/
structure DataDir where
  /-- `replica_<id>_wal.log` -/
  wal : Option Bytes
  /-- `replica_<id>_wal.tmp` -/
  walTmp : Option Bytes
  /-- `replica_<id>_snapshot_<seq>.bin`, by sequence number. -/
  bins : OrdMap Nat Bytes
  /-- `replica_<id>_snapshot_<seq>.sha256`, by sequence number. -/
  shas : OrdMap Nat (List Char)
  deriving DecidableEq

/-- The directory before anything was written. -/
def DataDir.empty : DataDir where
  wal := none
  walTmp := none
  bins := OrdMap.empty
  shas := OrdMap.empty

/-- Lower-case hexadecimal digits of a digest. -/
def hexDigest (digest : Bytes) : List Char :=
  digest.flatMap fun b => [Nat.digitChar (b.toNat / 16), Nat.digitChar (b.toNat % 16)]

/-- White space as `trim` knows it. -/
def isWhiteSpace (c : Char) : Bool :=
  decide (0x09 ≤ c.toNat ∧ c.toNat ≤ 0x0D) || decide (0x2000 ≤ c.toNat ∧ c.toNat ≤ 0x200A) ||
    [0x20, 0x85, 0xA0, 0x1680, 0x2028, 0x2029, 0x202F, 0x205F, 0x3000].contains c.toNat

/-- `trim().to_lowercase()` of a sidecar. Only ASCII letters are lowered: no other character is
lowered to a digit of a digest. -/
def normalizeHex (s : List Char) : List Char :=
  (((s.dropWhile isWhiteSpace).reverse.dropWhile isWhiteSpace).reverse).map Char.toLower

namespace Snapshot

/-- Build a snapshot from the live replica state. -/
def capture (now snapshotId : Nat) (replicaId : ReplicaId) (currentView configEpoch : Nat)
    (activeValidators : List ReplicaId) (blockTree : OrdMap Hash Block)
    (committedLog : List Block) (committedUpTo : Option Hash) (highQc : Option QuorumCert)
    (nextHash : Hash) (appState : Option Bytes) : Snapshot where
  snapshotId := snapshotId
  timestamp := now
  replicaId := replicaId
  currentView := currentView
  configEpoch := configEpoch
  activeValidators := activeValidators
  committedLog := committedLog.map SerializableBlock.fromBlock
  committedUpTo := committedUpTo
  highQc := highQc.map SerializableQC.fromQc
  blockTree := blockTree.values.map SerializableBlock.fromBlock
  nextHash := nextHash
  appState := appState

variable [Bincode Snapshot] [Sha256]

/-- Hexadecimal checksum of a payload. -/
def checksum (payload : Bytes) : List Char := hexDigest (Sha256.digest payload)

/-- Write the snapshot and its checksum sidecar. -/
def save (snap : Snapshot) (dir : DataDir) : DataDir :=
  let payload := Bincode.serialize snap
  { dir with
    bins := dir.bins.insert snap.snapshotId payload
    shas := dir.shas.insert snap.snapshotId (checksum payload) }

/-- Load the snapshot with the highest sequence number. -/
def loadLatest (dir : DataDir) : Except SnapshotError Snapshot :=
  match dir.bins.last? with
  | none => .error .notFound
  | some (seq, payload) =>
      let actual := checksum payload
      let mismatch := match dir.shas.get? seq with
        | some content =>
            if normalizeHex content ≠ actual then some (normalizeHex content) else none
        | none => none
      match mismatch with
      | some expected => .error (.checksumMismatch expected actual)
      | none =>
          match Bincode.deserialize payload with
          | none => .error .serialization
          | some snap => .ok snap

end Snapshot

/-- Delete old snapshots and their sidecars, keeping the `keep` most recent. -/
def cleanupOld (dir : DataDir) (keep : Nat) : DataDir :=
  (dir.bins.keys.take (dir.bins.length - keep)).foldl
    (fun d seq => { d with bins := d.bins.erase seq, shas := d.shas.erase seq }) dir

end PersistHotStuff
