import PersistHotStuff.Basis.OrdMap
import PersistHotStuff.Basis.Frame

/-!
# Core data types

Blocks, certificates, votes and the configuration. Machine integers are natural
numbers; the places where the code saturates or wraps say so explicitly.
-/

namespace PersistHotStuff

open Basis

abbrev Hash := Nat

abbrev ReplicaId := Nat

/-- The largest `u64`. -/
def u64Max : Nat := 2 ^ 64 - 1

/-- `u64::saturating_add`. -/
def saturatingAdd (a b : Nat) : Nat := min (a + b) u64Max

/-- `u64::wrapping_add`, also what `+` does in a release build. -/
def wrappingAdd (a b : Nat) : Nat := (a + b) % 2 ^ 64

/-- Configuration of one replica. -/
structure Config where
  n : Nat
  f : Nat
  id : ReplicaId
  timeoutMs : Nat
  deriving DecidableEq, Repr

/-- Command payload carried by a block. -/
inductive ConsensusCommand
  | noOp
  | clientTx (payload : String)
  | joinValidator (replicaId : ReplicaId) (publicKey : Bytes)
  | removeValidator (replicaId : ReplicaId)
  deriving DecidableEq, Repr

/-- A replica's signature: the claimed signer and the raw bytes. -/
structure Signature where
  signer : ReplicaId
  bytes : Bytes
  deriving DecidableEq, Repr

/-- A quorum certificate for one block, view and epoch. -/
structure QuorumCert where
  blockHash : Hash
  view : Nat
  /-- Membership epoch under which signatures were collected. -/
  epoch : Nat
  signatures : List Signature
  deriving DecidableEq, Repr

/-- A block of the tree. -/
structure Block where
  hash : Hash
  parent : Option Hash
  view : Nat
  /-- Membership epoch under which this block was proposed. -/
  epoch : Nat
  proposer : ReplicaId
  qc : Option QuorumCert
  command : ConsensusCommand
  deriving DecidableEq, Repr

/-- A vote of one replica. -/
structure Vote where
  blockHash : Hash
  view : Nat
  epoch : Nat
  signature : Signature
  deriving DecidableEq, Repr

/-- The block every tree starts from. -/
def genesisBlock : Block where
  hash := 0
  parent := none
  view := 0
  epoch := 0
  proposer := 0
  qc := none
  command := .noOp

/-- What is left of a certificate once its signatures are dropped. -/
def QuorumCert.pointer (qc : QuorumCert) : Hash × Nat × Nat := (qc.blockHash, qc.view, qc.epoch)

end PersistHotStuff
