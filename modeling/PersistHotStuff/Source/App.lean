import PersistHotStuff.Source.Types

/-!
# Pluggable application

The state machine that committed commands are forwarded to. The replica only
calls the three operations of the interface; an implementation is an instance.
-/

namespace PersistHotStuff

open Basis

/-- Errors that can occur during application execution. -/
inductive AppError
  | invalidCommand (msg : String)
  | executionFailed (msg : String)
  | snapshotError (msg : String)
  | internal (msg : String)
  | connectionFailed (msg : String)
  deriving DecidableEq, Repr

/-- A committed command together with its block metadata. -/
structure CommittedCommand where
  blockHash : Hash
  view : Nat
  epoch : Nat
  proposer : ReplicaId
  command : ConsensusCommand
  commitIndex : Nat
  deriving DecidableEq, Repr

/-- The interface of an application with states in `σ`. -/
class App (σ : Type) where
  /-- Execute a committed command. -/
  apply : σ → CommittedCommand → Except AppError Bytes × σ
  /-- Capture the state as an opaque blob. -/
  snapshot : σ → Except AppError Bytes
  /-- Restore a captured state. -/
  restore : σ → Bytes → Except AppError Unit × σ

/-- The application that ignores everything. -/
structure NoOpApp where
  deriving DecidableEq, Repr

instance : App NoOpApp where
  apply app _ := (.ok [], app)
  snapshot _ := .ok []
  restore app _ := (.ok (), app)

end PersistHotStuff
