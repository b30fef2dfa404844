import PersistHotStuff.Source.App

/-!
# Remote application

The bridge that lets a replica talk to an application in another process: the
messages of the service, the server that wraps an application, and the client
that is an application itself and forwards every call. The transport between them
is not part of the program; a link says what becomes of each call.
-/

namespace PersistHotStuff

open Basis

/-- The text an error is shown with. -/
def AppError.display : AppError → String
  | invalidCommand msg => "invalid command: " ++ msg
  | executionFailed msg => "execution failed: " ++ msg
  | snapshotError msg => "snapshot error: " ++ msg
  | internal msg => "internal error: " ++ msg
  | connectionFailed msg => "connection failed: " ++ msg

/-- The status of a failed call. -/
structure Status where
  code : Nat
  message : String
  deriving DecidableEq, Repr

/-- `Status::internal` -/
def Status.internal (message : String) : Status := ⟨13, message⟩

/-- The transport library, of which only the text of a status matters. -/
class Tonic where
  displayStatus : Status → String

namespace Proto

structure JoinValidator where
  replicaId : ReplicaId
  publicKey : Bytes
  deriving DecidableEq, Repr

structure RemoveValidator where
  replicaId : ReplicaId
  deriving DecidableEq, Repr

/-- The alternatives of a command payload. -/
inductive Kind
  | noOp
  | clientTx (payload : String)
  | joinValidator (join : JoinValidator)
  | removeValidator (remove : RemoveValidator)
  deriving DecidableEq, Repr

/-- The command carried by a committed block; a sender may leave the alternative out. -/
structure CommandPayload where
  kind : Option Kind
  deriving DecidableEq, Repr

/-- Metadata and payload for a committed command. -/
structure ExecuteRequest where
  blockHash : Hash
  view : Nat
  epoch : Nat
  proposer : ReplicaId
  commitIndex : Nat
  command : Option CommandPayload
  deriving DecidableEq, Repr

structure ExecuteResponse where
  success : Bool
  result : Bytes
  error : String
  deriving DecidableEq, Repr

structure SnapshotResponse where
  state : Bytes
  deriving DecidableEq, Repr

structure RestoreRequest where
  state : Bytes
  deriving DecidableEq, Repr

structure RestoreResponse where
  success : Bool
  error : String
  deriving DecidableEq, Repr

end Proto

/-- A command as it is sent. -/
def consensusCommandToProto (cmd : ConsensusCommand) : Option Proto.CommandPayload :=
  let kind := match cmd with
    | .noOp => .noOp
    | .clientTx payload => .clientTx payload
    | .joinValidator replicaId publicKey => .joinValidator ⟨replicaId, publicKey⟩
    | .removeValidator replicaId => .removeValidator ⟨replicaId⟩
  some ⟨some kind⟩

/-- A command as it is received; what is left out counts as no command. -/
def protoToConsensusCommand (payload : Option Proto.CommandPayload) : ConsensusCommand :=
  match payload with
  | none => .noOp
  | some payload =>
      match payload.kind with
      | none => .noOp
      | some .noOp => .noOp
      | some (.clientTx s) => .clientTx s
      | some (.joinValidator j) => .joinValidator j.replicaId j.publicKey
      | some (.removeValidator r) => .removeValidator r.replicaId

/-- The request for a committed command. -/
def committedCommandToRequest (cmd : CommittedCommand) : Proto.ExecuteRequest where
  blockHash := cmd.blockHash
  view := cmd.view
  epoch := cmd.epoch
  proposer := cmd.proposer
  commitIndex := cmd.commitIndex
  command := consensusCommandToProto cmd.command

/-- The server: an application behind the service. -/
structure AppServiceImpl (σ : Type) where
  app : σ
  deriving DecidableEq, Repr

namespace AppServiceImpl

variable {σ : Type} [App σ]

/-- Execute the command of a request. An error of the application is part of the answer. -/
def execute (service : AppServiceImpl σ) (req : Proto.ExecuteRequest) :
    Except Status Proto.ExecuteResponse × AppServiceImpl σ :=
  let cmd : CommittedCommand :=
    { blockHash := req.blockHash
      view := req.view
      epoch := req.epoch
      proposer := req.proposer
      command := protoToConsensusCommand req.command
      commitIndex := req.commitIndex }
  match App.apply service.app cmd with
  | (.ok result, app) => (.ok { success := true, result := result, error := "" }, ⟨app⟩)
  | (.error e, app) => (.ok { success := false, result := [], error := e.display }, ⟨app⟩)

/-- Capture the state. An error of the application fails the call. -/
def takeSnapshot (service : AppServiceImpl σ) : Except Status Proto.SnapshotResponse :=
  match App.snapshot service.app with
  | .ok state => .ok ⟨state⟩
  | .error e => .error (.internal e.display)

/-- Restore the state of a request. -/
def restoreSnapshot (service : AppServiceImpl σ) (req : Proto.RestoreRequest) :
    Except Status Proto.RestoreResponse × AppServiceImpl σ :=
  match App.restore service.app req.state with
  | (.ok (), app) => (.ok { success := true, error := "" }, ⟨app⟩)
  | (.error e, app) => (.ok { success := false, error := e.display }, ⟨app⟩)

end AppServiceImpl

/-- What becomes of a call on its way to the server and back. -/
inductive Transmission
  | answered
  /-- The call fails before the server sees it. -/
  | requestLost (status : Status)
  /-- The server has served the call, but its answer does not arrive. -/
  | responseLost (status : Status)
  deriving DecidableEq, Repr

/-- Whether the server sees the call. -/
def Transmission.reaches : Transmission → Bool
  | requestLost _ => false
  | _ => true

/-- A client, with the server it is connected to and what becomes of its calls: of those that
execute and restore, by their number, and of a snapshot, by the number of calls before it. -/
structure GrpcAppClient (σ : Type) where
  server : AppServiceImpl σ
  calls : Nat
  link : Nat → Transmission
  snapshotLink : Nat → Transmission

namespace GrpcAppClient

variable {σ : Type}

/-- One call over the link. -/
def call {ρ : Type} (client : GrpcAppClient σ)
    (serve : AppServiceImpl σ → Except Status ρ × AppServiceImpl σ) :
    Except Status ρ × GrpcAppClient σ :=
  match client.link client.calls with
  | .answered =>
      ((serve client.server).1,
        { client with server := (serve client.server).2, calls := client.calls + 1 })
  | .requestLost status => (.error status, { client with calls := client.calls + 1 })
  | .responseLost status =>
      (.error status, { client with server := (serve client.server).2, calls := client.calls + 1 })

variable [App σ] [Tonic]

/-- Forward a committed command. -/
def apply (client : GrpcAppClient σ) (cmd : CommittedCommand) :
    Except AppError Bytes × GrpcAppClient σ :=
  match client.call fun service => service.execute (committedCommandToRequest cmd) with
  | (.error e, client) => (.error (.internal ("gRPC execute: " ++ Tonic.displayStatus e)), client)
  | (.ok resp, client) =>
      if resp.success then (.ok resp.result, client)
      else (.error (.executionFailed resp.error), client)

/-- Ask for the state. -/
def snapshot (client : GrpcAppClient σ) : Except AppError Bytes :=
  let response : Except Status Proto.SnapshotResponse :=
    match client.snapshotLink client.calls with
    | .answered => client.server.takeSnapshot
    | .requestLost status | .responseLost status => .error status
  match response with
  | .error e => .error (.internal ("gRPC snapshot: " ++ Tonic.displayStatus e))
  | .ok resp => .ok resp.state

/-- Forward a captured state. -/
def restore (client : GrpcAppClient σ) (state : Bytes) :
    Except AppError Unit × GrpcAppClient σ :=
  match client.call fun service => service.restoreSnapshot ⟨state⟩ with
  | (.error e, client) => (.error (.internal ("gRPC restore: " ++ Tonic.displayStatus e)), client)
  | (.ok resp, client) =>
      if resp.success then (.ok (), client) else (.error (.snapshotError resp.error), client)

instance : App (GrpcAppClient σ) where
  apply := apply
  snapshot := snapshot
  restore := restore

end GrpcAppClient

end PersistHotStuff
