import PersistHotStuff.Handlers.Application
import PersistHotStuff.Source.Grpc
import PersistHotStuff.Source.Sample

/-!
# A replica with a remote application

Every committed block makes one call over the link. What the server is told is
what the replica has committed, without the calls that the link has lost; the
replica does the same whatever becomes of its calls.
-/

namespace PersistHotStuff

open Basis

/-- A command arrives as it was sent. -/
theorem protoToConsensusCommand_toProto (cmd : ConsensusCommand) :
    protoToConsensusCommand (consensusCommandToProto cmd) = cmd := by
  cases cmd <;> rfl

/-- What the application is told of committed blocks, the first of which has the given commit
index. -/
def commands (index : Nat) : List Block → List CommittedCommand
  | [] => []
  | block :: blocks => committedCommand block index :: commands (index + 1) blocks

theorem length_commands (index : Nat) (blocks : List Block) :
    (commands index blocks).length = blocks.length := by
  induction blocks generalizing index with
  | nil => rfl
  | cons block blocks ih => rw [commands, List.length_cons, List.length_cons, ih]

/-- The state of an application after commands. -/
def applied {σ : Type} [App σ] : σ → List CommittedCommand → σ :=
  run fun app cmd => (App.apply app cmd).2

theorem execute_eq_applied {σ : Type} [App σ] (app : σ) (index : Nat) (blocks : List Block) :
    execute app index blocks = applied app (commands index blocks) := by
  induction blocks generalizing app index with
  | nil => rfl
  | cons block blocks ih => exact ih _ _

/-- The commands whose calls reach the server, when the first of them is the given call. -/
def reached (link : Nat → Transmission) : Nat → List CommittedCommand → List CommittedCommand
  | _, [] => []
  | calls, cmd :: cmds =>
      if (link calls).reaches then cmd :: reached link (calls + 1) cmds
      else reached link (calls + 1) cmds

theorem reached_sublist (link : Nat → Transmission) (calls : Nat) (cmds : List CommittedCommand) :
    (reached link calls cmds).Sublist cmds := by
  induction cmds generalizing calls with
  | nil => exact List.Sublist.refl _
  | cons cmd cmds ih =>
    rw [reached]
    split
    · exact (ih _).cons_cons cmd
    · exact (ih _).cons cmd

/-- A link that loses no request. -/
theorem reached_eq_self {link : Nat → Transmission} (h : ∀ i, (link i).reaches = true) (calls : Nat)
    (cmds : List CommittedCommand) : reached link calls cmds = cmds := by
  induction cmds generalizing calls with
  | nil => rfl
  | cons cmd cmds ih => rw [reached, if_pos (h calls), ih]

namespace AppServiceImpl

variable {σ : Type} [App σ]

/-- The server executes what the client was told. -/
theorem execute_request (service : AppServiceImpl σ) (cmd : CommittedCommand) :
    service.execute (committedCommandToRequest cmd) =
      (.ok (match (App.apply service.app cmd).1 with
        | .ok result => { success := true, result := result, error := "" }
        | .error e => { success := false, result := [], error := e.display }),
        ⟨(App.apply service.app cmd).2⟩) := by
  have hcmd : ({ cmd with
      command := protoToConsensusCommand (consensusCommandToProto cmd.command) } :
        CommittedCommand) = cmd := by
    rw [protoToConsensusCommand_toProto]
  simp only [execute, committedCommandToRequest, hcmd]
  rcases App.apply service.app cmd with ⟨_ | _, app⟩ <;> rfl

end AppServiceImpl

namespace GrpcAppClient

variable {σ : Type} [App σ] [Tonic]

/-- A command is executed by the server if its call gets there. -/
theorem apply_snd (client : GrpcAppClient σ) (cmd : CommittedCommand) :
    (App.apply client cmd).2 =
      { client with
        server := if (client.link client.calls).reaches then
          ⟨(App.apply client.server.app cmd).2⟩ else client.server
        calls := client.calls + 1 } := by
  show (client.apply cmd).2 = _
  simp only [apply, call]
  cases client.link client.calls with
  | requestLost status => rfl
  | responseLost status =>
    simp only [AppServiceImpl.execute_request, Transmission.reaches, if_true]
  | answered =>
    simp only [AppServiceImpl.execute_request, Transmission.reaches, if_true]
    split <;> rfl

/-- The server has executed the commands that reached it, in order. -/
theorem applied_client (client : GrpcAppClient σ) (cmds : List CommittedCommand) :
    applied client cmds =
      { client with
        server := ⟨applied client.server.app (reached client.link client.calls cmds)⟩
        calls := client.calls + cmds.length } := by
  induction cmds generalizing client with
  | nil => rfl
  | cons cmd cmds ih =>
    rw [applied, run_cons, ← applied, ih, apply_snd, reached, List.length_cons]
    simp only [Nat.add_assoc, Nat.add_comm 1]
    split <;> rfl

end GrpcAppClient

namespace Sample

/-- A status is shown as its message. -/
scoped instance : Tonic := ⟨Status.message⟩

end Sample

namespace Replica

section Remote

variable {σ : Type} [Ed25519] [Sha256] [Bincode LogEntry] [Crc32] [App σ] [Tonic]

/-- Over any link: every committed block makes one call, in the order of the log and with its place
in it, and the server executes exactly those whose requests get to it; what else the replica does
and what it answers is what it would do and answer without an application. -/
theorem run_remote {r : Replica (GrpcAppClient σ)} {client : GrpcAppClient σ}
    (h : r.app = some client) (cs : List (Nat × Call)) :
    (∃ committed, (run step r cs).committedLog = r.committedLog ++ committed ∧
        (run step r cs).app = some { client with
          server := ⟨applied client.server.app
            (reached client.link client.calls (commands r.committedLog.length committed))⟩
          calls := client.calls + committed.length }) ∧
      (run step r cs).withoutApp = run step r.withoutApp cs ∧
      outputs step (fun r c => [r.answer c]) r cs =
        outputs step (fun r c => [r.answer c]) r.withoutApp cs := by
  refine ⟨?_, ?_, (answers_withApp r none none cs).symm⟩
  · obtain ⟨committed, hlog⟩ := run_committedLog_grows r cs
    refine ⟨committed, hlog.symm, ?_⟩
    rw [run_app, h, ← hlog, executed, Option.map_some, List.drop_left, execute_eq_applied,
      GrpcAppClient.applied_client, length_commands]
  · rw [withoutApp, withoutApp, run_withApp]
    rfl

end Remote

section Samples

open Sample

/-- A client whose first request is lost. -/
def lossyClient : GrpcAppClient KeyValueApp where
  server := ⟨KeyValueApp.new⟩
  calls := 0
  link i := if i = 0 then .requestLost ⟨14, "unavailable"⟩ else .answered
  snapshotLink _ := .answered

/-- Replica 3 of four with the application behind the lossy link. -/
def lossyFollower : Replica (GrpcAppClient KeyValueApp) :=
  (party 4 3).withApp (some lossyClient) none

/-- Two keys are set, and both blocks are committed. -/
def twoWrites : List (Nat × Call) :=
  [(1, .validateAndInsertProposal { block 1 0 0 0 none with command := .clientTx "SET a 1" }),
    (2, .validateAndInsertProposal
      { block 2 1 1 1 (some (qc [0, 1, 2] 1 0 0)) with command := .clientTx "SET b 2" }),
    (3, .validateAndInsertProposal (block 3 2 2 2 (some (qc [0, 1, 2] 2 1 0)))),
    (4, .validateAndInsertProposal (block 4 3 3 3 (some (qc [0, 1, 2] 3 2 0)))),
    (5, .commitAll)]

/-- Both blocks are in the log, but the server has only the second key. -/
theorem run_remote_lossy :
    (run step lossyFollower twoWrites).committedLog.map Block.hash = [1, 2] ∧
      ((run step lossyFollower twoWrites).app.map fun client =>
        (client.server.app.get "a", client.server.app.get "b")) = some (none, some "2") ∧
      (run step lossyFollower twoWrites).withoutApp = run step lossyFollower.withoutApp twoWrites :=
  ⟨by decide +kernel, by decide +kernel,
    (run_remote (show lossyFollower.app = some lossyClient from rfl) twoWrites).2.1⟩

end Samples

end Replica

end PersistHotStuff
