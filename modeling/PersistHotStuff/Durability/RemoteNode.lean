import PersistHotStuff.Durability.Host
import PersistHotStuff.Handlers.Remote

/-!
# A node with a remote application

A map of applications that agrees with their operations carries over to the nodes
that host them. The client of a server is such a map away from the application
behind the server, as long as every request gets there and every snapshot comes
back. So a node whose application is in another process stays in step with one
whose application is its own.
-/

namespace PersistHotStuff

open Basis

/-- A map of applications that agrees with every operation of their interface where `P` holds. -/
structure AppMap {σ τ : Type} [App σ] [App τ] (f : σ → τ) (P : σ → Prop) : Prop where
  apply : ∀ app, P app → ∀ cmd,
    P (App.apply app cmd).2 ∧ f (App.apply app cmd).2 = (App.apply (f app) cmd).2
  snapshot : ∀ app, P app → (App.snapshot app).toOption = (App.snapshot (f app)).toOption
  restore : ∀ app, P app → ∀ state,
    P (App.restore app state).2 ∧ f (App.restore app state).2 = (App.restore (f app) state).2

/-- An operation with its application mapped. -/
def HostOp.map {σ τ : Type} (f : σ → τ) (op : Nat × HostOp σ) : Nat × HostOp τ :=
  match op with
  | (now, .node o) => (now, .node o)
  | (now, .attach app) => (now, .attach (f app))

/-- An operation attaches no application without `P`. -/
def HostOp.Attaches {σ : Type} (P : σ → Prop) (op : HostOp σ) : Prop :=
  match op with
  | .node _ => True
  | .attach app => P app

namespace Replica

variable {σ τ : Type} [App σ] [App τ] {f : σ → τ} {P : σ → Prop}

/-- The replica with its application mapped. -/
def mapApp (f : σ → τ) (r : Replica σ) : Replica τ := r.withApp (r.app.map f) r.pendingAppState

/-- Mapped applications are told of the same blocks. -/
theorem executed_map (h : AppMap f P) {app : Option σ} (happ : ∀ a ∈ app, P a)
    (log log' : List Block) :
    (∀ a ∈ executed app log log', P a) ∧
      (executed app log log').map f = executed (app.map f) log log' := by
  have hexecute : ∀ (blocks : List Block) (a : σ) (index : Nat), P a →
      P (execute a index blocks) ∧ f (execute a index blocks) = execute (f a) index blocks := by
    intro blocks
    induction blocks with
    | nil =>
      intro a index ha
      exact ⟨ha, rfl⟩
    | cons block blocks ih =>
      intro a index ha
      obtain ⟨hnext, heq⟩ := h.apply a ha (committedCommand block index)
      rw [execute, execute, ← heq]
      exact ih _ _ hnext
  cases app with
  | none => exact ⟨fun a ha => absurd ha (Option.not_mem_none a), rfl⟩
  | some a =>
    obtain ⟨hp, heq⟩ := hexecute (log'.drop log.length) a log.length (happ a rfl)
    refine ⟨fun b hb => ?_, congrArg some heq⟩
    rw [← Option.some.inj hb]
    exact hp

omit [App τ] in
theorem captureSnapshot_appState (r : Replica σ) (now : Nat) :
    (r.captureSnapshot now).appState = r.app.bind fun app => (App.snapshot app).toOption := by
  unfold captureSnapshot
  cases r.app <;> rfl

/-- A mapped application captures the same state. -/
theorem captureSnapshot_mapApp (h : AppMap f P) {r : Replica σ} (happ : ∀ a ∈ r.app, P a)
    (now : Nat) : (r.mapApp f).captureSnapshot now = r.captureSnapshot now := by
  have hstate : ((r.mapApp f).captureSnapshot now).appState =
      (r.captureSnapshot now).appState := by
    rw [captureSnapshot_appState, captureSnapshot_appState]
    show (r.app.map f).bind _ = _
    cases hr : r.app with
    | none => rfl
    | some a => exact (h.snapshot a (happ a hr)).symm
  obtain ⟨state, heq⟩ : ∃ state, (r.mapApp f).captureSnapshot now =
      { r.captureSnapshot now with appState := state } :=
    ⟨((r.mapApp f).captureSnapshot now).appState, rfl⟩
  rw [heq] at hstate ⊢
  rw [show state = (r.captureSnapshot now).appState from hstate]

omit [App τ] in
theorem attachApp_eq (r : Replica σ) (app : σ) :
    r.attachApp app = r.withApp
      (some (r.pendingAppState.elim app fun state => (App.restore app state).2)) none := by
  unfold attachApp
  cases r.pendingAppState <;> rfl

end Replica

namespace Node

variable {σ τ : Type} {f : σ → τ} {P : σ → Prop}

/-- The node with its application mapped. -/
def mapApp (f : σ → τ) (node : Node σ) : Node τ := ⟨node.replica.mapApp f, node.dir⟩

/-- The application of the node, if there is one, has `P`. -/
def Hosts (P : σ → Prop) (node : Node σ) : Prop := ∀ app ∈ node.replica.app, P app

variable [Ed25519] [Sha256] [Bincode LogEntry] [Bincode Snapshot] [Crc32] [App σ] [App τ]

/-- What happens to a node happens to the node with its application mapped. -/
theorem Hosts.step (h : AppMap f P) {node : Node σ} (hnode : node.Hosts P) (op : Nat × NodeOp) :
    (node.step op).Hosts P ∧ (node.step op).mapApp f = (node.mapApp f).step op ∧
      (node.mapApp f).answers op = node.answers op := by
  obtain ⟨now, op⟩ := op
  obtain ⟨r, dir⟩ := node
  cases op with
  | call call =>
    obtain ⟨happ, hpending⟩ := r.step_told (now, call)
    obtain ⟨hp, heq⟩ := Replica.executed_map h hnode r.committedLog
      (r.step (now, call)).committedLog
    refine ⟨?_, ?_, ?_⟩
    · show ∀ a ∈ (r.step (now, call)).app, P a
      rwa [happ]
    · have hmapped : (r.mapApp f).step (now, call) = (r.step (now, call)).mapApp f := by
        rw [Replica.mapApp, Replica.step_withApp, Replica.mapApp, happ, hpending, heq]
      show (⟨(r.step (now, call)).mapApp f, dir⟩ : Node τ) = ⟨(r.mapApp f).step (now, call), dir⟩
      rw [hmapped]
    · exact congrArg (fun a => [a]) (r.answer_withApp _ _ (now, call))
  | takeSnapshot =>
    obtain ⟨happ, hpending⟩ := r.takeSnapshot_told now dir
    have htaken : (r.mapApp f).takeSnapshot now dir =
        ((r.takeSnapshot now dir).1, (r.takeSnapshot now dir).2.1.mapApp f,
          (r.takeSnapshot now dir).2.2) := by
      have hcapture := Replica.captureSnapshot_mapApp h hnode now
      rw [Replica.mapApp] at hcapture ⊢
      rw [r.takeSnapshot_withApp _ _ now (rfl : dir.walTmp = dir.walTmp), hcapture,
        ← r.takeSnapshot_dir now dir, Replica.mapApp, happ, hpending]
    refine ⟨?_, ?_, rfl⟩
    · show ∀ a ∈ (r.takeSnapshot now dir).2.1.app, P a
      rwa [happ]
    · show _ = (⟨((r.mapApp f).takeSnapshot now dir).2.1,
        ((r.mapApp f).takeSnapshot now dir).2.2⟩ : Node τ)
      rw [htaken]
      rfl
  | restart config keystore =>
    have hdisk : (r.mapApp f).onDisk dir = r.onDisk dir := rfl
    have hrecover := recover_withApp (σ := σ) (τ := τ) now config keystore (r.onDisk dir)
    simp only [Node.step, restart, mapApp, hdisk, hrecover]
    cases hold : recover (σ := σ) now config keystore (r.onDisk dir) with
    | error e => exact ⟨hnode, rfl, rfl⟩
    | ok p =>
      obtain ⟨base, st, -, -, hbuilt⟩ := recover_ok_iff.mp hold
      have hnone : (p.1.attachWal p.2).app = none := by
        rw [hbuilt]
        rfl
      refine ⟨?_, ?_, rfl⟩
      · show ∀ a ∈ (p.1.attachWal p.2).app, P a
        rw [hnone]
        exact fun a ha => absurd ha (Option.not_mem_none a)
      · show (⟨(p.1.attachWal p.2).mapApp f, r.onDisk dir⟩ : Node τ) = _
        rw [Replica.mapApp, hnone]
        rfl

omit [Ed25519] [Sha256] [Bincode LogEntry] [Bincode Snapshot] [Crc32] in
/-- An attached application is the mapped one with the mapped state restored. -/
theorem Hosts.attachApp (h : AppMap f P) (node : Node σ) {app : σ} (happ : P app) :
    (node.attachApp app).Hosts P ∧
      (node.attachApp app).mapApp f = (node.mapApp f).attachApp (f app) := by
  obtain ⟨r, dir⟩ := node
  simp only [Node.attachApp, Hosts, mapApp, Replica.attachApp_eq, Replica.mapApp]
  have hpending : (r.withApp (r.app.map f) r.pendingAppState).pendingAppState =
      r.pendingAppState := rfl
  rw [hpending]
  cases r.pendingAppState with
  | none =>
    refine ⟨fun a ha => ?_, rfl⟩
    rw [← Option.some.inj ha]
    exact happ
  | some state =>
    obtain ⟨hrestored, heq⟩ := h.restore app happ state
    refine ⟨fun a ha => ?_, ?_⟩
    · rw [← Option.some.inj ha]
      exact hrestored
    · show Node.mk _ dir = Node.mk _ dir
      rw [Option.elim_some, Option.elim_some, ← heq]
      rfl

/-- A node and the same node with its application mapped stay in step. -/
theorem Hosts.run (h : AppMap f P) {node : Node σ} (hnode : node.Hosts P)
    {ops : List (Nat × HostOp σ)} (hops : ∀ op ∈ ops, op.2.Attaches P) :
    (run host node ops).mapApp f = run host (node.mapApp f) (ops.map (HostOp.map f)) ∧
      outputs host hostAnswers node ops =
        outputs host hostAnswers (node.mapApp f) (ops.map (HostOp.map f)) := by
  induction ops generalizing node with
  | nil => exact ⟨rfl, rfl⟩
  | cons op ops ih =>
    obtain ⟨hop, hrest⟩ := List.forall_mem_cons.mp hops
    obtain ⟨now, op⟩ := op
    cases op with
    | node op =>
      obtain ⟨hnext, hmapped, hanswers⟩ := hnode.step h (now, op)
      obtain ⟨hrun, houtputs⟩ := ih hnext hrest
      rw [hmapped] at hrun houtputs
      refine ⟨hrun, ?_⟩
      show node.answers (now, op) ++ outputs host hostAnswers (node.step (now, op)) ops = _
      rw [houtputs, ← hanswers]
      rfl
    | attach app =>
      obtain ⟨hnext, hmapped⟩ := Hosts.attachApp h node hop
      obtain ⟨hrun, houtputs⟩ := ih hnext hrest
      rw [hmapped] at hrun houtputs
      exact ⟨hrun, houtputs⟩

end Node

namespace GrpcAppClient

variable {σ : Type}

/-- The application behind the server. -/
def remoteApp (client : GrpcAppClient σ) : σ := client.server.app

/-- Every request gets to the server and every snapshot comes back. -/
def Reliable (client : GrpcAppClient σ) : Prop :=
  ∀ i, (client.link i).reaches = true ∧ client.snapshotLink i = .answered

variable [App σ] [Tonic]

/-- A state is restored by the server if its call gets there. -/
theorem restore_snd (client : GrpcAppClient σ) (state : Bytes) :
    (App.restore client state).2 =
      { client with
        server := if (client.link client.calls).reaches then
          ⟨(App.restore client.server.app state).2⟩ else client.server
        calls := client.calls + 1 } := by
  have hserved : (client.server.restoreSnapshot ⟨state⟩).2 =
      ⟨(App.restore client.server.app state).2⟩ := by
    simp only [AppServiceImpl.restoreSnapshot]
    split <;> simp_all
  show (client.restore state).2 = _
  simp only [restore, call]
  cases client.link client.calls with
  | requestLost status => rfl
  | responseLost status => simp only [hserved, Transmission.reaches, if_true]
  | answered =>
    simp only [Transmission.reaches, if_true, ← hserved]
    split
    · rename_i heq
      rw [← (Prod.mk.inj heq).2]
    · rename_i heq
      rw [← (Prod.mk.inj heq).2]
      split <;> rfl

/-- The client of a reliable link is as good as the application behind the server. -/
theorem appMap_remoteApp : AppMap (remoteApp (σ := σ)) Reliable where
  apply client h cmd := by
    rw [apply_snd, (h _).1]
    exact ⟨h, rfl⟩
  snapshot client h := by
    show client.snapshot.toOption = _
    simp only [snapshot, (h _).2, AppServiceImpl.takeSnapshot, remoteApp]
    cases App.snapshot client.server.app <;> rfl
  restore client h state := by
    rw [restore_snd, (h _).1]
    exact ⟨h, rfl⟩

end GrpcAppClient

namespace Node

section Remote

variable {σ : Type} [Ed25519] [Sha256] [Bincode LogEntry] [Bincode Snapshot] [Crc32] [App σ] [Tonic]

/-- A node whose application is in another process stays in step with one whose application is its
own: as long as every request gets to the server and every snapshot comes back, the same calls,
snapshots, restarts and attachments leave the same replica with the same files, the application
behind the server in the state of the local one, and are answered the same. -/
theorem remote_in_step {node : Node (GrpcAppClient σ)} (hnode : node.Hosts GrpcAppClient.Reliable)
    {ops : List (Nat × HostOp (GrpcAppClient σ))}
    (hops : ∀ op ∈ ops, op.2.Attaches GrpcAppClient.Reliable) :
    (run host node ops).mapApp GrpcAppClient.remoteApp =
        run host (node.mapApp GrpcAppClient.remoteApp)
          (ops.map (HostOp.map GrpcAppClient.remoteApp)) ∧
      outputs host hostAnswers node ops =
        outputs host hostAnswers (node.mapApp GrpcAppClient.remoteApp)
          (ops.map (HostOp.map GrpcAppClient.remoteApp)) :=
  hnode.run GrpcAppClient.appMap_remoteApp hops

end Remote

section Samples

open Sample

/-- A client whose answers get lost half of the time, and its requests never. -/
def forgetfulClient : GrpcAppClient KeyValueApp where
  server := ⟨KeyValueApp.new⟩
  calls := 0
  link i := if i % 2 = 0 then .responseLost ⟨4, "deadline exceeded"⟩ else .answered
  snapshotLink _ := .answered

/-- The application is attached, a key is set and committed, and the application attached anew
after a snapshot and a restart. -/
def remoteHosted : List (Nat × HostOp (GrpcAppClient KeyValueApp)) :=
  (0, .attach forgetfulClient) :: (writeOps.map fun op => (op.1, .node op.2)) ++
    [(5, .node .takeSnapshot), (6, .node (.restart (party 4 3).config (keyStore 4 3))),
      (7, .attach forgetfulClient)]

/-- The server has the key that was set. -/
theorem remote_in_step_restarted :
    ((run host (storeNode.mapApp fun _ => forgetfulClient) remoteHosted).mapApp
        GrpcAppClient.remoteApp).replica.app.map (fun app => app.get "a") = some (some "1") := by
  have hreliable : forgetfulClient.Reliable := by
    intro i
    refine ⟨?_, rfl⟩
    show (if i % 2 = 0 then Transmission.responseLost ⟨4, "deadline exceeded"⟩
      else Transmission.answered).reaches = true
    split <;> rfl
  have hops : ∀ op ∈ remoteHosted, op.2.Attaches GrpcAppClient.Reliable := by
    simp [remoteHosted, writeOps, HostOp.Attaches, hreliable]
  have hnode : (storeNode.mapApp fun _ => forgetfulClient).Hosts GrpcAppClient.Reliable :=
    fun a ha => absurd ha (Option.not_mem_none a)
  rw [(remote_in_step hnode hops).1]
  decide +kernel

end Samples

end Node

end PersistHotStuff
