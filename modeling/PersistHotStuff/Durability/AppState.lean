import Mathlib.Data.List.DropRight
import PersistHotStuff.Durability.Carried
import PersistHotStuff.Handlers.Execution

/-!
# Recovery of the application

A snapshot captures the application together with the log. Replay rebuilds the
log that follows but executes none of it, so the application comes back as it was
when the latest snapshot was taken.
-/

namespace PersistHotStuff

open Basis

/-- Restoring a captured state gives it back, whatever the state before. -/
class LawfulApp (σ : Type) [App σ] : Prop where
  restore_snapshot : ∀ captured : σ, ∃ state, App.snapshot captured = .ok state ∧
    ∀ app : σ, (App.restore app state).2 = captured

instance : LawfulApp NoOpApp := ⟨fun _ => ⟨[], rfl, fun _ => rfl⟩⟩

instance [Bincode (OrdMap String String)] [LawfulBincode (OrdMap String String)] :
    LawfulApp KeyValueApp where
  restore_snapshot captured := by
    refine ⟨_, rfl, fun app => ?_⟩
    show (KeyValueApp.restore app (Bincode.serialize captured.store)).2 = captured
    rw [KeyValueApp.restore, LawfulBincode.deserialize_serialize]

/-- Whether a record marks a snapshot. -/
def LogEntry.marksSnapshot : LogEntry → Bool
  | snapshotTaken .. => true
  | _ => false

/-- The records behind the last snapshot mark. -/
def sinceSnapshot (records : List LogEntry) : List LogEntry :=
  records.rtakeWhile fun entry => !entry.marksSnapshot

theorem sinceSnapshot_append {more : List LogEntry}
    (h : ∀ entry ∈ more, entry.marksSnapshot = false) (records : List LogEntry) :
    sinceSnapshot (records ++ more) = sinceSnapshot records ++ more := by
  induction more using List.reverseRecOn with
  | nil => simp
  | append_singleton more entry ih =>
    have hentry := h entry (List.mem_append_right _ (List.mem_singleton_self _))
    have hmore := ih fun e he => h e (List.mem_append_left _ he)
    rw [sinceSnapshot, ← List.append_assoc, List.rtakeWhile_concat_pos _ _ _ (by simp [hentry]),
      ← sinceSnapshot, hmore, List.append_assoc]

/-- The application a replica recovered over a snapshot gets when it is attached. -/
def restoredApp {σ : Type} [App σ] (fresh : σ) (snap : Option Snapshot) : σ :=
  match snap.bind Snapshot.appState with
  | some state => (App.restore fresh state).2
  | none => fresh

namespace Replica

/-- A call marks no snapshot. -/
theorem marksSnapshot_records {σ : Type} [Ed25519] [Sha256] [Bincode LogEntry] [Crc32]
    (r : Replica σ) (c : Nat × Call) :
    ∀ entry ∈ r.records c, entry.marksSnapshot = false := by
  intro entry hentry
  rcases mem_records hentry with ⟨block, -, -, rfl⟩ | ⟨vote, qc, -, -, rfl | rfl⟩ |
    ⟨qc, -, rfl⟩ | ⟨reason, -, rfl⟩ | ⟨-, block, -, i, rfl⟩
  all_goals rfl

end Replica

namespace Node

section Execution

variable {σ : Type} [App σ]

/-- Attach an application to the replica of a node. -/
def attachApp (app : σ) (node : Node σ) : Node σ :=
  { node with replica := node.replica.attachApp app }

/-- The application is the fold of the log, and the one a recovery would restore is the fold of the
blocks the snapshot covers. -/
structure Executed (fresh : σ) (snap : Option Snapshot) (r : Replica σ) : Prop where
  covered : snapshotLength snap ≤ r.committedLog.length
  live : r.app = some (execute fresh 0 r.committedLog)
  stored : restoredApp fresh snap = execute fresh 0 (r.committedLog.take (snapshotLength snap))

variable [Ed25519] [Sha256] [Bincode LogEntry] [Crc32]

theorem Executed.call {fresh : σ} {snap : Option Snapshot} {r : Replica σ}
    (h : Executed fresh snap r) (hkeyed : TreeKeyed r.blockTree) (c : Nat × Call) :
    Executed fresh snap (r.step c) := by
  have hlog : r.committedLog <+: (r.step c).committedLog := by
    rw [Replica.step_committedLog r hkeyed]
    obtain ⟨now, call⟩ := c
    cases call with
    | commitAll => exact List.prefix_append ..
    | _ => exact List.prefix_rfl
  obtain ⟨more, hmore⟩ := hlog
  refine ⟨?_, Replica.app_step hkeyed h.live c, ?_⟩
  · rw [← hmore, List.length_append]
    exact Nat.le_add_right_of_le h.covered
  · rw [← hmore, List.take_append_of_le_length h.covered]
    exact h.stored

omit [Ed25519] [Sha256] [Bincode LogEntry] [Crc32] in
theorem Executed.snapshot [LawfulApp σ] {fresh : σ} {snap : Option Snapshot} {r : Replica σ}
    (h : Executed fresh snap r) (now : Nat) (wal : Option WAL) (counter : Nat) :
    Executed fresh (some (r.captureSnapshot now))
      { r with wal := wal, snapshotCounter := counter } := by
  have hlen : snapshotLength (some (r.captureSnapshot now)) = r.committedLog.length := by
    simp [snapshotLength, Replica.captureSnapshot, Snapshot.capture]
  refine ⟨hlen.le, h.live, ?_⟩
  obtain ⟨state, hstate, hrestore⟩ := LawfulApp.restore_snapshot (execute fresh 0 r.committedLog)
  have happ : (r.captureSnapshot now).appState = some state := by
    simp only [Replica.captureSnapshot, Snapshot.capture, h.live, hstate]
    rfl
  rw [restoredApp, Option.bind_some, happ, hlen, List.take_length]
  exact hrestore fresh

variable [Bincode Snapshot]

/-- A node that carries its records, replays them to a log of the right length, and has executed
its log. -/
structure Executing (fresh : σ) (node : Node σ) (snap : Option Snapshot)
    (entries : List LogEntry) : Prop where
  carrying : Carrying node snap entries
  replays : ∃ st, replayEntries entries (baseState snap) = .ok st ∧
    st.committedLog.length = node.replica.committedLog.length
  executed : Executed fresh snap node.replica

/-- An operation keeps a node executing, with the records behind its last snapshot. -/
theorem Executing.step [LawfulApp σ] {fresh : σ} {node : Node σ} {snap : Option Snapshot}
    {done : List LogEntry} (h : Executing fresh node snap (sinceSnapshot done)) {op : Nat × NodeOp}
    (hop : op.2.uninterrupted = true) :
    ∃ snap', Executing fresh (node.step op) snap' (sinceSnapshot (done ++ node.records op)) := by
  obtain ⟨st, hreplay, hlen⟩ := h.replays
  obtain ⟨now, op⟩ := op
  cases op with
  | call call =>
    obtain ⟨st', hcall, hlen'⟩ :=
      Replica.replay_records_length h.carrying.keyed hlen (now, call)
    have hsince : sinceSnapshot (done ++ node.records (now, .call call)) =
        sinceSnapshot done ++ node.replica.records (now, call) :=
      sinceSnapshot_append (node.replica.marksSnapshot_records (now, call)) done
    refine ⟨snap, ?_⟩
    rw [hsince]
    refine ⟨h.carrying.call (now, call), ⟨st', ?_, hlen'⟩,
      h.executed.call h.carrying.keyed (now, call)⟩
    rw [replayEntries_append, hreplay]
    exact hcall
  | takeSnapshot =>
    obtain ⟨wal, dir, heq, hdur⟩ := h.carrying.writable.takeSnapshot now
    have hnone : sinceSnapshot (done ++ node.records (now, .takeSnapshot)) = [] :=
      List.rtakeWhile_concat_neg _ _ _ (by simp [LogEntry.marksSnapshot])
    refine ⟨some (node.replica.captureSnapshot now), ?_⟩
    rw [hnone]
    simp only [Node.step, heq]
    refine ⟨hdur.carrying, ⟨_, rfl, ?_⟩, h.executed.snapshot now _ _⟩
    rw [baseState_length]
    simp [snapshotLength, Replica.captureSnapshot, Snapshot.capture]
  | restart config keystore => cases hop

/-- A run keeps a node executing. -/
theorem Executing.run [LawfulApp σ] {fresh : σ} {node : Node σ} {snap : Option Snapshot}
    {done : List LogEntry} (h : Executing fresh node snap (sinceSnapshot done))
    {ops : List (Nat × NodeOp)} (hops : ∀ op ∈ ops, op.2.uninterrupted = true) :
    ∃ snap', Executing fresh (run Node.step node ops) snap'
      (sinceSnapshot (done ++ outputs Node.step Node.records node ops)) := by
  induction ops generalizing node snap done with
  | nil => exact ⟨snap, by rwa [outputs, List.append_nil]⟩
  | cons op ops ih =>
    obtain ⟨hop, hops⟩ := List.forall_mem_cons.mp hops
    obtain ⟨snap', h'⟩ := h.step hop
    rw [outputs, ← List.append_assoc]
    exact ih h' hops

omit [Ed25519] in
/-- The first start with an application attached. -/
theorem executing_boot (fresh : σ) {config : Config} {keystore : KeyStore} {now : Nat}
    {node : Node σ} (hboot : boot config keystore now = .ok node) :
    Executing fresh (node.attachApp fresh) none (sinceSnapshot []) := by
  obtain ⟨wal, heq, hdur⟩ := durable_boot (σ := σ) config keystore now
  rw [heq] at hboot
  cases hboot
  obtain ⟨hkeyed, hlog, hstore, hnoTmp, hbelow, hpaired⟩ := hdur.carrying
  exact ⟨⟨hkeyed, hlog, hstore, hnoTmp, hbelow, hpaired⟩, ⟨_, rfl, rfl⟩, ⟨le_rfl, rfl, rfl⟩⟩

variable [LawfulBincode LogEntry] [LawfulBincode Snapshot] [StrictBincode LogEntry]

/-- Recovery succeeds, and a fresh application attached to the recovered replica gets the state that
the whole log before the crash leads to. -/
def AppSurvives (fresh : σ) (node : Node σ) (config : Config) (keystore : KeyStore) (now : Nat) :
    Prop :=
  ∃ recovered, node.restart config keystore now = .ok recovered ∧
    (recovered.attachApp fresh).replica.app = some (execute fresh 0 node.replica.committedLog)

omit [Ed25519] in
/-- An executing node restarts when its records are short, and its application then gets the state
the snapshot covers. -/
theorem Executing.appSurvives_iff {fresh : σ} {node : Node σ} {snap : Option Snapshot}
    {entries : List LogEntry} (h : Executing fresh node snap entries) (config : Config)
    (keystore : KeyStore) (now : Nat) :
    AppSurvives fresh node config keystore now ↔
      (∀ entry ∈ entries, ShortPayload entry) ∧
        execute fresh 0
            (node.replica.committedLog.take (snapshotLength (latestSnapshot node.dir))) =
          execute fresh 0 node.replica.committedLog := by
  obtain ⟨st, hreplay, -⟩ := h.replays
  have hlatest : latestSnapshot node.dir = snap := h.carrying.store.latestSnapshot
  have hpending : ∀ wal : WAL,
      (((buildReplica now config keystore (baseOf config.n snap) st).attachWal wal).attachApp
        fresh).app = some (restoredApp fresh snap) := by
    intro wal
    cases snap <;> rfl
  rw [hlatest, ← h.executed.stored]
  constructor
  · rintro ⟨recovered, hrestart, happ⟩
    have hdur := h.carrying.durable_of_restart hrestart
    obtain ⟨wal, -, hholds⟩ := hdur.log
    obtain ⟨wal', heq, -⟩ := hdur.restart hreplay config keystore now
    rw [heq] at hrestart
    cases hrestart
    exact ⟨hholds.file.2, Option.some.inj ((hpending wal').symm.trans happ)⟩
  · rintro ⟨hshort, happ⟩
    obtain ⟨wal, heq, -⟩ := (h.carrying.durable hshort).restart hreplay config keystore now
    refine ⟨_, heq, (hpending wal).trans ?_⟩
    rw [happ]

end Execution

section KeyValue

variable [Ed25519] [Sha256] [Bincode LogEntry] [Crc32] [Bincode Snapshot]
  [Bincode (OrdMap String String)] [LawfulBincode LogEntry] [LawfulBincode Snapshot]
  [StrictBincode LogEntry] [LawfulBincode (OrdMap String String)]

/-- After any run of calls and snapshots from the first start, the store survives a crash exactly
when the records behind the last snapshot fit their length prefixes and every key written since ends
with the value it had in the snapshot. -/
theorem storeSurvives_iff {config : Config} {keystore : KeyStore} {now : Nat}
    {node : Node KeyValueApp} (hboot : boot config keystore now = .ok node)
    {ops : List (Nat × NodeOp)} (hops : ∀ op ∈ ops, op.2.uninterrupted = true) (config' : Config)
    (keystore' : KeyStore) (now' : Nat) :
    AppSurvives KeyValueApp.new (run step (node.attachApp KeyValueApp.new) ops) config' keystore'
        now' ↔
      (∀ entry ∈ sinceSnapshot (outputs step records (node.attachApp KeyValueApp.new) ops),
          ShortPayload entry) ∧
        KeyValueApp.Settled
          (run step (node.attachApp KeyValueApp.new) ops).replica.committedLog
          (snapshotLength
            (latestSnapshot (run step (node.attachApp KeyValueApp.new) ops).dir)) := by
  obtain ⟨snap, hexec⟩ := (executing_boot KeyValueApp.new hboot).run hops
  rw [hexec.appSurvives_iff, KeyValueApp.execute_take_eq_iff, List.nil_append]

end KeyValue

section Samples

open Sample

/-- Replica 3 of four after its first start, for a key-value store. -/
def storeNode : Node KeyValueApp :=
  ⟨(freshReplica 0 (Simulation.replicaConfig 4 1 3) (keyStore 4 3)).attachWal
    ⟨⟨walHeader 0 3, headerSize⟩, 3, 0, []⟩, DataDir.empty⟩

/-- A block that sets a key is committed. -/
def writeOps : List (Nat × NodeOp) :=
  [(1, .call (.validateAndInsertProposal
      { block 1 0 0 0 none with command := .clientTx "SET a 1" })),
    (2, .call (.validateAndInsertProposal (block 2 1 1 1 (some (qc [0, 1, 2] 1 0 0))))),
    (3, .call (.validateAndInsertProposal (block 3 2 2 2 (some (qc [0, 1, 2] 2 1 0))))),
    (4, .call .commitAll)]

/-- A snapshot is taken, and a block without payload is committed after it. -/
def coveredOps : List (Nat × NodeOp) :=
  writeOps ++ [(5, .takeSnapshot),
    (6, .call (.validateAndInsertProposal (block 4 3 3 3 (some (qc [0, 1, 2] 3 2 0))))),
    (7, .call .commitAll)]

theorem appSurvives_covered :
    AppSurvives KeyValueApp.new (run step (storeNode.attachApp KeyValueApp.new) coveredOps)
      (party 4 3).config (keyStore 4 3) 9 := by
  have hboot : boot (party 4 3).config (keyStore 4 3) 0 = .ok storeNode := by decide +kernel
  exact (storeSurvives_iff hboot (by decide) _ _ _).mpr (by decide +kernel)

/-- Without a snapshot the key is gone after the restart. -/
theorem write_lost :
    boot (party 4 3).config (keyStore 4 3) 0 = .ok storeNode ∧
      (∀ op ∈ writeOps, op.2.uninterrupted = true) ∧
      (run step (storeNode.attachApp KeyValueApp.new) writeOps).replica.app.map
        (fun app => app.get "a") = some (some "1") ∧
      ((run step (storeNode.attachApp KeyValueApp.new) writeOps).restart (party 4 3).config
          (keyStore 4 3) 9).map
        (fun node => (node.attachApp KeyValueApp.new).replica.app) =
          .ok (some KeyValueApp.new) :=
  ⟨by decide +kernel, by decide, by decide +kernel, by decide +kernel⟩

end Samples

end Node

end PersistHotStuff
