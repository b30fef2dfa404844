import PersistHotStuff.Durability.Records
import PersistHotStuff.Durability.Store
import PersistHotStuff.Source.Sample

/-!
# A replica with its directory

A node is a replica with the directory it persists to. It answers calls, takes
snapshots, and is dropped and recovered. The directory always holds the latest
snapshot and, in the log, the records of everything since.
-/

namespace PersistHotStuff

open Basis

/-- What replay starts from. -/
def baseState (snap : Option Snapshot) : Recovered :=
  match snap with
  | none => (RecoveredBase.fresh 0).state
  | some snap => (RecoveredBase.ofSnapshot snap).state

/-- The base state of a recovery. -/
def baseOf (n : Nat) : Option Snapshot → RecoveredBase
  | none => RecoveredBase.fresh n
  | some snap => RecoveredBase.ofSnapshot snap

theorem baseOf_state (n : Nat) (snap : Option Snapshot) :
    (baseOf n snap).state = baseState snap := by
  cases snap <;> rfl

/-- A recovered replica gives its next snapshot the highest number. -/
theorem StoreHolds.below [Bincode Snapshot] [Sha256] {dir : DataDir} {snap : Option Snapshot}
    (h : StoreHolds dir snap) {n seq : Nat} (hseq : dir.bins.contains seq = true) :
    seq < (baseOf n snap).snapshotCounter := by
  cases snap with
  | none =>
    rw [OrdMap.last?_eq_none.mp h seq] at hseq
    cases hseq
  | some snap => exact Nat.lt_succ_of_le ((OrdMap.last?_eq_some h.1).2 seq hseq)

section

variable [Bincode LogEntry] [Bincode Snapshot] [Crc32] [Sha256]

/-- A directory with a snapshot, a log of entries behind it, and no temporary log. -/
structure DirHolds (dir : DataDir) (snap : Option Snapshot) (entries : List LogEntry) : Prop where
  log : ∃ bytes, dir.wal = some bytes ∧ LogFile bytes entries
  store : StoreHolds dir snap
  noTmp : dir.walTmp = none

omit [Bincode LogEntry] [Bincode Snapshot] [Crc32] [Sha256] in
/-- A filled tree is kept when a replica is built from a recovered state. -/
theorem buildReplica_blockTree {σ : Type} {st : Recovered}
    (hfilled : st.blockTree.isEmpty = false) (now : Nat) (config : Config) (keystore : KeyStore)
    (base : RecoveredBase) :
    (buildReplica (σ := σ) now config keystore base st).blockTree = st.blockTree := by
  simp only [buildReplica, hfilled, Bool.false_eq_true, if_false]

omit [Bincode LogEntry] [Bincode Snapshot] [Crc32] [Sha256] in
/-- A replica is built with the recovered hashes, or with genesis if there are none. -/
theorem contains_buildReplica {σ : Type} {now : Nat} {config : Config} {keystore : KeyStore}
    {base : RecoveredBase} {st : Recovered} {hash : Hash} :
    (buildReplica (σ := σ) now config keystore base st).blockTree.contains hash = true ↔
      st.blockTree.contains hash = true ∨ st.blockTree.isEmpty = true ∧ hash = 0 := by
  simp only [buildReplica]
  split
  · next hempty =>
    rw [OrdMap.contains_insert, Bool.or_eq_true, decide_eq_true_iff, or_comm,
      and_iff_right hempty]
  · next hfilled => exact (or_iff_left fun hboth => hfilled hboth.1).symm

omit [Bincode LogEntry] [Crc32] in
/-- The base of a recovery is the snapshot that is held. -/
theorem loadBase_of_storeHolds [LawfulBincode Snapshot] {dir : DataDir} {snap : Option Snapshot}
    (h : StoreHolds dir snap) (config : Config) :
    loadBase config dir = .ok (baseOf config.n snap) := by
  rw [loadBase, h.loadLatest]
  cases snap <;> rfl

omit [Bincode Snapshot] [Sha256] in
/-- What is replayed over the base is nothing, or some entries. -/
theorem replayLog_cases {now : Nat} {config : Config} {dir : DataDir} {base st : Recovered}
    {wal : WAL} (hok : replayLog now config dir base = .ok (st, wal)) :
    st = base ∨ ∃ entries, replayEntries entries base = .ok st := by
  rw [replayLog] at hok
  split at hok
  · split at hok
    · cases hok
    · split at hok
      · cases hok
      · split at hok
        · cases hok
        · next hreplay =>
          cases hok
          exact .inr ⟨_, hreplay⟩
  · split at hok
    · cases hok
    · cases hok
      exact .inl rfl

/-- A recovery builds the replica from the base it loads and the log it replays. -/
theorem recover_ok_iff {σ : Type} {now : Nat} {config : Config} {keystore : KeyStore}
    {dir : DataDir} {r : Replica σ} {wal : WAL} :
    recover now config keystore dir = .ok (r, wal) ↔
      ∃ base st, loadBase config dir = .ok base ∧
        replayLog now config dir base.state = .ok (st, wal) ∧
        r = buildReplica now config keystore base st := by
  constructor
  · intro hok
    rw [recover] at hok
    split at hok
    · cases hok
    · next base hbase =>
      split at hok
      · cases hok
      · next st wal hlog =>
        cases hok
        exact ⟨base, st, hbase, hlog, rfl⟩
  · rintro ⟨base, st, hbase, hlog, rfl⟩
    simp only [recover, hbase, hlog]

/-- Recovery replays the entries of the log, up to three bytes at its end apart, over the
snapshot. -/
theorem recover_eq {σ : Type} [LawfulBincode LogEntry] [LawfulBincode Snapshot] {dir : DataDir}
    {snap : Option Snapshot} {bytes tail : Bytes} {entries : List LogEntry}
    (hstore : StoreHolds dir snap) (hwal : dir.wal = some (bytes ++ tail))
    (hfile : LogFile bytes entries) (htail : tail.length < 4) (now : Nat) (config : Config)
    (keystore : KeyStore) :
    recover (σ := σ) now config keystore dir =
      (replayEntries entries (baseState snap)).map fun st =>
        (buildReplica now config keystore (baseOf config.n snap) st,
          { file := ⟨bytes ++ tail, (bytes ++ tail).length⟩
            replicaId := config.id
            entryCount := entries.length
            refusals := [] }) := by
  have hopen := WAL.openExisting_logFile hfile htail config.id
  have hread := readEntriesFromFile_logFile hfile htail
  have hlen : headerSize ≤ (bytes ++ tail).length := by
    obtain ⟨⟨created, replicaId, rfl⟩, -⟩ := hfile
    rw [logBytes, List.append_assoc, List.length_append, length_walHeader]
    exact Nat.le_add_right ..
  have hbase := loadBase_of_storeHolds hstore config
  simp only [PersistHotStuff.recover, hbase, replayLog, hwal, Option.isSome_some, if_true, hopen,
    WAL.readAll, hread, Nat.max_eq_right hlen, baseOf_state]
  cases replayEntries entries (baseState snap) <;> rfl

/-- Recovery of a directory that holds a snapshot and entries. -/
theorem DirHolds.recover {σ : Type} [LawfulBincode LogEntry] [LawfulBincode Snapshot]
    {dir : DataDir} {snap : Option Snapshot} {entries : List LogEntry}
    (h : DirHolds dir snap entries) (now : Nat) (config : Config) (keystore : KeyStore) :
    ∃ wal : WAL, wal.Holds entries ∧ wal.entryCount = entries.length ∧
      recover (σ := σ) now config keystore dir =
        (replayEntries entries (baseState snap)).map fun st =>
          (buildReplica now config keystore (baseOf config.n snap) st, wal) := by
  obtain ⟨bytes, hwal, hfile⟩ := h.log
  rw [← List.append_nil bytes] at hwal
  refine ⟨_, ⟨?_, rfl, rfl⟩, rfl, recover_eq h.store hwal hfile (by decide) now config keystore⟩
  rwa [List.append_nil]

end

section

variable {σ : Type} [App σ] [Bincode LogEntry] [Bincode Snapshot] [Crc32] [Sha256]

/-- A snapshot with no temporary log in the way completes, whether or not its record is refused. -/
theorem Replica.takeSnapshot_eq {r : Replica σ} {wal : WAL} (hwal : r.wal = some wal)
    {dir : DataDir} (hnoTmp : dir.walTmp = none) (now : Nat) :
    r.takeSnapshot now dir =
      (.ok (),
        { r with
          wal := some
            { file := ⟨walHeader now wal.replicaId, headerSize⟩
              replicaId := wal.replicaId
              entryCount := 0
              refusals := wal.refusals.tail }
          snapshotCounter := r.snapshotCounter + 1 },
        cleanupOld ((r.captureSnapshot now).save dir) 3) := by
  have htmp : ((r.captureSnapshot now).save dir).walTmp = none := hnoTmp
  simp only [Replica.takeSnapshot, Replica.record, hwal, Option.map_some,
    WAL.truncateAfterSnapshot, htmp, Option.isSome_none, Bool.false_eq_true, if_false,
    WAL.append_replicaId, WAL.append_refusals]

end

/-- A replica and the directory it persists to. -/
structure Node (σ : Type) where
  replica : Replica σ
  dir : DataDir
  deriving DecidableEq

/-- What happens to a node. -/
inductive NodeOp
  | call (call : Call)
  | takeSnapshot
  /-- The replica is dropped, recovered from its directory, and given the returned log. -/
  | restart (config : Config) (keystore : KeyStore)
  deriving DecidableEq

namespace Node

variable {σ : Type} [Bincode LogEntry] [Bincode Snapshot] [Crc32] [Sha256]

/-- Drop the replica and recover it. -/
def restart (config : Config) (keystore : KeyStore) (now : Nat) (node : Node σ) :
    Except RecoveryError (Node σ) :=
  (recover now config keystore (node.replica.onDisk node.dir)).map fun p =>
    ⟨p.1.attachWal p.2, node.replica.onDisk node.dir⟩

/-- A restart succeeds when the recovery from what is on disk does. -/
theorem restart_ok_iff {config : Config} {keystore : KeyStore} {now : Nat} {node node' : Node σ} :
    node.restart config keystore now = .ok node' ↔
      ∃ r wal, recover now config keystore (node.replica.onDisk node.dir) = .ok (r, wal) ∧
        node' = ⟨r.attachWal wal, node.replica.onDisk node.dir⟩ := by
  constructor
  · intro hok
    rw [restart] at hok
    cases hrec : recover (σ := σ) now config keystore (node.replica.onDisk node.dir) with
    | error e =>
      rw [hrec] at hok
      cases hok
    | ok p =>
      rw [hrec] at hok
      cases hok
      exact ⟨p.1, p.2, rfl, rfl⟩
  · rintro ⟨r, wal, hrec, rfl⟩
    rw [restart, hrec]
    rfl

/-- The first start, on an empty directory. -/
def boot (config : Config) (keystore : KeyStore) (now : Nat) : Except RecoveryError (Node σ) :=
  (recover now config keystore DataDir.empty).map fun p => ⟨p.1.attachWal p.2, DataDir.empty⟩

/-- The directory and the open log of a node hold a snapshot and the entries behind it. -/
structure Durable (node : Node σ) (snap : Option Snapshot) (entries : List LogEntry) : Prop where
  keyed : TreeKeyed node.replica.blockTree
  log : ∃ wal, node.replica.wal = some wal ∧ wal.Holds entries
  store : StoreHolds node.dir snap
  noTmp : node.dir.walTmp = none
  /-- The next snapshot is the newest. -/
  below : ∀ seq, node.dir.bins.contains seq = true → seq < node.replica.snapshotCounter
  /-- Every checksum belongs to a snapshot. -/
  paired : ∀ seq, node.dir.shas.contains seq = true → node.dir.bins.contains seq = true

/-- A node that can take snapshots: no append to its log fails, no temporary log is in the way. -/
structure Writable (node : Node σ) : Prop where
  keyed : TreeKeyed node.replica.blockTree
  log : ∃ wal, node.replica.wal = some wal ∧ wal.refusals = []
  noTmp : node.dir.walTmp = none
  below : ∀ seq, node.dir.bins.contains seq = true → seq < node.replica.snapshotCounter
  paired : ∀ seq, node.dir.shas.contains seq = true → node.dir.bins.contains seq = true

/-- A durable node can take snapshots. -/
theorem Durable.writable {node : Node σ} {snap : Option Snapshot} {entries : List LogEntry}
    (h : Durable node snap entries) : Writable node := by
  obtain ⟨wal, hwal, hholds⟩ := h.log
  exact ⟨h.keyed, ⟨wal, hwal, hholds.willing⟩, h.noTmp, h.below, h.paired⟩

/-- What a dropped node leaves on disk. -/
theorem Durable.onDisk {node : Node σ} {snap : Option Snapshot} {entries : List LogEntry}
    (h : Durable node snap entries) :
    DirHolds (node.replica.onDisk node.dir) snap entries := by
  obtain ⟨wal, hwal, hholds⟩ := h.log
  have hdisk : node.replica.onDisk node.dir = { node.dir with wal := some wal.file.bytes } := by
    rw [Replica.onDisk, hwal]
  rw [hdisk]
  refine ⟨⟨wal.file.bytes, rfl, hholds.file⟩, ?_, h.noTmp⟩
  have hstore := h.store
  cases snap with
  | none => exact hstore
  | some snap => exact hstore

theorem Durable.onDisk_paired {node : Node σ} {snap : Option Snapshot} {entries : List LogEntry}
    (h : Durable node snap entries) : ∀ seq,
    (node.replica.onDisk node.dir).shas.contains seq = true →
      (node.replica.onDisk node.dir).bins.contains seq = true := by
  obtain ⟨wal, hwal, -⟩ := h.log
  simp only [Replica.onDisk, hwal]
  exact h.paired

section Snapshots

variable [App σ]

/-- A snapshot of such a node completes: it replaces the snapshot and empties the log. -/
theorem Writable.takeSnapshot {node : Node σ} (h : Writable node) (now : Nat) :
    ∃ wal dir,
      node.replica.takeSnapshot now node.dir =
        (.ok (), { node.replica with
          wal := some wal, snapshotCounter := node.replica.snapshotCounter + 1 }, dir) ∧
      Durable
        ⟨{ node.replica with
          wal := some wal, snapshotCounter := node.replica.snapshotCounter + 1 }, dir⟩
        (some (node.replica.captureSnapshot now)) [] := by
  obtain ⟨wal, hwal, hwilling⟩ := h.log
  have hsaved : StoreHolds ((node.replica.captureSnapshot now).save node.dir)
      (some (node.replica.captureSnapshot now)) :=
    storeHolds_save fun seq hseq => h.below seq hseq
  refine ⟨_, _, Replica.takeSnapshot_eq hwal h.noTmp now, h.keyed,
    ⟨_, rfl, ⟨logFile_header _ _, ?_, ?_⟩⟩, hsaved.cleanupOld (by decide), ?_,
    fun seq hseq => ?_, fun seq hseq => ?_⟩
  · exact (length_walHeader now _).symm
  · rw [hwilling]
    rfl
  · rw [(cleanupOld_wal _ _).2]
    exact h.noTmp
  · exact below_cleanupOld_save h.below hseq
  · refine contains_cleanupOld_bins hseq fun seq hin => ?_
    simp only [Snapshot.save, OrdMap.contains_insert, Bool.or_eq_true] at hin ⊢
    exact hin.imp_right (h.paired seq)

end Snapshots

section Calls

variable [Ed25519] [App σ]

/-- The node after an operation at a time. A recovery that fails changes nothing on disk. -/
def step (node : Node σ) (op : Nat × NodeOp) : Node σ :=
  match op.2 with
  | .call call => { node with replica := node.replica.step (op.1, call) }
  | .takeSnapshot =>
      let (_, replica, dir) := node.replica.takeSnapshot op.1 node.dir
      ⟨replica, dir⟩
  | .restart config keystore =>
      match node.restart config keystore op.1 with
      | .ok node => node
      | .error _ => node

/-- The records an operation writes to the log. -/
def records (node : Node σ) (op : Nat × NodeOp) : List LogEntry :=
  match op.2 with
  | .call call => node.replica.records (op.1, call)
  | .takeSnapshot =>
      [.snapshotTaken node.replica.snapshotCounter node.replica.committedUpTo op.1]
  | .restart _ _ => []

/-- Every record an operation writes fits its frame. -/
def ShortRecords (node : Node σ) (op : Nat × NodeOp) : Prop :=
  ∀ entry ∈ node.records op, ShortPayload entry

instance (node : Node σ) (op : Nat × NodeOp) : Decidable (node.ShortRecords op) :=
  inferInstanceAs (Decidable (∀ entry ∈ node.records op, ShortPayload entry))

/-- Calls extend the log by their records. -/
theorem Durable.call {node : Node σ} {snap : Option Snapshot} {entries : List LogEntry}
    (h : Durable node snap entries) {c : Nat × Call}
    (hshort : ∀ e ∈ node.replica.records c, ShortPayload e) :
    Durable { node with replica := node.replica.step c } snap
      (entries ++ node.replica.records c) := by
  obtain ⟨wal, hwal, hholds⟩ := h.log
  refine ⟨Replica.treeKeyed_step h.keyed c, ⟨wal.appendAll (node.replica.records c), ?_,
    hholds.appendAll hshort⟩, h.store, h.noTmp, fun seq hseq => ?_, fun seq hseq => ?_⟩
  · rw [Replica.step_wal _ h.keyed, hwal]
    rfl
  · rw [Replica.step_snapshotCounter]
    exact h.below seq hseq
  · exact h.paired seq hseq

end Calls

end Node

/-- Replay keeps every block under its own hash. -/
theorem replayEntries_keyed {entries : List LogEntry} {st st' : Recovered}
    (h : TreeKeyed st.blockTree) (hreplay : replayEntries entries st = .ok st') :
    TreeKeyed st'.blockTree := by
  refine replayEntries_preserves (I := fun st => TreeKeyed st.blockTree) ?_ hreplay h
  intro entry _ st st' h hone
  cases entry with
  | blockInserted hash parent view epoch proposer qcBlockHash qcView command timestamp =>
    cases hone
    exact h.insert
      { hash, parent, view, epoch, proposer, qc := stubQc qcBlockHash qcView epoch,
        command := .noOp }
  | blockCommitted hash parent view epoch proposer command commitIndex timestamp =>
    rw [replayEntry_commit hone]
    exact h
  | _ =>
    cases hone
    exact h

/-- A tree rebuilt from stored blocks keeps them under their hashes. -/
theorem treeKeyed_ofList (blocks : List SerializableBlock) :
    TreeKeyed (OrdMap.ofList (blocks.map fun b => (b.hash, b.toBlock))) := by
  have hfold : ∀ (blocks : List SerializableBlock) (tree : OrdMap Hash Block), TreeKeyed tree →
      TreeKeyed ((blocks.map fun b => (b.hash, b.toBlock)).foldl (fun m p => m.insert p.1 p.2)
        tree) := by
    intro blocks
    induction blocks with
    | nil => exact fun _ h => h
    | cons b blocks ih => exact fun tree h => ih _ (h.insert b.toBlock)
  exact hfold blocks _ fun hash block h => by cases h

theorem baseState_keyed (snap : Option Snapshot) : TreeKeyed (baseState snap).blockTree := by
  cases snap with
  | none => exact fun hash block h => by cases h
  | some snap => exact treeKeyed_ofList _

theorem buildReplica_keyed {σ : Type} {st : Recovered} (h : TreeKeyed st.blockTree) (now : Nat)
    (config : Config) (keystore : KeyStore) (base : RecoveredBase) :
    TreeKeyed (buildReplica (σ := σ) now config keystore base st).blockTree := by
  simp only [buildReplica]
  split
  · exact h.insert genesisBlock
  · exact h

namespace Node

section Restart

variable {σ : Type} [Bincode LogEntry] [Bincode Snapshot] [Crc32] [Sha256]

/-- The first start succeeds and leaves a durable node. -/
theorem durable_boot (config : Config) (keystore : KeyStore) (now : Nat) :
    ∃ wal : WAL, boot (σ := σ) config keystore now =
        .ok ⟨(buildReplica now config keystore (baseOf config.n none)
          (baseState none)).attachWal wal, DataDir.empty⟩ ∧
      Durable (σ := σ)
        ⟨(buildReplica now config keystore (baseOf config.n none) (baseState none)).attachWal wal,
          DataDir.empty⟩ none [] := by
  refine ⟨⟨⟨walHeader now config.id, headerSize⟩, config.id, 0, []⟩, rfl, ?_, ⟨_, rfl, ?_⟩, rfl,
    rfl, fun seq hseq => (by cases hseq), fun seq hseq => (by cases hseq)⟩
  · exact buildReplica_keyed (σ := σ) (baseState_keyed none) now config keystore
      (baseOf config.n none)
  · exact ⟨logFile_header now config.id, (length_walHeader now config.id).symm, rfl⟩

variable [LawfulBincode LogEntry] [LawfulBincode Snapshot]

/-- A durable node whose log replays restarts, and is durable again. -/
theorem Durable.restart {node : Node σ} {snap : Option Snapshot} {entries : List LogEntry}
    (h : Durable node snap entries) {st : Recovered}
    (hreplay : replayEntries entries (baseState snap) = .ok st) (config : Config)
    (keystore : KeyStore) (now : Nat) :
    ∃ wal : WAL, node.restart config keystore now =
        .ok ⟨(buildReplica now config keystore (baseOf config.n snap) st).attachWal wal,
          node.replica.onDisk node.dir⟩ ∧
      Durable (σ := σ) ⟨(buildReplica now config keystore (baseOf config.n snap) st).attachWal wal,
        node.replica.onDisk node.dir⟩ snap entries := by
  have hdisk := h.onDisk
  obtain ⟨wal, hholds, -, hrec⟩ := hdisk.recover (σ := σ) now config keystore
  refine ⟨wal, ?_, ?_, ⟨wal, rfl, hholds⟩, hdisk.store, hdisk.noTmp, ?_, h.onDisk_paired⟩
  · rw [Node.restart, hrec, hreplay]
    rfl
  · exact buildReplica_keyed (σ := σ) (replayEntries_keyed (baseState_keyed snap) hreplay) now
      config keystore (baseOf config.n snap)
  · exact fun seq hseq => hdisk.store.below hseq

end Restart

section Tracking

variable {σ : Type} [Ed25519] [Sha256] [Bincode LogEntry] [Bincode Snapshot] [Crc32] [App σ]

/-- A relation between what recovery rebuilds and the live replica that every operation keeps. -/
structure Tracking (Tracks : Option Snapshot → Recovered → Replica σ → Prop) : Prop where
  /-- The records of a call replay to a state that tracks the replica after the call. -/
  call : ∀ snap st r c, TreeKeyed r.blockTree → Tracks snap st r →
    ∃ st', replayEntries (r.records c) st = .ok st' ∧ Tracks snap st' (r.step c)
  /-- The state in a snapshot tracks the replica it was taken of. -/
  snapshot : ∀ snap st r now wal counter, Tracks snap st r →
    Tracks (some (r.captureSnapshot now)) (baseState (some (r.captureSnapshot now)))
      { r with wal := wal, snapshotCounter := counter }
  /-- A state tracks the replica rebuilt from it. -/
  restart : ∀ snap st r config keystore now wal, Tracks snap st r →
    Tracks snap st ((buildReplica now config keystore (baseOf config.n snap) st).attachWal wal)

/-- A durable node whose log replays to a state that tracks its replica. -/
def Recoverable (Tracks : Option Snapshot → Recovered → Replica σ → Prop) (node : Node σ) : Prop :=
  ∃ snap entries st, Durable node snap entries ∧
    replayEntries entries (baseState snap) = .ok st ∧ Tracks snap st node.replica

/-- A snapshot keeps a node recoverable. -/
theorem Recoverable.takeSnapshot {Tracks : Option Snapshot → Recovered → Replica σ → Prop}
    (hT : Tracking Tracks) {node : Node σ} (h : Recoverable Tracks node) (now : Nat) :
    Recoverable Tracks (node.step (now, .takeSnapshot)) := by
  obtain ⟨snap, entries, st, hdur, hreplay, htrack⟩ := h
  obtain ⟨wal, dir, heq, hdur'⟩ := hdur.writable.takeSnapshot now
  refine ⟨some (node.replica.captureSnapshot now), [], _, ?_, rfl, ?_⟩
  · simp only [Node.step, heq]
    exact hdur'
  · simp only [Node.step, heq]
    exact hT.snapshot snap st node.replica now _ _ htrack

variable [LawfulBincode LogEntry] [LawfulBincode Snapshot]

/-- A restart keeps a node recoverable. -/
theorem Recoverable.restart {Tracks : Option Snapshot → Recovered → Replica σ → Prop}
    (hT : Tracking Tracks) {node : Node σ} (h : Recoverable Tracks node) (config : Config)
    (keystore : KeyStore) (now : Nat) :
    Recoverable Tracks (node.step (now, .restart config keystore)) := by
  obtain ⟨snap, entries, st, hdur, hreplay, htrack⟩ := h
  obtain ⟨wal, heq, hdur'⟩ := hdur.restart hreplay config keystore now
  refine ⟨snap, entries, st, ?_, hreplay, ?_⟩
  · simp only [Node.step, heq]
    exact hdur'
  · simp only [Node.step, heq]
    exact hT.restart snap st node.replica config keystore now wal htrack

/-- Every operation keeps a node recoverable. -/
theorem Recoverable.step {Tracks : Option Snapshot → Recovered → Replica σ → Prop}
    (hT : Tracking Tracks) {node : Node σ} (h : Recoverable Tracks node) {op : Nat × NodeOp}
    (hshort : node.ShortRecords op) : Recoverable Tracks (node.step op) := by
  obtain ⟨now, op⟩ := op
  cases op with
  | call call =>
    obtain ⟨snap, entries, st, hdur, hreplay, htrack⟩ := h
    obtain ⟨st', hreplay', htrack'⟩ := hT.call snap st node.replica (now, call) hdur.keyed htrack
    refine ⟨snap, _, st', hdur.call hshort, ?_, htrack'⟩
    rw [replayEntries_append, hreplay]
    exact hreplay'
  | takeSnapshot => exact h.takeSnapshot hT now
  | restart config keystore => exact h.restart hT config keystore now

/-- Every node reached from the first start is recoverable. -/
theorem recoverable_run {Tracks : Option Snapshot → Recovered → Replica σ → Prop}
    (hT : Tracking Tracks)
    (hboot : ∀ now config keystore wal, Tracks none (baseState none)
      ((buildReplica now config keystore (baseOf config.n none) (baseState none)).attachWal wal))
    {config : Config} {keystore : KeyStore} {now : Nat} {node : Node σ}
    (hnode : boot config keystore now = .ok node) {ops : List (Nat × NodeOp)}
    (hshort : Along step ShortRecords node ops) : Recoverable Tracks (run step node ops) := by
  refine run_invariant (C := ShortRecords) (fun s op hs hc => hs.step hT hc) ?_ hshort
  obtain ⟨wal, heq, hdur⟩ := durable_boot (σ := σ) config keystore now
  rw [heq] at hnode
  cases hnode
  exact ⟨none, [], _, hdur, rfl, hboot now config keystore wal⟩

end Tracking

end Node

end PersistHotStuff
