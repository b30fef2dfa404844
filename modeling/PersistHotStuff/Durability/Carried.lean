import PersistHotStuff.Durability.Commands
import PersistHotStuff.Durability.TornLog

/-!
# Records of any length

A node that is never interrupted carries the records since its latest snapshot
in its log, whatever their lengths. It can be restarted only if all of them fit
their length prefix, and then it is durable.
-/

namespace PersistHotStuff

open Basis

/-- A log that can be opened has no record too long for its length prefix. -/
theorem short_of_openExisting [Bincode LogEntry] [Crc32] [LawfulBincode LogEntry]
    [StrictBincode LogEntry] {created : Nat} {rid replicaId : ReplicaId} {entries : List LogEntry}
    {opened : WAL}
    (h : WAL.openExisting replicaId (some (logBytes created rid entries)) = .ok opened) :
    ∀ entry ∈ entries, ShortPayload entry := by
  by_contra hlong
  push Not at hlong
  obtain ⟨entry, hentry, hlong⟩ := hlong
  have hlong' : ∃ e ∈ entries, 2 ^ 32 ≤ (Bincode.serialize e).length :=
    ⟨entry, hentry, not_lt.mp hlong⟩
  obtain ⟨err, herr⟩ := readFrames_of_oversize Crc32.hash Bincode.serialize Bincode.deserialize
    (fun e _ => LawfulBincode.deserialize_serialize e)
    (fun e _ => StrictBincode.deserialize_take e) hlong' (Nat.lt_succ_self _) headerSize
  rw [← readAllFrames] at herr
  have hopen := WAL.openExisting_header (logFile_header created rid)
    (frames Crc32.hash Bincode.serialize entries) replicaId
  have hdrop : (logBytes created rid entries).drop headerSize =
      frames Crc32.hash Bincode.serialize entries :=
    (walHeader_take created rid _).2.2
  rw [← logBytes, h] at hopen
  cases hread : readEntriesFromFile headerSize (logBytes created rid entries) with
  | error e =>
    rw [hread] at hopen
    cases hopen
  | ok read =>
    rw [readEntriesFromFile_ok_iff, hdrop, herr] at hread
    cases hread

/-- An operation that leaves the replica running. -/
def NodeOp.uninterrupted : NodeOp → Bool
  | .restart _ _ => false
  | _ => true

namespace Node

section

variable {σ : Type} [Bincode LogEntry] [Bincode Snapshot] [Crc32] [Sha256]

/-- A node whose log carries the records since the snapshot. -/
structure Carrying (node : Node σ) (snap : Option Snapshot) (entries : List LogEntry) : Prop where
  keyed : TreeKeyed node.replica.blockTree
  log : ∃ wal, node.replica.wal = some wal ∧ wal.Carries entries
  store : StoreHolds node.dir snap
  noTmp : node.dir.walTmp = none
  below : ∀ seq, node.dir.bins.contains seq = true → seq < node.replica.snapshotCounter
  paired : ∀ seq, node.dir.shas.contains seq = true → node.dir.bins.contains seq = true

theorem Durable.carrying {node : Node σ} {snap : Option Snapshot} {entries : List LogEntry}
    (h : Durable node snap entries) : Carrying node snap entries := by
  obtain ⟨wal, hwal, hholds⟩ := h.log
  exact ⟨h.keyed, ⟨wal, hwal, hholds.carries⟩, h.store, h.noTmp, h.below, h.paired⟩

/-- With short records a carrying node is durable. -/
theorem Carrying.durable {node : Node σ} {snap : Option Snapshot} {entries : List LogEntry}
    (h : Carrying node snap entries) (hshort : ∀ entry ∈ entries, ShortPayload entry) :
    Durable node snap entries := by
  obtain ⟨wal, hwal, hcarries⟩ := h.log
  have hholds : wal.Holds entries := ⟨⟨hcarries.bytes, hshort⟩, hcarries.atEnd, hcarries.willing⟩
  exact ⟨h.keyed, ⟨wal, hwal, hholds⟩, h.store, h.noTmp, h.below, h.paired⟩

theorem Carrying.writable {node : Node σ} {snap : Option Snapshot} {entries : List LogEntry}
    (h : Carrying node snap entries) : Writable node := by
  obtain ⟨wal, hwal, hcarries⟩ := h.log
  exact ⟨h.keyed, ⟨wal, hwal, hcarries.willing⟩, h.noTmp, h.below, h.paired⟩

/-- Recovery needs a log that can be opened. -/
theorem openExisting_of_recover {now : Nat} {config : Config} {keystore : KeyStore} {dir : DataDir}
    {bytes : Bytes} (hwal : dir.wal = some bytes) {r : Replica σ} {wal : WAL}
    (h : recover now config keystore dir = .ok (r, wal)) :
    ∃ opened, WAL.openExisting config.id (some bytes) = .ok opened := by
  obtain ⟨base, st, -, hlog, -⟩ := recover_ok_iff.mp h
  simp only [replayLog, hwal, Option.isSome_some, if_true] at hlog
  cases hopen : WAL.openExisting config.id (some bytes) with
  | error e =>
    rw [hopen] at hlog
    cases hlog
  | ok opened => exact ⟨opened, rfl⟩

/-- A carrying node whose log can be opened is durable. -/
theorem Carrying.durable_of_openExisting [LawfulBincode LogEntry] [StrictBincode LogEntry]
    {node : Node σ} {snap : Option Snapshot} {entries : List LogEntry}
    (h : Carrying node snap entries) {replicaId : ReplicaId} {opened : WAL}
    (hopen : WAL.openExisting replicaId (node.replica.onDisk node.dir).wal = .ok opened) :
    Durable node snap entries := by
  obtain ⟨wal, hwal, hcarries⟩ := h.log
  obtain ⟨created, rid, hbytes⟩ := hcarries.bytes
  have hdisk : (node.replica.onDisk node.dir).wal = some (logBytes created rid entries) := by
    rw [Replica.onDisk, hwal, ← hbytes]
  rw [hdisk] at hopen
  exact h.durable (short_of_openExisting hopen)

/-- A carrying node that can be restarted is durable. -/
theorem Carrying.durable_of_restart [LawfulBincode LogEntry] [StrictBincode LogEntry]
    {node recovered : Node σ} {snap : Option Snapshot} {entries : List LogEntry}
    (h : Carrying node snap entries) {config : Config} {keystore : KeyStore} {now : Nat}
    (hrestart : node.restart config keystore now = .ok recovered) : Durable node snap entries := by
  obtain ⟨wal, hwal, -⟩ := h.log
  have hdisk : (node.replica.onDisk node.dir).wal = some wal.file.bytes := by
    rw [Replica.onDisk, hwal]
  obtain ⟨r, wal', hrec, -⟩ := restart_ok_iff.mp hrestart
  obtain ⟨opened, hopened⟩ := openExisting_of_recover hdisk hrec
  rw [← hdisk] at hopened
  exact h.durable_of_openExisting hopened

variable [Ed25519] [App σ]

/-- Calls extend what the log carries by their records. -/
theorem Carrying.call {node : Node σ} {snap : Option Snapshot} {entries : List LogEntry}
    (h : Carrying node snap entries) (c : Nat × Call) :
    Carrying { node with replica := node.replica.step c } snap
      (entries ++ node.replica.records c) := by
  obtain ⟨wal, hwal, hcarries⟩ := h.log
  refine ⟨Replica.treeKeyed_step h.keyed c, ⟨wal.appendAll (node.replica.records c), ?_,
    hcarries.appendAll _⟩, h.store, h.noTmp, fun seq hseq => ?_, fun seq hseq => h.paired seq hseq⟩
  · rw [Replica.step_wal _ h.keyed, hwal]
    rfl
  · rw [Replica.step_snapshotCounter]
    exact h.below seq hseq

end

end Node

end PersistHotStuff
