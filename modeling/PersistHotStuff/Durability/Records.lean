import PersistHotStuff.Durability.Log
import PersistHotStuff.Handlers.Call

/-!
# Records of a call

What each call writes to the log. The log of a replica changes by these records
and nothing else.
-/

namespace PersistHotStuff

open Basis

namespace Replica

variable {σ : Type}

/-- The commit records of a list of blocks, from a commit index on. -/
def commitRecords (now : Nat) : Nat → List Block → List LogEntry
  | _, [] => []
  | index, block :: blocks =>
      LogEntry.fromCommittedBlock now block index :: commitRecords now (index + 1) blocks

/-- The commit records of a list of blocks are records of its blocks. -/
theorem mem_commitRecords {now index : Nat} {blocks : List Block} {entry : LogEntry}
    (h : entry ∈ commitRecords now index blocks) :
    ∃ block ∈ blocks, ∃ i, entry = LogEntry.fromCommittedBlock now block i := by
  induction blocks generalizing index with
  | nil => cases h
  | cons block blocks ih =>
    rcases List.mem_cons.mp h with rfl | h
    · exact ⟨block, List.mem_cons_self .., index, rfl⟩
    · obtain ⟨block', hblock, i, rfl⟩ := ih h
      exact ⟨block', List.mem_cons_of_mem _ hblock, i, rfl⟩

section Records

variable [Ed25519] [Sha256] [Bincode LogEntry] [Crc32]

/-- The records a call writes. -/
def records (r : Replica σ) (c : Nat × Call) : List LogEntry :=
  match c.2 with
  | .validateAndInsertProposal block =>
      if r.acceptsProposal block then [LogEntry.fromBlock c.1 block] else []
  | .handleVote vote =>
      match (r.handleVote c.1 vote).2 with
      | some qc =>
          [.qcFormed qc.blockHash qc.view qc.epoch qc.signatures.length c.1,
            .highQcUpdated qc.blockHash qc.view qc.epoch c.1]
      | none => []
  | .applyHighQcFromNetwork qc =>
      if (r.applyHighQcFromNetwork c.1 qc).2 then
        [.highQcUpdated qc.blockHash qc.view qc.epoch c.1]
      else []
  | .advanceViewWithReason reason =>
      [.viewChanged r.currentView (saturatingAdd r.currentView 1) reason c.1]
  | .commitAll => commitRecords c.1 r.committedLog.length r.ready
  | _ => []

/-- Which call writes which record. -/
theorem mem_records {r : Replica σ} {c : Nat × Call} {entry : LogEntry} (h : entry ∈ r.records c) :
    (∃ block, c.2 = .validateAndInsertProposal block ∧ r.acceptsProposal block = true ∧
      entry = LogEntry.fromBlock c.1 block) ∨
    (∃ vote qc, c.2 = .handleVote vote ∧ (r.handleVote c.1 vote).2 = some qc ∧
      (entry = .qcFormed qc.blockHash qc.view qc.epoch qc.signatures.length c.1 ∨
        entry = .highQcUpdated qc.blockHash qc.view qc.epoch c.1)) ∨
    (∃ qc, c.2 = .applyHighQcFromNetwork qc ∧
      entry = .highQcUpdated qc.blockHash qc.view qc.epoch c.1) ∨
    (∃ reason, c.2 = .advanceViewWithReason reason ∧
      entry = .viewChanged r.currentView (saturatingAdd r.currentView 1) reason c.1) ∨
    (c.2 = .commitAll ∧ ∃ block ∈ r.ready, ∃ i,
      entry = LogEntry.fromCommittedBlock c.1 block i) := by
  obtain ⟨now, call⟩ := c
  cases call with
  | validateAndInsertProposal block =>
    simp only [records] at h
    split at h
    · rename_i ha
      exact .inl ⟨block, rfl, ha, List.mem_singleton.mp h⟩
    · cases h
  | handleVote vote =>
    simp only [records] at h
    split at h
    · rename_i qc hqc
      simp only [List.mem_cons, List.not_mem_nil, or_false] at h
      exact .inr (.inl ⟨vote, qc, rfl, hqc, h⟩)
    · cases h
  | applyHighQcFromNetwork qc =>
    simp only [records] at h
    split at h
    · exact .inr (.inr (.inl ⟨qc, rfl, List.mem_singleton.mp h⟩))
    · cases h
  | advanceViewWithReason reason =>
    exact .inr (.inr (.inr (.inl ⟨reason, rfl, List.mem_singleton.mp h⟩)))
  | commitAll => exact .inr (.inr (.inr (.inr ⟨rfl, mem_commitRecords h⟩)))
  | _ => cases h

end Records

section Wal

variable [Ed25519] [Bincode LogEntry] [Crc32] [App σ]

/-- Committing blocks one after the other writes their commit records. -/
theorem foldl_executeAndCommit_wal (now : Nat) (r : Replica σ) (blocks : List Block) :
    (blocks.foldl (executeAndCommit now) r).wal =
      r.wal.map (·.appendAll (commitRecords now r.committedLog.length blocks)) := by
  induction blocks generalizing r with
  | nil => exact (WAL.map_appendAll_nil r.wal).symm
  | cons block blocks ih =>
    rw [List.foldl_cons, ih, executeAndCommit_wal, executeAndCommit_committedLog,
      List.length_append, Option.map_map]
    rfl

variable [Sha256]

/-- A call changes the log by appending its records. -/
theorem step_wal (r : Replica σ) (h : TreeKeyed r.blockTree) (c : Nat × Call) :
    (r.step c).wal = r.wal.map (·.appendAll (r.records c)) := by
  obtain ⟨now, call⟩ := c
  cases call with
  | propose how view =>
    simp only [step, records, WAL.map_appendAll_nil]
    rcases r.proposeBy_cases now view how with h | ⟨-, hash, command, nextHash, queue, h⟩
    · rw [h]
    · rw [h]; rfl
  | validateAndInsertProposal block =>
    simp only [step, records]
    rcases r.validateAndInsertProposal_cases now block with ⟨ha, h⟩ | ⟨ha, h⟩
    · rw [h, ha]
      exact (WAL.map_appendAll_nil r.wal).symm
    · rw [h, ha]; rfl
  | handleVote vote =>
    simp only [step, records]
    rcases r.handleVote_cases now vote with h | ⟨-, ⟨-, h⟩ | ⟨-, h⟩⟩
    · rw [h]
      exact (WAL.map_appendAll_nil r.wal).symm
    · rw [h]
      exact (WAL.map_appendAll_nil r.wal).symm
    · rw [h]
      simp only [adoptFormedQc, record, poolVote, Option.map_map]
      rfl
  | applyHighQcFromNetwork qc =>
    simp only [step, records]
    rcases r.applyHighQcFromNetwork_cases now qc with h | ⟨-, h⟩
    · rw [h]
      exact (WAL.map_appendAll_nil r.wal).symm
    · rw [h]; rfl
  | advanceViewWithReason reason => rfl
  | commitAll =>
    simp only [step, records]
    rw [commitAll_eq_foldl now r h, foldl_executeAndCommit_wal]
  | enqueueCommand cmd => exact (WAL.map_appendAll_nil r.wal).symm
  | enableDummyProposals timeoutMs => exact (WAL.map_appendAll_nil r.wal).symm
  | disableDummyProposals => exact (WAL.map_appendAll_nil r.wal).symm

end Wal

end Replica

/-- What replay makes of a committed block: its certificate and its command are not rebuilt. -/
def replayedCommit (block : Block) : Block := { block with qc := none, command := .noOp }

/-- Replay of one commit record at its index. -/
def replayCommit (st : Recovered) (block : Block) : Recovered :=
  { st with
    committedLog := st.committedLog ++ [replayedCommit block]
    committedUpTo := some block.hash
    configEpoch := max st.configEpoch block.epoch }

/-- Commit records that start at the length of the log replay block by block. -/
theorem replayEntries_commitRecords (now : Nat) (blocks : List Block) (st : Recovered) :
    replayEntries (Replica.commitRecords now st.committedLog.length blocks) st =
      .ok (blocks.foldl replayCommit st) := by
  induction blocks generalizing st with
  | nil => rfl
  | cons block blocks ih =>
    have hlen : (replayCommit st block).committedLog.length = st.committedLog.length + 1 := by
      rw [replayCommit, List.length_append, List.length_singleton]
    have hone : replayEntry (LogEntry.fromCommittedBlock now block st.committedLog.length) st =
        .ok (replayCommit st block) := by
      simp only [LogEntry.fromCommittedBlock, replayEntry, ne_eq, not_true_eq_false, if_false]
      rfl
    rw [Replica.commitRecords, replayEntries, hone, List.foldl_cons, ← ih, hlen]

end PersistHotStuff
