import PersistHotStuff.Durability.Node

/-!
# Recovery of the consensus pointers

The committed hashes, the high certificate and the view are a function of the
records, and every call writes exactly the records that move them. So a
recovered replica stands where the dropped one stood, wherever the snapshots
were taken.
-/

namespace PersistHotStuff

open Basis

/-- Where a replica stands in the protocol. -/
structure Pointers where
  committed : List Hash
  committedUpTo : Option Hash
  highQc : Option (Hash × Nat × Nat)
  currentView : Nat
  deriving DecidableEq

/-- The pointers of a replica. -/
def Replica.pointers {σ : Type} (r : Replica σ) : Pointers where
  committed := r.committedLog.map Block.hash
  committedUpTo := r.committedUpTo
  highQc := r.highQc.map QuorumCert.pointer
  currentView := r.currentView

/-- The pointers of a recovered state. -/
def Recovered.pointers (st : Recovered) : Pointers where
  committed := st.committedLog.map Block.hash
  committedUpTo := st.committedUpTo
  highQc := st.highQc.map QuorumCert.pointer
  currentView := st.currentView

/-- The recovered pointers are those of the replica. -/
def TracksPointers {σ : Type} (_ : Option Snapshot) (st : Recovered) (r : Replica σ) : Prop :=
  st.pointers = r.pointers

/-- A snapshot keeps the pointers. -/
theorem pointers_captureSnapshot {σ : Type} [App σ] (now : Nat) (r : Replica σ) :
    (baseState (some (r.captureSnapshot now))).pointers = r.pointers := by
  have hlog : ((r.committedLog.map SerializableBlock.fromBlock).map
      SerializableBlock.toBlock).map Block.hash = r.committedLog.map Block.hash := by
    rw [List.map_map, List.map_map]
    rfl
  have hqc : ((r.highQc.map SerializableQC.fromQc).map SerializableQC.toQc).map
      QuorumCert.pointer = r.highQc.map QuorumCert.pointer := by
    rw [Option.map_map, Option.map_map]
    rfl
  simp only [baseState, RecoveredBase.ofSnapshot, Replica.captureSnapshot, Snapshot.capture,
    Recovered.pointers, hlog, hqc]
  rfl

namespace Replica

variable {σ : Type} [Ed25519] [Sha256] [Bincode LogEntry] [Crc32] [App σ]

/-- Replaying the records of a call moves the recovered pointers as the call moves the live
ones. -/
theorem replay_records_pointers {st : Recovered} {r : Replica σ} (hkeyed : TreeKeyed r.blockTree)
    (h : st.pointers = r.pointers) (c : Nat × Call) :
    ∃ st', replayEntries (r.records c) st = .ok st' ∧ st'.pointers = (r.step c).pointers := by
  obtain ⟨now, call⟩ := c
  cases call with
  | propose how view =>
    refine ⟨st, rfl, h.trans ?_⟩
    simp only [step]
    rcases r.proposeBy_cases now view how with hp | ⟨-, hash, command, nextHash, queue, hp⟩
    · rw [hp]
    · rw [hp]; rfl
  | validateAndInsertProposal block =>
    simp only [step, records]
    rcases r.validateAndInsertProposal_cases now block with ⟨ha, hv⟩ | ⟨ha, hv⟩
    · rw [hv, ha]
      exact ⟨st, rfl, h⟩
    · rw [hv, ha]
      exact ⟨_, rfl, h⟩
  | handleVote vote =>
    simp only [step, records]
    rcases r.handleVote_cases now vote with hv | ⟨-, ⟨-, hv⟩ | ⟨-, hv⟩⟩
    · rw [hv]
      exact ⟨st, rfl, h⟩
    · rw [hv]
      exact ⟨st, rfl, h⟩
    · rw [hv]
      -- the first record may be dominated, the second always sets the pointer
      exact ⟨_, rfl, congrArg (fun p => { p with highQc := some (r.votedQc vote).pointer }) h⟩
  | applyHighQcFromNetwork qc =>
    simp only [step, records]
    rcases r.applyHighQcFromNetwork_cases now qc with hq | ⟨-, hq⟩
    · rw [hq]
      exact ⟨st, rfl, h⟩
    · rw [hq]
      exact ⟨_, rfl, congrArg (fun p => { p with highQc := some qc.pointer }) h⟩
  | advanceViewWithReason reason =>
    exact ⟨_, rfl,
      congrArg (fun p => { p with currentView := saturatingAdd r.currentView 1 }) h⟩
  | commitAll =>
    have hlen : r.committedLog.length = st.committedLog.length := by
      have := congrArg (fun p => p.committed.length) h
      simpa [Recovered.pointers, pointers] using this.symm
    simp only [step, records, hlen]
    rw [replayEntries_commitRecords, commitAll_eq_foldl now r hkeyed]
    refine ⟨_, rfl, ?_⟩
    clear hlen hkeyed
    generalize r.ready = blocks
    induction blocks generalizing st r with
    | nil => exact h
    | cons block blocks ih =>
      refine ih ?_
      simp only [Recovered.pointers, replayCommit, pointers, executeAndCommit_committedLog,
        executeAndCommit_committedUpTo, executeAndCommit_highQc, executeAndCommit_currentView,
        List.map_append]
      simp only [Recovered.pointers, pointers, Pointers.mk.injEq] at h
      obtain ⟨h1, -, h3, h4⟩ := h
      rw [h1, h3, h4]
      rfl
  | enqueueCommand cmd => exact ⟨st, rfl, h⟩
  | enableDummyProposals timeoutMs => exact ⟨st, rfl, h⟩
  | disableDummyProposals => exact ⟨st, rfl, h⟩

end Replica

namespace Node

section Restart

variable {σ : Type} [Ed25519] [Sha256] [Bincode LogEntry] [Crc32] [App σ]

/-- Pointers are tracked by calls, snapshots and restarts. -/
theorem tracking_pointers : Tracking (σ := σ) TracksPointers where
  call _ _ _ c hkeyed h := Replica.replay_records_pointers hkeyed h c
  snapshot _ _ r now _ _ _ := pointers_captureSnapshot now r
  restart _ _ _ _ _ _ _ _ := rfl

variable [Bincode Snapshot] [LawfulBincode LogEntry] [LawfulBincode Snapshot]

/-- After any history from the first start, recovery succeeds and yields the committed hashes,
the high certificate and the view the replica had. -/
theorem restart_pointers {config : Config} {keystore : KeyStore} {now : Nat} {node : Node σ}
    (hboot : boot config keystore now = .ok node) {ops : List (Nat × NodeOp)}
    (hshort : Along step ShortRecords node ops) (config' : Config) (keystore' : KeyStore)
    (now' : Nat) :
    ∃ recovered, (run step node ops).restart config' keystore' now' = .ok recovered ∧
      recovered.replica.pointers = (run step node ops).replica.pointers := by
  obtain ⟨snap, entries, st, hdur, hreplay, htrack⟩ :=
    recoverable_run tracking_pointers (fun _ _ _ _ => rfl) hboot hshort
  obtain ⟨wal, heq, -⟩ := hdur.restart hreplay config' keystore' now'
  exact ⟨_, heq, htrack⟩

end Restart

section Samples

open Sample

/-- Replica 3 of four after its first start. -/
def firstNode : Node NoOpApp :=
  ⟨(party 4 3).attachWal ⟨⟨walHeader 0 3, headerSize⟩, 3, 0, []⟩, DataDir.empty⟩

/-- Proposals, a commit and a view change around a snapshot and a restart. -/
def snapshotOps : List (Nat × NodeOp) :=
  [(1, .call (.validateAndInsertProposal (block 1 0 0 0 none))),
    (2, .call (.applyHighQcFromNetwork (qc [0, 1, 2] 1 0 0))),
    (3, .call (.validateAndInsertProposal (block 2 1 1 1 (some (qc [0, 1, 2] 1 0 0))))),
    (4, .takeSnapshot),
    (5, .call (.advanceViewWithReason .commit)),
    (6, .call (.validateAndInsertProposal (block 3 2 2 2 (some (qc [0, 1, 2] 2 1 0))))),
    (7, .restart (party 4 3).config (keyStore 4 3)),
    (8, .call .commitAll)]

theorem restart_pointers_sample :
    ∃ recovered,
      (run step firstNode snapshotOps).restart (party 4 3).config (keyStore 4 3) 9 =
        .ok recovered ∧
      recovered.replica.pointers = ⟨[1], some 1, some (1, 0, 0), 1⟩ := by
  have hboot : boot (party 4 3).config (keyStore 4 3) 0 = .ok firstNode := by decide +kernel
  have hshort : Along step ShortRecords firstNode snapshotOps := by decide +kernel
  obtain ⟨recovered, heq, hp⟩ :=
    restart_pointers hboot hshort (party 4 3).config (keyStore 4 3) 9
  refine ⟨recovered, heq, hp.trans ?_⟩
  decide +kernel

end Samples

end Node

end PersistHotStuff
