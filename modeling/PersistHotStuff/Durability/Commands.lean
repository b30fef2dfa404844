import PersistHotStuff.Durability.Pointers

/-!
# Recovery of committed commands

A snapshot keeps the command of a committed block, a commit record of the log
keeps it too, but replay rebuilds every block with a no-op. The recovered log is
the one before the crash exactly when nothing else was committed since the
latest snapshot.
-/

namespace PersistHotStuff

open Basis

/-- A block without its certificate: hash, parent, view, epoch, proposer and command. -/
def Block.withoutQc (block : Block) : Block := { block with qc := none }

/-- Replay keeps everything but the certificate exactly of blocks with a no-op. -/
theorem replayedCommit_eq_withoutQc {block : Block} :
    replayedCommit block = block.withoutQc ↔ block.command = .noOp := by
  constructor
  · intro h
    exact (congrArg Block.command h).symm
  · intro h
    rw [replayedCommit, Block.withoutQc, ← h]

/-- The committed blocks a snapshot covers. -/
def snapshotLength : Option Snapshot → Nat
  | none => 0
  | some snap => snap.committedLog.length

/-- Replay starts from the blocks the snapshot covers. -/
theorem baseState_length (snap : Option Snapshot) :
    (baseState snap).committedLog.length = snapshotLength snap := by
  cases snap with
  | none => rfl
  | some snap => exact List.length_map ..

/-- The snapshot a recovery would load. -/
def latestSnapshot [Bincode Snapshot] [Sha256] (dir : DataDir) : Option Snapshot :=
  (Snapshot.loadLatest dir).toOption

theorem StoreHolds.latestSnapshot [Bincode Snapshot] [Sha256] [LawfulBincode Snapshot]
    {dir : DataDir} {snap : Option Snapshot} (h : StoreHolds dir snap) :
    latestSnapshot dir = snap := by
  rw [PersistHotStuff.latestSnapshot, h.loadLatest]
  cases snap <;> rfl

/-- The recovered log is the live one up to the snapshot, and what replay makes of it from there
on. -/
structure TracksCommands {σ : Type} (snap : Option Snapshot) (st : Recovered) (r : Replica σ) :
    Prop where
  covered : snapshotLength snap ≤ r.committedLog.length
  log : st.committedLog.map Block.withoutQc =
    (r.committedLog.take (snapshotLength snap)).map Block.withoutQc ++
      (r.committedLog.drop (snapshotLength snap)).map replayedCommit

theorem TracksCommands.length {σ : Type} {snap : Option Snapshot} {st : Recovered} {r : Replica σ}
    (h : TracksCommands snap st r) : st.committedLog.length = r.committedLog.length := by
  have := congrArg List.length h.log
  simpa [List.length_append, h.covered] using this

namespace Replica

variable {σ : Type} [Ed25519] [Sha256] [Bincode LogEntry] [Crc32]

/-- Only the records of a commit change the recovered log. -/
theorem replay_records_log {r : Replica σ} {st : Recovered}
    (hlen : st.committedLog.length = r.committedLog.length) (c : Nat × Call) :
    ∃ st', replayEntries (r.records c) st = .ok st' ∧
      st'.committedLog =
        match c.2 with
        | .commitAll => st.committedLog ++ r.ready.map replayedCommit
        | _ => st.committedLog := by
  obtain ⟨now, call⟩ := c
  cases call with
  | validateAndInsertProposal block =>
    simp only [records]
    split
    · exact ⟨_, rfl, rfl⟩
    · exact ⟨st, rfl, rfl⟩
  | handleVote vote =>
    simp only [records]
    cases (r.handleVote now vote).2 with
    | none => exact ⟨st, rfl, rfl⟩
    | some qc => exact ⟨_, rfl, rfl⟩
  | applyHighQcFromNetwork qc =>
    simp only [records]
    split
    · exact ⟨_, rfl, rfl⟩
    · exact ⟨st, rfl, rfl⟩
  | advanceViewWithReason reason => exact ⟨_, rfl, rfl⟩
  | commitAll =>
    simp only [records, ← hlen]
    rw [replayEntries_commitRecords]
    refine ⟨_, rfl, ?_⟩
    generalize r.ready = blocks
    clear hlen
    induction blocks generalizing st with
    | nil => simp
    | cons block blocks ih =>
      rw [List.foldl_cons, ih, List.map_cons]
      simp only [replayCommit, List.append_assoc, List.singleton_append]
  | _ => exact ⟨st, rfl, rfl⟩

/-- The records of a call replay to a log as long as the one the call leaves. -/
theorem replay_records_length [App σ] {r : Replica σ} (hkeyed : TreeKeyed r.blockTree)
    {st : Recovered} (hlen : st.committedLog.length = r.committedLog.length) (c : Nat × Call) :
    ∃ st', replayEntries (r.records c) st = .ok st' ∧
      st'.committedLog.length = (r.step c).committedLog.length := by
  obtain ⟨st', hreplay, hlog⟩ := replay_records_log hlen c
  refine ⟨st', hreplay, ?_⟩
  rw [hlog, step_committedLog r hkeyed]
  obtain ⟨now, call⟩ := c
  cases call with
  | commitAll => simp only [List.length_append, List.length_map, hlen]
  | _ => exact hlen

end Replica

namespace Node

section Restart

variable {σ : Type} [Ed25519] [Sha256] [Bincode LogEntry] [Crc32] [App σ]

/-- Commands are tracked by calls, snapshots and restarts. -/
theorem tracking_commands : Tracking (σ := σ) TracksCommands where
  call snap st r c hkeyed h := by
    obtain ⟨st', hreplay, hlog⟩ := Replica.replay_records_log h.length c
    refine ⟨st', hreplay, ?_⟩
    have hstep := Replica.step_committedLog r hkeyed c
    obtain ⟨now, call⟩ := c
    cases call with
    | commitAll =>
      have hcopy : ∀ b : Block, (replayedCommit b).withoutQc = replayedCommit b := fun _ => rfl
      refine ⟨?_, ?_⟩
      · rw [hstep, List.length_append]
        exact Nat.le_add_right_of_le h.covered
      · rw [hlog, hstep, List.take_append_of_le_length h.covered,
          List.drop_append_of_le_length h.covered, List.map_append, h.log, List.map_append,
          List.map_map, List.append_assoc]
        rfl
    | _ => exact ⟨hstep ▸ h.covered, by rw [hlog, hstep]; exact h.log⟩
  snapshot snap st r now wal counter _ := by
    have hlen : snapshotLength (some (r.captureSnapshot now)) = r.committedLog.length := by
      simp [snapshotLength, Replica.captureSnapshot, Snapshot.capture]
    refine ⟨hlen.le, ?_⟩
    rw [hlen, List.take_length, List.drop_length, List.map_nil, List.append_nil]
    simp only [baseState, RecoveredBase.ofSnapshot, Replica.captureSnapshot, Snapshot.capture,
      List.map_map]
    rfl
  restart snap st r config keystore now wal h := by
    have hlen := h.length
    refine ⟨hlen ▸ h.covered, ?_⟩
    show st.committedLog.map Block.withoutQc = _ ++ (st.committedLog.drop _).map replayedCommit
    have htail : (st.committedLog.drop (snapshotLength snap)).map Block.withoutQc =
        (r.committedLog.drop (snapshotLength snap)).map replayedCommit := by
      rw [List.map_drop, h.log, List.drop_left' (by simp [h.covered])]
    have hagain : (st.committedLog.drop (snapshotLength snap)).map replayedCommit =
        (st.committedLog.drop (snapshotLength snap)).map Block.withoutQc := by
      have := congrArg (List.map replayedCommit) htail
      rw [List.map_map, List.map_map] at this
      rw [htail]
      exact this
    rw [hagain, ← List.map_append]
    exact congrArg _ (List.take_append_drop _ _).symm

variable [Bincode Snapshot] [LawfulBincode LogEntry] [LawfulBincode Snapshot]

/-- After any history from the first start, the recovered log is the live one, commands included,
exactly when every block committed since the latest snapshot carries a no-op. -/
theorem restart_commands_iff {config : Config} {keystore : KeyStore} {now : Nat} {node : Node σ}
    (hboot : boot config keystore now = .ok node) {ops : List (Nat × NodeOp)}
    (hshort : Along step ShortRecords node ops) (config' : Config) (keystore' : KeyStore)
    (now' : Nat) :
    ∃ recovered, (run step node ops).restart config' keystore' now' = .ok recovered ∧
      (recovered.replica.committedLog.map Block.withoutQc =
          (run step node ops).replica.committedLog.map Block.withoutQc ↔
        ∀ b ∈ (run step node ops).replica.committedLog.drop
          (snapshotLength (latestSnapshot (run step node ops).dir)), b.command = .noOp) := by
  obtain ⟨snap, entries, st, hdur, hreplay, htrack⟩ :=
    recoverable_run tracking_commands (fun _ _ _ _ => ⟨le_rfl, rfl⟩) hboot hshort
  obtain ⟨wal, heq, -⟩ := hdur.restart hreplay config' keystore' now'
  refine ⟨_, heq, ?_⟩
  rw [hdur.store.latestSnapshot]
  have hsplit : (run step node ops).replica.committedLog.map Block.withoutQc =
      ((run step node ops).replica.committedLog.take (snapshotLength snap)).map Block.withoutQc ++
        ((run step node ops).replica.committedLog.drop (snapshotLength snap)).map
          Block.withoutQc := by
    rw [← List.map_append, List.take_append_drop]
  show st.committedLog.map Block.withoutQc = _ ↔ _
  rw [htrack.log, hsplit, List.append_cancel_left_eq, List.map_inj_left]
  exact forall₂_congr fun b _ => replayedCommit_eq_withoutQc

end Restart

section Samples

open Sample

theorem restart_commands_sample :
    ∃ recovered,
      (run step firstNode snapshotOps).restart (party 4 3).config (keyStore 4 3) 9 =
        .ok recovered ∧
      recovered.replica.committedLog.map Block.withoutQc = [block 1 0 0 0 none] := by
  have hboot : boot (party 4 3).config (keyStore 4 3) 0 = .ok firstNode := by decide +kernel
  have hshort : Along step ShortRecords firstNode snapshotOps := by decide +kernel
  obtain ⟨recovered, heq, hiff⟩ :=
    restart_commands_iff hboot hshort (party 4 3).config (keyStore 4 3) 9
  refine ⟨recovered, heq, (hiff.mpr ?_).trans ?_⟩
  · decide +kernel
  · decide +kernel

/-- A block with a payload commits and the replica restarts without a snapshot. -/
def payloadOps : List (Nat × NodeOp) :=
  [(1, .call (.validateAndInsertProposal
      { block 1 0 0 0 none with command := .clientTx "transfer" })),
    (2, .call (.validateAndInsertProposal (block 2 1 1 1 (some (qc [0, 1, 2] 1 0 0))))),
    (3, .call (.validateAndInsertProposal (block 3 2 2 2 (some (qc [0, 1, 2] 2 1 0))))),
    (4, .call .commitAll)]

/-- The payload is gone after the restart. -/
theorem restart_forgets_payload :
    boot (party 4 3).config (keyStore 4 3) 0 = .ok firstNode ∧
      Along step ShortRecords firstNode payloadOps ∧
      ∃ recovered, (run step firstNode payloadOps).restart (party 4 3).config (keyStore 4 3) 9 =
          .ok recovered ∧
        (run step firstNode payloadOps).replica.committedLog.map Block.command =
          [.clientTx "transfer"] ∧
        recovered.replica.committedLog.map Block.command = [.noOp] := by
  refine ⟨by decide +kernel, by decide +kernel, ?_⟩
  have hcut : ((run step firstNode payloadOps).restart (party 4 3).config (keyStore 4 3) 9).map
      (fun node => node.replica.committedLog.map Block.command) = .ok [.noOp] := by decide +kernel
  cases heq : (run step firstNode payloadOps).restart (party 4 3).config (keyStore 4 3) 9 with
  | error e =>
    rw [heq] at hcut
    cases hcut
  | ok recovered =>
    rw [heq] at hcut
    exact ⟨recovered, rfl, by decide +kernel, Except.ok.inj hcut⟩

end Samples

end Node

end PersistHotStuff
