import PersistHotStuff.Durability.CatchUpRun
import PersistHotStuff.Handlers.HighQc

/-!
# Importing a peer's state

A snapshot replaces what a replica has, commit records are appended without a
look at their index, and certificates and views are set to what comes last. So
an import may repeat commits and move a replica backwards.
-/

namespace PersistHotStuff

open Basis

namespace LogEntry

/-- The block an import inserts for a record, in the epoch of the importing replica. -/
def importedBlock (epoch : Nat) : LogEntry → Option Block
  | blockInserted hash parent view _ proposer qcBlockHash qcView _ _ => some
      { hash := hash
        parent := parent
        view := view
        epoch := epoch
        proposer := proposer
        qc := stubQc qcBlockHash qcView epoch
        command := .noOp }
  | _ => none

/-- The block an import appends to the committed log for a record. -/
def importedCommit (epoch : Nat) : LogEntry → Option Block
  | blockCommitted hash parent view _ proposer _ _ _ => some
      { hash := hash
        parent := parent
        view := view
        epoch := epoch
        proposer := proposer
        qc := none
        command := .noOp }
  | _ => none

/-- The hash of a commit record. -/
def committedHash : LogEntry → Option Hash
  | blockCommitted hash _ _ _ _ _ _ _ => some hash
  | _ => none

/-- The certificate an import adopts from a record. -/
def adoptedQc (epoch : Nat) : LogEntry → Option QuorumCert
  | highQcUpdated blockHash view _ _ => some { blockHash, view, epoch, signatures := [] }
  | _ => none

/-- The view a record enters. -/
def enteredView : LogEntry → Option Nat
  | viewChanged _ newView _ _ => some newView
  | _ => none

/-- What an import appends for the commit records has their hashes. -/
theorem map_hash_importedCommit (epoch : Nat) (entries : List LogEntry) :
    (entries.filterMap (importedCommit epoch)).map Block.hash =
      entries.filterMap committedHash := by
  rw [List.map_filterMap]
  refine congrArg (List.filterMap · entries) (funext fun entry => ?_)
  cases entry <;> rfl

end LogEntry

/-- One list of hashes continues the other. -/
def PrefixCompatible (a b : List Hash) : Prop := a <+: b ∨ b <+: a

instance (a b : List Hash) : Decidable (PrefixCompatible a b) :=
  inferInstanceAs (Decidable (a <+: b ∨ b <+: a))

namespace Replica

section Fields

variable {σ : Type}

/-- What one record of an import changes. -/
theorem importEntry_eq (r : Replica σ) (entry : LogEntry) :
    r.importEntry entry =
      { r with
        blockTree := (entry.importedBlock r.configEpoch).toList.foldl
          (fun tree block => tree.insert block.hash block) r.blockTree
        committedLog := r.committedLog ++ (entry.importedCommit r.configEpoch).toList
        committedUpTo := entry.committedHash.or r.committedUpTo
        highQc := (entry.adoptedQc r.configEpoch).or r.highQc
        currentView := entry.enteredView.getD r.currentView } := by
  cases entry
  case blockCommitted => rfl
  all_goals
    simp only [importEntry, LogEntry.importedBlock, LogEntry.importedCommit,
      LogEntry.committedHash, LogEntry.adoptedQc, LogEntry.enteredView, Option.toList_none,
      Option.toList_some, List.append_nil, List.foldl_nil, List.foldl_cons, Option.none_or,
      Option.some_or, Option.getD_none, Option.getD_some]

/-- What the records of an import change: blocks and commits are added one after the other, for the
pointers the last record counts. -/
theorem foldl_importEntry (r : Replica σ) (entries : List LogEntry) :
    entries.foldl importEntry r =
      { r with
        blockTree := (entries.filterMap (LogEntry.importedBlock r.configEpoch)).foldl
          (fun tree block => tree.insert block.hash block) r.blockTree
        committedLog :=
          r.committedLog ++ entries.filterMap (LogEntry.importedCommit r.configEpoch)
        committedUpTo := (entries.filterMap LogEntry.committedHash).getLast?.or r.committedUpTo
        highQc :=
          (entries.filterMap (LogEntry.adoptedQc r.configEpoch)).getLast?.or r.highQc
        currentView := (entries.filterMap LogEntry.enteredView).getLast?.getD r.currentView } := by
  have hone : ∀ {β : Type} (f : LogEntry → Option β) (entry : LogEntry),
      [entry].filterMap f = (f entry).toList := by
    intro β f entry
    cases hf : f entry with
    | none => rw [List.filterMap_cons_none hf]; rfl
    | some b => rw [List.filterMap_cons_some hf]; rfl
  have hlast : ∀ {β : Type} (l : List β) (o : Option β),
      (l ++ o.toList).getLast? = o.or l.getLast? := by
    intro β l o
    cases o <;> simp
  induction entries using List.reverseRecOn with
  | nil => simp
  | append_singleton entries entry ih =>
    rw [List.foldl_append, List.foldl_cons, List.foldl_nil, ih, importEntry_eq]
    simp only [List.filterMap_append, hone, hlast, List.foldl_append, List.append_assoc,
      Option.or_assoc, Option.getD_or]

/-- What an import makes of the log: the snapshot's log or the own one, and the commits. -/
def importedHashes (r : Replica σ) (snap : Option Snapshot) (entries : List LogEntry) : List Hash :=
  (match snap with
    | some s => s.committedLog.map SerializableBlock.hash
    | none => r.committedLog.map Block.hash) ++ entries.filterMap LogEntry.committedHash

theorem importCatchupState_hashes (r : Replica σ) (snap : Option Snapshot)
    (entries : List LogEntry) :
    (r.importCatchupState snap entries).committedLog.map Block.hash =
      r.importedHashes snap entries := by
  have hsnapshot : ∀ s : Snapshot, (s.committedLog.map SerializableBlock.toBlock).map Block.hash =
      s.committedLog.map SerializableBlock.hash := by
    intro s
    rw [List.map_map]
    rfl
  cases snap <;>
    simp only [importCatchupState, foldl_importEntry, importSnapshot, List.map_append,
      LogEntry.map_hash_importedCommit, importedHashes, hsnapshot]

/-- The view an import offers, if any: the one entered last, else that of the snapshot. -/
def offeredView (snap : Option Snapshot) (entries : List LogEntry) : Option Nat :=
  (entries.filterMap LogEntry.enteredView).getLast?.or (snap.map Snapshot.currentView)

theorem importCatchupState_currentView (r : Replica σ) (snap : Option Snapshot)
    (entries : List LogEntry) :
    (r.importCatchupState snap entries).currentView =
      (offeredView snap entries).getD r.currentView := by
  cases snap <;>
    simp only [importCatchupState, foldl_importEntry, importSnapshot, offeredView, Option.getD_or,
      Option.map_none, Option.map_some, Option.getD_none, Option.getD_some]

/-- What an import offers as the high certificate, if anything: the one adopted last, in the given
epoch, else what the snapshot has. -/
def offeredQc (epoch : Nat) (snap : Option Snapshot) (entries : List LogEntry) :
    Option (Option QuorumCert) :=
  ((entries.filterMap (LogEntry.adoptedQc epoch)).getLast?.map some).or
    (snap.map fun s => s.highQc.map SerializableQC.toQc)

theorem importCatchupState_highQc (r : Replica σ) (snap : Option Snapshot)
    (entries : List LogEntry) :
    (r.importCatchupState snap entries).highQc =
      (offeredQc r.configEpoch snap entries).getD r.highQc := by
  have hlast : ∀ o p : Option QuorumCert, o.or p = (o.map some).getD p := by
    intro o p
    cases o <;> rfl
  cases snap <;>
    simp only [importCatchupState, foldl_importEntry, importSnapshot, offeredQc, hlast,
      Option.getD_or, Option.map_none, Option.map_some, Option.getD_none, Option.getD_some]

/-- Blocks that are inserted again change nothing. -/
theorem foldl_insert_again (blocks : List Block) (tree : OrdMap Hash Block) :
    blocks.foldl (fun tree block => tree.insert block.hash block)
        (blocks.foldl (fun tree block => tree.insert block.hash block) tree) =
      blocks.foldl (fun tree block => tree.insert block.hash block) tree := by
  refine OrdMap.ext_get? fun hash => ?_
  rw [get?_foldl_insert, get?_foldl_insert]
  cases lastNamed blocks hash <;> rfl

/-- A second import changes nothing exactly when there is a snapshot or nothing was committed since.
-/
theorem importCatchupState_again_iff (r : Replica σ) (snap : Option Snapshot)
    (entries : List LogEntry) :
    (r.importCatchupState snap entries).importCatchupState snap entries =
        r.importCatchupState snap entries ↔
      (snap = none → entries.filterMap LogEntry.committedHash = []) := by
  cases snap with
  | some s =>
    refine iff_of_true ?_ nofun
    -- the snapshot overwrites what the first import has changed
    have hbase : (r.importCatchupState (some s) entries).importSnapshot s = r.importSnapshot s := by
      simp only [importCatchupState, foldl_importEntry]
      rfl
    show entries.foldl importEntry ((r.importCatchupState (some s) entries).importSnapshot s) = _
    rw [hbase]
    rfl
  | none =>
    constructor
    · intro h _
      have hlog := congrArg (fun s : Replica σ => s.committedLog.map Block.hash) h
      simpa only [importCatchupState_hashes, importedHashes, List.append_right_eq_self] using hlog
    · intro hnone
      have hcommits : entries.filterMap (LogEntry.importedCommit r.configEpoch) = [] := by
        rw [← List.map_eq_nil_iff, LogEntry.map_hash_importedCommit]
        exact hnone rfl
      simp only [importCatchupState, foldl_importEntry, foldl_insert_again, hcommits,
        List.append_nil, ← Option.or_assoc, Option.or_self, ← Option.getD_or]

/-- An import neither repeats a commit nor moves the replica backwards, and once is enough. -/
structure Advances (r peer : Replica σ) (snap : Option Snapshot) (entries : List LogEntry) :
    Prop where
  distinct : ((r.importCatchupState snap entries).committedLog.map Block.hash).Nodup
  compatible : PrefixCompatible
    ((r.importCatchupState snap entries).committedLog.map Block.hash)
    (peer.committedLog.map Block.hash)
  view : r.currentView ≤ (r.importCatchupState snap entries).currentView
  highQc : KeepsHighQc r.highQc (r.importCatchupState snap entries).highQc
  again : (r.importCatchupState snap entries).importCatchupState snap entries =
    r.importCatchupState snap entries

/-- What a replica and the state it imports must be like for the import to advance it. -/
structure Absorbs (r : Replica σ) (snap : Option Snapshot) (entries : List LogEntry) : Prop where
  /-- Without a snapshot to append to, the entries commit nothing. -/
  tail : snap = none → entries.filterMap LogEntry.committedHash = []
  /-- No commit is repeated in the log that remains. -/
  distinct : (r.importedHashes snap entries).Nodup
  /-- The view that is offered is not an earlier one. -/
  view : ∀ view ∈ offeredView snap entries, r.currentView ≤ view
  /-- What is offered as the high certificate is no older than the own one. -/
  highQc : ∀ offered ∈ offeredQc r.configEpoch snap entries, KeepsHighQc r.highQc offered

/-- A snapshot and the commits behind it agree with the log of the replica they came from. -/
def Vouches (peer : Replica σ) (snap : Option Snapshot) (entries : List LogEntry) : Prop :=
  ∀ s ∈ snap, PrefixCompatible (peer.importedHashes (some s) entries)
    (peer.committedLog.map Block.hash)

/-- Into a replica whose log is compatible with the peer's, whatever the peer has sent: an import
advances the replica exactly when the replica absorbs it and the peer vouches for it. -/
theorem advances_iff {r peer : Replica σ}
    (hcompatible : PrefixCompatible (r.committedLog.map Block.hash)
      (peer.committedLog.map Block.hash)) (snap : Option Snapshot) (entries : List LogEntry) :
    r.Advances peer snap entries ↔ r.Absorbs snap entries ∧ peer.Vouches snap entries := by
  have hview : r.currentView ≤ (r.importCatchupState snap entries).currentView ↔
      ∀ view ∈ offeredView snap entries, r.currentView ≤ view := by
    rw [importCatchupState_currentView]
    cases offeredView snap entries <;> simp
  have hqc : KeepsHighQc r.highQc (r.importCatchupState snap entries).highQc ↔
      ∀ offered ∈ offeredQc r.configEpoch snap entries, KeepsHighQc r.highQc offered := by
    rw [importCatchupState_highQc]
    cases offeredQc r.configEpoch snap entries <;> simp [keepsHighQc_refl]
  constructor
  · intro h
    refine ⟨⟨(r.importCatchupState_again_iff snap entries).mp h.again, ?_, hview.mp h.view,
      hqc.mp h.highQc⟩, ?_⟩
    · rw [← importCatchupState_hashes]
      exact h.distinct
    · rintro s rfl
      have hcomp := h.compatible
      rw [importCatchupState_hashes] at hcomp
      exact hcomp
  · rintro ⟨h, hvouched⟩
    refine ⟨?_, ?_, hview.mpr h.view, hqc.mpr h.highQc,
      (r.importCatchupState_again_iff snap entries).mpr h.tail⟩
    · rw [importCatchupState_hashes]
      exact h.distinct
    · rw [importCatchupState_hashes]
      cases snap with
      | some s => exact hvouched s rfl
      | none =>
        rw [importedHashes, h.tail rfl, List.append_nil]
        exact hcompatible

end Fields

end Replica

/-- Replay appends the hashes of the commit records. -/
theorem replayEntries_hashes {entries : List LogEntry} {st st' : Recovered}
    (h : replayEntries entries st = .ok st') :
    st'.committedLog.map Block.hash =
      st.committedLog.map Block.hash ++ entries.filterMap LogEntry.committedHash := by
  have hfold := replayEntries_foldl (p := fun st => st.committedLog.map Block.hash)
    (f := LogEntry.committedHash) (g := fun hashes hash => hashes ++ [hash]) ?_ h
  · rw [hfold, List.foldl_append_eq_append, ← List.flatMap_def, List.flatMap_singleton']
  · intro entry st st' h
    cases entry with
    | blockCommitted hash parent view epoch proposer command commitIndex timestamp =>
      rw [replayEntry_commit h, List.map_append]
      rfl
    | _ =>
      cases h
      rfl

namespace Node

section History

variable {σ : Type} [Ed25519] [Sha256] [Bincode LogEntry] [Bincode Snapshot] [Crc32] [App σ]

/-- A node whose log carries records that replay to where its replica stands. -/
structure Recorded (node : Node σ) (snap : Option Snapshot) (entries : List LogEntry) : Prop where
  carrying : Carrying node snap entries
  replays : ∃ st, replayEntries entries (baseState snap) = .ok st ∧
    st.pointers = node.replica.pointers

omit [Ed25519] [App σ] in
/-- The snapshot and the records of such a node have its committed hashes. -/
theorem Recorded.vouches {node : Node σ} {snap : Option Snapshot} {entries : List LogEntry}
    (h : Recorded node snap entries) : node.replica.Vouches snap entries := by
  obtain ⟨st, hreplay, hpointers⟩ := h.replays
  rintro s rfl
  have hhashes := replayEntries_hashes hreplay
  have hbase : (baseState (some s)).committedLog.map Block.hash =
      s.committedLog.map SerializableBlock.hash := by
    rw [baseState, RecoveredBase.ofSnapshot, List.map_map]
    rfl
  have hsame : st.committedLog.map Block.hash = node.replica.committedLog.map Block.hash :=
    congrArg Pointers.committed hpointers
  rw [Replica.importedHashes, ← hbase, ← hhashes, hsame]
  exact .inl List.prefix_rfl

/-- After a snapshot every record is in it. -/
theorem Writable.recorded_takeSnapshot {node : Node σ} (h : Writable node) (now : Nat) :
    Recorded (node.step (now, .takeSnapshot)) (some (node.replica.captureSnapshot now)) [] := by
  obtain ⟨wal, dir, heq, hdur⟩ := h.takeSnapshot now
  simp only [Node.step, heq]
  exact ⟨hdur.carrying, _, rfl, pointers_captureSnapshot now node.replica⟩

/-- A node has recorded where it stands from the beginning. -/
theorem Begins.recorded {node : Node σ} (h : Begins node) :
    ∃ snap entries, Recorded node snap entries := by
  cases h with
  | @boot config keystore now node hok =>
    refine ⟨none, [], (inOrder_boot hok).carrying, _, rfl, ?_⟩
    obtain ⟨wal, heq, -⟩ := durable_boot (σ := σ) config keystore now
    rw [heq] at hok
    cases hok
    rfl
  | opened hok =>
    refine ⟨none, _, (inOrder_opened hok).carrying, _, rfl, ?_⟩
    rw [openReplica_empty] at hok
    cases hok
    rfl
  | snapshot hwritable _ _ => exact ⟨_, _, hwritable.recorded_takeSnapshot _⟩

variable [LawfulBincode LogEntry] [LawfulBincode Snapshot] [StrictBincode LogEntry]

omit [LawfulBincode LogEntry] [LawfulBincode Snapshot] [StrictBincode LogEntry] in
/-- The records of a call lead to where the replica then stands. -/
theorem Recorded.call {node : Node σ} {snap : Option Snapshot} {entries : List LogEntry}
    (h : Recorded node snap entries) (now : Nat) (call : Call) :
    Recorded (node.step (now, .call call)) snap (entries ++ node.replica.records (now, call)) := by
  obtain ⟨st, hreplay, hpointers⟩ := h.replays
  obtain ⟨st', hcall, hpointers'⟩ :=
    Replica.replay_records_pointers h.carrying.keyed hpointers (now, call)
  refine ⟨h.carrying.call (now, call), st', ?_, hpointers'⟩
  rw [replayEntries_append, hreplay]
  exact hcall

/-- A restart leads to where the records do. A recovery that fails changes nothing. -/
theorem Recorded.restart {node : Node σ} {snap : Option Snapshot} {entries : List LogEntry}
    (h : Recorded node snap entries) (now : Nat) (config : Config) (keystore : KeyStore) :
    Recorded (node.step (now, .restart config keystore)) snap entries := by
  obtain ⟨st, hreplay, -⟩ := h.replays
  simp only [Node.step]
  cases hrestart : node.restart config keystore now with
  | error e => exact h
  | ok recovered =>
    obtain ⟨st', wal, hreplay', rfl, hdur⟩ :=
      (h.carrying.durable_of_restart hrestart).of_restart hrestart
    rw [hreplay] at hreplay'
    cases hreplay'
    exact ⟨hdur.carrying, st, hreplay, rfl⟩

/-- Every operation leaves a record of where the replica stands. -/
theorem Recorded.step {node : Node σ} {snap : Option Snapshot} {entries : List LogEntry}
    (h : Recorded node snap entries) (op : Nat × NodeOp) :
    ∃ snap' entries', Recorded (node.step op) snap' entries' := by
  obtain ⟨now, op⟩ := op
  cases op with
  | call call => exact ⟨_, _, h.call now call⟩
  | takeSnapshot => exact ⟨_, _, h.carrying.writable.recorded_takeSnapshot now⟩
  | restart config keystore => exact ⟨_, _, h.restart now config keystore⟩

/-- What a replica exports after any history, it vouches for. -/
theorem vouches_exported {node : Node σ} (hbegins : Begins node) (ops : List (Nat × NodeOp))
    {snap : Option Snapshot} {entries : List LogEntry}
    (hexport : (run step node ops).replica.exportCatchupState
      ((run step node ops).replica.onDisk (run step node ops).dir) = .ok (snap, entries)) :
    (run step node ops).replica.Vouches snap entries := by
  obtain ⟨snap', entries', hrecorded⟩ :=
    run_preserves (I := fun node : Node σ => ∃ snap entries, Recorded node snap entries)
      (fun _ op ⟨_, _, h⟩ => h.step op) hbegins.recorded ops
  obtain ⟨-, rfl, rfl⟩ := hrecorded.carrying.of_exportCatchupState hexport
  exact hrecorded.vouches

/-- An import into a replica whose log is compatible with the peer's advances it exactly when it
absorbs what the peer sent and the peer vouches for that, and a peer vouches for what it exports
after any history. -/
theorem import_advances_iff :
    (∀ (r peer : Replica σ) (snap : Option Snapshot) (entries : List LogEntry),
      PrefixCompatible (r.committedLog.map Block.hash) (peer.committedLog.map Block.hash) →
      (r.Advances peer snap entries ↔ r.Absorbs snap entries ∧ peer.Vouches snap entries)) ∧
    ∀ (node : Node σ) (ops : List (Nat × NodeOp)) (snap : Option Snapshot)
      (entries : List LogEntry), Begins node →
      (run step node ops).replica.exportCatchupState
        ((run step node ops).replica.onDisk (run step node ops).dir) = .ok (snap, entries) →
      (run step node ops).replica.Vouches snap entries :=
  ⟨fun _ _ snap entries h => Replica.advances_iff h snap entries,
    fun _ ops _ _ hbegins hexport => vouches_exported hbegins ops hexport⟩

end History

section Samples

open Sample

/-- Three blocks and two certificates, with which block 1 is committed. -/
def committingCalls : List (Nat × Call) :=
  [(1, .validateAndInsertProposal (block 1 0 0 0 none)),
    (2, .applyHighQcFromNetwork (qc [0, 1, 2] 1 0 0)),
    (3, .validateAndInsertProposal (block 2 1 1 1 (some (qc [0, 1, 2] 1 0 0)))),
    (4, .advanceViewWithReason .commit),
    (5, .validateAndInsertProposal (block 3 2 2 2 (some (qc [0, 1, 2] 2 1 0)))),
    (6, .commitAll)]

/-- The same calls on a node. -/
def committingOps : List (Nat × NodeOp) := committingCalls.map fun c => (c.1, .call c.2)

/-- A snapshot and a view change behind them. -/
def snapshottingOps : List (Nat × NodeOp) :=
  committingOps ++ [(7, .takeSnapshot), (8, .call (.advanceViewWithReason .commit))]

/-- Replica 2 starts and imports what replica 3 exports. -/
theorem import_advances_fresh :
    ∃ snap entries,
      (run step openedNode snapshottingOps).replica.exportCatchupState
        ((run step openedNode snapshottingOps).replica.onDisk
          (run step openedNode snapshottingOps).dir) = .ok (some snap, entries) ∧
      (party 4 2).Advances (run step openedNode snapshottingOps).replica (some snap) entries := by
  have hexport : (run step openedNode snapshottingOps).replica.exportCatchupState
        ((run step openedNode snapshottingOps).replica.onDisk
          (run step openedNode snapshottingOps).dir) =
      .ok (some ((run step openedNode committingOps).replica.captureSnapshot 7),
        [.viewChanged 1 2 .commit 8]) := by decide +kernel
  have hopened : Simulation.openReplica 0 3 (party 4 3).config (keyStore 4 3) DataDir.empty =
      .ok openedNode.replica := rfl
  have hcompatible : PrefixCompatible ((party 4 2).committedLog.map Block.hash)
      ((run step openedNode snapshottingOps).replica.committedLog.map Block.hash) :=
    .inl List.nil_prefix
  have habsorbs : (party 4 2).Absorbs
      (some ((run step openedNode committingOps).replica.captureSnapshot 7))
      [.viewChanged 1 2 .commit 8] :=
    ⟨nofun, by decide +kernel, fun view _ => Nat.zero_le view, fun _ _ => nofun⟩
  exact ⟨_, _, hexport, (import_advances_iff.1 _ _ _ _ hcompatible).mpr
    ⟨habsorbs, import_advances_iff.2 _ _ _ _ (.opened hopened) hexport⟩⟩

/-- Replica 2 has committed block 1 like replica 3, and commits it again when it imports the log of
replica 3. -/
theorem import_repeats_commits :
    ∃ entries,
      (run step openedNode committingOps).replica.exportCatchupState
        ((run step openedNode committingOps).replica.onDisk
          (run step openedNode committingOps).dir) = .ok (none, entries) ∧
      PrefixCompatible
        ((run Replica.step (party 4 2) committingCalls).committedLog.map Block.hash)
        ((run step openedNode committingOps).replica.committedLog.map Block.hash) ∧
      ¬ (run Replica.step (party 4 2) committingCalls).Advances
        (run step openedNode committingOps).replica none entries := by
  have hexport : (run step openedNode committingOps).replica.exportCatchupState
        ((run step openedNode committingOps).replica.onDisk
          (run step openedNode committingOps).dir) =
      .ok (none, LogEntry.fromBlock 0 genesisBlock ::
        outputs Replica.step Replica.records (party 4 3) committingCalls) := by decide +kernel
  refine ⟨_, hexport, by decide +kernel, fun h => ?_⟩
  have hrepeated : ((run Replica.step (party 4 2) committingCalls).importedHashes none
      (LogEntry.fromBlock 0 genesisBlock ::
        outputs Replica.step Replica.records (party 4 3) committingCalls)) = [1, 1] := by
    decide +kernel
  have hdistinct := h.distinct
  rw [Replica.importCatchupState_hashes, hrepeated] at hdistinct
  exact absurd hdistinct (by decide)

end Samples

end Node

end PersistHotStuff
