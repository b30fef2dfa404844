import PersistHotStuff.Durability.Rejoin
import PersistHotStuff.Simulator.History

/-!
# What the directories know

A replica of the simulator persists the records of its calls and snapshots of
itself. What recovery can rebuild from its directory stands where the replica
stands and holds no block that was never proposed.
-/

namespace PersistHotStuff

open Basis

/-- What an insertion record rebuilds is a known block. -/
def KnownEntry (blocks : List Block) : LogEntry → Prop
  | .blockInserted hash parent _ epoch _ qcBlockHash qcView _ _ =>
      ∃ b ∈ blocks,
        b.outline = (hash, parent, (stubQc qcBlockHash qcView epoch).map QuorumCert.blockHash)
  | _ => True

/-- A certificate reduced to hash and view still names its block. -/
theorem stubQc_blockHash (qc : Option QuorumCert) (epoch : Nat) :
    (stubQc (qc.map QuorumCert.blockHash) (qc.map QuorumCert.view) epoch).map
      QuorumCert.blockHash = qc.map QuorumCert.blockHash := by
  cases qc <;> rfl

/-- A stored block keeps its outline. -/
theorem toBlock_outline (b : Block) :
    (SerializableBlock.fromBlock b).toBlock.outline = b.outline := by
  simp only [Block.outline, SerializableBlock.fromBlock, SerializableBlock.toBlock,
    stubQc_blockHash]

/-- Replay of known records rebuilds known blocks. -/
theorem replayEntries_known {blocks : List Block} {entries : List LogEntry} {st st' : Recovered}
    (hentries : ∀ e ∈ entries, KnownEntry blocks e) (h : KnownTree blocks st.blockTree)
    (hreplay : replayEntries entries st = .ok st') : KnownTree blocks st'.blockTree := by
  refine replayEntries_preserves (I := fun st => KnownTree blocks st.blockTree) ?_ hreplay h
  intro entry hmem st st' h hone
  cases entry with
  | blockInserted hash parent view epoch proposer qcBlockHash qcView command timestamp =>
    cases hone
    exact h.insert hash (hentries _ hmem)
  | blockCommitted hash parent view epoch proposer command commitIndex timestamp =>
    rw [replayEntry_commit hone]
    exact h
  | _ =>
    cases hone
    exact h

/-- A snapshot of known blocks rebuilds known blocks. -/
theorem known_captureSnapshot {σ : Type} [App σ] {blocks : List Block} {r : Replica σ}
    (h : KnownTree blocks r.blockTree) (now : Nat) :
    KnownTree blocks (baseState (some (r.captureSnapshot now))).blockTree := by
  have hfold : ∀ (stored : List Block) (tree : OrdMap Hash Block), KnownTree blocks tree →
      (∀ b ∈ stored, ∃ b₀ ∈ blocks, b₀.outline = b.outline) →
      KnownTree blocks
        (((stored.map SerializableBlock.fromBlock).map fun b => (b.hash, b.toBlock)).foldl
          (fun m p => m.insert p.1 p.2) tree) := by
    intro stored
    induction stored with
    | nil => exact fun _ ht _ => ht
    | cons b stored ih =>
      intro tree ht hstored
      obtain ⟨hb, hrest⟩ := List.forall_mem_cons.mp hstored
      refine ih _ (ht.insert _ ?_) hrest
      rwa [toBlock_outline]
  exact hfold r.blockTree.values OrdMap.empty (fun b hb => by cases hb) h

/-- A rebuilt replica knows nothing but genesis beyond the recovered blocks. -/
theorem known_buildReplica {σ : Type} {blocks : List Block} {st : Recovered}
    (h : KnownTree blocks st.blockTree) (hgenesis : genesisBlock ∈ blocks) (now : Nat)
    (config : Config) (keystore : KeyStore) (base : RecoveredBase) :
    KnownTree blocks (buildReplica (σ := σ) now config keystore base st).blockTree := by
  simp only [buildReplica]
  split
  · exact h.insert 0 ⟨genesisBlock, hgenesis, rfl⟩
  · exact h

/-- The records of a call that inserts a known block are known. -/
theorem Replica.records_known {σ : Type} [Ed25519] [Sha256] [Bincode LogEntry] [Crc32]
    {blocks : List Block} {r : Replica σ} {c : Nat × Call} (hins : ∀ b ∈ r.inserted c, b ∈ blocks) :
    ∀ e ∈ r.records c, KnownEntry blocks e := by
  intro e he
  rcases Replica.mem_records he with ⟨block, hc, ha, rfl⟩ | ⟨vote, qc, -, -, rfl | rfl⟩ |
    ⟨qc, -, rfl⟩ | ⟨reason, -, rfl⟩ | ⟨-, block, -, i, rfl⟩
  · have hinserted : r.inserted c = some block := by
      simp only [Replica.inserted, hc, ha, if_true]
    refine ⟨block, hins block hinserted, ?_⟩
    rw [stubQc_blockHash]
    rfl
  all_goals trivial

section

variable [Bincode LogEntry] [Bincode Snapshot] [Crc32] [Sha256]

/-- A directory whose log replays over its snapshot to the given pointers and to known blocks. -/
structure DirKnows (blocks : List Block) (dir : DataDir) (p : Pointers) : Prop where
  replays : ∃ snap entries st,
    (∃ created replicaId, dir.wal = some (logBytes created replicaId entries)) ∧
      StoreHolds dir snap ∧ replayEntries entries (baseState snap) = .ok st ∧ st.pointers = p ∧
      KnownTree blocks st.blockTree
  noTmp : dir.walTmp = none
  paired : ∀ seq, dir.shas.contains seq = true → dir.bins.contains seq = true

theorem DirKnows.mono {blocks more : List Block} {dir : DataDir} {p : Pointers}
    (h : DirKnows blocks dir p) (hsub : ∀ b ∈ blocks, b ∈ more) : DirKnows more dir p := by
  obtain ⟨snap, entries, st, hwal, hstore, hreplay, hp, hknown⟩ := h.replays
  exact ⟨⟨snap, entries, st, hwal, hstore, hreplay, hp, hknown.mono hsub⟩, h.noTmp, h.paired⟩

/-- The log on disk has no record whose length does not fit its prefix. -/
def FramesFit (dir : DataDir) : Prop :=
  ∀ created replicaId entries, dir.wal = some (logBytes created replicaId entries) →
    ∀ entry ∈ entries, ShortPayload entry

omit [Bincode Snapshot] [Sha256] in
/-- The records of a log shorter than 4 GiB all fit. -/
theorem framesFit_of_short {dir : DataDir} (h : ∀ bytes ∈ dir.wal, bytes.length < 2 ^ 32) :
    FramesFit dir := by
  intro created replicaId entries hwal entry hentry
  have hlog := h _ hwal
  rw [logBytes, List.length_append] at hlog
  have hpayload := length_le_frames Crc32.hash Bincode.serialize hentry
  simp only [ShortPayload]
  omega

/-- A replica opened from such a directory stands where it stood and knows nothing new. -/
theorem DirKnows.openReplica [LawfulBincode LogEntry] [LawfulBincode Snapshot] {σ : Type}
    {blocks : List Block} {dir : DataDir} {p : Pointers} (h : DirKnows blocks dir p)
    (hfit : FramesFit dir) (hgenesis : genesisBlock ∈ blocks) {now id : Nat} {config : Config}
    {keystore : KeyStore} {recovered : Replica σ}
    (hok : Simulation.openReplica now id config keystore dir = .ok recovered) :
    recovered.pointers = p ∧ KnownTree blocks recovered.blockTree ∧
      Node.Writable ⟨recovered, dir⟩ := by
  obtain ⟨snap, entries, st, ⟨created, replicaId, hwal⟩, hstore, hreplay, hp, hknown⟩ := h.replays
  have hholds : DirHolds dir snap entries :=
    ⟨⟨_, hwal, ⟨created, replicaId, rfl⟩, hfit created replicaId entries hwal⟩, hstore, h.noTmp⟩
  obtain ⟨st', wal, hreplay', rfl, hwritable⟩ := Node.writable_of_openReplica hholds h.paired hok
  rw [hreplay] at hreplay'
  cases hreplay'
  refine ⟨hp, ?_, hwritable⟩
  exact known_buildReplica (σ := σ) hknown hgenesis now config keystore (baseOf config.n snap)

/-- A live node whose directory keeps up with it. -/
structure Node.Live {σ : Type} (blocks : List Block) (node : Node σ) : Prop where
  writable : node.Writable
  atEnd : ∀ wal ∈ node.replica.wal, wal.file.pos = wal.file.bytes.length
  stored : DirKnows blocks (node.replica.onDisk node.dir) node.replica.pointers

namespace Node

variable {σ : Type} {blocks : List Block}

/-- A durable node is live if its log replays to where the replica stands. -/
theorem Durable.live {node : Node σ} {snap : Option Snapshot} {entries : List LogEntry}
    (h : Durable node snap entries) {st : Recovered}
    (hreplay : replayEntries entries (baseState snap) = .ok st)
    (hp : st.pointers = node.replica.pointers) (hknown : KnownTree blocks st.blockTree) :
    Live blocks node := by
  have hdisk := h.onDisk
  obtain ⟨bytes, hbytes, ⟨created, replicaId, rfl⟩, -⟩ := hdisk.log
  refine ⟨h.writable, ?_, ⟨snap, entries, st, ⟨created, replicaId, hbytes⟩, hdisk.store, hreplay,
    hp, hknown⟩, hdisk.noTmp, h.onDisk_paired⟩
  obtain ⟨wal, hwal, hholds⟩ := h.log
  intro w hw
  rw [hwal] at hw
  cases hw
  exact hholds.atEnd

/-- A writable node that knows only known blocks is live after a snapshot. -/
theorem Writable.live_takeSnapshot [App σ] {node : Node σ} (h : Writable node)
    (hknown : KnownTree blocks node.replica.blockTree) (now : Nat) :
    ∃ wal dir,
      node.replica.takeSnapshot now node.dir =
        (.ok (), { node.replica with
          wal := some wal, snapshotCounter := node.replica.snapshotCounter + 1 }, dir) ∧
      Live blocks
        ⟨{ node.replica with
          wal := some wal, snapshotCounter := node.replica.snapshotCounter + 1 }, dir⟩ := by
  obtain ⟨wal, dir, heq, hdur⟩ := h.takeSnapshot now
  exact ⟨wal, dir, heq, hdur.live rfl (pointers_captureSnapshot now node.replica)
    (known_captureSnapshot hknown now)⟩

section Call

variable [Ed25519] [App σ]

/-- A live node stays live under a call that inserts nothing unknown. -/
theorem Live.call {node : Node σ} (h : Live blocks node) {c : Nat × Call}
    (hins : ∀ b ∈ node.replica.inserted c, b ∈ blocks) :
    Live blocks ⟨node.replica.step c, node.dir⟩ := by
  obtain ⟨wal, hwal, hwilling⟩ := h.writable.log
  obtain ⟨snap, entries, st, ⟨created, replicaId, hbytes⟩, hstore, hreplay, hp, hknown⟩ :=
    h.stored.replays
  have hwal' : (node.replica.step c).wal = some (wal.appendAll (node.replica.records c)) := by
    rw [Replica.step_wal _ h.writable.keyed, hwal]
    rfl
  have hdisk : ∀ (r : Replica σ) (w : WAL), r.wal = some w →
      r.onDisk node.dir = { node.dir with wal := some w.file.bytes } := by
    intro r w hw
    rw [Replica.onDisk, hw]
  rw [hdisk _ _ hwal] at hbytes hstore
  have hcarries : wal.Carries entries :=
    ⟨⟨created, replicaId, Option.some.inj hbytes⟩, h.atEnd wal hwal, hwilling⟩
  obtain ⟨⟨created', replicaId', hbytes'⟩, hend', hwilling'⟩ :=
    hcarries.appendAll (node.replica.records c)
  obtain ⟨st', hreplay', hp'⟩ := Replica.replay_records_pointers h.writable.keyed hp c
  refine ⟨⟨Replica.treeKeyed_step h.writable.keyed c, ⟨_, hwal', hwilling'⟩, h.writable.noTmp,
    fun seq hseq => ?_, h.writable.paired⟩, ?_, ?_⟩
  · rw [Replica.step_snapshotCounter]
    exact h.writable.below seq hseq
  · intro w hw
    rw [hwal'] at hw
    cases hw
    exact hend'
  · rw [hdisk _ _ hwal']
    refine ⟨⟨snap, entries ++ node.replica.records c, st', ⟨created', replicaId', ?_⟩, ?_, ?_, hp',
      replayEntries_known (Replica.records_known hins) hknown hreplay'⟩, h.writable.noTmp,
      h.writable.paired⟩
    · rw [hbytes']
    · cases snap <;> exact hstore
    · rw [replayEntries_append, hreplay]
      exact hreplay'

end Call

end Node

/-- After a first start the node is live and follows the history that has genesis alone. -/
theorem live_openReplica_empty {σ : Type} {now id : Nat} {config : Config} {keystore : KeyStore}
    {r : Replica σ}
    (hok : Simulation.openReplica now id config keystore DataDir.empty = .ok r) :
    History.genesis.Follows r ∧ Node.Live History.genesis.blocks ⟨r, DataDir.empty⟩ := by
  rw [openReplica_empty] at hok
  cases hok
  have hnone : KnownTree History.genesis.blocks (baseState none).blockTree := by
    intro b hb
    cases hb
  have hknown := known_buildReplica (σ := σ) hnone (List.mem_singleton_self _) now config keystore
    (baseOf config.n none)
  have hkeyed := buildReplica_keyed (σ := σ) (baseState_keyed none) now config keystore
    (baseOf config.n none)
  have hfirst : WAL.Carries ⟨⟨walHeader now config.id, headerSize⟩, config.id, 0, []⟩ [] :=
    ⟨(logFile_header now config.id).1, (length_walHeader now config.id).symm, rfl⟩
  obtain ⟨⟨created, replicaId, hbytes⟩, hend, hwilling⟩ :=
    hfirst.append (LogEntry.fromBlock now genesisBlock)
  refine ⟨⟨hkeyed, hknown, List.nil_prefix, fun q hq => (by cases hq)⟩, ⟨hkeyed, ⟨_, rfl, hwilling⟩,
    rfl, fun seq hseq => (by cases hseq), fun seq hseq => (by cases hseq)⟩,
    fun w hw => (by cases hw; exact hend), ?_, rfl, fun seq hseq => (by cases hseq)⟩
  refine ⟨none, [LogEntry.fromBlock now genesisBlock], _,
    ⟨created, replicaId, congrArg some hbytes⟩, rfl, rfl, rfl, ?_⟩
  exact hnone.insert 0 ⟨genesisBlock, List.mem_singleton_self _, rfl⟩

end

end PersistHotStuff
