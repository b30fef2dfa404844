import PersistHotStuff.Durability.Node
import PersistHotStuff.Handlers.Acceptance

/-!
# A snapshot and back

What a replica that is recovered from a fresh snapshot has in common with the
one the snapshot was taken of. A stored block keeps neither the signatures nor
the epoch of its certificate; the epoch is taken from the block. So exactly the
certificates of another epoch than their block are not given back, and only a
leader that still has a certificate of an old epoch makes such blocks.
-/

namespace PersistHotStuff

open Basis

/-- A certificate without its signatures. -/
def QuorumCert.stripped (qc : QuorumCert) : QuorumCert := { qc with signatures := [] }

/-- A block whose certificate is without its signatures. -/
def Block.stripped (block : Block) : Block := { block with qc := block.qc.map QuorumCert.stripped }

/-- The certificate of a block, if it has one, is of the epoch of the block. -/
def Block.EpochTrue (block : Block) : Prop := ∀ q ∈ block.qc, q.epoch = block.epoch

instance (block : Block) : Decidable block.EpochTrue :=
  inferInstanceAs (Decidable (∀ q ∈ block.qc, q.epoch = block.epoch))

/-- A stored block is given back, but for signatures, exactly when its certificate has its epoch. -/
theorem toBlock_fromBlock_iff (block : Block) :
    (SerializableBlock.fromBlock block).toBlock = block.stripped ↔ block.EpochTrue := by
  obtain ⟨hash, parent, view, epoch, proposer, qc, command⟩ := block
  cases qc with
  | none => exact iff_of_true rfl fun q hq => by cases hq
  | some q =>
    simp only [SerializableBlock.fromBlock, SerializableBlock.toBlock, Block.stripped,
      Block.EpochTrue, QuorumCert.stripped, Option.map_some, stubQc, Option.mem_def,
      Option.some.injEq, forall_eq', Block.mk.injEq, QuorumCert.mk.injEq, true_and, and_true]
    exact eq_comm

/-- A stored tree is rebuilt block by block. -/
theorem get?_rebuilt {tree : OrdMap Hash Block} (h : TreeKeyed tree) (hash : Hash) :
    (OrdMap.ofList ((tree.values.map SerializableBlock.fromBlock).map
        fun b => (b.hash, b.toBlock))).get? hash =
      (tree.get? hash).map fun block => (SerializableBlock.fromBlock block).toBlock := by
  have hkeys : (((tree.values.map SerializableBlock.fromBlock).map
      fun b => (b.hash, b.toBlock)).map Prod.fst).Nodup := by
    rw [List.map_map, List.map_map]
    exact List.pairwise_map.mpr (h.values_pairwise.imp fun hlt => hlt.ne)
  ext b
  rw [OrdMap.get?_ofList hkeys, Option.map_eq_some_iff]
  simp only [List.mem_map, exists_exists_and_eq_and, Prod.mk.injEq]
  constructor
  · rintro ⟨block, hblock, rfl, rfl⟩
    exact ⟨block, h.get? hblock, rfl⟩
  · rintro ⟨block, hblock, rfl⟩
    exact ⟨block, OrdMap.mem_values.mpr ⟨hash, hblock⟩, h hash block hblock, rfl⟩

section

variable {σ : Type} [App σ]

/-- What a recovered replica and its directory give back of the replica a snapshot was taken of. -/
structure GivesBack (r recovered : Replica σ) (dir : DataDir) : Prop where
  blockTree : ∀ hash, recovered.blockTree.get? hash = (r.blockTree.get? hash).map Block.stripped
  committedLog : recovered.committedLog = r.committedLog.map Block.stripped
  committedUpTo : recovered.committedUpTo = r.committedUpTo
  highQc : recovered.highQc = r.highQc.map QuorumCert.stripped
  currentView : recovered.currentView = r.currentView
  nextHash : recovered.nextHash = r.nextHash
  configEpoch : recovered.configEpoch = r.configEpoch
  activeValidators : recovered.activeValidators = r.activeValidators
  pendingAppState : recovered.pendingAppState = r.app.bind fun app => (App.snapshot app).toOption
  snapshotCounter : ∀ seq, dir.bins.contains seq = true → seq < recovered.snapshotCounter

/-- The replica built from a fresh snapshot gives everything back exactly when no block has a
certificate of another epoch. -/
theorem givesBack_iff {r : Replica σ} (hkeyed : TreeKeyed r.blockTree)
    (hfilled : r.blockTree.isEmpty = false) {dir : DataDir}
    (hbelow : ∀ seq, dir.bins.contains seq = true → seq < r.snapshotCounter + 1)
    (now later : Nat) (config : Config) (keystore : KeyStore) :
    GivesBack r (buildReplica later config keystore
        (RecoveredBase.ofSnapshot (r.captureSnapshot now))
        (RecoveredBase.ofSnapshot (r.captureSnapshot now)).state) dir ↔
      (∀ block ∈ r.blockTree.values, block.EpochTrue) ∧
        ∀ block ∈ r.committedLog, block.EpochTrue := by
  have hrebuilt := get?_rebuilt hkeyed
  have hnonempty : (RecoveredBase.ofSnapshot (r.captureSnapshot now)).state.blockTree.isEmpty =
      false := by
    refine OrdMap.isEmpty_eq_false_mono (fun hash hin => ?_) hfilled
    simpa only [OrdMap.contains, RecoveredBase.ofSnapshot, Replica.captureSnapshot,
      Snapshot.capture, hrebuilt, Option.isSome_map] using hin
  have htree : ∀ hash, (buildReplica (σ := σ) later config keystore
      (RecoveredBase.ofSnapshot (r.captureSnapshot now))
      (RecoveredBase.ofSnapshot (r.captureSnapshot now)).state).blockTree.get? hash =
      (r.blockTree.get? hash).map fun block => (SerializableBlock.fromBlock block).toBlock := by
    intro hash
    rw [buildReplica_blockTree hnonempty]
    exact hrebuilt hash
  constructor
  · intro h
    refine ⟨fun block hblock => ?_, fun block hblock => ?_⟩
    · have hget := h.blockTree block.hash
      rw [htree, hkeyed.get? hblock] at hget
      exact (toBlock_fromBlock_iff block).mp (Option.some.inj hget)
    · have hlog : (r.committedLog.map SerializableBlock.fromBlock).map SerializableBlock.toBlock =
          r.committedLog.map Block.stripped := h.committedLog
      rw [List.map_map] at hlog
      exact (toBlock_fromBlock_iff block).mp (List.map_inj_left.mp hlog block hblock)
  · rintro ⟨hvalues, hlog⟩
    refine ⟨fun hash => ?_, ?_, rfl, ?_, rfl, rfl, rfl, ?_, ?_, hbelow⟩
    · rw [htree]
      cases hget : r.blockTree.get? hash with
      | none => rfl
      | some block =>
        exact congrArg some ((toBlock_fromBlock_iff block).mpr
          (hvalues block (OrdMap.mem_values.mpr ⟨hash, hget⟩)))
    · show (r.committedLog.map SerializableBlock.fromBlock).map SerializableBlock.toBlock = _
      rw [List.map_map]
      exact List.map_inj_left.mpr fun block hblock =>
        (toBlock_fromBlock_iff block).mpr (hlog block hblock)
    · show (r.highQc.map SerializableQC.fromQc).map SerializableQC.toQc = _
      rw [Option.map_map]
      rfl
    · exact OrdMap.ofList_keys r.activeValidators
    · have hcaptured : (r.captureSnapshot now).appState =
          r.app.bind fun app => (App.snapshot app).toOption := by
        simp only [Replica.captureSnapshot, Snapshot.capture]
        cases r.app <;> rfl
      exact hcaptured

variable [Bincode LogEntry] [Bincode Snapshot] [Crc32] [Sha256]

/-- A snapshot taken to an empty directory and recovered with the same configuration, with the log
in that directory or elsewhere, gives everything back. -/
def RoundTrips (r : Replica σ) : Prop :=
  ∀ (now later : Nat) (keystore : KeyStore),
    (r.takeSnapshot now DataDir.empty).1 = .ok () ∧
      ∀ disk, (disk = (r.takeSnapshot now DataDir.empty).2.2 ∨
          disk = (r.takeSnapshot now DataDir.empty).2.1.onDisk
            (r.takeSnapshot now DataDir.empty).2.2) →
        ∃ (recovered : Replica σ) (wal : WAL),
          recover later r.config keystore disk = .ok (recovered, wal) ∧ GivesBack r recovered disk

/-- A snapshot to an empty directory succeeds and leaves an empty log, if any. -/
theorem takeSnapshot_empty (now : Nat) (r : Replica σ) :
    ∃ wal : Option WAL, r.takeSnapshot now DataDir.empty =
        (.ok (), { r with wal := wal, snapshotCounter := r.snapshotCounter + 1 },
          cleanupOld ((r.captureSnapshot now).save DataDir.empty) 3) ∧
      ∀ w ∈ wal, LogFile w.file.bytes [] := by
  cases hwal : r.wal with
  | none =>
    refine ⟨none, ?_, fun w hw => by cases hw⟩
    simp only [Replica.takeSnapshot, Replica.record, hwal, Option.map_none]
  | some wal =>
    refine ⟨_, Replica.takeSnapshot_eq hwal rfl now, fun w hw => ?_⟩
    cases hw
    exact logFile_header _ _

variable [LawfulBincode LogEntry] [LawfulBincode Snapshot]

omit [App σ] in
/-- Recovery over a snapshot and an empty log, or none, rebuilds the snapshot. -/
theorem recover_snapshot {dir : DataDir} {snap : Snapshot} (hstore : StoreHolds dir (some snap))
    (hwal : ∀ bytes ∈ dir.wal, LogFile bytes []) (now : Nat) (config : Config)
    (keystore : KeyStore) :
    ∃ wal : WAL, recover (σ := σ) now config keystore dir =
      .ok (buildReplica now config keystore (RecoveredBase.ofSnapshot snap)
        (RecoveredBase.ofSnapshot snap).state, wal) := by
  cases hdir : dir.wal with
  | none =>
    have hbase : loadBase config dir = .ok (RecoveredBase.ofSnapshot snap) := by
      rw [loadBase, hstore.loadLatest]
    refine ⟨⟨⟨walHeader now config.id, headerSize⟩, config.id, 0, []⟩, ?_⟩
    rw [recover, hbase]
    simp only [replayLog, hdir, Option.isSome_none, Bool.false_eq_true, if_false, WAL.create]
  | some bytes =>
    have hrec := recover_eq (σ := σ) hstore (by rw [hdir, List.append_nil]) (hwal bytes hdir)
      (show ([] : Bytes).length < 4 by decide) now config keystore
    exact ⟨_, hrec⟩

omit [LawfulBincode LogEntry] [LawfulBincode Snapshot] in
/-- A directory that a snapshot was taken to, with the log in it or not, holds the snapshot under
the newest number and at most an empty log. -/
theorem holds_afterSnapshot (now : Nat) (r : Replica σ) {wal : Option WAL}
    (hwal : ∀ w ∈ wal, LogFile w.file.bytes []) {disk : DataDir}
    (hdisk : disk = cleanupOld ((r.captureSnapshot now).save DataDir.empty) 3 ∨
      disk = { r with wal := wal, snapshotCounter := r.snapshotCounter + 1 }.onDisk
        (cleanupOld ((r.captureSnapshot now).save DataDir.empty) 3)) :
    StoreHolds disk (some (r.captureSnapshot now)) ∧ (∀ bytes ∈ disk.wal, LogFile bytes []) ∧
      ∀ seq, disk.bins.contains seq = true → seq < r.snapshotCounter + 1 := by
  have hkeep : 0 < 3 := by decide
  have hnone : ∀ seq, DataDir.empty.bins.contains seq = true →
      seq < (r.captureSnapshot now).snapshotId := fun seq hseq => by cases hseq
  have hsaved := (storeHolds_save hnone).cleanupOld hkeep
  have hbelow : ∀ seq,
      (cleanupOld ((r.captureSnapshot now).save DataDir.empty) 3).bins.contains seq = true →
        seq < r.snapshotCounter + 1 := fun seq hseq => below_cleanupOld_save hnone hseq
  have hplain : (cleanupOld ((r.captureSnapshot now).save DataDir.empty) 3).wal = none :=
    (cleanupOld_wal _ _).1
  rcases hdisk with rfl | rfl
  · refine ⟨hsaved, fun bytes hbytes => ?_, hbelow⟩
    rw [hplain] at hbytes
    cases hbytes
  · refine ⟨?_, fun bytes hbytes => ?_, ?_⟩
    · cases wal <;> exact hsaved
    · cases wal with
      | none =>
        simp only [Replica.onDisk, hplain] at hbytes
        cases hbytes
      | some w =>
        cases hbytes
        exact hwal w rfl
    · cases wal <;> exact hbelow

/-- A replica makes the round trip exactly when no block of its tree or log has a certificate of
another epoch. -/
theorem roundTrips_iff {r : Replica σ} (hkeyed : TreeKeyed r.blockTree)
    (hfilled : r.blockTree.isEmpty = false) :
    RoundTrips r ↔ (∀ block ∈ r.blockTree.values, block.EpochTrue) ∧
      ∀ block ∈ r.committedLog, block.EpochTrue := by
  constructor
  · intro h
    obtain ⟨wal, htake, hwal⟩ := takeSnapshot_empty 0 r
    obtain ⟨-, hdisk⟩ := h 0 0 r.keystore
    obtain ⟨recovered, log, hrec, hgives⟩ := hdisk _ (Or.inl rfl)
    rw [htake] at hrec hgives
    obtain ⟨hstore, hempty, hbelow⟩ := holds_afterSnapshot 0 r hwal (Or.inl rfl)
    obtain ⟨log', hrec'⟩ := recover_snapshot (σ := σ) hstore hempty 0 r.config r.keystore
    have hsame := hrec.symm.trans hrec'
    cases hsame
    exact (givesBack_iff hkeyed hfilled hbelow 0 0 r.config r.keystore).mp hgives
  · intro htrue now later keystore
    obtain ⟨wal, htake, hwal⟩ := takeSnapshot_empty now r
    rw [htake]
    refine ⟨rfl, fun disk hdisk => ?_⟩
    obtain ⟨hstore, hempty, hbelow⟩ := holds_afterSnapshot now r hwal hdisk
    obtain ⟨log, hrec⟩ := recover_snapshot (σ := σ) hstore hempty later r.config keystore
    exact ⟨_, log, hrec,
      (givesBack_iff hkeyed hfilled hbelow now later r.config keystore).mpr htrue⟩

end

namespace Replica

section Run

variable {σ : Type} [Ed25519] [Sha256] [Bincode LogEntry] [Bincode Snapshot] [Crc32] [App σ]

/-- A proposal is made with no high certificate, or with one of the current epoch. -/
def ProposesCurrentQc (r : Replica σ) (c : Nat × Call) : Prop :=
  ∀ how view, c.2 = .propose how view → r.proposes c.1 view how = true →
    ∀ q ∈ r.highQc, q.epoch = r.configEpoch

omit [Bincode Snapshot] [Bincode LogEntry] [Crc32] [App σ] in
/-- The block a call puts into the tree has a certificate of its epoch exactly when a proposal is
made with one. -/
theorem inserted_epochTrue_iff (r : Replica σ) (c : Nat × Call) :
    (∀ block ∈ r.inserted c, block.EpochTrue) ↔ r.ProposesCurrentQc c := by
  obtain ⟨now, call⟩ := c
  cases call with
  | propose how view =>
    have hiff : (∀ block ∈ r.inserted (now, .propose how view), block.EpochTrue) ↔
        (r.proposes now view how = true → ∀ q ∈ r.highQc, q.epoch = r.configEpoch) := by
      simp only [inserted, proposeBy_eq]
      cases r.proposes now view how with
      | false => simp
      | true =>
        simp only [if_true, Option.mem_def, Option.some.injEq, forall_eq', true_implies]
        exact Iff.rfl
    rw [hiff]
    constructor
    · intro h how' view' hc
      cases hc
      exact h
    · exact fun h => h how view rfl
  | validateAndInsertProposal block =>
    refine iff_of_true (fun b hb => ?_) fun how view hc => by cases hc
    simp only [inserted] at hb
    split at hb
    · rename_i ha
      cases hb
      obtain ⟨-, hepoch, -, hqc⟩ := (r.acceptsProposal_iff block).mp ha
      exact fun q hq => (hqc q hq).1.trans hepoch.symm
    · cases hb
  | _ => exact iff_of_true (fun b hb => by cases hb) fun how view hc => by cases hc

/-- A replica whose tree is keyed and not empty. -/
def KeyedTree (r : Replica σ) : Prop := TreeKeyed r.blockTree ∧ r.blockTree.isEmpty = false

omit [Bincode Snapshot] in
theorem KeyedTree.step {r : Replica σ} (h : r.KeyedTree) (c : Nat × Call) :
    (r.step c).KeyedTree := by
  exact ⟨treeKeyed_step h.1 c, step_filled h.2 c⟩

variable [LawfulBincode LogEntry] [LawfulBincode Snapshot]

/-- A call keeps a replica able to make the round trip exactly when it proposes nothing with a
certificate of another epoch. -/
theorem roundTrips_step_iff {r : Replica σ} (hkeyed : r.KeyedTree) (h : RoundTrips r)
    (c : Nat × Call) : RoundTrips (r.step c) ↔ r.ProposesCurrentQc c := by
  obtain ⟨hvalues, hlog⟩ := (roundTrips_iff hkeyed.1 hkeyed.2).mp h
  have hnext := hkeyed.step c
  rw [roundTrips_iff hnext.1 hnext.2, ← inserted_epochTrue_iff, step_blockTree]
  constructor
  · rintro ⟨htree, -⟩ block hblock
    refine htree block (OrdMap.mem_values.mpr ⟨block.hash, ?_⟩)
    rw [Option.mem_def.mp hblock]
    exact OrdMap.get?_insert_self ..
  · intro hins
    refine ⟨fun block hblock => ?_, fun block hblock => ?_⟩
    · obtain ⟨hash, hget⟩ := OrdMap.mem_values.mp hblock
      cases hnew : r.inserted c with
      | none =>
        rw [hnew] at hget
        exact hvalues block (OrdMap.mem_values.mpr ⟨hash, hget⟩)
      | some new =>
        rw [hnew, insertInto, OrdMap.get?_insert] at hget
        split at hget
        · cases hget
          exact hins _ hnew
        · exact hvalues block (OrdMap.mem_values.mpr ⟨hash, hget⟩)
    · rw [step_committedLog r hkeyed.1] at hblock
      obtain ⟨now, call⟩ := c
      cases call with
      | commitAll =>
        rcases List.mem_append.mp hblock with hold | hready
        · exact hlog block hold
        · exact hvalues block (mem_ready.mp hready).1
      | _ => exact hlog block hblock

/-- Started at genesis, a replica makes the round trip in every state of a run exactly when every
proposal it makes is made without a high certificate or with one of the current epoch. -/
theorem roundTrips_throughout_iff {r : Replica σ} (htree : r.blockTree = genesisTree)
    (hlog : r.committedLog = []) (calls : List (Nat × Call)) :
    Throughout step RoundTrips r calls ↔ Along step ProposesCurrentQc r calls := by
  have hkeyed : r.KeyedTree := by
    refine ⟨htree ▸ treeKeyed_genesis, ?_⟩
    rw [htree]
    rfl
  have hstart : RoundTrips r := by
    refine (roundTrips_iff hkeyed.1 hkeyed.2).mpr ⟨fun block hblock => ?_, fun block hblock => ?_⟩
    · rw [htree] at hblock
      have hgenesis : block = genesisBlock := List.mem_singleton.mp hblock
      rw [hgenesis]
      exact fun q hq => by cases hq
    · rw [hlog] at hblock
      cases hblock
  have hkeep : ∀ (s : Replica σ) (c : Nat × Call), s.KeyedTree → True → (s.step c).KeyedTree :=
    fun s c hs _ => hs.step c
  have hone : ∀ (s : Replica σ) (c : Nat × Call), s.KeyedTree → RoundTrips s →
      (RoundTrips (s.step c) ↔ s.ProposesCurrentQc c) :=
    fun s c hs hp => roundTrips_step_iff hs hp c
  exact throughout_iff_along hkeep hone hkeyed hstart (along_of_forall (fun _ _ => trivial) r calls)

end Run

section Samples

open Sample

/-- The leader that got its join committed proposes with the certificate of the old epoch. -/
def staleProposal : List (Nat × Call) :=
  joinLeaderCalls ++ [(6, .propose (.proposeWithHash 4) 4)]

/-- Up to the commit of the join every snapshot can be taken and recovered. -/
theorem roundTrips_joining : Throughout step RoundTrips (party 3 0) joinLeaderCalls := by
  refine (roundTrips_throughout_iff rfl rfl joinLeaderCalls).mpr ?_
  refine ⟨?_, ?_, ?_, ?_, ?_, trivial⟩
  · intro how view _ _ q hq
    cases hq
  all_goals
    intro how view hc
    cases hc

/-- The block proposed after the join has a certificate of epoch 0; recovery gives it epoch 1. -/
theorem stale_proposal_rewritten :
    (party 3 0).blockTree = genesisTree ∧ (party 3 0).committedLog = [] ∧
      ¬ RoundTrips (run step (party 3 0) staleProposal) := by
  refine ⟨rfl, rfl, fun h => ?_⟩
  have hkeyed : (run step (party 3 0) staleProposal).KeyedTree :=
    run_preserves (I := KeyedTree) (fun s c hs => hs.step c) ⟨treeKeyed_genesis, rfl⟩ staleProposal
  have htrue := ((roundTrips_iff hkeyed.1 hkeyed.2).mp h).1
  revert htrue
  decide +kernel

end Samples

end Replica

end PersistHotStuff
