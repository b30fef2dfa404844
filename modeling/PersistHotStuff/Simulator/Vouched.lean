import PersistHotStuff.Cluster.Roster
import PersistHotStuff.Simulator.FreshHash
import PersistHotStuff.Simulator.Join
import PersistHotStuff.Simulator.Ledger

/-!
# Commands are vouched for

A block reaches a tree with the command it was proposed with. Snapshots keep the
command, the log on disk forgets it, and neither makes one up. So the command of
a block in a tree, in a log or on disk is one that was proposed under its hash,
or none.
-/

namespace PersistHotStuff

open Basis

/-- The command of a block is one proposed under its hash, or none. -/
def Vouched (blocks : List Block) (block : Block) : Prop :=
  block.command = .noOp ∨ ∃ b ∈ blocks, b.hash = block.hash ∧ b.command = block.command

theorem Vouched.mono {blocks more : List Block} (hsub : ∀ b ∈ blocks, b ∈ more) {block : Block}
    (h : Vouched blocks block) : Vouched more block :=
  h.imp_right fun ⟨b, hb, hsame⟩ => ⟨b, hsub b hb, hsame⟩

theorem vouched_of_mem {blocks : List Block} {block : Block} (h : block ∈ blocks) :
    Vouched blocks block :=
  .inr ⟨block, h, rfl, rfl⟩

/-- Storage keeps hash and command. -/
theorem Vouched.toBlock {blocks : List Block} {block : Block} (h : Vouched blocks block) :
    Vouched blocks (SerializableBlock.fromBlock block).toBlock := h

/-- Every block of a tree and of a log is vouched for. -/
structure VouchedState (blocks : List Block) (tree : OrdMap Hash Block) (log : List Block) : Prop
    where
  keyed : TreeKeyed tree
  tree : ∀ b ∈ tree.values, Vouched blocks b
  log : ∀ b ∈ log, Vouched blocks b

namespace VouchedState

variable {blocks : List Block} {tree : OrdMap Hash Block} {log : List Block}

theorem mono {more : List Block} (hsub : ∀ b ∈ blocks, b ∈ more)
    (h : VouchedState blocks tree log) : VouchedState more tree log :=
  ⟨h.keyed, fun b hb => (h.tree b hb).mono hsub, fun b hb => (h.log b hb).mono hsub⟩

theorem insert (h : VouchedState blocks tree log) {hash : Hash} {block : Block}
    (hhash : block.hash = hash) (hblock : Vouched blocks block) :
    VouchedState blocks (tree.insert hash block) log := by
  subst hhash
  refine ⟨h.keyed.insert block, fun b hb => ?_, h.log⟩
  obtain ⟨key, hget⟩ := OrdMap.mem_values.mp hb
  rw [OrdMap.get?_insert] at hget
  split at hget
  · exact Option.some.inj hget ▸ hblock
  · exact h.tree b (OrdMap.mem_values.mpr ⟨key, hget⟩)

/-- A replay vouches for what the base vouches for: the blocks it rebuilds carry no command. -/
theorem replayEntries {entries : List LogEntry} {st st' : Recovered}
    (h : VouchedState blocks st.blockTree st.committedLog)
    (hreplay : replayEntries entries st = .ok st') :
    VouchedState blocks st'.blockTree st'.committedLog := by
  refine replayEntries_preserves
    (I := fun st => VouchedState blocks st.blockTree st.committedLog) ?_ hreplay h
  intro entry _ st st' h hone
  cases entry with
  | blockInserted hash parent view epoch proposer qcBlockHash qcView command timestamp =>
    cases hone
    exact h.insert rfl (.inl rfl)
  | blockCommitted hash parent view epoch proposer command commitIndex timestamp =>
    simp only [replayEntry] at hone
    split at hone
    · cases hone
    · cases hone
      refine ⟨h.keyed, h.tree, fun b hb => ?_⟩
      rcases List.mem_append.mp hb with hb | hb
      · exact h.log b hb
      · rw [List.mem_singleton.mp hb]
        exact .inl rfl
  | _ =>
    cases hone
    exact h

end VouchedState

/-- What is rebuilt from a snapshot is vouched for. -/
def VouchedSnapshot (blocks : List Block) (snap : Option Snapshot) : Prop :=
  VouchedState blocks (baseState snap).blockTree (baseState snap).committedLog

theorem vouchedSnapshot_none (blocks : List Block) : VouchedSnapshot blocks none :=
  ⟨baseState_keyed none, fun b hb => (by cases hb), fun b hb => (by cases hb)⟩

/-- A snapshot of a vouched state. -/
theorem VouchedState.captureSnapshot {σ : Type} [App σ] {blocks : List Block} {r : Replica σ}
    (h : VouchedState blocks r.blockTree r.committedLog) (now : Nat) :
    VouchedSnapshot blocks (some (r.captureSnapshot now)) := by
  have hstored : ∀ stored : List Block, (∀ b ∈ stored, Vouched blocks b) →
      ∀ tree : OrdMap Hash Block, (∀ b ∈ tree.values, Vouched blocks b) →
      ∀ b ∈ (((stored.map SerializableBlock.fromBlock).map fun b => (b.hash, b.toBlock)).foldl
        (fun m p => m.insert p.1 p.2) tree).values, Vouched blocks b := by
    intro stored
    induction stored with
    | nil => exact fun _ _ htree => htree
    | cons block stored ih =>
      intro hall tree htree
      obtain ⟨hblock, hrest⟩ := List.forall_mem_cons.mp hall
      refine ih hrest _ fun b hb => ?_
      obtain ⟨key, hget⟩ := OrdMap.mem_values.mp hb
      rw [OrdMap.get?_insert] at hget
      split at hget
      · exact Option.some.inj hget ▸ hblock.toBlock
      · exact htree b (OrdMap.mem_values.mpr ⟨key, hget⟩)
  refine ⟨baseState_keyed _, ?_, fun b hb => ?_⟩
  · exact hstored r.blockTree.values h.tree OrdMap.empty fun b hb => (by cases hb)
  · obtain ⟨stored, hstored, rfl⟩ := List.mem_map.mp hb
    obtain ⟨block, hblock, rfl⟩ := List.mem_map.mp hstored
    exact (h.log block hblock).toBlock

namespace Simulation

section Seats

variable {σ : Type} [Bincode Snapshot] [Sha256] {blocks : List Block}

/-- A live replica whose blocks are vouched for, in memory and in its newest snapshot. -/
structure LiveVouched (blocks : List Block) (r : Replica σ) (dir : Option DataDir) : Prop where
  state : VouchedState blocks r.blockTree r.committedLog
  disk : ∀ d ∈ dir, ∃ snap, Node.Stored ⟨r, d⟩ snap ∧ VouchedSnapshot blocks snap

/-- A directory whose newest snapshot is vouched for. -/
def VouchedDir (blocks : List Block) (dir : DataDir) : Prop :=
  ∃ snap, StoreHolds dir snap ∧ dir.walTmp = none ∧ VouchedSnapshot blocks snap

theorem LiveVouched.mono {more : List Block} (hsub : ∀ b ∈ blocks, b ∈ more) {r : Replica σ}
    {dir : Option DataDir} (h : LiveVouched blocks r dir) : LiveVouched more r dir := by
  refine ⟨h.state.mono hsub, fun d hd => ?_⟩
  obtain ⟨snap, hstored, hsnap⟩ := h.disk d hd
  exact ⟨snap, hstored, hsnap.mono hsub⟩

theorem VouchedDir.mono {more : List Block} (hsub : ∀ b ∈ blocks, b ∈ more) {dir : DataDir}
    (h : VouchedDir blocks dir) : VouchedDir more dir := by
  obtain ⟨snap, hstore, hnoTmp, hsnap⟩ := h
  exact ⟨snap, hstore, hnoTmp, hsnap.mono hsub⟩

/-- What a live replica leaves on disk. -/
theorem LiveVouched.onDisk {r : Replica σ} {dir : DataDir} (h : LiveVouched blocks r (some dir)) :
    VouchedDir blocks (r.onDisk dir) := by
  obtain ⟨snap, hstored, hsnap⟩ := h.disk dir rfl
  exact ⟨snap, hstored.onDisk.1, hstored.onDisk.2, hsnap⟩

variable [Bincode LogEntry] [Crc32]

/-- A replica opened from such a directory. -/
theorem VouchedDir.openReplica [LawfulBincode Snapshot] {dir : DataDir}
    (h : VouchedDir blocks dir) {now id : Nat} {config : Config} {keystore : KeyStore}
    {opened : Replica σ} (hok : openReplica now id config keystore dir = .ok opened) :
    LiveVouched blocks opened (some dir) := by
  obtain ⟨snap, hstore, hnoTmp, hsnap⟩ := h
  obtain ⟨disk, wal, log, hrec, -, rfl⟩ := Node.openReplica_ok_iff.mp hok
  obtain ⟨base, st, hbase, hlog, rfl⟩ := recover_ok_iff.mp hrec
  rw [loadBase_of_storeHolds hstore] at hbase
  cases hbase
  rw [baseOf_state] at hlog
  have hst : VouchedState blocks st.blockTree st.committedLog := by
    rcases replayLog_cases hlog with rfl | ⟨entries, hreplay⟩
    · exact hsnap
    · exact hsnap.replayEntries hreplay
  refine ⟨?_, fun d hd => ?_⟩
  · simp only [Replica.attachWal, buildReplica]
    split
    · exact hst.insert rfl (.inl rfl)
    · exact hst
  · cases hd
    exact ⟨snap, ⟨hstore, hnoTmp, fun seq hseq => hstore.below hseq⟩, hsnap⟩

omit [Bincode Snapshot] [Sha256] in
/-- Catching up takes over vouched blocks only. -/
theorem vouchedState_synced {r : Replica σ} (h : VouchedState blocks r.blockTree r.committedLog)
    {others : List (Replica σ)}
    (hothers : ∀ s ∈ others, VouchedState blocks s.blockTree s.committedLog) (now : Nat) :
    VouchedState blocks (synced now others r).blockTree (synced now others r).committedLog := by
  refine synced_preserves
    (I := fun s : Replica σ => VouchedState blocks s.blockTree s.committedLog) (fun _ h => h) h
    fun donor hdonor => ?_
  have hdonor := hothers donor (List.mem_of_head? hdonor)
  rw [syncFrom_eq]
  refine ⟨treeKeyed_importBlocks h.keyed hdonor.keyed, fun b hb => ?_, fun b hb => ?_⟩
  · obtain ⟨key, hget⟩ := OrdMap.mem_values.mp hb
    rw [get?_importBlocks] at hget
    rcases Option.or_eq_some_iff.mp hget with hget | ⟨-, hget⟩
    · exact h.tree b (OrdMap.mem_values.mpr ⟨key, hget⟩)
    · exact hdonor.tree b (OrdMap.mem_values.mpr ⟨key, hget⟩)
  · simp only [adoptLog] at hb
    split at hb
    · exact hdonor.log b hb
    · exact h.log b hb

variable [App σ]

theorem LiveVouched.takeSnapshot {r : Replica σ} {dir : DataDir}
    (h : LiveVouched blocks r (some dir)) (now : Nat) :
    LiveVouched blocks (r.takeSnapshot now dir).2.1 (some (r.takeSnapshot now dir).2.2) := by
  obtain ⟨snap, hstored, -⟩ := h.disk dir rfl
  refine ⟨?_, fun d hd => ?_⟩
  · rw [takeSnapshot_replica]
    exact h.state
  · cases hd
    exact ⟨_, (hstored.takeSnapshot now).1, h.state.captureSnapshot now⟩

variable [Ed25519]

/-- A call that inserts a proposed block. -/
theorem LiveVouched.call {r : Replica σ} {dir : Option DataDir} (h : LiveVouched blocks r dir)
    {c : Nat × Call} (hins : ∀ b ∈ r.inserted c, b ∈ blocks) :
    LiveVouched blocks (r.step c) dir := by
  have htree : VouchedState blocks (r.step c).blockTree r.committedLog := by
    rw [Replica.step_blockTree]
    cases hin : r.inserted c with
    | none => exact h.state
    | some block => exact h.state.insert rfl (vouched_of_mem (hins block hin))
  refine ⟨⟨htree.keyed, htree.tree, fun b hb => ?_⟩, fun d hd => ?_⟩
  · rw [Replica.step_committedLog r h.state.keyed] at hb
    split at hb
    · rcases List.mem_append.mp hb with hb | hb
      · exact h.state.log b hb
      · exact h.state.tree b (Replica.mem_ready.mp hb).1
    · exact h.state.log b hb
  · obtain ⟨snap, hstored, hsnap⟩ := h.disk d hd
    refine ⟨snap, ⟨hstored.store, hstored.noTmp, fun seq hseq => ?_⟩, hsnap⟩
    rw [Replica.step_snapshotCounter]
    exact hstored.below seq hseq

/-- Every seat holds vouched blocks. -/
def VouchedSeats (blocks : List Block) (sim : Simulation σ) : Prop :=
  Seated (LiveVouched blocks) (fun _ dir => ∀ d ∈ dir, VouchedDir blocks d) sim

variable [LawfulBincode Snapshot]

/-- Every step and every operation keeps to the blocks proposed. -/
theorem vouched_rule : LedgerRule (σ := σ) VouchedSeats where
  mono hsub h := Seated.mono h (fun _ _ h => h.mono hsub) fun _ _ h d hd => (h d hd).mono hsub
  rule blocks :=
    { call := fun sim i r c h hr ha hins => Seated.replace h (not_crashed_of_available ha)
        (fun _ _ => rfl) ((h.live i r hr (not_crashed_of_available ha)).call hins)
      snapshot := fun sim i r dir now h hr ha hdir => by
        have hi := not_crashed_of_available ha
        refine Seated.replace h hi (fun j hj => List.getElem?_set_ne (Ne.symm hj)) ?_
        have hlive := h.live i r hr hi
        rw [hdir] at hlive
        rw [List.getElem?_set_self (List.getElem?_eq_some_iff.mp hdir).1]
        exact hlive.takeSnapshot now
      respond := fun sim i h => ⟨h.live, h.left⟩
      network := fun sim net h _ => ⟨h.live, h.left⟩ }
  clock _ _ h := ⟨h.live, h.left⟩
  bump _ _ h := ⟨h.live, h.left⟩
  crash _ _ _ _ _ h hok := by
    refine Seated.crash h (fun _ r dir keystore hlive d hd => ?_) hok
    obtain ⟨d', hd', rfl⟩ := Option.map_eq_some_iff.mp hd
    rw [Option.mem_def.mp hd'] at hlive
    exact hlive.onDisk
  recover blocks now sim i _ h hok := by
    refine Seated.recover h (fun r keystore dir opened hr hi hdir hopen => ?_) hok
    have hopened := (h.left _ r hr hi dir hdir).openReplica hopen
    obtain ⟨snap, hstored, hsnap⟩ := hopened.disk dir rfl
    have hothers : ∀ s ∈ sim.liveOthers i, VouchedState blocks s.blockTree s.committedLog := by
      intro s hs
      obtain ⟨j, hj, -, hlive⟩ := mem_liveOthers hs
      exact (h.live j s hj hlive).state
    have hstate := vouchedState_synced hopened.state hothers now
    rw [rejoin_eq]
    refine LiveVouched.takeSnapshot ⟨hstate, fun d hd => ?_⟩ now
    cases hd
    refine ⟨snap, ⟨hstored.store, hstored.noTmp, fun seq hseq => ?_⟩, hsnap⟩
    rw [synced_snapshotCounter]
    exact hstored.below seq hseq
  interrupt _ _ _ _ _ h hok := Seated.setReplicaUnresponsive h hok
  configure blocks now sim call replicas h hquiet hreplicas := by
    refine Seated.configure h fun i r' hr' => ?_
    obtain ⟨r, hr, rfl | rfl⟩ := hreplicas i r' hr'
    · exact ⟨_, hr, fun dir => ⟨id, id⟩⟩
    · refine ⟨r, hr, fun dir => ⟨fun hlive => hlive.call fun b hb => ?_, id⟩⟩
      rw [hquiet] at hb
      cases hb

end Seats

section Programs

variable {σ : Type} [Bincode Snapshot] [Sha256] {blocks : List Block}

theorem vouchedDir_empty (blocks : List Block) : VouchedDir blocks DataDir.empty :=
  ⟨none, rfl, rfl, vouchedSnapshot_none blocks⟩

/-- What a simulation leaves behind is vouched for. -/
theorem VouchedSeats.leaves {sim : Simulation σ} (h : VouchedSeats blocks sim) {id : Nat}
    {dir : DataDir} (hleaves : sim.leaves id = some dir) : VouchedDir blocks dir := by
  rw [Simulation.leaves] at hleaves
  split at hleaves
  · rename_i r d hr hd
    cases hleaves
    split
    · rename_i hi
      exact h.left id r hr hi d hd
    · rename_i hi
      have hlive := h.live id r hr hi
      rw [hd] at hlive
      exact hlive.onDisk
  · cases hleaves

variable [Ed25519]

/-- Without persistence a simulation starts with genesis, which carries no command. -/
theorem vouchedSeats_new (blocks : List Block) (now f maxSteps : Nat)
    (allKeys : List (ReplicaId × Bytes)) :
    VouchedSeats blocks (Simulation.new (σ := σ) now f maxSteps allKeys) := by
  refine ⟨fun i r hr _ => ?_, fun i r _ hi => absurd hi (Finset.notMem_empty i)⟩
  simp only [Simulation.new, start, List.getElem?_mapIdx, Option.map_eq_some_iff] at hr
  obtain ⟨ks, -, rfl⟩ := hr
  refine ⟨?_, fun d hd => by cases hd⟩
  have hgenesis : VouchedState blocks genesisTree [] := by
    have hnone : VouchedState blocks OrdMap.empty [] :=
      ⟨fun _ _ h => (by cases h), fun b hb => (by cases hb), fun b hb => (by cases hb)⟩
    exact hnone.insert rfl (.inl rfl)
  simp only [freshReplica, Replica.ensureDefaultValidators]
  split <;> exact hgenesis

/-- A new program holds what is vouched for if every directory it opens does. -/
theorem vouchedSeats_of_dirs [Bincode LogEntry] [Crc32] [LawfulBincode Snapshot]
    {now f maxSteps : Nat} {allKeys : List (ReplicaId × Bytes)} {dirs : List DataDir}
    {sim : Simulation σ}
    (hok : Simulation.newWithPersistence now f maxSteps allKeys dirs = .ok sim)
    (hdirs : ∀ (id : Nat) dir, dirs[id]? = some dir → VouchedDir blocks dir) :
    VouchedSeats blocks sim := by
  obtain ⟨replicas, rfl, -, hslots⟩ := newWithPersistence_slots hok
  refine ⟨fun i r hr _ => ?_, fun i r _ hi => absurd hi (Finset.notMem_empty i)⟩
  obtain ⟨ks, dir, -, hdir, hopened⟩ := hslots i r hr
  have hlive := (hdirs i dir hdir).openReplica hopened
  show LiveVouched blocks r dirs[i]?
  rwa [hdir]

end Programs

end Simulation

end PersistHotStuff
