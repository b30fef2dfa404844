import PersistHotStuff.Durability.Commands
import PersistHotStuff.Durability.SnapshotCrash
import PersistHotStuff.Durability.StrayBytes

/-!
# Replicas that stop at any byte

A replica may stop at any byte it writes, in a call or in a snapshot, and go on
with what recovery makes of its directory, again and again. What its log holds
is then known from the bytes that were stray when it was opened last and from
the records written since.
-/

namespace PersistHotStuff

open Basis

/-- What happens to a node whose process may stop at any byte. -/
inductive CrashOp
  | op (op : NodeOp)
  /-- The process stops when `k` bytes of the records of a call are written, and is recovered
  later. -/
  | cutCall (call : Call) (k later : Nat) (config : Config) (keystore : KeyStore)
  /-- The process stops in the course of a snapshot, and is recovered later. -/
  | cutSnapshot (cut : SnapshotCut) (later : Nat) (config : Config) (keystore : KeyStore)
  deriving DecidableEq

/-- A node with what is known of its log: the stray bytes it had when it was opened last, and the
records written behind them. -/
structure Life (σ : Type) where
  node : Node σ
  stray : Bytes
  behind : List LogEntry
  deriving DecidableEq

namespace Node

variable {σ : Type}

/-- Whose name the log bears. -/
def logOwner (node : Node σ) : ReplicaId :=
  (node.replica.wal.map WAL.replicaId).getD node.replica.config.id

variable [App σ] [Bincode LogEntry] [Bincode Snapshot] [Crc32] [Sha256]

/-- What is on disk when a snapshot is cut. -/
def cutSnapshot (node : Node σ) (now : Nat) (cut : SnapshotCut) : DataDir :=
  cut.disk now node.replica node.logOwner (node.replica.onDisk node.dir)

/-- The snapshot of the node can be cut there. -/
def InBounds (node : Node σ) (now : Nat) (cut : SnapshotCut) : Prop :=
  cut.InBounds now node.replica node.logOwner (node.replica.onDisk node.dir)

instance (node : Node σ) (now : Nat) (cut : SnapshotCut) : Decidable (node.InBounds now cut) :=
  inferInstanceAs (Decidable (cut.InBounds ..))

/-- What is on disk when a call is cut after `k` bytes of its records. -/
def cutCall [Ed25519] (node : Node σ) (c : Nat × Call) (k : Nat) : DataDir :=
  { node.replica.onDisk node.dir with
    wal := (node.replica.onDisk node.dir).wal.map
      (· ++ (frames Crc32.hash Bincode.serialize (node.replica.records c)).take k) }

end Node

namespace Life

variable {σ : Type} [Bincode LogEntry] [Bincode Snapshot] [Crc32] [Sha256]

/-- The life goes on with what is recovered from a disk; a recovery that fails changes nothing. -/
def recoverFrom (life : Life σ) (later : Nat) (config : Config) (keystore : KeyStore)
    (d : DataDir) : Life σ :=
  match recover later config keystore d with
  | .ok (r, wal) => ⟨⟨r.attachWal wal, d⟩, leftoverBytes wal.file.bytes, []⟩
  | .error _ => life

variable [Ed25519] [App σ]

/-- One operation, or one that is cut. -/
def step (life : Life σ) (op : Nat × CrashOp) : Life σ :=
  match op.2 with
  | .op (.call call) =>
      { life with
        node := life.node.step (op.1, .call call)
        behind := life.behind ++ life.node.records (op.1, .call call) }
  | .op .takeSnapshot =>
      match life.node.replica.takeSnapshot op.1 life.node.dir with
      | (.ok (), replica, dir) => ⟨⟨replica, dir⟩, [], []⟩
      | (.error _, replica, dir) =>
          { life with
            node := ⟨replica, dir⟩
            behind := life.behind ++ life.node.records (op.1, .takeSnapshot) }
  | .op (.restart config keystore) =>
      life.recoverFrom op.1 config keystore (life.node.replica.onDisk life.node.dir)
  | .cutCall call k later config keystore =>
      life.recoverFrom later config keystore (life.node.cutCall (op.1, call) k)
  | .cutSnapshot cut later config keystore =>
      life.recoverFrom later config keystore (life.node.cutSnapshot op.1 cut)

/-- The records fit their frames, and snapshots are cut where they can be. -/
def Admits (life : Life σ) (op : Nat × CrashOp) : Prop :=
  match op.2 with
  | .op nodeOp => life.node.ShortRecords (op.1, nodeOp)
  | .cutCall call _ _ _ _ => life.node.ShortRecords (op.1, .call call)
  | .cutSnapshot cut _ _ _ =>
      life.node.ShortRecords (op.1, .takeSnapshot) ∧ life.node.InBounds op.1 cut

instance (life : Life σ) : (op : Nat × CrashOp) → Decidable (life.Admits op)
  | (now, .op nodeOp) => inferInstanceAs (Decidable (life.node.ShortRecords (now, nodeOp)))
  | (now, .cutCall call _ _ _ _) =>
      inferInstanceAs (Decidable (life.node.ShortRecords (now, .call call)))
  | (now, .cutSnapshot cut _ _ _) =>
      inferInstanceAs (Decidable
        (life.node.ShortRecords (now, .takeSnapshot) ∧ life.node.InBounds now cut))

/-- Without interruptions the life of a node is its history. -/
theorem step_node (life : Life σ) (now : Nat) (op : NodeOp) :
    (life.step (now, .op op)).node = life.node.step (now, op) := by
  cases op with
  | call call => rfl
  | takeSnapshot =>
    simp only [step, Node.step]
    rcases life.node.replica.takeSnapshot now life.node.dir with ⟨_ | _, _, _⟩ <;> rfl
  | restart config keystore =>
    simp only [step, Node.step, recoverFrom, Node.restart]
    cases recover (σ := σ) now config keystore (life.node.replica.onDisk life.node.dir) <;> rfl

end Life

/-- The number of the snapshot after the latest. -/
def nextNumber : Option Snapshot → Nat
  | none => 0
  | some snap => snap.snapshotId + 1

theorem snapshotCounter_baseOf (n : Nat) (snap : Option Snapshot) :
    (baseOf n snap).snapshotCounter = nextNumber snap := by
  cases snap <;> rfl

/-- The numbers of the snapshot files are used up. -/
theorem StoreHolds.lt_nextNumber [Bincode Snapshot] [Sha256] {d : DataDir}
    {snap : Option Snapshot} (h : StoreHolds d snap) :
    ∀ seq, d.bins.contains seq = true → seq < nextNumber snap := by
  intro seq hseq
  rw [← snapshotCounter_baseOf 0]
  exact h.below hseq

section Disk

variable [Bincode Snapshot] [Sha256]

/-- A directory with a newest snapshot, a log, and no checksum of a later snapshot. -/
structure DiskHolds (d : DataDir) (snap : Option Snapshot) (bytes : Bytes) : Prop where
  store : StoreHolds d snap
  shas : ∀ seq, d.shas.contains seq = true → seq < nextNumber snap
  log : d.wal = some bytes

namespace Life

variable {σ : Type} [Bincode LogEntry] [Crc32]

/-- What is known of a node from its life: the log file is what was opened last, entries and stray
bytes, and the records written since. These replay over the newest snapshot to where the replica
stands. -/
structure Logged (life : Life σ) (snap : Option Snapshot) (opened : Bytes)
    (entries : List LogEntry) : Prop where
  keyed : TreeKeyed life.node.replica.blockTree
  split : LogSplit opened entries life.stray
  log : ∃ wal, life.node.replica.wal = some wal ∧ wal.Extends opened life.behind
  short : ∀ entry ∈ life.behind, ShortPayload entry
  store : StoreHolds life.node.dir snap
  counter : life.node.replica.snapshotCounter = nextNumber snap
  shas : ∀ seq, life.node.dir.shas.contains seq = true → seq < nextNumber snap
  replays : ∃ st, replayEntries (entries ++ life.behind) (baseState snap) = .ok st ∧
    st.pointers = life.node.replica.pointers

/-- The life of a node, unless a temporary log has been left behind. -/
def Sound (life : Life σ) : Prop :=
  life.node.dir.walTmp = none → ∃ snap opened entries, life.Logged snap opened entries

/-- What a logged node leaves on disk. -/
theorem Logged.onDisk {life : Life σ} {snap : Option Snapshot} {opened : Bytes}
    {entries : List LogEntry} (h : life.Logged snap opened entries) :
    DiskHolds (life.node.replica.onDisk life.node.dir) snap
      (opened ++ frames Crc32.hash Bincode.serialize life.behind) := by
  obtain ⟨wal, hwal, hextends⟩ := h.log
  have hdisk : life.node.replica.onDisk life.node.dir =
      { life.node.dir with wal := some wal.file.bytes } := by
    rw [Replica.onDisk, hwal]
  rw [hdisk]
  refine ⟨?_, h.shas, congrArg some hextends.bytes⟩
  have hstore := h.store
  cases snap with
  | none => exact hstore
  | some snap => exact hstore

/-- A replica that is recovered from a directory is logged, with nothing written yet. -/
theorem logged_of_recover [LawfulBincode Snapshot] {d : DataDir} {snap : Option Snapshot}
    {bytes : Bytes} (h : DiskHolds d snap bytes) {later : Nat} {config : Config}
    {keystore : KeyStore} {r : Replica σ} {wal : WAL}
    (hrec : recover later config keystore d = .ok (r, wal)) :
    ∃ entries, Logged ⟨⟨r.attachWal wal, d⟩, leftoverBytes wal.file.bytes, []⟩ snap bytes
      entries := by
  obtain ⟨entries, st, stray, hsplit, hreplay, rfl, rfl⟩ :=
    (recover_ok_iff_logSplit h.store h.log).mp hrec
  refine ⟨entries, ?_, ?_, ⟨_, rfl, (List.append_nil _).symm, rfl, rfl⟩, fun e he => (by cases he),
    h.store, snapshotCounter_baseOf config.n snap, h.shas, st, ?_, rfl⟩
  · exact buildReplica_keyed (σ := σ) (replayEntries_keyed (baseState_keyed snap) hreplay) later
      config keystore (baseOf config.n snap)
  · show LogSplit bytes entries (leftoverBytes bytes)
    rw [hsplit.leftoverBytes_eq]
    exact hsplit
  · show replayEntries (entries ++ []) (baseState snap) = .ok st
    rw [List.append_nil]
    exact hreplay

/-- A life that goes on from a directory is sound, if a directory without a temporary log holds a
snapshot and a log, or cannot be recovered from. -/
theorem Sound.recoverFrom [LawfulBincode Snapshot] {life : Life σ} (h : life.Sound) {d : DataDir}
    (hd : d.walTmp = none → (∃ snap bytes, DiskHolds d snap bytes) ∨
      ∃ e, e ≠ .notFound ∧ Snapshot.loadLatest d = .error e) (later : Nat) (config : Config)
    (keystore : KeyStore) : (life.recoverFrom later config keystore d).Sound := by
  rw [Life.recoverFrom]
  cases hrec : recover (σ := σ) later config keystore d with
  | error e => exact h
  | ok p =>
    obtain ⟨r, wal⟩ := p
    intro htmp
    rcases hd htmp with ⟨snap, bytes, hdisk⟩ | ⟨e, hne, hload⟩
    · obtain ⟨entries, hlogged⟩ := logged_of_recover hdisk hrec
      exact ⟨snap, bytes, entries, hlogged⟩
    · rw [recover_eq_error hne hload] at hrec
      cases hrec

end Life

end Disk

section Cuts

variable {σ : Type} [App σ] [Bincode Snapshot] [Sha256] {r : Replica σ} {d : DataDir}
  {snap : Option Snapshot} {bytes : Bytes} (now : Nat)

omit [App σ] in
/-- The number of the next snapshot is not taken. -/
theorem DiskHolds.fresh (h : DiskHolds d snap bytes)
    (hcounter : r.snapshotCounter = nextNumber snap) :
    (∀ seq, d.bins.contains seq = true → seq < r.snapshotCounter) ∧
      ∀ seq, d.shas.contains seq = true → seq < r.snapshotCounter := by
  rw [hcounter]
  exact ⟨h.store.lt_nextNumber, h.shas⟩

/-- Saving a snapshot uses its number up. -/
theorem shas_save (hshas : ∀ seq, d.shas.contains seq = true → seq < r.snapshotCounter) :
    ∀ seq, ((r.captureSnapshot now).save d).shas.contains seq = true →
      seq < nextNumber (some (r.captureSnapshot now)) := by
  intro seq hseq
  simp only [Snapshot.save, OrdMap.contains_insert, Bool.or_eq_true, decide_eq_true_eq] at hseq
  rcases hseq with rfl | hseq
  · exact Nat.lt_succ_self _
  · exact Nat.lt_succ_of_lt (hshas seq hseq)

/-- A complete snapshot file counts beside the old log. -/
theorem DiskHolds.snapshotFile (h : DiskHolds d snap bytes)
    (hcounter : r.snapshotCounter = nextNumber snap) :
    DiskHolds ((binEffect now r).complete d) (some (r.captureSnapshot now)) bytes := by
  obtain ⟨hbelow, hshas⟩ := h.fresh hcounter
  exact ⟨storeHolds_snapshotFile now hbelow hshas,
    fun seq hseq => Nat.lt_succ_of_lt (hshas seq hseq), h.log⟩

/-- So does a saved one. -/
theorem DiskHolds.saved (h : DiskHolds d snap bytes)
    (hcounter : r.snapshotCounter = nextNumber snap) :
    DiskHolds (savedDisk now r d) (some (r.captureSnapshot now)) bytes := by
  obtain ⟨hbelow, hshas⟩ := h.fresh hcounter
  rw [savedDisk_eq]
  exact ⟨storeHolds_save hbelow, shas_save now hshas, h.log⟩

variable [Bincode LogEntry] [Crc32]

/-- A part of the record goes behind the old log. -/
theorem DiskHolds.recorded (h : DiskHolds d snap bytes)
    (hcounter : r.snapshotCounter = nextNumber snap) (k : Nat) :
    DiskHolds ((recordEffect now r).part k (savedDisk now r d)) (some (r.captureSnapshot now))
      (bytes ++ (snapshotFrame now r).take k) := by
  obtain ⟨hstore, hshas, hlog⟩ := h.saved now hcounter
  refine ⟨hstore, hshas, ?_⟩
  show (savedDisk now r d).wal.map (· ++ (snapshotFrame now r).take k) = _
  rw [hlog]
  rfl

/-- Once the log is replaced, the removals keep the snapshot beside a fresh log. -/
theorem DiskHolds.renamed (h : DiskHolds d snap bytes)
    (hcounter : r.snapshotCounter = nextNumber snap) (replicaId : ReplicaId) (k : Nat) :
    DiskHolds ((SnapshotCut.renamed k).disk now r replicaId d) (some (r.captureSnapshot now))
        (walHeader now replicaId) ∧
      ((SnapshotCut.renamed k).disk now r replicaId d).walTmp = none := by
  obtain ⟨hstore, hshas, -⟩ := h.saved now hcounter
  have hheader : (walHeader now replicaId).take headerSize = walHeader now replicaId :=
    List.take_of_length_le (length_walHeader ..).le
  have hnew : (r.captureSnapshot now).snapshotId ∉ expired (renamedDisk now r replicaId d) 3 :=
    last_not_expired hstore.1 (by decide)
  obtain ⟨hstore', hwal, htmp, hshas'⟩ := storeHolds_removals
    (d := renamedDisk now r replicaId d) hnew (fun e he => List.mem_of_mem_take he) hstore
  exact ⟨⟨hstore', fun seq hseq => hshas seq (hshas' seq hseq),
    hwal.trans (congrArg some hheader)⟩, htmp⟩

/-- A cut that leaves no temporary log leaves a snapshot and a log, or a snapshot that cannot be
read. -/
theorem DiskHolds.cut [StrictBincode Snapshot] (h : DiskHolds d snap bytes)
    (hcounter : r.snapshotCounter = nextNumber snap) {replicaId : ReplicaId} {cut : SnapshotCut}
    (hcut : cut.InBounds now r replicaId d) (htmp : (cut.disk now r replicaId d).walTmp = none) :
    (∃ snap bytes, DiskHolds (cut.disk now r replicaId d) snap bytes) ∨
      ∃ e, e ≠ .notFound ∧ Snapshot.loadLatest (cut.disk now r replicaId d) = .error e := by
  obtain ⟨hbelow, hshas⟩ := h.fresh hcounter
  cases cut with
  | untouched => exact .inl ⟨snap, bytes, h⟩
  | snapshotFile k =>
    rcases Nat.lt_or_eq_of_le hcut with hk | rfl
    · exact .inr ⟨_, by decide, loadLatest_snapshotFile now hbelow hshas hk⟩
    · exact .inl ⟨_, _, h.snapshotFile now hcounter⟩
  | checksumFile k =>
    rcases Nat.lt_or_eq_of_le hcut with hk | rfl
    · obtain ⟨expected, actual, hload⟩ := loadLatest_checksumFile now hbelow hk
      exact .inr ⟨_, by simp, hload⟩
    · exact .inl ⟨_, _, h.saved now hcounter⟩
  | logRecord k => exact .inl ⟨_, _, h.recorded now hcounter k⟩
  | temporaryLog k => cases htmp
  | renamed k => exact .inl ⟨_, _, (h.renamed now hcounter replicaId k).1⟩

end Cuts

namespace Life

variable {σ : Type} [Ed25519] [App σ] [Bincode LogEntry] [Bincode Snapshot] [Crc32] [Sha256]

/-- A call writes its records behind the others. -/
theorem Logged.call {life : Life σ} {snap : Option Snapshot} {opened : Bytes}
    {entries : List LogEntry} (h : life.Logged snap opened entries) {c : Nat × Call}
    (hshort : ∀ entry ∈ life.node.replica.records c, ShortPayload entry) :
    Logged
      { life with
        node := { life.node with replica := life.node.replica.step c }
        behind := life.behind ++ life.node.replica.records c } snap opened entries := by
  obtain ⟨wal, hwal, hextends⟩ := h.log
  obtain ⟨st, hreplay, hst⟩ := h.replays
  obtain ⟨st', hreplay', hst'⟩ := Replica.replay_records_pointers h.keyed hst c
  refine ⟨Replica.treeKeyed_step h.keyed c, h.split, ?_, ?_, h.store, ?_, h.shas, st', ?_, hst'⟩
  · refine ⟨_, ?_, hextends.appendAll (life.node.replica.records c)⟩
    rw [Replica.step_wal _ h.keyed, hwal]
    rfl
  · intro entry he
    rcases List.mem_append.mp he with he | he
    · exact h.short entry he
    · exact hshort entry he
  · exact (Replica.step_snapshotCounter _ c).trans h.counter
  · rw [← List.append_assoc, replayEntries_append, hreplay]
    exact hreplay'

/-- A snapshot that completes leaves itself and a fresh log. -/
theorem Logged.takeSnapshot {life : Life σ} {snap : Option Snapshot} {opened : Bytes}
    {entries : List LogEntry} (h : life.Logged snap opened entries)
    (htmp : life.node.dir.walTmp = none) (now : Nat) :
    ∃ opened, Logged (life.step (now, .op .takeSnapshot))
      (some (life.node.replica.captureSnapshot now)) opened [] := by
  obtain ⟨wal, hwal, hextends⟩ := h.log
  have hsaved : StoreHolds ((life.node.replica.captureSnapshot now).save life.node.dir)
      (some (life.node.replica.captureSnapshot now)) := by
    refine storeHolds_save fun seq hseq => ?_
    exact (h.store.lt_nextNumber seq hseq).trans_eq h.counter.symm
  have hstep : life.step (now, .op .takeSnapshot) =
      ⟨⟨{ life.node.replica with
          wal := some
            { file := ⟨walHeader now wal.replicaId, headerSize⟩
              replicaId := wal.replicaId
              entryCount := 0
              refusals := wal.refusals.tail }
          snapshotCounter := life.node.replica.snapshotCounter + 1 },
        cleanupOld ((life.node.replica.captureSnapshot now).save life.node.dir) 3⟩, [], []⟩ := by
    simp only [Life.step, Replica.takeSnapshot_eq hwal htmp]
  rw [hstep]
  refine ⟨walHeader now wal.replicaId, h.keyed, logSplit_header now wal.replicaId, ⟨_, rfl, ?_⟩,
    fun e he => (by cases he), hsaved.cleanupOld (by decide), rfl, fun seq hseq => ?_, _, rfl,
    pointers_captureSnapshot now life.node.replica⟩
  · refine ⟨?_, (length_walHeader now wal.replicaId).symm, by rw [hextends.willing]; rfl⟩
    exact (List.append_nil _).symm
  · obtain ⟨content, hcontent⟩ := OrdMap.contains_iff.mp hseq
    rw [cleanupOld_shas] at hcontent
    split at hcontent
    · cases hcontent
    · refine shas_save now (fun seq hin => ?_) seq (OrdMap.contains_iff.mpr ⟨content, hcontent⟩)
      exact (h.shas seq hin).trans_eq h.counter.symm

omit [Ed25519] [App σ] in
/-- A temporary log that is on disk stays there when the life goes on. -/
theorem walTmp_recoverFrom {life : Life σ} (h : life.node.dir.walTmp ≠ none) {d : DataDir}
    (hd : d.walTmp ≠ none) (later : Nat) (config : Config) (keystore : KeyStore) :
    (life.recoverFrom later config keystore d).node.dir.walTmp ≠ none := by
  rw [recoverFrom]
  split
  · exact hd
  · exact h

/-- Nothing removes a temporary log that was left behind. -/
theorem walTmp_step {life : Life σ} (h : life.node.dir.walTmp ≠ none) {op : Nat × CrashOp}
    (hop : life.Admits op) : (life.step op).node.dir.walTmp ≠ none := by
  obtain ⟨now, op⟩ := op
  have hdisk : (life.node.replica.onDisk life.node.dir).walTmp ≠ none := by
    rwa [Replica.onDisk_walTmp]
  cases op with
  | op op =>
    cases op with
    | call call => exact h
    | takeSnapshot =>
      have hsaved : ((life.node.replica.captureSnapshot now).save life.node.dir).walTmp ≠ none := h
      have hclean := (cleanupOld_wal
        ((life.node.replica.captureSnapshot now).save life.node.dir) 3).2
      rw [step_node]
      simp only [Node.step, Replica.takeSnapshot]
      split
      · rwa [hclean]
      · split
        · exact hsaved
        · rwa [hclean]
    | restart config keystore => exact walTmp_recoverFrom h hdisk now config keystore
  | cutCall call k later config keystore =>
    have hcut : (life.node.cutCall (now, call) k).walTmp ≠ none := hdisk
    exact walTmp_recoverFrom h hcut later config keystore
  | cutSnapshot cut later config keystore =>
    exact walTmp_recoverFrom h (SnapshotCut.walTmp_disk hop.2 hdisk) later config keystore

variable [LawfulBincode Snapshot] [StrictBincode Snapshot]

/-- Whatever happens to a node, its life stays sound. -/
theorem Sound.step {life : Life σ} (h : life.Sound) {op : Nat × CrashOp}
    (hop : life.Admits op) : (life.step op).Sound := by
  by_cases htmp : life.node.dir.walTmp = none
  · obtain ⟨snap, opened, entries, hlogged⟩ := h htmp
    have hdisk := hlogged.onDisk
    obtain ⟨now, op⟩ := op
    cases op with
    | op op =>
      cases op with
      | call call => exact fun _ => ⟨snap, opened, entries, hlogged.call hop⟩
      | takeSnapshot =>
        obtain ⟨opened', hlogged'⟩ := hlogged.takeSnapshot htmp now
        exact fun _ => ⟨_, opened', [], hlogged'⟩
      | restart config keystore =>
        exact h.recoverFrom (fun _ => .inl ⟨snap, _, hdisk⟩) now config keystore
    | cutCall call k later config keystore =>
      have hcut : DiskHolds (life.node.cutCall (now, call) k) snap _ :=
        ⟨hdisk.store, hdisk.shas, congrArg (Option.map _) hdisk.log⟩
      exact h.recoverFrom (fun _ => .inl ⟨snap, _, hcut⟩) later config keystore
    | cutSnapshot cut later config keystore =>
      exact h.recoverFrom (fun hnone => hdisk.cut now hlogged.counter hop.2 hnone) later config
        keystore
  · exact fun hnone => absurd hnone (walTmp_step htmp hop)

/-- The life of a node from its first start is sound. -/
theorem sound_run {config : Config} {keystore : KeyStore} {boottime : Nat} {node : Node σ}
    (hboot : Node.boot config keystore boottime = .ok node) {ops : List (Nat × CrashOp)}
    (hops : Along step Admits ⟨node, [], []⟩ ops) : Sound (run step ⟨node, [], []⟩ ops) := by
  refine run_invariant (fun life op hs hop => hs.step hop) (fun _ => ?_) hops
  have hwal : (recover (σ := σ) boottime config keystore DataDir.empty) =
      .ok (buildReplica boottime config keystore (baseOf config.n none) (baseState none),
        ⟨⟨walHeader boottime config.id, headerSize⟩, config.id, 0, []⟩) := rfl
  rw [Node.boot, hwal] at hboot
  cases hboot
  refine ⟨none, walHeader boottime config.id, [], ?_, logSplit_header boottime config.id,
    ⟨_, rfl, (List.append_nil _).symm, (length_walHeader boottime config.id).symm, rfl⟩,
    fun e he => (by cases he), rfl, rfl, fun seq hseq => (by cases hseq), _, rfl, rfl⟩
  exact buildReplica_keyed (σ := σ) (baseState_keyed none) boottime config keystore
    (baseOf config.n none)

end Life

end PersistHotStuff
