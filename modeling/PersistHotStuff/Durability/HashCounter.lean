import PersistHotStuff.Durability.CatchUpRun
import PersistHotStuff.Durability.RoundTrip

/-!
# The hash counter of a recovered replica

A live replica moves its hash counter only past its own proposals, a snapshot
copies the counter, and replay moves it past every logged block. The recovered
counter is above the recovered tree exactly when no accepted block has the
largest hash and every snapshot is taken while the counter is above the tree.
-/

namespace PersistHotStuff

open Basis

/-- Every block of the tree has a hash below the counter. -/
def Replica.NumbersAbove {σ : Type} (r : Replica σ) : Prop :=
  ∀ hash, r.blockTree.contains hash = true → hash < r.nextHash

instance {σ : Type} (r : Replica σ) : Decidable r.NumbersAbove :=
  decidable_of_iff (∀ hash ∈ r.blockTree.keys, hash < r.nextHash)
    (forall_congr' fun _ => imp_congr_left OrdMap.mem_keys)

/-- Whether replaying an entry overflows no addition: a hash that is not below the counter is
incremented. -/
def replayEntryFits (entry : LogEntry) (st : Recovered) : Bool :=
  match entry with
  | .blockInserted hash .. => decide (st.nextHash ≤ hash → hash + 1 < 2 ^ 64)
  | _ => true

/-- Whether replaying a list of entries, up to the first error, overflows no addition. -/
def replayFits : List LogEntry → Recovered → Bool
  | [], _ => true
  | entry :: entries, st =>
      replayEntryFits entry st &&
        match replayEntry entry st with
        | .error _ => true
        | .ok st => replayFits entries st

section Fits

variable [Bincode LogEntry] [Bincode Snapshot] [Crc32] [Sha256]

/-- The entries that recovery replays. -/
def entriesToReplay (config : Config) (dir : DataDir) : List LogEntry :=
  if dir.wal.isSome then
    match WAL.openExisting config.id dir.wal with
    | .error _ => []
    | .ok w =>
        match w.readAll with
        | (.error _, _) => []
        | (.ok entries, _) => entries
  else []

/-- Whether recovery overflows no addition: the number of the next snapshot, and the counter during
replay. -/
def recoverFits (config : Config) (dir : DataDir) : Bool :=
  match loadBase config dir with
  | .error _ => true
  | .ok base =>
      decide (base.snapshotCounter < 2 ^ 64) && replayFits (entriesToReplay config dir) base.state

end Fits

/-- Replay overflows exactly when a block with the largest hash was logged. -/
theorem replayFits_iff {entries : List LogEntry} {st st' : Recovered} (hlt : st.nextHash < 2 ^ 64)
    (hreplay : replayEntries entries st = .ok st') :
    replayFits entries st = true ↔ ∀ block ∈ insertedBlocks entries, block.hash + 1 < 2 ^ 64 := by
  induction entries generalizing st with
  | nil => exact iff_of_true rfl fun block hblock => by cases hblock
  | cons entry entries ih =>
    rw [replayEntries] at hreplay
    cases hone : replayEntry entry st with
    | error e =>
      rw [hone] at hreplay
      cases hreplay
    | ok mid =>
      rw [hone] at hreplay
      simp only [replayFits, hone, Bool.and_eq_true]
      cases entry with
      | blockInserted hash parent view epoch proposer qcBlockHash qcView command timestamp =>
        cases hone
        have hmid : (if st.nextHash ≤ hash then wrappingAdd hash 1 else st.nextHash) < 2 ^ 64 :=
          overtake_lt hlt hash
        have hfits : (st.nextHash ≤ hash → hash + 1 < 2 ^ 64) ↔ hash + 1 < 2 ^ 64 :=
          ⟨fun h => (lt_or_ge hash st.nextHash).elim (fun hlow => lt_of_le_of_lt hlow hlt) h,
            fun h _ => h⟩
        rw [ih hmid hreplay, replayEntryFits, decide_eq_true_iff, hfits]
        simp only [insertedBlocks, List.filterMap_cons, LogEntry.rebuilt, List.forall_mem_cons]
      | blockCommitted hash parent view epoch proposer command commitIndex timestamp =>
        have hmid : mid.nextHash < 2 ^ 64 := by
          rw [replayEntry_commit hone]
          exact hlt
        exact (and_iff_right rfl).trans (ih hmid hreplay)
      | _ =>
        cases hone
        exact (and_iff_right rfl).trans (ih hlt hreplay)

/-- What a snapshot and the records behind it are like when recovery keeps its counter ahead. -/
structure CounterSafe [Bincode LogEntry] (snap : Option Snapshot) (entries : List LogEntry) :
    Prop where
  short : ∀ entry ∈ entries, ShortPayload entry
  snapshotId : ∀ s ∈ snap, s.snapshotId + 1 < 2 ^ 64
  logged : ∀ block ∈ insertedBlocks entries, block.hash + 1 < 2 ^ 64
  /-- A block of the snapshot is below its counter, or a record moves the counter past it. -/
  stored : ∀ hash, (baseState snap).blockTree.contains hash = true →
    hash < startCounter snap ∨ ∃ block ∈ insertedBlocks entries, hash ≤ block.hash

section Disk

/-- A snapshot has the hashes of the tree it was taken of. -/
theorem contains_captureSnapshot {σ : Type} [App σ] {r : Replica σ}
    (hkeyed : TreeKeyed r.blockTree) (now : Nat) (hash : Hash) :
    (baseState (some (r.captureSnapshot now))).blockTree.contains hash =
      r.blockTree.contains hash := by
  have hget := get?_rebuilt hkeyed hash
  simp only [OrdMap.contains, baseState, RecoveredBase.ofSnapshot, Replica.captureSnapshot,
    Snapshot.capture, hget, Option.isSome_map]

/-- The hashes of a recovered tree: those of the snapshot and of the records, or genesis. -/
theorem contains_recovered {entries : List LogEntry} {snap : Option Snapshot} {st : Recovered}
    (hreplay : replayEntries entries (baseState snap) = .ok st) (hash : Hash) :
    st.blockTree.contains hash = true ↔
      (∃ block ∈ insertedBlocks entries, block.hash = hash) ∨
        (baseState snap).blockTree.contains hash = true := by
  simp only [OrdMap.contains, replayEntries_blockTree hreplay]
  rw [get?_foldl_insert, Option.isSome_or, Bool.or_eq_true]
  refine or_congr_left ?_
  rw [Option.isSome_iff_exists]
  constructor
  · rintro ⟨block, hlast⟩
    exact ⟨block, mem_of_lastNamed hlast⟩
  · rintro ⟨block, hblock, hhash⟩
    refine Option.ne_none_iff_exists'.mp fun hnone => ?_
    exact lastNamed_eq_none.mp hnone block hblock hhash

/-- Replay over a filled tree leaves it filled. -/
theorem replayed_filled {entries : List LogEntry} {snap : Option Snapshot} {st : Recovered}
    (hreplay : replayEntries entries (baseState snap) = .ok st)
    (hfilled : (baseState snap).blockTree.isEmpty = false) : st.blockTree.isEmpty = false :=
  OrdMap.isEmpty_eq_false_mono
    (fun hash hin => (contains_recovered hreplay hash).mpr (.inr hin)) hfilled

/-- When no hash wraps the counter, it is rebuilt above the tree exactly when every block of the
snapshot is below its counter or not above a logged block. -/
theorem numbersAbove_buildReplica_iff {σ : Type} {entries : List LogEntry} {snap : Option Snapshot}
    {st : Recovered} (hreplay : replayEntries entries (baseState snap) = .ok st)
    (hwritten : Written snap entries)
    (hlogged : ∀ block ∈ insertedBlocks entries, block.hash + 1 < 2 ^ 64) (now : Nat)
    (config : Config) (keystore : KeyStore) (base : RecoveredBase) :
    (buildReplica (σ := σ) now config keystore base st).NumbersAbove ↔
      ∀ hash, (baseState snap).blockTree.contains hash = true →
        hash < startCounter snap ∨ ∃ block ∈ insertedBlocks entries, hash ≤ block.hash := by
  have hcounter := replayEntries_nextHash hreplay
  rw [baseState_nextHash] at hcounter
  have hbelow : ∀ hash ∈ (insertedBlocks entries).map Block.hash, hash + 1 < 2 ^ 64 :=
    List.forall_mem_map.mpr hlogged
  obtain ⟨hstart, habove, hends⟩ := foldl_overtake_spec (startCounter snap) hbelow
  rw [← hcounter] at hstart habove hends
  rw [List.forall_mem_map] at habove
  constructor
  · intro h hash hhash
    have hbelow : hash < st.nextHash :=
      h hash (contains_buildReplica.mpr (.inl ((contains_recovered hreplay hash).mpr (.inr hhash))))
    rcases hends with heq | ⟨h', hmem, heq⟩
    · exact .inl (heq ▸ hbelow)
    · obtain ⟨block, hblock, rfl⟩ := List.mem_map.mp hmem
      rw [← heq] at hbelow
      exact .inr ⟨block, hblock, Nat.le_of_lt_succ hbelow⟩
  · intro hstored hash hhash
    show hash < st.nextHash
    rcases contains_buildReplica.mp hhash with hst | ⟨hempty, rfl⟩
    · rcases (contains_recovered hreplay hash).mp hst with ⟨block, hblock, rfl⟩ | hbase
      · exact habove block hblock
      · rcases hstored hash hbase with hlt | ⟨block, hblock, hle⟩
        · exact lt_of_lt_of_le hlt hstart
        · exact lt_of_le_of_lt hle (habove block hblock)
    · -- genesis is added without a snapshot only, and then the counter starts at 1
      cases snap with
      | none => exact lt_of_lt_of_le Nat.zero_lt_one hstart
      | some s =>
        rw [replayed_filled hreplay (hwritten.filled s rfl)] at hempty
        cases hempty

/-- Recovery of a directory overflows no addition exactly when it has neither the largest snapshot
number nor the largest hash to increment. -/
theorem recoverFits_iff [Bincode LogEntry] [Bincode Snapshot] [Crc32] [Sha256]
    [LawfulBincode LogEntry] [LawfulBincode Snapshot] {dir : DataDir} {snap : Option Snapshot}
    {entries : List LogEntry} (h : DirHolds dir snap entries) {st : Recovered}
    (hreplay : replayEntries entries (baseState snap) = .ok st)
    (hcounter : startCounter snap < 2 ^ 64) (config : Config) :
    recoverFits config dir = true ↔ (∀ s ∈ snap, s.snapshotId + 1 < 2 ^ 64) ∧
      ∀ block ∈ insertedBlocks entries, block.hash + 1 < 2 ^ 64 := by
  have hbase := loadBase_of_storeHolds h.store config
  have hentries : entriesToReplay config dir = entries := by
    obtain ⟨bytes, hwal, hfile⟩ := h.log
    have htail : ([] : Bytes).length < 4 := by decide
    have hopen := WAL.openExisting_logFile hfile htail config.id
    have hread := readEntriesFromFile_logFile hfile htail
    rw [List.append_nil] at hopen hread
    simp only [entriesToReplay, hwal, Option.isSome_some, if_true, hopen, WAL.readAll, hread]
  have hfits := replayFits_iff (by rw [baseState_nextHash]; exact hcounter) hreplay
  have hnumber : (baseOf config.n snap).snapshotCounter < 2 ^ 64 ↔
      ∀ s ∈ snap, s.snapshotId + 1 < 2 ^ 64 := by
    cases snap with
    | none => exact iff_of_true (by decide : (0 : Nat) < 2 ^ 64) fun s hs => by cases hs
    | some s => simp [baseOf, RecoveredBase.ofSnapshot]
  rw [recoverFits, hbase]
  simp only [hentries, baseOf_state, Bool.and_eq_true, decide_eq_true_iff, hfits, hnumber]

end Disk

namespace Node

section Run

variable {σ : Type} [Bincode LogEntry] [Bincode Snapshot] [Crc32] [Sha256]

/-- Whatever the node is recovered as, recovery succeeds, overflows no addition, and returns a
replica whose counter is above every hash of its tree. -/
def CounterAhead (node : Node σ) : Prop :=
  ∀ (config : Config) (keystore : KeyStore) (now : Nat),
    recoverFits config (node.replica.onDisk node.dir) = true ∧
      ∃ (recovered : Replica σ) (wal : WAL),
        recover now config keystore (node.replica.onDisk node.dir) = .ok (recovered, wal) ∧
          recovered.NumbersAbove

variable [Ed25519] [App σ] [LawfulBincode LogEntry] [LawfulBincode Snapshot]
  [StrictBincode LogEntry]

omit [Ed25519] [App σ] in
/-- The counter of a recovery is ahead exactly when what is on disk is safe. -/
theorem InOrder.counterAhead_iff {node : Node σ} {snap : Option Snapshot}
    {entries : List LogEntry} (h : InOrder node snap entries) :
    CounterAhead node ↔ CounterSafe snap entries := by
  obtain ⟨st, hreplay, -⟩ := h.replays
  constructor
  · intro hahead
    obtain ⟨hfits, recovered, wal, hrec, habove⟩ :=
      hahead node.replica.config node.replica.keystore 0
    -- a log that was opened has short records only
    have hrestart : node.restart node.replica.config node.replica.keystore 0 =
        .ok ⟨recovered.attachWal wal, node.replica.onDisk node.dir⟩ := by
      rw [Node.restart, hrec]
      rfl
    have hdur := h.carrying.durable_of_restart hrestart
    obtain ⟨log, -, hholds⟩ := hdur.log
    obtain ⟨hnumber, hlogged⟩ :=
      (recoverFits_iff hdur.onDisk hreplay h.written.counter _).mp hfits
    obtain ⟨wal', -, -, hrec'⟩ :=
      hdur.onDisk.recover (σ := σ) 0 node.replica.config node.replica.keystore
    rw [hreplay, hrec] at hrec'
    cases hrec'
    exact ⟨hholds.file.2, hnumber, hlogged,
      (numbersAbove_buildReplica_iff hreplay h.written hlogged 0 _ _ _).mp habove⟩
  · intro hsafe config keystore now
    have hdisk := (h.carrying.durable hsafe.short).onDisk
    obtain ⟨wal, -, -, hrec⟩ := hdisk.recover (σ := σ) now config keystore
    rw [hreplay] at hrec
    exact ⟨(recoverFits_iff hdisk hreplay h.written.counter config).mpr
      ⟨hsafe.snapshotId, hsafe.logged⟩, _, wal, hrec,
      (numbersAbove_buildReplica_iff hreplay h.written hsafe.logged now config keystore _).mpr
        hsafe.stored⟩

/-- What an operation must not do for the recovered counter to stay ahead: log a record too long
for its length prefix, accept a block with the largest hash, or take a snapshot with the largest
number or while a block of the tree is not below the hash counter. -/
def KeepsCounterAhead (node : Node σ) (op : Nat × NodeOp) : Prop :=
  match op.2 with
  | .call call =>
      (∀ entry ∈ node.replica.records (op.1, call), ShortPayload entry) ∧
        ∀ block ∈ node.replica.accepted (op.1, call), block.hash + 1 < 2 ^ 64
  | .takeSnapshot => node.replica.snapshotCounter + 1 < 2 ^ 64 ∧ node.replica.NumbersAbove
  | .restart _ _ => True

instance (node : Node σ) : (op : Nat × NodeOp) → Decidable (node.KeepsCounterAhead op)
  | (now, .call call) => inferInstanceAs (Decidable
      ((∀ entry ∈ node.replica.records (now, call), ShortPayload entry) ∧
        ∀ block ∈ node.replica.accepted (now, call), block.hash + 1 < 2 ^ 64))
  | (_, .takeSnapshot) => inferInstanceAs (Decidable
      (node.replica.snapshotCounter + 1 < 2 ^ 64 ∧ node.replica.NumbersAbove))
  | (_, .restart _ _) => inferInstanceAs (Decidable True)

omit [Bincode Snapshot] [App σ] [LawfulBincode LogEntry] [LawfulBincode Snapshot]
  [StrictBincode LogEntry] in
/-- A call keeps what is on disk safe exactly when its own records are. -/
theorem counterSafe_append_iff {snap : Option Snapshot} {entries : List LogEntry}
    (h : CounterSafe snap entries) (r : Replica σ) (c : Nat × Call) :
    CounterSafe snap (entries ++ r.records c) ↔
      (∀ entry ∈ r.records c, ShortPayload entry) ∧
        ∀ block ∈ r.accepted c, block.hash + 1 < 2 ^ 64 := by
  have hblocks : insertedBlocks (entries ++ r.records c) =
      insertedBlocks entries ++ (r.accepted c).map rebuiltBlock := by
    rw [insertedBlocks, List.filterMap_append, r.rebuilt_records c]
    rfl
  have hlogged : (∀ block ∈ (r.accepted c).map rebuiltBlock, block.hash + 1 < 2 ^ 64) ↔
      ∀ block ∈ r.accepted c, block.hash + 1 < 2 ^ 64 := List.forall_mem_map
  constructor
  · intro hafter
    refine ⟨fun entry hentry => hafter.short entry (List.mem_append_right _ hentry),
      hlogged.mp fun block hblock => hafter.logged block ?_⟩
    rw [hblocks]
    exact List.mem_append_right _ hblock
  · rintro ⟨hshort, haccepted⟩
    refine ⟨List.forall_mem_append.mpr ⟨h.short, hshort⟩, h.snapshotId, ?_, fun hash hhash => ?_⟩
    · rw [hblocks]
      exact List.forall_mem_append.mpr ⟨h.logged, hlogged.mpr haccepted⟩
    · rw [hblocks]
      refine (h.stored hash hhash).imp_right ?_
      rintro ⟨block, hblock, hle⟩
      exact ⟨block, List.mem_append_left _ hblock, hle⟩

omit [Bincode Snapshot] [Crc32] [Sha256] [Ed25519] [LawfulBincode LogEntry]
  [LawfulBincode Snapshot] [StrictBincode LogEntry] in
/-- A fresh snapshot is safe exactly when it is taken with the counter above the tree. -/
theorem counterSafe_capture_iff {r : Replica σ} (hkeyed : TreeKeyed r.blockTree) (now : Nat) :
    CounterSafe (some (r.captureSnapshot now)) [] ↔
      r.snapshotCounter + 1 < 2 ^ 64 ∧ r.NumbersAbove := by
  have hstored := contains_captureSnapshot hkeyed now
  constructor
  · intro h
    refine ⟨h.snapshotId _ rfl, fun hash hhash => ?_⟩
    rcases h.stored hash ((hstored hash).trans hhash) with hlt | ⟨block, hblock, -⟩
    · exact hlt
    · cases hblock
  · rintro ⟨hnumber, habove⟩
    refine ⟨fun entry hentry => (by cases hentry), fun s hs => ?_,
      fun block hblock => (by cases hblock),
      fun hash hhash => .inl (habove hash ((hstored hash).symm.trans hhash))⟩
    cases hs
    exact hnumber

/-- An operation keeps the recovered counter ahead exactly when it does none of these things. -/
theorem counterAhead_step_iff {node : Node σ} {snap : Option Snapshot} {entries : List LogEntry}
    (h : InOrder node snap entries) (hahead : CounterAhead node) (op : Nat × NodeOp) :
    CounterAhead (node.step op) ↔ node.KeepsCounterAhead op := by
  have hsafe := h.counterAhead_iff.mp hahead
  obtain ⟨now, op⟩ := op
  cases op with
  | call call =>
    rw [(h.call now call).counterAhead_iff]
    exact counterSafe_append_iff hsafe node.replica (now, call)
  | takeSnapshot =>
    have hnext := h.carrying.writable.inOrder_takeSnapshot h.filled h.counter now
    rw [hnext.counterAhead_iff]
    exact counterSafe_capture_iff h.carrying.keyed now
  | restart config keystore =>
    exact iff_of_true ((h.restart now config keystore).counterAhead_iff.mpr hsafe) trivial

/-- A first start on an empty directory, without or with a record of genesis. -/
def FirstStart (node : Node σ) : Prop :=
  (∃ config keystore now, boot config keystore now = .ok node) ∨
    ∃ config keystore now id r, ShortPayload (LogEntry.fromBlock now genesisBlock) ∧
      Simulation.openReplica now id config keystore DataDir.empty = .ok r ∧
        node = ⟨r, DataDir.empty⟩

omit [Ed25519] [App σ] [LawfulBincode LogEntry] [LawfulBincode Snapshot]
  [StrictBincode LogEntry] in
/-- A first start is in order over records that are safe. -/
theorem FirstStart.inOrder {node : Node σ} (h : FirstStart node) :
    ∃ entries, InOrder node none entries ∧ CounterSafe none entries := by
  rcases h with ⟨config, keystore, now, hok⟩ | ⟨config, keystore, now, id, r, hshort, hok, rfl⟩
  · refine ⟨_, inOrder_boot hok, fun entry hentry => (by cases hentry), fun s hs => (by cases hs),
      fun block hblock => (by cases hblock), fun hash hhash => (by cases hhash)⟩
  · refine ⟨_, inOrder_opened hok, List.forall_mem_singleton.mpr hshort, fun s hs => (by cases hs),
      List.forall_mem_singleton.mpr (by decide), fun hash hhash => (by cases hhash)⟩

/-- From a first start on, the recovered counter is ahead in every state of a run exactly when no
operation does one of these things. -/
theorem counterAhead_throughout_iff {node : Node σ} (hstart : FirstStart node)
    (ops : List (Nat × NodeOp)) :
    Throughout step CounterAhead node ops ↔ Along step KeepsCounterAhead node ops := by
  obtain ⟨entries, horder, hsafe⟩ := hstart.inOrder
  refine throughout_iff_along (I := fun node : Node σ => ∃ snap entries, InOrder node snap entries)
    (D := fun _ _ => True) (fun node op ⟨_, _, h⟩ _ => h.step op)
    (fun node op ⟨_, _, h⟩ hahead => counterAhead_step_iff h hahead op) ⟨_, _, horder⟩
    (horder.counterAhead_iff.mpr hsafe) (along_of_forall (fun _ _ => trivial) node ops)

end Run

end Node

section Later

variable {σ : Type} [Ed25519] [Sha256] [Bincode LogEntry] [Crc32] [App σ]

/-- While the counter does not wrap, calls leave it where it is or move it up. -/
theorem Replica.nextHash_le_run {r : Replica σ} {calls : List (Nat × Call)}
    (hroom : Along Replica.step (fun s _ => s.nextHash + 1 < 2 ^ 64) r calls) :
    r.nextHash ≤ (run Replica.step r calls).nextHash := by
  refine run_invariant (I := fun s => r.nextHash ≤ s.nextHash) (fun s c hle hlt => ?_) le_rfl hroom
  rcases s.step_nextHash c with heq | heq
  · rw [heq]
    exact hle
  · rw [heq, wrappingAdd, Nat.mod_eq_of_lt hlt]
    exact Nat.le_succ_of_le hle

/-- A replica whose counter is above its tree never proposes a block of its own numbering under a
hash of that tree, as long as the counter does not wrap. -/
theorem Replica.NumbersAbove.proposal_fresh {r : Replica σ} (h : r.NumbersAbove)
    {calls : List (Nat × Call)}
    (hroom : Along Replica.step (fun s _ => s.nextHash + 1 < 2 ^ 64) r calls) {how : ProposeCall}
    (hown : how = .propose ∨ ∃ command, how = .proposeCommand command) :
    r.blockTree.contains ((run Replica.step r calls).proposedHash how) = false := by
  have hhash : (run Replica.step r calls).proposedHash how =
      (run Replica.step r calls).nextHash := by
    rcases hown with rfl | ⟨command, rfl⟩ <;> rfl
  rw [hhash, ← Bool.not_eq_true]
  intro hin
  exact absurd (Replica.nextHash_le_run hroom) (not_le.mpr (h _ hin))

end Later

namespace Node

section Samples

open Sample

theorem openedNode_firstStart : FirstStart openedNode :=
  .inr ⟨(party 4 3).config, (party 4 3).keystore, 0, 3, openedNode.replica, by decide, rfl, rfl⟩

/-- A restart between accepting a block and the next snapshot moves the live counter past it. -/
theorem counterAhead_restarted :
    Throughout step CounterAhead openedNode
      [(1, .call (.validateAndInsertProposal (block 1 0 0 0 none))),
        (2, .restart (party 4 3).config (keyStore 4 3)), (3, .takeSnapshot)] :=
  (counterAhead_throughout_iff openedNode_firstStart _).mpr (by decide +kernel)

/-- What recovery makes of the files after some operations: its counter, and whether its tree has a
hash. -/
def recoveredCounter (ops : List (Nat × NodeOp)) (hash : Hash) :
    Except RecoveryError (Nat × Bool) :=
  (recover (σ := NoOpApp) 9 (party 4 3).config (keyStore 4 3)
      ((run step openedNode ops).replica.onDisk (run step openedNode ops).dir)).map
    fun p => (p.1.nextHash, p.1.blockTree.contains hash)

/-- The counter of a recovery is not ahead when it is not above some hash. -/
theorem not_counterAhead {ops : List (Nat × NodeOp)} {hash counter : Nat}
    (h : recoveredCounter ops hash = .ok (counter, true)) (hle : counter ≤ hash) :
    ¬ CounterAhead (run step openedNode ops) := by
  intro hahead
  obtain ⟨-, recovered, wal, hrec, habove⟩ := hahead (party 4 3).config (keyStore 4 3) 9
  rw [recoveredCounter, hrec] at h
  obtain ⟨hcounter, hin⟩ := Prod.mk.inj (Except.ok.inj h)
  exact absurd (habove hash hin) (not_lt.mpr (hcounter.trans_le hle))

/-- A replica accepts block 5 and takes a snapshot, whose counter is still at 1; or it accepts a
block with the largest hash. -/
theorem accepted_hash_not_passed :
    FirstStart openedNode ∧
      ¬ CounterAhead (run step openedNode
        [(1, .call (.validateAndInsertProposal (block 5 0 0 0 none))), (2, .takeSnapshot)]) ∧
      ¬ CounterAhead (run step openedNode
        [(1, .call (.validateAndInsertProposal (block (2 ^ 64 - 1) 0 0 0 none)))]) := by
  refine ⟨openedNode_firstStart, ?_, fun hahead => ?_⟩
  · exact not_counterAhead (by decide +kernel : recoveredCounter _ 5 = .ok (1, true)) (by decide)
  · obtain ⟨entries, horder, hsafe⟩ := openedNode_firstStart.inOrder
    rw [run_cons, run_nil,
      counterAhead_step_iff horder (horder.counterAhead_iff.mpr hsafe)] at hahead
    obtain ⟨-, hlogged⟩ := hahead
    have haccepted : block (2 ^ 64 - 1) 0 0 0 none ∈
        openedNode.replica.accepted
          (1, .validateAndInsertProposal (block (2 ^ 64 - 1) 0 0 0 none)) := by
      decide +kernel
    exact absurd (hlogged _ haccepted) (by decide)

end Samples

end Node

end PersistHotStuff
