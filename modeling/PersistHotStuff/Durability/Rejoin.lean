import PersistHotStuff.Durability.Node

/-!
# Rejoining

A crashed replica is opened from its directory, copies what a live replica has
over its own, and snapshots the result. Its membership is what recovery made of
its arguments and its directory; nothing of it comes from the live replica.
-/

namespace PersistHotStuff

open Basis

namespace Simulation

section Sync

variable {σ : Type}

/-- Which fields the synchronisation with a live replica changes. -/
theorem syncFrom_eq (recovered donor : Replica σ) :
    syncFrom recovered donor =
      { recovered with
        blockTree := (importBlocks recovered donor).blockTree
        committedLog := (adoptLog recovered donor).committedLog
        committedUpTo := (adoptLog recovered donor).committedUpTo
        highQc := (adoptHighQc recovered donor).highQc
        nextHash := (syncFrom recovered donor).nextHash } := by
  have hlog : adoptLog (importBlocks recovered donor) donor =
      { importBlocks recovered donor with
        committedLog := (adoptLog recovered donor).committedLog
        committedUpTo := (adoptLog recovered donor).committedUpTo } := by
    have hsame : adoptsLog (importBlocks recovered donor) donor = adoptsLog recovered donor := rfl
    unfold adoptLog
    rw [hsame]
    cases adoptsLog recovered donor <;> rfl
  have hqc : ∀ r : Replica σ, r.highQc = recovered.highQc →
      adoptHighQc r donor = { r with highQc := (adoptHighQc recovered donor).highQc } := by
    intro r hr
    unfold adoptHighQc
    cases donor.highQc with
    | none =>
      rw [← hr]
    | some donorQc =>
      simp only [hr]
      split
      · rfl
      · rw [← hr]
  have hnext : ∀ r : Replica σ,
      raiseNextHash r = { r with nextHash := (raiseNextHash r).nextHash } := by
    intro r
    unfold raiseNextHash
    cases r.blockTree.last? with
    | none => rfl
    | some p =>
      simp only
      split <;> rfl
  rw [syncFrom, hnext, hqc _ (by rw [hlog]; rfl), hlog]
  rfl

/-- The imported tree keeps every block under its own hash. -/
theorem treeKeyed_importBlocks {recovered donor : Replica σ} (h : TreeKeyed recovered.blockTree)
    (hdonor : TreeKeyed donor.blockTree) :
    TreeKeyed (importBlocks recovered donor).blockTree := by
  have hkeys := treeKeyed_iff.mp hdonor
  simp only [importBlocks]
  generalize recovered.blockTree = tree at h
  generalize donor.blockTree.entries = entries at hkeys
  induction entries generalizing tree with
  | nil => exact h
  | cons p entries ih =>
    have hp := List.forall_mem_cons.mp hkeys
    refine ih _ ?_ hp.2
    show TreeKeyed (if tree.contains p.1 then tree else tree.insert p.1 p.2)
    split
    · exact h
    · rw [← hp.1]
      exact h.insert p.2

variable [Bincode LogEntry] [Crc32]

/-- What one view change preserves, catching up with the views of others preserves. -/
theorem catchUpView_preserves {I : Replica σ → Prop} {now : Nat}
    (hI : ∀ r, I r → I (r.advanceViewWithReason now .timeout)) (target : Nat) {fuel : Nat}
    {r : Replica σ} (h : I r) : I (catchUpView now target fuel r) := by
  induction fuel generalizing r with
  | zero => exact h
  | succ fuel ih =>
    rw [catchUpView]
    split
    · exact ih (hI r h)
    · exact h

/-- The replica a rejoin snapshots. -/
def synced (now : Nat) (others : List (Replica σ)) (recovered : Replica σ) : Replica σ :=
  let recovered := match others.head? with
    | some donor => syncFrom recovered donor
    | none => recovered
  let target := (maxView (others.map Replica.currentView)).getD recovered.currentView
  catchUpView now target (target - recovered.currentView) recovered

theorem rejoin_eq [Bincode Snapshot] [Sha256] [App σ] (now : Nat) (others : List (Replica σ))
    (recovered : Replica σ) (dir : DataDir) :
    rejoin now others recovered dir = ((synced now others recovered).takeSnapshot now dir).2 := rfl

/-- What a view change and the synchronisation with the donor preserve, a rejoin preserves. -/
theorem synced_preserves {I : Replica σ → Prop} {now : Nat}
    (hI : ∀ r, I r → I (r.advanceViewWithReason now .timeout)) {others : List (Replica σ)}
    {recovered : Replica σ} (h : I recovered)
    (hsync : ∀ donor ∈ others.head?, I (syncFrom recovered donor)) :
    I (synced now others recovered) := by
  refine catchUpView_preserves hI _ ?_
  cases hhead : others.head? with
  | none => exact h
  | some donor => exact hsync donor hhead

/-- Synchronisation keeps the membership. -/
theorem synced_membership (now : Nat) (others : List (Replica σ)) (recovered : Replica σ) :
    (synced now others recovered).membership = recovered.membership := by
  refine synced_preserves (I := fun r => r.membership = recovered.membership) (fun r h => h) rfl
    fun donor _ => ?_
  rw [syncFrom_eq]
  rfl

/-- Synchronisation keeps the number of the next snapshot. -/
theorem synced_snapshotCounter (now : Nat) (others : List (Replica σ)) (recovered : Replica σ) :
    (synced now others recovered).snapshotCounter = recovered.snapshotCounter := by
  refine synced_preserves (I := fun r => r.snapshotCounter = recovered.snapshotCounter)
    (fun r h => h) rfl fun donor _ => ?_
  rw [syncFrom_eq]

/-- The log after a rejoin: one's own, or the adopted one. -/
theorem synced_committedLog (now : Nat) (others : List (Replica σ)) (recovered : Replica σ) :
    (synced now others recovered).committedLog =
      match others.head? with
      | some donor => (adoptLog recovered donor).committedLog
      | none => recovered.committedLog := by
  refine catchUpView_preserves (I := fun r => r.committedLog = _) (fun r h => h) _ ?_
  cases others.head? with
  | none => rfl
  | some donor =>
    simp only
    rw [syncFrom_eq]

end Sync

end Simulation

namespace Node

variable {σ : Type}

variable [Bincode LogEntry] [Crc32]

/-- Synchronisation with a live replica keeps a node able to take snapshots. -/
theorem Writable.synced {node : Node σ} (h : Writable node) (now : Nat)
    {others : List (Replica σ)} (hdonor : ∀ donor ∈ others.head?, TreeKeyed donor.blockTree) :
    Writable ⟨Simulation.synced now others node.replica, node.dir⟩ := by
  refine Simulation.synced_preserves (I := fun r => Writable ⟨r, node.dir⟩) ?_ h ?_
  · intro r hr
    obtain ⟨wal, hwal, hwilling⟩ := hr.log
    have hwal' : r.wal = some wal := hwal
    refine ⟨hr.keyed, ?_, hr.noTmp, hr.below, hr.paired⟩
    refine ⟨(wal.append
      (.viewChanged r.currentView (saturatingAdd r.currentView 1) .timeout now)).2, ?_, ?_⟩
    · simp only [Replica.advanceViewWithReason, Replica.record, hwal', Option.map_some]
    · rw [WAL.append_refusals, hwilling]
      rfl
  · intro donor hhead
    rw [Simulation.syncFrom_eq]
    exact ⟨Simulation.treeKeyed_importBlocks h.keyed (hdonor donor hhead), h.log, h.noTmp,
      h.below, h.paired⟩

/-- Logging genesis through a willing handle succeeds and leaves a willing handle. -/
theorem logGenesis_of_willing {wal : WAL} (h : wal.refusals = []) (now : Nat)
    (replica : Replica σ) :
    ∃ wal', logGenesis now wal replica = .ok wal' ∧ wal'.refusals = [] := by
  unfold logGenesis
  split
  · have happend : ∀ entry, wal.append entry = (.ok (), (wal.append entry).2) := by
      intro entry
      unfold WAL.append
      rw [h]
    refine ⟨(wal.append (LogEntry.fromBlock now ((replica.blockTree.get? 0).getD
      genesisBlock))).2, ?_, ?_⟩
    · simp only
      rw [happend]
    · rw [WAL.append_refusals, h]
      rfl
  · exact ⟨wal, rfl, h⟩

variable [Bincode Snapshot] [Sha256] [LawfulBincode LogEntry] [LawfulBincode Snapshot]

/-- A restart that succeeds has replayed the log. -/
theorem Durable.of_restart {node recovered : Node σ} {snap : Option Snapshot}
    {entries : List LogEntry} (h : Durable node snap entries) {config : Config}
    {keystore : KeyStore} {now : Nat} (hok : node.restart config keystore now = .ok recovered) :
    ∃ st wal, replayEntries entries (baseState snap) = .ok st ∧
      recovered = ⟨(buildReplica now config keystore (baseOf config.n snap) st).attachWal wal,
        node.replica.onDisk node.dir⟩ ∧
      Durable recovered snap entries := by
  cases hreplay : replayEntries entries (baseState snap) with
  | error e =>
    obtain ⟨wal, -, -, hrec⟩ := h.onDisk.recover (σ := σ) now config keystore
    rw [Node.restart, hrec, hreplay] at hok
    cases hok
  | ok st =>
    obtain ⟨wal, heq, hdur⟩ := h.restart hreplay config keystore now
    rw [heq] at hok
    cases hok
    exact ⟨st, wal, rfl, rfl, hdur⟩

omit [LawfulBincode LogEntry] [LawfulBincode Snapshot] in
/-- A replica is opened when its recovery and the record of genesis succeed. -/
theorem openReplica_ok_iff {now id : Nat} {config : Config} {keystore : KeyStore} {dir : DataDir}
    {r : Replica σ} :
    Simulation.openReplica now id config keystore dir = .ok r ↔
      ∃ disk wal log, recover now config keystore dir = .ok (disk, wal) ∧
        logGenesis now wal disk = .ok log ∧ r = disk.attachWal log := by
  constructor
  · intro hok
    rw [Simulation.openReplica] at hok
    split at hok
    · cases hok
    · next disk wal hrec =>
      split at hok
      · cases hok
      · next log hlog =>
        cases hok
        exact ⟨disk, wal, log, hrec, hlog, rfl⟩
  · rintro ⟨disk, wal, log, hrec, hlog, rfl⟩
    simp only [Simulation.openReplica, hrec, hlog]

/-- A directory whose log replays can be opened. -/
theorem exists_openReplica {dir : DataDir} {snap : Option Snapshot} {entries : List LogEntry}
    (h : DirHolds dir snap entries) {st : Recovered}
    (hreplay : replayEntries entries (baseState snap) = .ok st) (now id : Nat) (config : Config)
    (keystore : KeyStore) :
    ∃ wal, wal.refusals = [] ∧ Simulation.openReplica (σ := σ) now id config keystore dir =
      .ok ((buildReplica now config keystore (baseOf config.n snap) st).attachWal wal) := by
  obtain ⟨wal, hholds, -, hrec⟩ := h.recover (σ := σ) now config keystore
  obtain ⟨wal', hlog, hwilling⟩ := logGenesis_of_willing hholds.willing now
    (buildReplica (σ := σ) now config keystore (baseOf config.n snap) st)
  refine ⟨wal', hwilling, ?_⟩
  simp only [Simulation.openReplica, hrec, hreplay, Except.map, hlog]

/-- A replica opened from a directory has replayed its log and can take snapshots. -/
theorem writable_of_openReplica {dir : DataDir} {snap : Option Snapshot} {entries : List LogEntry}
    (h : DirHolds dir snap entries)
    (hpaired : ∀ seq, dir.shas.contains seq = true → dir.bins.contains seq = true) {id : Nat}
    {config : Config} {keystore : KeyStore} {now : Nat} {recovered : Replica σ}
    (hok : Simulation.openReplica now id config keystore dir = .ok recovered) :
    ∃ st wal, replayEntries entries (baseState snap) = .ok st ∧
      recovered = (buildReplica now config keystore (baseOf config.n snap) st).attachWal wal ∧
      Writable ⟨recovered, dir⟩ := by
  cases hreplay : replayEntries entries (baseState snap) with
  | error e =>
    obtain ⟨wal, -, -, hrec⟩ := h.recover (σ := σ) now config keystore
    rw [Simulation.openReplica, hrec, hreplay] at hok
    cases hok
  | ok st =>
    obtain ⟨wal', hwilling, hopen⟩ := exists_openReplica (σ := σ) h hreplay now id config keystore
    rw [hopen] at hok
    cases hok
    refine ⟨st, wal', rfl, rfl, ?_, ⟨wal', rfl, hwilling⟩, h.noTmp, ?_, hpaired⟩
    · exact buildReplica_keyed (σ := σ) (replayEntries_keyed (baseState_keyed snap) hreplay) now
        config keystore (baseOf config.n snap)
    · exact fun seq hseq => h.store.below hseq

/-- An opened replica has replayed the log and can take snapshots. -/
theorem Durable.of_openReplica {node : Node σ} {snap : Option Snapshot} {entries : List LogEntry}
    (h : Durable node snap entries) {id : Nat} {config : Config} {keystore : KeyStore} {now : Nat}
    {recovered : Replica σ}
    (hok : Simulation.openReplica now id config keystore (node.replica.onDisk node.dir) =
      .ok recovered) :
    ∃ st wal, replayEntries entries (baseState snap) = .ok st ∧
      recovered = (buildReplica now config keystore (baseOf config.n snap) st).attachWal wal ∧
      Writable ⟨recovered, node.replica.onDisk node.dir⟩ :=
  writable_of_openReplica h.onDisk h.onDisk_paired hok

end Node

section FirstStart

variable [Bincode LogEntry] [Bincode Snapshot] [Crc32] [Sha256]

/-- The log of a first start: genesis behind the header. -/
def firstWal (now : Nat) (config : Config) : WAL :=
  (WAL.append ⟨⟨walHeader now config.id, headerSize⟩, config.id, 0, []⟩
    (LogEntry.fromBlock now genesisBlock)).2

/-- A first start logs genesis. -/
theorem openReplica_empty {σ : Type} (now id : Nat) (config : Config) (keystore : KeyStore) :
    Simulation.openReplica (σ := σ) now id config keystore DataDir.empty =
      .ok ((buildReplica now config keystore (baseOf config.n none) (baseState none)).attachWal
        (firstWal now config)) := rfl

end FirstStart

end PersistHotStuff
