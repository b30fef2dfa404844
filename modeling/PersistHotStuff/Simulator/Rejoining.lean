import PersistHotStuff.Simulator.FreshHash
import PersistHotStuff.Simulator.Join

/-!
# Rejoining for good

A crashed replica rejoins as an upper bound of what it has on disk and what a
live replica has. The snapshot it takes then is the newest in its directory, so
crashing and recovering it again brings back where it stands, and there is
nothing left to take over.
-/

namespace PersistHotStuff

open Basis

section Directory

variable {σ : Type} [Bincode LogEntry] [Bincode Snapshot] [Crc32] [Sha256]

/-- What a replica opened over a snapshot store is like, whatever is in the log. -/
theorem openReplica_cases [LawfulBincode Snapshot] {dir : DataDir} {snap : Option Snapshot}
    (hstore : StoreHolds dir snap) {now id : Nat} {config : Config} {keystore : KeyStore}
    {r : Replica σ} (hok : Simulation.openReplica now id config keystore dir = .ok r) :
    ∃ disk wal log, recover now config keystore dir = .ok (disk, wal) ∧ r = disk.attachWal log ∧
      TreeKeyed disk.blockTree ∧ disk.blockTree.isEmpty = false ∧
      ∀ seq, dir.bins.contains seq = true → seq < disk.snapshotCounter := by
  obtain ⟨disk, wal, log, hrec, -, rfl⟩ := Node.openReplica_ok_iff.mp hok
  refine ⟨disk, wal, log, hrec, rfl, ?_⟩
  obtain ⟨base, st, hbase, hlog, rfl⟩ := recover_ok_iff.mp hrec
  rw [loadBase_of_storeHolds hstore] at hbase
  cases hbase
  have hkeyed : TreeKeyed st.blockTree := by
    rw [baseOf_state] at hlog
    rcases replayLog_cases hlog with rfl | ⟨entries, hreplay⟩
    · exact baseState_keyed snap
    · exact replayEntries_keyed (baseState_keyed snap) hreplay
  exact ⟨buildReplica_keyed (σ := σ) hkeyed now config keystore _, buildReplica_filled ..,
    fun seq hseq => hstore.below hseq⟩

variable [App σ]

omit [Bincode LogEntry] [Bincode Snapshot] [Crc32] [Sha256] in
/-- A replica reopened over its newest snapshot and an empty log stands where it was. -/
theorem sameStanding_reopened {r : Replica σ} (hkeyed : TreeKeyed r.blockTree)
    (hfilled : r.blockTree.isEmpty = false) (now later : Nat) (config : Config)
    (keystore : KeyStore) (wal : WAL) :
    SameStanding r ((buildReplica later config keystore
      (baseOf config.n (some (r.captureSnapshot now)))
      (baseState (some (r.captureSnapshot now)))).attachWal wal) := by
  have hblocks := contains_captureSnapshot hkeyed now
  have hstored : (baseState (some (r.captureSnapshot now))).blockTree.isEmpty = false :=
    OrdMap.isEmpty_eq_false_mono (fun hash hin => (hblocks hash).trans hin) hfilled
  refine ⟨pointers_captureSnapshot now r, fun hash => ?_⟩
  simp only [Replica.attachWal]
  rw [buildReplica_blockTree hstored]
  exact hblocks hash

omit [Bincode Snapshot] [Sha256] [App σ] in
/-- A replica that catches up keeps each block under its hash. -/
theorem treeKeyed_synced {r donor : Replica σ} (hkeyed : TreeKeyed r.blockTree)
    {others : List (Replica σ)} (hhead : others.head? = some donor)
    (hdonor : TreeKeyed donor.blockTree) (now : Nat) :
    TreeKeyed (Simulation.synced now others r).blockTree := by
  refine Simulation.synced_preserves (I := fun s => TreeKeyed s.blockTree) (fun s h => h) hkeyed
    fun d hd => ?_
  obtain rfl : donor = d := Option.some.inj (hhead.symm.trans hd)
  rw [Simulation.syncFrom_eq]
  exact Simulation.treeKeyed_importBlocks hkeyed hdonor

/-- The snapshot of a rejoin is the newest in the directory, with an empty log behind it. -/
theorem rejoin_snapshot {r : Replica σ} {wal : WAL} (hwal : r.wal = some wal) {dir : DataDir}
    (hnoTmp : dir.walTmp = none)
    (hbelow : ∀ seq, dir.bins.contains seq = true → seq < r.snapshotCounter) (now : Nat)
    (others : List (Replica σ)) :
    ∃ log counter, (Simulation.rejoin now others r dir).1 =
        { Simulation.synced now others r with wal := some log, snapshotCounter := counter } ∧
      DirHolds
        ((Simulation.rejoin now others r dir).1.onDisk (Simulation.rejoin now others r dir).2)
        (some ((Simulation.synced now others r).captureSnapshot now)) [] := by
  obtain ⟨synced, hsynced⟩ : ∃ w, (Simulation.synced now others r).wal = some w := by
    refine Simulation.synced_preserves (I := fun s => ∃ w, s.wal = some w) (fun s h => ?_)
      ⟨wal, hwal⟩ fun donor _ => ?_
    · obtain ⟨w, hw⟩ := h
      simp only [Replica.advanceViewWithReason, Replica.record, hw, Option.map_some]
      exact ⟨_, rfl⟩
    · rw [Simulation.syncFrom_eq]
      exact ⟨wal, hwal⟩
  have htake := Replica.takeSnapshot_eq hsynced hnoTmp now
  have hcounter := Simulation.synced_snapshotCounter now others r
  rw [Simulation.rejoin_eq, htake]
  refine ⟨_, _, rfl, ⟨_, rfl, logFile_header _ _⟩, ?_, ?_⟩
  · have hnewest : ∀ seq, dir.bins.contains seq = true →
        seq < ((Simulation.synced now others r).captureSnapshot now).snapshotId :=
      fun seq hseq => (hbelow seq hseq).trans_eq hcounter.symm
    have hkeep : 0 < 3 := by decide
    exact (storeHolds_save hnewest).cleanupOld hkeep
  · exact (cleanupOld_wal _ _).2.trans hnoTmp

end Directory

namespace Simulation

section Seats

variable {σ : Type} {sim : Simulation σ}

/-- The same list at the chosen indices. -/
theorem filter_zipIdx_congr {α : Type} {p : Nat → Bool} {l l' : List α}
    (hlen : l.length = l'.length) {k : Nat} (h : ∀ j, p (k + j) = true → l[j]? = l'[j]?) :
    ((l.zipIdx k).filter fun q => p q.2) = (l'.zipIdx k).filter fun q => p q.2 := by
  induction l generalizing l' k with
  | nil => rw [List.length_eq_zero_iff.mp hlen.symm]
  | cons a l ih =>
    cases l' with
    | nil => cases hlen
    | cons a' l' =>
      have hlater : ∀ j, p (k + 1 + j) = true → l[j]? = l'[j]? := by
        intro j hj
        have hnext := h (j + 1) (by rwa [← Nat.add_assoc, Nat.add_right_comm])
        simpa only [List.getElem?_cons_succ] using hnext
      have hrest := ih (Nat.succ.inj hlen) hlater
      rw [List.zipIdx_cons, List.zipIdx_cons, List.filter_cons, List.filter_cons, hrest]
      by_cases hk : p k = true
      · have hhead := h 0 hk
        rw [List.getElem?_cons_zero, List.getElem?_cons_zero, Option.some.injEq] at hhead
        rw [hhead]
      · rw [if_neg hk, if_neg hk]

/-- The live others of a replica are a matter of the other seats. -/
theorem liveOthers_congr {sim' : Simulation σ} {id : Nat}
    (hlen : sim'.replicas.length = sim.replicas.length)
    (h : ∀ j, j ≠ id → sim'.replicas[j]? = sim.replicas[j]? ∧
      (j ∈ sim'.crashedReplicas ↔ j ∈ sim.crashedReplicas)) :
    sim'.liveOthers id = sim.liveOthers id := by
  have hchosen : ∀ j, (decide (j ≠ id) && decide (j ∉ sim'.crashedReplicas)) =
      (decide (j ≠ id) && decide (j ∉ sim.crashedReplicas)) := by
    intro j
    by_cases hj : j = id
    · rw [decide_eq_false (not_not.mpr hj), Bool.false_and, Bool.false_and]
    · rw [decide_eq_decide.mpr (h j hj).2.not]
  simp only [liveOthers, hchosen]
  refine congrArg _ (filter_zipIdx_congr
    (p := fun j => decide (j ≠ id) && decide (j ∉ sim.crashedReplicas)) hlen fun j hj => ?_)
  rw [Nat.zero_add, Bool.and_eq_true, decide_eq_true_iff] at hj
  exact (h j hj.1).1

/-- A live replica in another seat is a live other. -/
theorem mem_liveOthers_of_getElem? {id j : Nat} {r : Replica σ} (hr : sim.replicas[j]? = some r)
    (hj : j ≠ id) (hlive : j ∉ sim.crashedReplicas) : r ∈ sim.liveOthers id := by
  refine List.mem_map.mpr ⟨(r, j), List.mem_filter.mpr ⟨?_, ?_⟩, rfl⟩
  · exact List.mem_zipIdx_iff_getElem?.mpr hr
  · rw [Bool.and_eq_true, decide_eq_true_iff, decide_eq_true_iff]
    exact ⟨hj, hlive⟩

/-- A crash does not change the live others of the replica. -/
theorem liveOthers_crashReplica {now id : Nat} {sim' : Simulation σ}
    (hok : sim.crashReplica now id = .ok sim') : sim'.liveOthers id = sim.liveOthers id := by
  obtain ⟨replica, keystore, -, -, -, -, rfl⟩ := crashReplica_ok_iff.mp hok
  exact liveOthers_congr (List.length_set ..) fun j hj => ⟨List.getElem?_set_ne hj.symm,
    Finset.mem_insert.trans (or_iff_right hj)⟩

end Seats

section Recovery

variable {σ : Type} [Bincode LogEntry] [Bincode Snapshot] [Crc32] [Sha256] {sim : Simulation σ}

/-- What the simulator keeps to: trees hold blocks under their hashes, and the snapshots a crashed
replica has left carry their numbers in their names, with no temporary log in the way. -/
structure Kept (sim : Simulation σ) : Prop where
  keyed : ∀ r ∈ sim.replicas, TreeKeyed r.blockTree
  left : ∀ (i : Nat) r, sim.replicas[i]? = some r → i ∈ sim.crashedReplicas →
    ∀ dir ∈ sim.replicaDataDirs[i]?, (∃ snap, StoreHolds dir snap) ∧ dir.walTmp = none

/-- A simulation that holds to a stock of blocks keeps to that. -/
theorem Stocked.kept {blocks : List Block} (h : Stocked blocks sim) : Kept sim := by
  refine ⟨fun r hr => (h.tree hr).1, fun i r hr hi dir hdir => ?_⟩
  obtain ⟨p, hknows⟩ := (h.left i r hr hi).disk dir hdir
  obtain ⟨snap, entries, st, -, hstore, -⟩ := hknows.replays
  exact ⟨⟨snap, hstore⟩, hknows.noTmp⟩

/-- The replica that recovery rebuilds from the directory of a seat. -/
def rebuilt (now : Nat) (sim : Simulation σ) (id : Nat) : Option (Replica σ) := do
  let replica ← sim.replicas[id]?
  let keystore ← sim.replicaKeystores[id]?
  let dir ← sim.replicaDataDirs[id]?
  let (disk, _) ← (recover now replica.config keystore dir).toOption
  return disk

variable [App σ]

/-- What a recovery makes of a seat, given what is on its disk and the donor. -/
structure Rejoined (sim sim' : Simulation σ) (id : Nat) (disk donor r : Replica σ) : Prop where
  seat : sim'.replicas[id]? = some r
  join : Join disk donor r
  /-- It is in no earlier view than any live replica. -/
  views : ∀ (j : Nat) s, sim'.replicas[j]? = some s → j ∉ sim'.crashedReplicas →
    s.currentView ≤ r.currentView
  /-- No other seat changes. -/
  others : ∀ j, j ≠ id → sim'.replicas[j]? = sim.replicas[j]? ∧
    sim'.replicaDataDirs[j]? = sim.replicaDataDirs[j]? ∧
    (j ∈ sim'.crashedReplicas ↔ j ∈ sim.crashedReplicas)
  /-- After another crash and recovery it stands where it stood. -/
  durable : ∀ crash later, ∃ crashed recovered s, sim'.crashReplica crash id = .ok crashed ∧
    crashed.recoverReplica later id = .ok recovered ∧ recovered.replicas[id]? = some s ∧
    SameStanding r s

/-- The snapshot of a rejoin changes nothing of where the replica stands. -/
theorem sameStanding_rejoin (now : Nat) (others : List (Replica σ)) (r : Replica σ)
    (dir : DataDir) : SameStanding (synced now others r) (rejoin now others r dir).1 := by
  rw [rejoin_eq, takeSnapshot_replica]
  exact ⟨rfl, fun _ => rfl⟩

/-- A recovery changes its own seat only. -/
theorem recoverReplica_others {now id : Nat} {sim' : Simulation σ}
    (hok : sim.recoverReplica now id = .ok sim') {j : Nat} (hj : j ≠ id) :
    sim'.replicas[j]? = sim.replicas[j]? ∧ sim'.replicaDataDirs[j]? = sim.replicaDataDirs[j]? ∧
      (j ∈ sim'.crashedReplicas ↔ j ∈ sim.crashedReplicas) := by
  obtain ⟨replica, keystore, dir, recovered, -, -, -, -, -, -, rfl⟩ := recoverReplica_ok_iff.mp hok
  exact ⟨List.getElem?_set_ne hj.symm, List.getElem?_set_ne hj.symm,
    Finset.mem_erase.trans (and_iff_right hj)⟩

/-- A recovery does not change the live others either. -/
theorem liveOthers_recoverReplica {now id : Nat} {sim' : Simulation σ}
    (hok : sim.recoverReplica now id = .ok sim') : sim'.liveOthers id = sim.liveOthers id := by
  refine liveOthers_congr (congrArg Surroundings.count (recoverReplica_surroundings hok))
    fun j hj => ?_
  obtain ⟨hreplica, -, hcrashed⟩ := recoverReplica_others hok hj
  exact ⟨hreplica, hcrashed⟩

variable [LawfulBincode LogEntry] [LawfulBincode Snapshot]

/-- A live replica over its newest snapshot, with an empty log and nothing left to take over, comes
back from a crash where it stood. -/
theorem crash_recover_sameStanding {id : Nat} {r s : Replica σ} {keystore : KeyStore}
    {dir : DataDir} (hpersistent : sim.persistenceEnabled = true)
    (hr : sim.replicas[id]? = some r) (hks : sim.replicaKeystores[id]? = some keystore)
    (hlive : id ∉ sim.crashedReplicas) (hdir : sim.replicaDataDirs[id]? = some dir) {now : Nat}
    (hholds : DirHolds (r.onDisk dir) (some (s.captureSnapshot now)) []) (hsame : SameStanding s r)
    (hkeyed : TreeKeyed s.blockTree) (hfilled : s.blockTree.isEmpty = false) {donor : Replica σ}
    (hdonor : (sim.liveOthers id).head? = some donor) (habsorbed : Absorbed donor s)
    (hviews : ∀ t ∈ sim.liveOthers id, t.currentView ≤ s.currentView) (crash later : Nat) :
    ∃ crashed recovered t, sim.crashReplica crash id = .ok crashed ∧
      crashed.recoverReplica later id = .ok recovered ∧ recovered.replicas[id]? = some t ∧
      SameStanding r t := by
  have hseat : id < sim.replicas.length := (List.getElem?_eq_some_iff.mp hr).1
  obtain ⟨wal, -, hopen⟩ := Node.exists_openReplica (σ := σ) hholds rfl later id
    (freshReplica (σ := σ) crash r.config keystore).config keystore
  generalize hreopened : (buildReplica (σ := σ) later _ keystore _ _).attachWal wal = reopened
    at hopen
  have hstands : SameStanding s reopened :=
    hreopened ▸ sameStanding_reopened hkeyed hfilled now later _ keystore wal
  have hcrash : sim.crashReplica crash id = .ok _ :=
    crashReplica_ok_iff.mpr ⟨r, keystore, hpersistent, hr, hks, hlive, rfl⟩
  refine ⟨_, _, _, hcrash, recoverReplica_ok_iff.mpr ⟨_, keystore, r.onDisk dir, reopened,
    hpersistent, List.getElem?_set_self hseat, hks, Finset.mem_insert_self _ _, ?_, hopen, rfl⟩,
    List.getElem?_set_self ((List.length_set ..).symm ▸ hseat), ?_⟩
  · rw [List.getElem?_modify_eq, hdir]
    rfl
  · rw [liveOthers_crashReplica hcrash]
    have hview : reopened.currentView = s.currentView :=
      congrArg Pointers.currentView hstands.pointers
    have hstays := sameStanding_synced hdonor (habsorbed.of_sameStanding hstands)
      (fun t ht => (hviews t ht).trans_eq hview.symm) later
    exact hsame.symm.trans (hstands.trans (hstays.trans (sameStanding_rejoin later _ reopened _)))

/-- A recovery next to a live replica that succeeds is a join of what is on disk with what the
first live replica has, and a durable one. -/
theorem recoverReplica_rejoined (hkept : sim.Kept) {now id : Nat} {donor disk : Replica σ}
    (hdonor : (sim.liveOthers id).head? = some donor) (hdisk : sim.rebuilt now id = some disk)
    (hsmall : ∀ hash, disk.blockTree.contains hash = true ∨
      donor.blockTree.contains hash = true → hash < u64Max)
    (hviews : ∀ s ∈ sim.liveOthers id, s.currentView ≤ u64Max) {sim' : Simulation σ}
    (hok : sim.recoverReplica now id = .ok sim') : ∃ r, Rejoined sim sim' id disk donor r := by
  have hothers : ∀ j, j ≠ id → _ := fun j hj => recoverReplica_others hok hj
  obtain ⟨replica, keystore, dir, opened, hpersistent, hr, hks, hi, hdir, hopened, hsim'⟩ :=
    recoverReplica_ok_iff.mp hok
  obtain ⟨⟨snap, hstore⟩, hnoTmp⟩ := hkept.left id replica hr hi dir hdir
  obtain ⟨disk', wal, log, hrec, rfl, hkeyed, hfilled, hbelow⟩ := openReplica_cases hstore hopened
  obtain rfl : disk' = disk := by
    simp only [rebuilt, hr, hks, hdir, hrec, Except.toOption, Option.bind_eq_bind,
      Option.bind_some, Option.pure_def, Option.some.injEq] at hdisk
    exact hdisk
  have hseat : id < sim.replicas.length := (List.getElem?_eq_some_iff.mp hr).1
  have hdirSeat : id < sim.replicaDataDirs.length := (List.getElem?_eq_some_iff.mp hdir).1
  have hlive := liveOthers_recoverReplica hok
  have hdonorKeyed : TreeKeyed donor.blockTree := by
    obtain ⟨j, hj, -, -⟩ := mem_liveOthers (List.mem_of_mem_head? hdonor)
    exact hkept.keyed donor (List.mem_of_getElem? hj)
  -- what the replica is before its snapshot
  have hjoin : Join (disk'.attachWal log) donor
      (synced now (sim.liveOthers id) (disk'.attachWal log)) := join_synced hdonor now hsmall
  have hlatest := currentView_le_synced hdonor hviews now (disk'.attachWal log)
  have habsorbed := absorbed_synced hdonor now (disk'.attachWal log)
  have hattached : TreeKeyed (disk'.attachWal log).blockTree := hkeyed
  have hsyncedKeyed := treeKeyed_synced hattached hdonor hdonorKeyed now
  have hsyncedFilled := hjoin.filled hfilled
  have hwal : (disk'.attachWal log).wal = some log := rfl
  obtain ⟨newLog, counter, hrejoined, hholds⟩ :=
    rejoin_snapshot hwal hnoTmp hbelow now (sim.liveOthers id)
  have hsame := sameStanding_rejoin now (sim.liveOthers id) (disk'.attachWal log) dir
  have hview : (rejoin now (sim.liveOthers id) (disk'.attachWal log) dir).1.currentView =
      (synced now (sim.liveOthers id) (disk'.attachWal log)).currentView :=
    congrArg Pointers.currentView hsame.pointers
  have hown : sim'.replicas[id]? =
      some (rejoin now (sim.liveOthers id) (disk'.attachWal log) dir).1 := by
    rw [hsim']
    exact List.getElem?_set_self hseat
  refine ⟨_, hown, ?_, fun j s hs hj => ?_, hothers, fun crash later => ?_⟩
  · rw [hrejoined]
    exact ⟨hjoin.committed, hjoin.blocks, hjoin.ownQc, hjoin.donorQc, hjoin.counter⟩
  · by_cases he : j = id
    · subst he
      rw [hown, Option.some.injEq] at hs
      rw [hs]
    · rw [(hothers j he).1] at hs
      rw [(hothers j he).2.2] at hj
      exact (hlatest s (mem_liveOthers_of_getElem? hs he hj)).trans_eq hview.symm
  · have hpersistent' : sim'.persistenceEnabled = true := by rw [hsim']; exact hpersistent
    have hks' : sim'.replicaKeystores[id]? = some keystore := by rw [hsim']; exact hks
    have hlive' : id ∉ sim'.crashedReplicas := by rw [hsim']; exact Finset.notMem_erase id _
    have hdir' : sim'.replicaDataDirs[id]? =
        some (rejoin now (sim.liveOthers id) (disk'.attachWal log) dir).2 := by
      rw [hsim']
      exact List.getElem?_set_self hdirSeat
    exact crash_recover_sameStanding hpersistent' hown hks' hlive' hdir' hholds hsame hsyncedKeyed
      hsyncedFilled (hlive ▸ hdonor) habsorbed (hlive ▸ hlatest) crash later

/-- Whatever arises in a sequence of programs keeps to that. -/
theorem Arises.kept [Ed25519] [StrictBincode LogEntry] (h : Arises sim) : Kept sim := by
  obtain ⟨old, maxSteps, blocks, hminted⟩ := h.minted
  exact hminted.stocked.kept

end Recovery

section Samples

open Sample Trace

/-- Replica 0 of four is crashed after two rounds and misses the third. -/
def besideCrashed : Simulation NoOpApp :=
  (run Trace.step fourDurable
    [(1, .runOneRound), (2, .runOneRound), (3, .crashReplica 0), (3, .runOneRound)]).sim

theorem besideCrashed_arises : besideCrashed.Arises :=
  .step _ (.step _ (.step _ (.step _ fourDurable_start.starting.arises)))

/-- The hashes of a tree are small when those it lists are. -/
theorem lt_of_contains {tree : OrdMap Hash Block} {bound : Nat}
    (h : ∀ key ∈ tree.keys, key < bound) (hash : Hash) (hin : tree.contains hash = true) :
    hash < bound :=
  h hash (OrdMap.mem_keys.mpr hin)

/-- It comes back with the block it has missed. -/
theorem recoverReplica_rejoined_besideCrashed :
    ∃ disk donor r sim', besideCrashed.recoverReplica 4 0 = .ok sim' ∧
      disk.blockTree.contains 3 = false ∧ r.blockTree.contains 3 = true ∧
      Rejoined besideCrashed sim' 0 disk donor r := by
  have hrebuilt : (besideCrashed.rebuilt 4 0).map (fun r => r.blockTree.keys) =
      some [0, 2] := by decide +kernel
  have hfirst : (besideCrashed.liveOthers 0).head?.map (fun r => r.blockTree.keys) =
      some [0, 1, 2, 3] := by decide +kernel
  have hrecovers : (besideCrashed.recoverReplica 4 0).isOk = true := by decide +kernel
  have hviews : ∀ s ∈ besideCrashed.liveOthers 0, s.currentView ≤ u64Max := by decide +kernel
  obtain ⟨disk, hdisk, hdiskKeys⟩ := Option.map_eq_some_iff.mp hrebuilt
  obtain ⟨donor, hdonor, hdonorKeys⟩ := Option.map_eq_some_iff.mp hfirst
  obtain ⟨sim', hok⟩ : ∃ sim', besideCrashed.recoverReplica 4 0 = .ok sim' := by
    cases hrec : besideCrashed.recoverReplica 4 0 with
    | error e =>
      rw [hrec] at hrecovers
      cases hrecovers
    | ok sim' => exact ⟨sim', rfl⟩
  have hsmall : ∀ hash, disk.blockTree.contains hash = true ∨
      donor.blockTree.contains hash = true → hash < u64Max := by
    rintro hash (hin | hin)
    · exact lt_of_contains (by rw [hdiskKeys]; decide) hash hin
    · exact lt_of_contains (by rw [hdonorKeys]; decide) hash hin
  have hmissed : disk.blockTree.contains 3 = false := by
    rw [← Bool.not_eq_true, ← OrdMap.mem_keys, hdiskKeys]
    decide
  have hheld : donor.blockTree.contains 3 = true := by
    rw [← OrdMap.mem_keys, hdonorKeys]
    decide
  obtain ⟨r, hrejoined⟩ := recoverReplica_rejoined besideCrashed_arises.kept hdonor hdisk hsmall
    hviews hok
  refine ⟨disk, donor, r, sim', hok, hmissed, ?_, hrejoined⟩
  rw [OrdMap.contains, hrejoined.join.blocks, Option.isSome_or, Bool.or_eq_true]
  exact .inr hheld

end Samples

end Simulation

end PersistHotStuff
