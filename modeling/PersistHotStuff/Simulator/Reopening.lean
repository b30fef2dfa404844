import PersistHotStuff.Simulator.Rejoining
import PersistHotStuff.Simulator.Survival

/-!
# What can be opened again

Whatever a simulation has written, crashed replicas recover from it, and the next
program starts over it. Only a record that does not fit its length prefix stands
in the way, which the log takes and cannot be read back.
-/

namespace PersistHotStuff

open Basis

/-- Outcomes can be collected if and only if each is a success. -/
theorem exists_mapM_id {ε α : Type} {l : List (Except ε α)} :
    (∃ as, l.mapM id = .ok as) ↔ ∀ e ∈ l, ∃ a, e = .ok a := by
  induction l with
  | nil => exact iff_of_true ⟨[], rfl⟩ fun e he => absurd he List.not_mem_nil
  | cons e l ih =>
    rw [List.forall_mem_cons, ← ih, List.mapM_cons]
    cases e with
    | error err =>
      refine iff_of_false ?_ ?_
      · rintro ⟨as, hok⟩
        cases hok
      · rintro ⟨⟨a, ha⟩, -⟩
        cases ha
    | ok a =>
      cases hrest : l.mapM id with
      | error err =>
        refine iff_of_false ?_ ?_
        · rintro ⟨as, hok⟩
          cases hok
        · rintro ⟨-, as, has⟩
          cases has
      | ok as => exact iff_of_true ⟨a :: as, rfl⟩ ⟨⟨a, rfl⟩, as, rfl⟩

namespace Simulation

section Directory

variable {σ : Type} [Bincode LogEntry] [Bincode Snapshot] [Crc32] [Sha256] [LawfulBincode LogEntry]
  [StrictBincode LogEntry] [LawfulBincode Snapshot]

/-- What has been written can be opened if and only if every record fits its prefix. -/
theorem openReplica_ok_iff_framesFit {blocks : List Block} {dir : DataDir} {p : Pointers}
    (h : DirKnows blocks dir p) (now id : Nat) (config : Config) (keystore : KeyStore) :
    (∃ r, openReplica (σ := σ) now id config keystore dir = .ok r) ↔ FramesFit dir := by
  constructor
  · rintro ⟨r, hok⟩
    exact framesFit_of_openReplica hok
  · intro hfit
    obtain ⟨snap, entries, st, ⟨created, replicaId, hwal⟩, hstore, hreplay, -, -⟩ := h.replays
    have hholds : DirHolds dir snap entries :=
      ⟨⟨_, hwal, ⟨created, replicaId, rfl⟩, hfit created replicaId entries hwal⟩, hstore, h.noTmp⟩
    obtain ⟨wal, -, hok⟩ := Node.exists_openReplica (σ := σ) hholds hreplay now id config keystore
    exact ⟨_, hok⟩

end Directory

section Crashed

variable {σ : Type}

/-- Whoever is crashed has a seat with keys and a directory to recover from. -/
structure Reopenable (sim : Simulation σ) : Prop where
  keystores : sim.replicas.length ≤ sim.replicaKeystores.length
  dirs : sim.persistenceEnabled = true → sim.replicas.length ≤ sim.replicaDataDirs.length
  crashed : ∀ i ∈ sim.crashedReplicas, sim.persistenceEnabled = true ∧ i < sim.replicas.length

theorem Reopenable.setReplicas {sim : Simulation σ} (h : Reopenable sim)
    {replicas : List (Replica σ)} (hlen : replicas.length = sim.replicas.length) :
    Reopenable { sim with replicas := replicas } := by
  refine ⟨hlen.trans_le h.keystores, fun hp => hlen.trans_le (h.dirs hp), fun i hi => ?_⟩
  rw [hlen]
  exact h.crashed i hi

variable [Ed25519] [Sha256] [Bincode LogEntry] [Bincode Snapshot] [Crc32] [App σ]

theorem reopenable_rule : TraceRule (Reopenable (σ := σ)) where
  call sim i r c h _ _ := h.setReplicas (List.length_set ..)
  snapshot sim i r dir now h _ _ _ := by
    refine { h.setReplicas (List.length_set ..) with dirs := fun hp => ?_ }
    show (sim.replicas.set i _).length ≤ (sim.replicaDataDirs.set i _).length
    rw [List.length_set, List.length_set]
    exact h.dirs hp
  respond sim i h := { h with }
  network sim net h _ := { h with }
  clock sim h := { h with }
  bump sim h := { h with }
  crash now sim i sim' h hok := by
    obtain ⟨r, keystore, hp, hr, -, -, rfl⟩ := crashReplica_ok_iff.mp hok
    have hset := h.setReplicas (show (sim.replicas.set i
      (freshReplica now r.config keystore)).length = sim.replicas.length from List.length_set ..)
    refine ⟨hset.keystores, fun hp' => ?_, fun j hj => ?_⟩
    · rw [List.length_modify]
      exact hset.dirs hp'
    · rcases Finset.mem_insert.mp hj with rfl | hj
      · rw [List.length_set]
        exact ⟨hp, (List.getElem?_eq_some_iff.mp hr).1⟩
      · exact hset.crashed j hj
  recover now sim i sim' h hok := by
    obtain ⟨r, keystore, dir, opened, -, -, -, -, -, -, rfl⟩ := recoverReplica_ok_iff.mp hok
    have hset := h.setReplicas (show (sim.replicas.set i
      (rejoin now (sim.liveOthers i) opened dir).1).length = sim.replicas.length from
        List.length_set ..)
    refine ⟨hset.keystores, fun hp => ?_, fun j hj => hset.crashed j (Finset.mem_of_mem_erase hj)⟩
    simp only [markResponded, List.length_set]
    exact h.dirs hp
  interrupt sim i unresponsive sim' h hok := by
    obtain ⟨-, -, rfl⟩ := setReplicaUnresponsive_ok_iff.mp hok
    cases unresponsive <;> exact { h with }
  configure now sim call replicas h hlen _ := h.setReplicas hlen

/-- Whatever arises, the crashed replicas can be opened again, as far as it is up to the
simulator. -/
theorem Arises.reopenable {sim : Simulation σ} (h : Arises sim) : Reopenable sim := by
  induction h with
  | new now f maxSteps allKeys =>
    exact ⟨(List.length_mapIdx ..).le, fun hp => Bool.noConfusion hp,
      fun i hi => absurd hi (Finset.notMem_empty i)⟩
  | restart _ hrestarts _ =>
    obtain ⟨now, f, maxSteps, allKeys, dirs, -, -, hok⟩ := hrestarts
    obtain ⟨replicas, rfl, hlen, -⟩ := newWithPersistence_slots hok
    exact ⟨hlen.trans_le (min_le_left _ _), fun _ => hlen.trans_le (min_le_right _ _),
      fun i hi => absurd hi (Finset.notMem_empty i)⟩
  | step op _ ih => exact reopenable_rule.step ih op

end Crashed

section Reopening

variable {σ : Type} [Ed25519] [Sha256] [Bincode LogEntry] [Bincode Snapshot] [Crc32] [App σ]
  [LawfulBincode LogEntry] [StrictBincode LogEntry] [LawfulBincode Snapshot] {sim : Simulation σ}

/-- A crashed replica recovers if the log it has left fits. -/
theorem Arises.exists_recoverReplica (harises : Arises sim) (now : Nat) {id : Nat}
    (hi : id ∈ sim.crashedReplicas) (hfit : ∀ dir ∈ sim.replicaDataDirs[id]?, FramesFit dir) :
    ∃ sim', sim.recoverReplica now id = .ok sim' := by
  obtain ⟨old, maxSteps, blocks, hminted⟩ := harises.minted
  have hopen := harises.reopenable
  obtain ⟨hp, hseat⟩ := hopen.crashed id hi
  have hr := List.getElem?_eq_getElem hseat
  have hks := List.getElem?_eq_getElem (hseat.trans_le hopen.keystores)
  have hdir := List.getElem?_eq_getElem (hseat.trans_le (hopen.dirs hp))
  obtain ⟨p, hknows⟩ := (hminted.stocked.left id _ hr hi).disk _ hdir
  obtain ⟨opened, hopened⟩ := (openReplica_ok_iff_framesFit (σ := σ) hknows now id _ _).mpr
    (hfit _ hdir)
  exact ⟨_, recoverReplica_ok_iff.mpr ⟨_, _, _, opened, hp, hr, hks, hi, hdir, hopened, rfl⟩⟩

/-- Whatever arises, a replica recovers if and only if it is crashed and the log it has left has no
record of 4 GiB or more. -/
theorem Arises.recoverReplica_succeeds_iff (harises : Arises sim) (now id : Nat) :
    (∃ sim', sim.recoverReplica now id = .ok sim') ↔
      id ∈ sim.crashedReplicas ∧ ∀ dir ∈ sim.replicaDataDirs[id]?, FramesFit dir := by
  refine ⟨?_, fun ⟨hi, hfit⟩ => harises.exists_recoverReplica now hi hfit⟩
  rintro ⟨sim', hok⟩
  obtain ⟨r, keystore, dir, opened, -, hr, -, hi, hdir, hopened, -⟩ :=
    recoverReplica_ok_iff.mp hok
  refine ⟨hi, fun d hd => ?_⟩
  rw [hdir] at hd
  cases hd
  exact framesFit_of_openReplica hopened

/-- Whatever arises, the next program starts over what it leaves if and only if no log has a record
of 4 GiB or more. -/
theorem Arises.newWithPersistence_succeeds_iff (harises : Arises sim) {now f maxSteps : Nat}
    {allKeys : List (ReplicaId × Bytes)} {dirs : List DataDir}
    (hlen : dirs.length = allKeys.length)
    (hdirs : ∀ id dir, dirs[id]? = some dir → dir = DataDir.empty ∨ sim.leaves id = some dir) :
    (∃ later : Simulation σ,
        Simulation.newWithPersistence now f maxSteps allKeys dirs = .ok later) ↔
      ∀ dir ∈ dirs, FramesFit dir := by
  obtain ⟨old, steps, blocks, hminted⟩ := harises.minted
  have hopen : ∀ (id : Nat) config ks dir, dirs[id]? = some dir →
      ((∃ r, openReplica (σ := σ) now id config ks dir = .ok r) ↔ FramesFit dir) := by
    intro id config ks dir hdir
    rcases hdirs id dir hdir with rfl | hleaves
    · refine iff_of_true ⟨_, PersistHotStuff.openReplica_empty now id config ks⟩ ?_
      exact framesFit_of_short fun bytes hbytes => by cases hbytes
    · obtain ⟨p, hknows⟩ := hminted.dirKnows hleaves
      exact openReplica_ok_iff_framesFit hknows now id config ks
  have hcollect : (∃ later : Simulation σ,
      Simulation.newWithPersistence now f maxSteps allKeys dirs = .ok later) ↔
        ∃ replicas, (((KeyStore.distributeKeys allKeys).zip dirs).mapIdx fun id p =>
          openReplica (σ := σ) now id (replicaConfig allKeys.length f id) p.1 p.2).mapM id =
            .ok replicas := by
    simp only [newWithPersistence]
    generalize List.mapIdx _ _ = opened
    cases opened.mapM id with
    | error e =>
      refine iff_of_false ?_ ?_
      · rintro ⟨later, hok⟩
        cases hok
      · rintro ⟨replicas, hok⟩
        cases hok
    | ok replicas => exact iff_of_true ⟨_, rfl⟩ ⟨replicas, rfl⟩
  rw [hcollect, exists_mapM_id]
  constructor
  · intro hall dir hdir
    obtain ⟨id, hid⟩ := List.mem_iff_getElem?.mp hdir
    have hlt : id < (KeyStore.distributeKeys allKeys).length := by
      rw [KeyStore.length_distributeKeys, ← hlen]
      exact (List.getElem?_eq_some_iff.mp hid).1
    have hslot : ((KeyStore.distributeKeys allKeys).zip dirs)[id]? =
        some ((KeyStore.distributeKeys allKeys)[id], dir) :=
      List.getElem?_zip_eq_some.mpr ⟨List.getElem?_eq_getElem hlt, hid⟩
    refine (hopen id (replicaConfig allKeys.length f id) ((KeyStore.distributeKeys allKeys)[id])
      dir hid).mp (hall _ (List.mem_iff_getElem?.mpr ⟨id, ?_⟩))
    rw [List.getElem?_mapIdx, hslot]
    rfl
  · intro hfit e he
    obtain ⟨id, hid⟩ := List.mem_iff_getElem?.mp he
    rw [List.getElem?_mapIdx, Option.map_eq_some_iff] at hid
    obtain ⟨⟨ks, dir⟩, hslot, rfl⟩ := hid
    obtain ⟨-, hdir⟩ := List.getElem?_zip_eq_some.mp hslot
    exact (hopen id _ ks dir hdir).mpr (hfit dir (List.mem_of_getElem? hdir))

end Reopening

section Samples

open Sample Trace

/-- Replica 0 has crashed and can recover; replica 1 is live. -/
theorem recoverReplica_succeeds_iff_besideCrashed :
    (∃ sim', besideCrashed.recoverReplica 4 0 = .ok sim') ∧
      ¬ ∃ sim', besideCrashed.recoverReplica 4 1 = .ok sim' := by
  have hcrashed : 0 ∈ besideCrashed.crashedReplicas ∧ 1 ∉ besideCrashed.crashedReplicas := by
    decide +kernel
  have hshort : ∀ dir ∈ besideCrashed.replicaDataDirs, ∀ bytes ∈ dir.wal,
      bytes.length < 2 ^ 32 := by decide +kernel
  rw [besideCrashed_arises.recoverReplica_succeeds_iff,
    besideCrashed_arises.recoverReplica_succeeds_iff]
  refine ⟨⟨hcrashed.1, fun dir hdir => ?_⟩, fun h => hcrashed.2 h.1⟩
  exact framesFit_of_short (hshort dir (List.mem_of_getElem? hdir))

/-- The next program starts over what the stopped one has left. -/
theorem newWithPersistence_succeeds_iff_stopped :
    ∃ later : Simulation NoOpApp,
      Simulation.newWithPersistence 9 1 20 (sampleKeys 4) stoppedDirs = .ok later := by
  have hshort : ∀ dir ∈ stoppedDirs, ∀ bytes ∈ dir.wal, bytes.length < 2 ^ 32 := by decide +kernel
  exact (stopped_arises.newWithPersistence_succeeds_iff length_stoppedDirs
    fun _ _ hdir => .inr (leaves_of_stoppedDirs hdir)).mpr
      fun dir hdir => framesFit_of_short (hshort dir hdir)

end Samples

end Simulation

end PersistHotStuff
