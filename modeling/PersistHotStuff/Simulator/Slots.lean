import PersistHotStuff.Simulator.Disk
import PersistHotStuff.Simulator.Seats

/-!
# The slots of the simulator

Each slot holds a replica with its directory, or the directory of a crashed one.
A sound simulation follows a history in every slot; calls, crashes and
recoveries of single replicas keep it sound.
-/

namespace PersistHotStuff

open Basis

section Slot

variable {σ : Type} [Bincode LogEntry] [Bincode Snapshot] [Crc32] [Sha256]

/-- A live replica follows the history, and so does its directory if it has one. -/
structure LiveSlot (h : History) (persistent : Bool) (r : Replica σ) (dir : Option DataDir) :
    Prop where
  follows : h.Follows r
  disk : persistent = true → ∃ d, dir = some d ∧ Node.Live h.blocks ⟨r, d⟩

/-- The directory of a crashed replica follows the history. -/
def CrashedSlot (h : History) (dir : Option DataDir) : Prop :=
  ∃ d p, dir = some d ∧ DirKnows h.blocks d p ∧ h.Bounds p

theorem CrashedSlot.mono {h h' : History} {dir : Option DataDir} (hs : CrashedSlot h dir)
    (hle : h.Le h') : CrashedSlot h' dir := by
  obtain ⟨d, p, hd, hstored, hp⟩ := hs
  exact ⟨d, p, hd, hstored.mono hle.blocks, hp.mono hle⟩

theorem LiveSlot.mono {h h' : History} {persistent : Bool} {r : Replica σ} {dir : Option DataDir}
    (hs : LiveSlot h persistent r dir) (hle : h.Le h') : LiveSlot h' persistent r dir := by
  refine ⟨hs.follows.mono hle, fun hp => ?_⟩
  obtain ⟨d, hd, hlive⟩ := hs.disk hp
  exact ⟨d, hd, hlive.writable, hlive.atEnd, hlive.stored.mono hle.blocks⟩

/-- The high certificate of a live replica is for a certified block. -/
theorem LiveSlot.highQc {h : History} {persistent : Bool} {r : Replica σ} {dir : Option DataDir}
    (hs : LiveSlot h persistent r dir) : ∀ q ∈ r.highQc, q.blockHash ∈ h.certs := by
  intro q hq
  refine hs.follows.bounds.highQc q.pointer ?_
  rw [Replica.pointers, hq]
  rfl

/-- The log of a live replica starts the certified blocks. -/
theorem LiveSlot.log {h : History} {persistent : Bool} {r : Replica σ} {dir : Option DataDir}
    (hs : LiveSlot h persistent r dir) : r.committedLog.map Block.hash <+: h.certs :=
  hs.follows.bounds.committed

variable [Ed25519] [App σ]

/-- A call keeps a slot in order if what it inserts, certifies and commits belongs to the
history. -/
theorem LiveSlot.call {h : History} {persistent : Bool} {r : Replica σ} {dir : Option DataDir}
    (hs : LiveSlot h persistent r dir) {c : Nat × Call}
    (hins : ∀ b ∈ r.inserted c, b ∈ h.blocks)
    (hqc : ∀ q ∈ (r.step c).highQc, q.blockHash ∈ h.certs)
    (hlog : (r.step c).committedLog.map Block.hash <+: h.certs) :
    LiveSlot h persistent (r.step c) dir := by
  refine ⟨⟨Replica.treeKeyed_step hs.follows.keyed c, ?_, hlog, ?_⟩, fun hp => ?_⟩
  · rw [Replica.step_blockTree]
    cases hin : r.inserted c with
    | none => exact hs.follows.known
    | some block => exact hs.follows.known.insert block.hash ⟨block, hins block hin, rfl⟩
  · intro q hq
    obtain ⟨qc, hqc', rfl⟩ := Option.map_eq_some_iff.mp hq
    exact hqc qc hqc'
  · obtain ⟨d, hd, hlive⟩ := hs.disk hp
    exact ⟨d, hd, hlive.call hins⟩

/-- A call that commits nothing and takes no new certificate. -/
theorem LiveSlot.plainCall {h : History} {persistent : Bool} {r : Replica σ}
    {dir : Option DataDir} (hs : LiveSlot h persistent r dir) {c : Nat × Call}
    (hins : ∀ b ∈ r.inserted c, b ∈ h.blocks) (hqc : (r.step c).highQc = r.highQc)
    (hlog : (r.step c).committedLog = r.committedLog) : LiveSlot h persistent (r.step c) dir := by
  refine hs.call hins ?_ ?_
  · rw [hqc]
    exact hs.highQc
  · rw [hlog]
    exact hs.log

end Slot

namespace Simulation

section Sweeps

variable {σ : Type}

theorem available_iff {sim : Simulation σ} {i : Nat} : sim.available i = true ↔
    i ∉ sim.crashedReplicas ∧ i ∉ sim.unresponsiveReplicas := by
  simp only [available, Bool.and_eq_true, decide_eq_true_eq]

/-- An available replica is not crashed. -/
theorem not_crashed_of_available {sim : Simulation σ} {i : Nat}
    (h : sim.available i = true) : i ∉ sim.crashedReplicas := (available_iff.mp h).1

/-- What single crashes preserve, the timeout sweep preserves. -/
theorem processTimeoutCrashes_preserves {I : Simulation σ → Prop} {now : Nat}
    (hI : ∀ sim i sim', I sim → sim.crashReplica now i = .ok sim' → I sim') {sim : Simulation σ}
    (h : I sim) : I (sim.processTimeoutCrashes now) := by
  simp only [processTimeoutCrashes]
  generalize (List.range sim.replicas.length).filter _ = ids
  induction ids generalizing sim with
  | nil => exact h
  | cons i ids ih =>
    rw [List.foldl_cons]
    refine ih ?_
    split
    · rename_i sim' hok
      exact hI _ _ _ h hok
    · exact h

/-- What acting on one available replica preserves, acting on all preserves. -/
theorem forEachAvailable_preserves {I : Simulation σ → Prop}
    {act : Simulation σ → Nat → Replica σ → Simulation σ}
    (hI : ∀ sim i r, I sim → sim.replicas[i]? = some r → sim.available i = true →
      I (act sim i r)) {sim : Simulation σ} (h : I sim) : I (sim.forEachAvailable act) := by
  simp only [forEachAvailable]
  generalize List.range sim.replicas.length = ids
  induction ids generalizing sim with
  | nil => exact h
  | cons i ids ih =>
    rw [List.foldl_cons]
    refine ih ?_
    split
    · rename_i r hr
      split
      · rename_i ha
        exact hI sim i r h hr ha
      · exact h
    · exact h

end Sweeps

section Sound

variable {σ : Type} [Bincode LogEntry] [Bincode Snapshot] [Crc32] [Sha256]

/-- A simulation whose slots follow a history and whose pending messages are as expected; `nextHash`
is the next hash of the network. -/
structure Sound (expected : Message → Prop) (nextHash : Hash) (h : History) (sim : Simulation σ) :
    Prop where
  live : ∀ (i : Nat) r, sim.replicas[i]? = some r → i ∉ sim.crashedReplicas →
    LiveSlot h sim.persistenceEnabled r sim.replicaDataDirs[i]?
  crashed : ∀ (i : Nat) r, sim.replicas[i]? = some r → i ∈ sim.crashedReplicas →
    CrashedSlot h sim.replicaDataDirs[i]?
  pending : ∀ msg ∈ sim.network.messageQueue, expected msg
  next : sim.network.nextGlobalHash = nextHash

variable {expected : Message → Prop} {nextHash : Hash} {h : History} {sim : Simulation σ}

/-- A sound simulation follows every later history. -/
theorem Sound.mono (hs : Sound expected nextHash h sim) {h' : History} (hle : h.Le h') :
    Sound expected nextHash h' sim :=
  ⟨fun i r hr hi => (hs.live i r hr hi).mono hle, fun i r hr hi => (hs.crashed i r hr hi).mono hle,
    hs.pending, hs.next⟩

/-- Responses and clocks do not matter. -/
theorem Sound.markResponded (hs : Sound expected nextHash h sim) (i : Nat) :
    Sound expected nextHash h (sim.markResponded i) :=
  ⟨hs.live, hs.crashed, hs.pending, hs.next⟩

theorem Sound.advanceSimulatedTime (hs : Sound expected nextHash h sim) :
    Sound expected nextHash h sim.advanceSimulatedTime :=
  ⟨hs.live, hs.crashed, hs.pending, hs.next⟩

theorem Sound.bumpStep (hs : Sound expected nextHash h sim) :
    Sound expected nextHash h sim.bumpStep :=
  ⟨hs.live, hs.crashed, hs.pending, hs.next⟩

/-- The slots of a sound simulation are seats. -/
theorem Sound.seated (hs : Sound expected nextHash h sim) :
    Seated (LiveSlot h sim.persistenceEnabled) (fun _ dir => CrashedSlot h dir) sim :=
  ⟨hs.live, hs.crashed⟩

/-- Seats in the same surroundings make a sound simulation. -/
theorem Sound.of_seated (hs : Sound expected nextHash h sim) {sim' : Simulation σ}
    (hsame : sim'.surroundings = sim.surroundings)
    (hseated : Seated (LiveSlot h sim.persistenceEnabled) (fun _ dir => CrashedSlot h dir) sim') :
    Sound expected nextHash h sim' := by
  have hnetwork : sim'.network = sim.network := congrArg Surroundings.network hsame
  have hpersistent : sim'.persistenceEnabled = sim.persistenceEnabled :=
    congrArg Surroundings.persistenceEnabled hsame
  exact ⟨hpersistent ▸ hseated.live, hseated.left, hnetwork ▸ hs.pending, hnetwork ▸ hs.next⟩

/-- Replacing a live replica and its directory. -/
theorem Sound.replace (hs : Sound expected nextHash h sim) {i : Nat} {r' : Replica σ}
    (hi : i ∉ sim.crashedReplicas) {dirs : List DataDir}
    (hdirs : ∀ j, j ≠ i → dirs[j]? = sim.replicaDataDirs[j]?)
    (hlive : LiveSlot h sim.persistenceEnabled r' dirs[i]?) :
    Sound expected nextHash h { sim.setReplica i r' with replicaDataDirs := dirs } := by
  refine hs.of_seated ?_ (hs.seated.replace hi hdirs hlive)
  simp only [surroundings, Simulation.setReplica, List.length_set]

/-- Replacing a live replica. -/
theorem Sound.setReplica (hs : Sound expected nextHash h sim) {i : Nat} {r' : Replica σ}
    (hi : i ∉ sim.crashedReplicas)
    (hlive : LiveSlot h sim.persistenceEnabled r' sim.replicaDataDirs[i]?) :
    Sound expected nextHash h (sim.setReplica i r') := by
  have := hs.replace hi (fun _ _ => rfl) hlive
  exact ⟨this.live, this.crashed, this.pending, this.next⟩

/-- Changing the settings of some replicas keeps the simulation sound. -/
theorem Sound.configure (hs : Sound expected nextHash h sim) {f : Replica σ → Replica σ}
    (hf : ∀ r dir, LiveSlot h sim.persistenceEnabled r dir →
      LiveSlot h sim.persistenceEnabled (f r) dir) {replicas : List (Replica σ)}
    (hreplicas : ∀ (i : Nat) r', replicas[i]? = some r' →
      ∃ r, sim.replicas[i]? = some r ∧ (r' = r ∨ r' = f r)) :
    Sound expected nextHash h { sim with replicas := replicas } := by
  have hseated := hs.seated.configure fun i r' hr' => by
    obtain ⟨r, hr, hor⟩ := hreplicas i r' hr'
    refine ⟨r, hr, fun dir => ⟨fun hlive => ?_, id⟩⟩
    rcases hor with rfl | rfl
    · exact hlive
    · exact hf r dir hlive
  exact ⟨hseated.live, hseated.left, hs.pending, hs.next⟩

/-- A crash leaves a directory that follows the history. -/
theorem Sound.crash (hs : Sound expected nextHash h sim) {now i : Nat} {sim' : Simulation σ}
    (hok : sim.crashReplica now i = .ok sim') : Sound expected nextHash h sim' := by
  refine hs.of_seated (crashReplica_surroundings hok) (hs.seated.crash ?_ hok)
  intro hp r dir keystore hlive
  obtain ⟨d, rfl, hd⟩ := hlive.disk hp
  exact ⟨r.onDisk d, r.pointers, rfl, hd.stored, hlive.follows.bounds⟩

/-- Interruptions keep the simulation sound. -/
theorem Sound.setReplicaUnresponsive (hs : Sound expected nextHash h sim) {i : Nat}
    {unresponsive : Bool} {sim' : Simulation σ}
    (hok : sim.setReplicaUnresponsive i unresponsive = .ok sim') :
    Sound expected nextHash h sim' :=
  hs.of_seated (setReplicaUnresponsive_surroundings hok) (hs.seated.setReplicaUnresponsive hok)

theorem Sound.processTimeoutCrashes (hs : Sound expected nextHash h sim) (now : Nat) :
    Sound expected nextHash h (sim.processTimeoutCrashes now) :=
  processTimeoutCrashes_preserves (fun _ _ _ hs hok => hs.crash hok) hs

end Sound

section Recovery

variable {σ : Type} {h : History}

/-- A replica without persistence starts with genesis alone. -/
theorem follows_freshReplica (now : Nat) (config : Config) (keystore : KeyStore) :
    History.genesis.Follows (freshReplica (σ := σ) now config keystore) := by
  have htree : (freshReplica (σ := σ) now config keystore).blockTree = genesisTree := by
    simp only [freshReplica, Replica.ensureDefaultValidators]
    split <;> rfl
  have hlog : (freshReplica (σ := σ) now config keystore).pointers = ⟨[], none, none, 0⟩ := by
    simp only [freshReplica, Replica.ensureDefaultValidators, Replica.pointers]
    split <;> rfl
  refine ⟨htree ▸ treeKeyed_genesis, ?_, ?_⟩
  · rw [htree]
    intro b hb
    exact ⟨genesisBlock, List.mem_singleton_self _, by rw [List.mem_singleton.mp hb]⟩
  · rw [hlog]
    exact ⟨List.nil_prefix, fun q hq => (by cases hq)⟩

/-- An imported tree is known if the donor's is. -/
theorem known_importBlocks {blocks : List Block} {recovered donor : Replica σ}
    (hknown : KnownTree blocks recovered.blockTree) (hdonor : KnownTree blocks donor.blockTree) :
    KnownTree blocks (importBlocks recovered donor).blockTree := by
  have hentries : ∀ p ∈ donor.blockTree.entries, ∃ b₀ ∈ blocks, b₀.outline = p.2.outline :=
    fun p hp => hdonor p.2 (OrdMap.mem_values.mpr ⟨p.1, OrdMap.get?_eq_some.mpr hp⟩)
  simp only [importBlocks]
  generalize recovered.blockTree = tree at hknown
  generalize donor.blockTree.entries = entries at hentries
  induction entries generalizing tree with
  | nil => exact hknown
  | cons p entries ih =>
    obtain ⟨hp, hrest⟩ := List.forall_mem_cons.mp hentries
    refine ih _ ?_ hrest
    show KnownTree blocks (if tree.contains p.1 then tree else tree.insert p.1 p.2)
    split
    · exact hknown
    · exact hknown.insert p.1 hp

/-- Catching up from a replica that follows a history keeps to it. -/
theorem follows_syncFrom {recovered donor : Replica σ} (hr : h.Follows recovered)
    (hd : h.Follows donor) : h.Follows (syncFrom recovered donor) := by
  rw [syncFrom_eq]
  refine ⟨treeKeyed_importBlocks hr.keyed hd.keyed, known_importBlocks hr.known hd.known, ?_, ?_⟩
  · show (adoptLog recovered donor).committedLog.map Block.hash <+: h.certs
    rw [adoptLog]
    split
    · exact hd.bounds.committed
    · exact hr.bounds.committed
  · show ∀ q ∈ (adoptHighQc recovered donor).highQc.map QuorumCert.pointer, q.1 ∈ h.certs
    rw [adoptHighQc]
    cases hq : donor.highQc with
    | none => exact hr.bounds.highQc
    | some donorQc =>
      simp only
      split
      · rw [← hq]
        exact hd.bounds.highQc
      · exact hr.bounds.highQc

/-- A live other replica is a live slot. -/
theorem mem_liveOthers {sim : Simulation σ} {i : Nat} {r : Replica σ}
    (hr : r ∈ sim.liveOthers i) :
    ∃ j, sim.replicas[j]? = some r ∧ j ≠ i ∧ j ∉ sim.crashedReplicas := by
  obtain ⟨⟨r', j⟩, hp, rfl⟩ := List.mem_map.mp hr
  obtain ⟨hin, hj⟩ := List.mem_filter.mp hp
  simp only [Bool.and_eq_true, decide_eq_true_eq] at hj
  exact ⟨j, List.mem_zipIdx_iff_getElem?.mp hin, hj.1, hj.2⟩

variable [Bincode LogEntry] [Crc32]

theorem follows_synced {recovered : Replica σ} {others : List (Replica σ)} (now : Nat)
    (hr : h.Follows recovered) (hothers : ∀ donor ∈ others.head?, h.Follows donor) :
    h.Follows (synced now others recovered) :=
  synced_preserves (I := h.Follows)
    (fun _ hr => ⟨hr.keyed, hr.known, hr.bounds.committed, hr.bounds.highQc⟩) hr
    fun donor hdonor => follows_syncFrom hr (hothers donor hdonor)

variable [Bincode Snapshot] [Sha256] [App σ] {expected : Message → Prop} {nextHash : Hash}
  {sim : Simulation σ}

/-- A recovery puts a replica back that follows the history. -/
theorem Sound.recover [LawfulBincode LogEntry] [LawfulBincode Snapshot]
    (hs : Sound expected nextHash h sim) (hgenesis : genesisBlock ∈ h.blocks) {now i : Nat}
    (hfit : ∀ dir ∈ sim.replicaDataDirs[i]?, FramesFit dir) {sim' : Simulation σ}
    (hok : sim.recoverReplica now i = .ok sim') : Sound expected nextHash h sim' := by
  refine hs.of_seated (recoverReplica_surroundings hok) (hs.seated.recover ?_ hok)
  intro replica keystore dir recovered hr hi hdir hopen
  obtain ⟨d, p, hd, hstored, hp⟩ := hs.crashed i replica hr hi
  rw [hdir, Option.some.injEq] at hd
  subst hd
  obtain ⟨hpointers, hknown, hwritable⟩ := hstored.openReplica (hfit dir hdir) hgenesis hopen
  have hfollows : h.Follows recovered := ⟨hwritable.keyed, hknown, hpointers ▸ hp⟩
  have hothers : ∀ donor ∈ (sim.liveOthers i).head?, h.Follows donor := by
    intro donor hdonor
    obtain ⟨j, hj, -, hlive⟩ := mem_liveOthers (List.mem_of_head? hdonor)
    exact (hs.live j donor hj hlive).follows
  have hsynced := follows_synced now hfollows hothers
  obtain ⟨wal, dir', heq, hlive⟩ :=
    (hwritable.synced now fun donor hdonor => (hothers donor hdonor).keyed).live_takeSnapshot
      hsynced.known now
  simp only at heq
  rw [rejoin_eq, heq]
  exact ⟨⟨hsynced.keyed, hsynced.known, hsynced.bounds⟩, fun _ => ⟨dir', rfl, hlive⟩⟩

end Recovery

end Simulation

end PersistHotStuff
