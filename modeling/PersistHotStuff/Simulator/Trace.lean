import PersistHotStuff.Simulator.Rounds

/-!
# Runs of the simulator

Any sequence of rounds, client commands, interruptions, crashes and recoveries.
As long as rounds certify and commit in order, and the logs of recovered
replicas can be read, the committed logs of all live replicas start one list of
certified blocks.
-/

namespace PersistHotStuff

open Basis

/-- What is done to a simulation next. -/
inductive SimulationOp
  | runOneRound
  | runOneRoundWithPacemaker
  | enqueueClientCommand (cmd : ConsensusCommand)
  | enableDummyProposals (timeoutMs : Nat)
  | disableDummyProposals
  | setReplicaUnresponsive (id : Nat) (unresponsive : Bool)
  | crashReplica (id : Nat)
  | recoverReplica (id : Nat)
  deriving DecidableEq

/-- The call by which an operation configures replicas. -/
def SimulationOp.setting : SimulationOp → Option Call
  | enqueueClientCommand cmd => some (.enqueueCommand cmd)
  | enableDummyProposals timeoutMs => some (.enableDummyProposals timeoutMs)
  | disableDummyProposals => some .disableDummyProposals
  | _ => none

/-- Whether an operation is a round. -/
def SimulationOp.isRound : SimulationOp → Bool
  | runOneRound => true
  | runOneRoundWithPacemaker => true
  | _ => false

theorem SimulationOp.isRound_of_setting {op : SimulationOp} {call : Call}
    (h : op.setting = some call) : op.isRound = false := by
  cases op <;> first | rfl | cases h

/-- A setting inserts no block and changes neither certificate, log nor pool. -/
theorem SimulationOp.setting_quiet {σ : Type} [Ed25519] [Sha256] [Bincode LogEntry] [Crc32] [App σ]
    {op : SimulationOp} {call : Call} (h : op.setting = some call) (now : Nat) (r : Replica σ) :
    r.inserted (now, call) = none ∧ (r.step (now, call)).highQc = r.highQc ∧
      (r.step (now, call)).committedLog = r.committedLog ∧
      (r.step (now, call)).votePool = r.votePool := by
  cases op <;> cases h <;> exact ⟨rfl, rfl, rfl, rfl⟩

/-- A simulation with the history of its run. -/
structure Trace (σ : Type) where
  sim : Simulation σ
  history : History

/-- Live replicas have committed the same wherever both have committed. -/
def Simulation.LogsCompatible {σ : Type} (sim : Simulation σ) : Prop :=
  ∀ (i j : Nat) (r s : Replica σ), sim.replicas[i]? = some r → sim.replicas[j]? = some s →
    i ∉ sim.crashedReplicas → j ∉ sim.crashedReplicas →
    ∀ (m : Nat) (x y : Block), r.committedLog[m]? = some x → s.committedLog[m]? = some y →
      x.hash = y.hash

instance {σ : Type} (sim : Simulation σ) : Decidable sim.LogsCompatible :=
  decidable_of_iff (∀ p ∈ sim.replicas.zipIdx, ∀ q ∈ sim.replicas.zipIdx,
      p.2 ∉ sim.crashedReplicas → q.2 ∉ sim.crashedReplicas →
      ∀ blocks ∈ p.1.committedLog.zip q.1.committedLog, blocks.1.hash = blocks.2.hash) <| by
    constructor
    · intro h i j r s hr hs hi hj m x y hx hy
      exact h (r, i) (List.mem_zipIdx_iff_getElem?.mpr hr) (s, j)
        (List.mem_zipIdx_iff_getElem?.mpr hs) hi hj (x, y)
        (List.mem_of_getElem? (List.getElem?_zip_eq_some.mpr ⟨hx, hy⟩))
    · intro h p hp q hq hpi hqi blocks hblocks
      obtain ⟨m, hm⟩ := List.mem_iff_getElem?.mp hblocks
      obtain ⟨hx, hy⟩ := List.getElem?_zip_eq_some.mp hm
      exact h p.2 q.2 p.1 q.1 (List.mem_zipIdx_iff_getElem?.mp hp)
        (List.mem_zipIdx_iff_getElem?.mp hq) hpi hqi m _ _ hx hy

/-- A list of outcomes that are collected are all successes. -/
theorem eq_of_mapM_id {ε α : Type} {l : List (Except ε α)} {as : List α}
    (h : l.mapM id = .ok as) : l = as.map .ok := by
  induction l generalizing as with
  | nil =>
    cases h
    rfl
  | cons e l ih =>
    rw [List.mapM_cons] at h
    cases e with
    | error e => cases h
    | ok a =>
      cases hrest : l.mapM id with
      | error e =>
        rw [hrest] at h
        cases h
      | ok rest =>
        rw [hrest] at h
        cases h
        rw [ih hrest]
        rfl

/-- A new simulation with persistence opens every replica from its directory. -/
theorem Simulation.newWithPersistence_slots {σ : Type} [Ed25519] [Sha256] [Bincode LogEntry]
    [Bincode Snapshot] [Crc32] {now f maxSteps : Nat} {allKeys : List (ReplicaId × Bytes)}
    {dirs : List DataDir} {sim : Simulation σ}
    (hok : newWithPersistence now f maxSteps allKeys dirs = .ok sim) :
    ∃ replicas,
      sim = start allKeys.length maxSteps true replicas dirs (KeyStore.distributeKeys allKeys) ∧
      replicas.length = min (KeyStore.distributeKeys allKeys).length dirs.length ∧
      ∀ (i : Nat) r, replicas[i]? = some r → ∃ ks dir,
        (KeyStore.distributeKeys allKeys)[i]? = some ks ∧ dirs[i]? = some dir ∧
          openReplica now i (replicaConfig allKeys.length f i) ks dir = .ok r := by
  simp only [newWithPersistence] at hok
  generalize hopened : List.mapIdx _ _ = opened at hok
  cases hall : opened.mapM id with
  | error e =>
    rw [hall] at hok
    cases hok
  | ok replicas =>
    rw [hall] at hok
    cases hok
    have hmap := eq_of_mapM_id hall
    refine ⟨replicas, rfl, ?_, fun i r hr => ?_⟩
    · have hlen := congrArg List.length hmap
      rw [← hopened, List.length_mapIdx, List.length_zip, List.length_map] at hlen
      exact hlen.symm
    · have hslot : opened[i]? = some (.ok r) := by
        rw [hmap, List.getElem?_map, hr]
        rfl
      rw [← hopened, List.getElem?_mapIdx, Option.map_eq_some_iff] at hslot
      obtain ⟨⟨ks, dir⟩, hp, hslot⟩ := hslot
      obtain ⟨hks, hdir⟩ := List.getElem?_zip_eq_some.mp hp
      exact ⟨ks, dir, hks, hdir, hslot⟩

namespace Trace

variable {σ : Type} [Sha256] [Bincode LogEntry] [Bincode Snapshot] [Crc32]

section Sound

/-- A trace whose slots follow its history, which is in order. -/
def Sound (t : Trace σ) : Prop :=
  genesisBlock ∈ t.history.blocks ∧
    ∃ nextHash, t.history.Ok nextHash ∧ Simulation.Sound NoMessage nextHash t.history t.sim

/-- In a sound trace the live replicas have committed the same. -/
theorem Sound.logsCompatible {t : Trace σ} (h : t.Sound) : t.sim.LogsCompatible := by
  obtain ⟨-, nextHash, -, hs⟩ := h
  intro i j r s hr hrs hi hj m x y hx hy
  have hget : ∀ {log : List Block} {z : Block}, log.map Block.hash <+: t.history.certs →
      log[m]? = some z → t.history.certs[m]? = some z.hash := by
    intro log z hpre hz
    have hlt : m < (log.map Block.hash).length := by
      rw [List.length_map]
      exact (List.getElem?_eq_some_iff.mp hz).1
    obtain ⟨rest, hrest⟩ := hpre
    rw [← hrest, List.getElem?_append_left hlt, List.getElem?_map, hz]
    rfl
  have hxy := (hget (hs.live i r hr hi).log hx).symm.trans (hget (hs.live j s hrs hj).log hy)
  exact Option.some.inj hxy

end Sound

variable [Ed25519]

section Start

/-- A new simulation, without persistence or over empty directories. -/
def Start (t : Trace σ) : Prop :=
  t.history = History.genesis ∧
    ((∃ now f maxSteps allKeys, t.sim = Simulation.new now f maxSteps allKeys) ∨
      ∃ now f maxSteps allKeys, Simulation.newWithPersistence now f maxSteps allKeys
        (List.replicate allKeys.length DataDir.empty) = .ok t.sim)

/-- A new simulation is sound. -/
theorem Start.sound {t : Trace σ} (h : t.Start) : t.Sound := by
  obtain ⟨sim, history⟩ := t
  obtain ⟨rfl, hsim⟩ := h
  refine ⟨List.mem_singleton_self _, 1, History.ok_genesis, ?_⟩
  rcases hsim with ⟨now, f, maxSteps, allKeys, rfl⟩ | ⟨now, f, maxSteps, allKeys, hsim⟩
  · refine ⟨fun i r hr _ => ?_, fun i r _ hi => ?_, fun m hm => (by cases hm), rfl⟩
    · simp only [Simulation.new, Simulation.start, List.getElem?_mapIdx,
        Option.map_eq_some_iff] at hr
      obtain ⟨ks, -, rfl⟩ := hr
      exact ⟨Simulation.follows_freshReplica now _ ks, fun hp => by cases hp⟩
    · exact absurd hi (Finset.notMem_empty i)
  · obtain ⟨replicas, rfl, -, hslots⟩ := Simulation.newWithPersistence_slots hsim
    refine ⟨fun i r hr _ => ?_, fun i r _ hi => absurd hi (Finset.notMem_empty i),
      fun m hm => (by cases hm), rfl⟩
    -- the slot was opened over an empty directory
    obtain ⟨ks, dir, -, hdir, hok⟩ := hslots i r hr
    have hempty : dir = DataDir.empty := List.eq_of_mem_replicate (List.mem_of_getElem? hdir)
    subst hempty
    obtain ⟨hfollows, hlive⟩ := live_openReplica_empty hok
    exact ⟨hfollows, fun _ => ⟨DataDir.empty, hdir, hlive⟩⟩

end Start

variable [App σ]

section Step

/-- How a round of the trace opens. -/
def opening (t : Trace σ) (op : Nat × SimulationOp) : Simulation.Opening σ :=
  match op.2 with
  | .runOneRound => Simulation.plainOpening op.1 (t.sim.roundStart op.1)
  | .runOneRoundWithPacemaker => Simulation.pacemakerOpening op.1 (t.sim.roundStart op.1)
  | _ => .finished

/-- Whether receiving a certificate counts as a response. -/
def always (op : Nat × SimulationOp) : Bool :=
  match op.2 with
  | .runOneRoundWithPacemaker => true
  | _ => false

/-- The simulation after an operation at a time; a refused operation changes nothing. -/
def nextSim (t : Trace σ) (op : Nat × SimulationOp) : Simulation σ :=
  match op.2 with
  | .runOneRound => (t.sim.runOneRound op.1).1
  | .runOneRoundWithPacemaker => (t.sim.runOneRoundWithPacemaker op.1).1
  | .enqueueClientCommand cmd => t.sim.enqueueClientCommand cmd
  | .enableDummyProposals timeoutMs => t.sim.enableDummyProposals timeoutMs
  | .disableDummyProposals => t.sim.disableDummyProposals
  | .setReplicaUnresponsive id unresponsive =>
      match t.sim.setReplicaUnresponsive id unresponsive with
      | .ok sim => sim
      | .error _ => t.sim
  | .crashReplica id =>
      match t.sim.crashReplica op.1 id with
      | .ok sim => sim
      | .error _ => t.sim
  | .recoverReplica id =>
      match t.sim.recoverReplica op.1 id with
      | .ok sim => sim
      | .error _ => t.sim

/-- One operation, with what it adds to the history. -/
def step (t : Trace σ) (op : Nat × SimulationOp) : Trace σ where
  sim := t.nextSim op
  history := Simulation.historyAfter t.history op.1 (always op) (t.opening op)

/-- What an operation at a time makes of a simulation. -/
inductive Does (now : Nat) (sim : Simulation σ) : SimulationOp → Simulation σ → Prop
  | runOneRound : Does now sim .runOneRound (sim.runOneRound now).1
  | runOneRoundWithPacemaker :
      Does now sim .runOneRoundWithPacemaker (sim.runOneRoundWithPacemaker now).1
  | configured {op : SimulationOp} {call : Call} {replicas : List (Replica σ)}
      (hsetting : op.setting = some call) (hlen : replicas.length = sim.replicas.length)
      (hreplicas : ∀ (i : Nat) r', replicas[i]? = some r' →
        ∃ r, sim.replicas[i]? = some r ∧ (r' = r ∨ r' = r.step (now, call))) :
      Does now sim op { sim with replicas := replicas }
  | interrupted {id : Nat} {unresponsive : Bool} {sim' : Simulation σ}
      (hok : sim.setReplicaUnresponsive id unresponsive = .ok sim') :
      Does now sim (.setReplicaUnresponsive id unresponsive) sim'
  | crashed {id : Nat} {sim' : Simulation σ} (hok : sim.crashReplica now id = .ok sim') :
      Does now sim (.crashReplica id) sim'
  | recovered {id : Nat} {sim' : Simulation σ} (hok : sim.recoverReplica now id = .ok sim') :
      Does now sim (.recoverReplica id) sim'
  | refused {op : SimulationOp} (hround : op.isRound = false) : Does now sim op sim

theorem step_does (t : Trace σ) (now : Nat) (op : SimulationOp) :
    Does now t.sim op (t.step (now, op)).sim := by
  cases op with
  | runOneRound => exact .runOneRound
  | runOneRoundWithPacemaker => exact .runOneRoundWithPacemaker
  | enqueueClientCommand cmd =>
    refine .configured rfl (List.length_modify ..) fun i r' hr' => ?_
    rw [List.getElem?_modify] at hr'
    obtain ⟨r, hr, rfl⟩ := Option.map_eq_some_iff.mp hr'
    refine ⟨r, hr, ?_⟩
    split
    · exact .inr rfl
    · exact .inl rfl
  | enableDummyProposals timeoutMs =>
    refine .configured rfl (List.length_map ..) fun i r' hr' => ?_
    obtain ⟨r, hr, rfl⟩ := Option.map_eq_some_iff.mp (List.getElem?_map .. ▸ hr')
    exact ⟨r, hr, .inr rfl⟩
  | disableDummyProposals =>
    refine .configured rfl (List.length_map ..) fun i r' hr' => ?_
    obtain ⟨r, hr, rfl⟩ := Option.map_eq_some_iff.mp (List.getElem?_map .. ▸ hr')
    exact ⟨r, hr, .inr rfl⟩
  | setReplicaUnresponsive id unresponsive =>
    simp only [step, nextSim]
    split
    · next hok => exact .interrupted hok
    · exact .refused rfl
  | crashReplica id =>
    simp only [step, nextSim]
    split
    · next hok => exact .crashed hok
    · exact .refused rfl
  | recoverReplica id =>
    simp only [step, nextSim]
    split
    · next hok => exact .recovered hok
    · exact .refused rfl

/-- Between rounds the history does not change. -/
theorem step_history (t : Trace σ) {op : SimulationOp} (h : op.isRound = false) (now : Nat) :
    (t.step (now, op)).history = t.history := by
  cases op <;> first | rfl | cases h

/-- A round certifies only a block that certifies the block certified last, and its available
replicas commit each block after the one it certifies. -/
def Orderly (t : Trace σ) (op : Nat × SimulationOp) : Prop :=
  Simulation.RoundRules t.history op.1 (always op) (t.opening op)

instance (t : Trace σ) : DecidablePred t.Orderly := fun op =>
  inferInstanceAs (Decidable (Simulation.RoundRules t.history op.1 (always op) (t.opening op)))

/-- A recovered replica has left a log whose records all fit their length prefix. -/
def Legible (t : Trace σ) (op : Nat × SimulationOp) : Prop :=
  ∀ id, op.2 = .recoverReplica id → ∀ dir ∈ t.sim.replicaDataDirs[id]?, FramesFit dir

end Step

section Run

/-- Every operation that meets the rules keeps a trace sound. -/
theorem Sound.step [LawfulBincode LogEntry] [LawfulBincode Snapshot] {t : Trace σ} (h : t.Sound)
    {op : Nat × SimulationOp} (hrules : t.Orderly op) (hfit : t.Legible op) :
    (t.step op).Sound := by
  obtain ⟨hgenesis, nextHash, hok, hs⟩ := h
  refine ⟨(Simulation.le_historyAfter ..).blocks _ hgenesis, ?_⟩
  obtain ⟨now, op⟩ := op
  have hstart : Simulation.Sound NoMessage nextHash t.history (t.sim.roundStart now) :=
    hs.advanceSimulatedTime.processTimeoutCrashes now
  have hbetween : op.isRound = false → ∀ sim' : Simulation σ,
      Simulation.Sound NoMessage nextHash t.history sim' → ∃ next,
        (t.step (now, op)).history.Ok next ∧
          Simulation.Sound NoMessage next (t.step (now, op)).history sim' := by
    intro hround sim' hs'
    rw [t.step_history hround]
    exact ⟨nextHash, hok, hs'⟩
  have hdoes := t.step_does now op
  generalize (t.step (now, op)).sim = sim' at hdoes ⊢
  cases hdoes with
  | runOneRound =>
    have hopen : Simulation.Opens now .proposeWithHash (t.sim.roundStart now)
        (Simulation.plainOpening now (t.sim.roundStart now)) := Simulation.openRound_opens ..
    have hhash : ∀ (r : Replica σ) view hash block,
        (r.proposeBy now view (.proposeWithHash hash)).2 = some block → block.hash = hash :=
      fun r view hash block hb => Replica.proposeBy_hash hb
    obtain ⟨next, hnext, hround⟩ := hstart.round hok now hhash hopen false hrules
    refine ⟨next, hnext, Simulation.runOneRound_closes
      (fun s reason responds hs' => hs'.advanceViews now reason responds)
      (fun s hs' => hs'.bumpStep.processTimeoutCrashes now) t.sim (fun hfinished => ?_)
      fun _ => hround⟩
    have hsame : (t.sim.roundStart now).simAfter now false
        (Simulation.plainOpening now (t.sim.roundStart now)) = t.sim.roundStart now := by
      rw [hfinished]
      rfl
    rw [hsame] at hround
    exact hround
  | runOneRoundWithPacemaker =>
    have hopen : Simulation.Opens now .proposeNextWithHash (t.sim.roundStart now)
        (Simulation.pacemakerOpening now (t.sim.roundStart now)) := Simulation.openRound_opens ..
    have hhash : ∀ (r : Replica σ) view hash block,
        (r.proposeBy now view (.proposeNextWithHash hash)).2 = some block → block.hash = hash :=
      fun r view hash block hb => Replica.proposeBy_hash hb
    obtain ⟨next, hnext, hround⟩ := hstart.round hok now hhash hopen true hrules
    refine ⟨next, hnext, Simulation.runOneRoundWithPacemaker_closes
      (fun s reason responds hs' => hs'.advanceViews now reason responds)
      (fun s hs' => hs'.bumpStep) t.sim (fun hfinished => ?_) fun _ => hround⟩
    have hsame : (t.sim.roundStart now).simAfter now true
        (Simulation.pacemakerOpening now (t.sim.roundStart now)) = t.sim.roundStart now := by
      rw [hfinished]
      rfl
    rw [hsame] at hround
    exact hround
  | configured hsetting hlen hreplicas =>
    refine hbetween (SimulationOp.isRound_of_setting hsetting) _ (hs.configure (fun r dir hr => ?_)
      hreplicas)
    obtain ⟨hins, hqc, hlog, -⟩ := SimulationOp.setting_quiet hsetting now r
    refine hr.plainCall (fun b hb => ?_) hqc hlog
    rw [hins] at hb
    cases hb
  | interrupted hset => exact hbetween rfl _ (hs.setReplicaUnresponsive hset)
  | crashed hcrash => exact hbetween rfl _ (hs.crash hcrash)
  | @recovered id _ hrecover => exact hbetween rfl _ (hs.recover hgenesis (hfit id rfl) hrecover)
  | refused hround => exact hbetween hround _ hs

/-- As long as rounds are orderly and the logs that are recovered are legible, live replicas have
committed the same in every state of a run. -/
theorem logs_compatible [LawfulBincode LogEntry] [LawfulBincode Snapshot] {t : Trace σ}
    (hstart : t.Start) {ops : List (Nat × SimulationOp)} (hrules : Along step Orderly t ops)
    (hfit : Along step Legible t ops) :
    Throughout step (fun t => t.sim.LogsCompatible) t ops := by
  have hboth : Along step (fun t op => t.Orderly op ∧ t.Legible op) t ops :=
    along_and.mpr ⟨hrules, hfit⟩
  have hsound : Throughout step Sound t ops :=
    throughout_of_step (fun _ _ h hc => h.step hc.1 hc.2) hstart.sound hboth
  exact fun pre hpre => (hsound pre hpre).logsCompatible

end Run

end Trace

namespace Trace

section Samples

open Sample SimulationOp

/-- The keys of `n` sample replicas. -/
def sampleKeys (n : Nat) : List (ReplicaId × Bytes) :=
  (List.range n).map fun i => (i, signingKey i)

/-- Four sample replicas without persistence. -/
def fourVolatile : Trace NoOpApp where
  sim := Simulation.new 0 1 20 (sampleKeys 4)
  history := History.genesis

/-- Four sample replicas over empty directories. -/
def fourDurable : Trace NoOpApp where
  sim :=
    match Simulation.newWithPersistence 0 1 20 (sampleKeys 4)
      (List.replicate (sampleKeys 4).length DataDir.empty) with
    | .ok sim => sim
    | .error _ => fourVolatile.sim
  history := History.genesis

theorem fourVolatile_start : fourVolatile.Start := ⟨rfl, Or.inl ⟨0, 1, 20, sampleKeys 4, rfl⟩⟩

theorem fourDurable_start : fourDurable.Start := by
  have hok : (Simulation.newWithPersistence (σ := NoOpApp) 0 1 20 (sampleKeys 4)
      (List.replicate (sampleKeys 4).length DataDir.empty)).isOk = true := by decide +kernel
  refine ⟨rfl, Or.inr ⟨0, 1, 20, sampleKeys 4, ?_⟩⟩
  simp only [fourDurable]
  split
  · assumption
  · rename_i he
    rw [he] at hok
    cases hok

/-- Logs on disk are shorter than 4 GiB. -/
def ShortLogs (t : Trace NoOpApp) (_ : Nat × SimulationOp) : Prop :=
  ∀ dir ∈ t.sim.replicaDataDirs, ∀ bytes ∈ dir.wal, bytes.length < 2 ^ 32

instance (t : Trace NoOpApp) : DecidablePred t.ShortLogs := fun _ =>
  inferInstanceAs (Decidable (∀ dir ∈ t.sim.replicaDataDirs, ∀ bytes ∈ dir.wal,
    bytes.length < 2 ^ 32))

theorem legible_of_shortLogs {t : Trace NoOpApp} {op : Nat × SimulationOp} (h : t.ShortLogs op) :
    t.Legible op :=
  fun _ _ dir hdir => framesFit_of_short (h dir (List.mem_of_getElem? hdir))

/-- Three rounds, a crash and a recovery of replica 0, and two more rounds. -/
def recoveryOps : List (Nat × SimulationOp) :=
  [(1, enqueueClientCommand (.clientTx "transfer")), (1, runOneRoundWithPacemaker),
    (2, runOneRound), (3, runOneRound), (4, crashReplica 0), (4, recoverReplica 0),
    (5, runOneRound), (6, runOneRound)]

/-- Replica 3 misses the third round and leads the fourth. -/
def missedRoundOps : List (Nat × SimulationOp) :=
  [(1, runOneRound), (2, runOneRound), (3, setReplicaUnresponsive 3 true), (3, runOneRound),
    (4, setReplicaUnresponsive 3 false), (4, runOneRound), (5, runOneRound), (6, runOneRound),
    (7, runOneRound)]

theorem logs_compatible_recovery :
    Throughout step (fun t => t.sim.LogsCompatible) fourDurable recoveryOps := by
  have hshort : Along step ShortLogs fourDurable recoveryOps := by decide +kernel
  exact logs_compatible fourDurable_start (by decide +kernel)
    (hshort.mono fun _ _ => legible_of_shortLogs)

/-- One missed round splits the logs of honest replicas. -/
theorem logs_diverge :
    fourVolatile.Start ∧
      ¬ Throughout step (fun t => t.sim.LogsCompatible) fourVolatile missedRoundOps := by
  refine ⟨fourVolatile_start, fun h => ?_⟩
  have hend : ¬ (run step fourVolatile missedRoundOps).sim.LogsCompatible := by decide +kernel
  exact hend (h missedRoundOps (List.prefix_refl _))

end Samples

end Trace

end PersistHotStuff
