import PersistHotStuff.Source.Network
import PersistHotStuff.Source.Recovery

/-!
# Simulation

The multi-replica simulator: rounds of proposal, votes, certificate, commit and
view change, with crash and recovery of single replicas. The directories hold
the contents of the replicas' files; what is only printed is left out.
-/

namespace PersistHotStuff

open Basis

/-- Multi-replica simulation environment. -/
structure Simulation (σ : Type) where
  replicas : List (Replica σ)
  network : Network
  step : Nat
  maxSteps : Nat
  persistenceEnabled : Bool
  replicaDataDirs : List DataDir
  replicaKeystores : List KeyStore
  crashedReplicas : Finset Nat
  unresponsiveReplicas : Finset Nat
  lastResponseMs : List Nat
  simulatedTimeMs : Nat
  roundTimeMs : Nat

/-- Why an operation on one simulated replica is refused. -/
inductive SimulationError
  | persistenceDisabled
  | invalidReplica (id : Nat)
  | alreadyCrashed (id : Nat)
  | notCrashed (id : Nat)
  | missingDirectory (id : Nat)
  | recovery (id : Nat) (e : RecoveryError)
  | genesisRecord (id : Nat) (e : WALError)
  deriving DecidableEq, Repr

/-- A replica at genesis without persistence. -/
def freshReplica {σ : Type} (now : Nat) (config : Config) (keystore : KeyStore) : Replica σ :=
  let replica : Replica σ :=
    { config := config
      currentView := 0
      blockTree := OrdMap.empty
      highQc := none
      votePool := OrdMap.empty
      nextHash := 1
      committedLog := []
      committedUpTo := none
      timeoutMs := 5000
      viewStartTime := now
      activeValidators := defaultValidators config.n
      configEpoch := 0
      keystore := keystore
      wal := none
      snapshotCounter := 0
      app := none
      pendingAppState := none
      clientQueue := []
      dummyProposalEnabled := false
      lastProposedTime := 0
      dummyTimeoutMs := 0 }
  let replica := replica.ensureDefaultValidators
  { replica with blockTree := replica.blockTree.insert 0 genesisBlock }

/-- Whether recovery found nothing, so that genesis still has to be logged. -/
def isFreshStore {σ : Type} (wal : WAL) (replica : Replica σ) : Bool :=
  wal.entryCount == 0 && replica.blockTree.length == 1 && replica.blockTree.contains 0

/-- Log genesis in a fresh store. -/
def logGenesis {σ : Type} [Bincode LogEntry] [Crc32] (now : Nat) (wal : WAL)
    (replica : Replica σ) : Except WALError WAL :=
  if isFreshStore wal replica then
    let genesis := (replica.blockTree.get? 0).getD genesisBlock
    match wal.append (LogEntry.fromBlock now genesis) with
    | (.error e, _) => .error e
    | (.ok (), wal) => .ok wal
  else .ok wal

namespace Simulation

variable {σ : Type}

/-- Whether a replica takes part in the round: neither crashed nor unresponsive. -/
def available (sim : Simulation σ) (id : Nat) : Bool :=
  decide (id ∉ sim.crashedReplicas) && decide (id ∉ sim.unresponsiveReplicas)

/-- Note that a replica responded now. -/
def markResponded (sim : Simulation σ) (id : Nat) : Simulation σ :=
  { sim with lastResponseMs := sim.lastResponseMs.set id sim.simulatedTimeMs }

/-- Advance the simulator's clock by one round. -/
def advanceSimulatedTime (sim : Simulation σ) : Simulation σ :=
  { sim with simulatedTimeMs := min (sim.simulatedTimeMs + sim.roundTimeMs) (2 ^ 128 - 1) }

/-- Replace one replica. -/
def setReplica (sim : Simulation σ) (id : Nat) (replica : Replica σ) : Simulation σ :=
  { sim with replicas := sim.replicas.set id replica }

/-- Apply an action to every available replica in turn. -/
def forEachAvailable (sim : Simulation σ) (act : Simulation σ → Nat → Replica σ → Simulation σ) :
    Simulation σ :=
  (List.range sim.replicas.length).foldl (fun sim id =>
    match sim.replicas[id]? with
    | some replica => if sim.available id then act sim id replica else sim
    | none => sim) sim

/-- Crash a replica: its volatile state is lost, its files stay. -/
def crashReplica (now : Nat) (sim : Simulation σ) (id : Nat) :
    Except SimulationError (Simulation σ) :=
  if !sim.persistenceEnabled then .error .persistenceDisabled
  else
    match sim.replicas[id]?, sim.replicaKeystores[id]? with
    | some replica, some keystore =>
        if id ∈ sim.crashedReplicas then .error (.alreadyCrashed id)
        else .ok { sim with
          replicas := sim.replicas.set id (freshReplica now replica.config keystore)
          replicaDataDirs := sim.replicaDataDirs.modify id replica.onDisk
          crashedReplicas := insert id sim.crashedReplicas
          unresponsiveReplicas := sim.unresponsiveReplicas.erase id }
    | _, _ => .error (.invalidReplica id)

/-- Crash the unresponsive replicas whose timeout has passed. -/
def processTimeoutCrashes (now : Nat) (sim : Simulation σ) : Simulation σ :=
  let toCrash := (List.range sim.replicas.length).filter fun id =>
    match sim.replicas[id]? with
    | none => false
    | some replica =>
        decide (id ∉ sim.crashedReplicas) && decide (id ∈ sim.unresponsiveReplicas) &&
          decide (replica.timeoutMs ≤ sim.simulatedTimeMs - (sim.lastResponseMs[id]?).getD 0)
  toCrash.foldl (fun sim id =>
    match sim.crashReplica now id with
    | .ok sim => sim
    | .error _ => sim) sim

/-- Mark or unmark a live replica as non-responsive. -/
def setReplicaUnresponsive (sim : Simulation σ) (id : Nat) (unresponsive : Bool) :
    Except SimulationError (Simulation σ) :=
  if sim.replicas.length ≤ id then .error (.invalidReplica id)
  else if id ∈ sim.crashedReplicas then .error (.alreadyCrashed id)
  else if unresponsive then
    .ok { sim with unresponsiveReplicas := insert id sim.unresponsiveReplicas }
  else
    .ok ({ sim with unresponsiveReplicas := sim.unresponsiveReplicas.erase id }.markResponded id)

/-- The greatest view among a list of replicas. -/
def maxView (views : List Nat) : Option Nat := views.max?

/-- The current leader, by the greatest view of a replica that is not crashed. -/
def currentLeader (sim : Simulation σ) : Nat :=
  if sim.replicas.isEmpty then 0
  else
    let live := sim.replicas.zipIdx.filter fun p => p.2 ∉ sim.crashedReplicas
    let baseView := (maxView (live.map fun p => p.1.currentView)).getD 0
    let candidates := (List.range sim.replicas.length).map fun offset =>
      (baseView + offset) % sim.replicas.length
    (candidates.find? fun candidate => candidate ∉ sim.crashedReplicas).getD 0

section Round

variable [Ed25519] [Sha256] [Bincode LogEntry] [Bincode Snapshot] [Crc32] [App σ]

/-- Advance the view of every available replica; `responds` says whether that counts as a
response. -/
def advanceViews (now : Nat) (reason : ViewChangeReason) (responds : Bool) (sim : Simulation σ) :
    Simulation σ :=
  sim.forEachAvailable fun sim id replica =>
    let sim := sim.setReplica id (replica.advanceViewWithReason now reason)
    if responds then sim.markResponded id else sim

/-- One replica validates a proposal and votes for it if it is valid. -/
def deliverProposal (now : Nat) (sim : Simulation σ) (msg : Message) : Simulation σ :=
  match msg with
  | .proposal sender receiver block =>
      match sim.replicas[receiver]? with
      | none => sim
      | some replica =>
          if !sim.available receiver then sim
          else
            match replica.validateAndInsertProposal now block with
            | (replica, false) => sim.setReplica receiver replica
            | (replica, true) =>
                let signature := replica.keystore.sign block.hash block.view block.epoch
                let vote : Vote :=
                  { blockHash := block.hash, view := block.view, epoch := block.epoch, signature }
                let sim := (sim.setReplica receiver replica).markResponded receiver
                { sim with network := sim.network.sendVote receiver sender vote }
  | _ => sim

/-- The receiver of a vote handles it; a certificate it forms replaces the one seen before. -/
def deliverVote (now : Nat) (acc : Simulation σ × Option QuorumCert) (msg : Message) :
    Simulation σ × Option QuorumCert :=
  match msg with
  | .vote _ receiver vote =>
      match acc.1.replicas[receiver]? with
      | none => acc
      | some replica =>
          if !acc.1.available receiver then acc
          else
            match replica.handleVote now vote with
            | (replica, formed) =>
                ((acc.1.setReplica receiver replica).markResponded receiver,
                  match formed with
                  | some qc => some qc
                  | none => acc.2)
  | _ => acc

/-- The receiver of a certificate adopts it if it is newer. `always` says whether receiving it
counts as a response even when it is not adopted. -/
def deliverQc (now : Nat) (always : Bool) (sim : Simulation σ) (msg : Message) : Simulation σ :=
  match msg with
  | .quorumCertBroadcast _ receiver qc _ =>
      match sim.replicas[receiver]? with
      | none => sim
      | some replica =>
          if !sim.available receiver then sim
          else
            match replica.applyHighQcFromNetwork now qc with
            | (replica, updated) =>
                let sim := sim.setReplica receiver replica
                if updated || always then sim.markResponded receiver else sim
  | _ => sim

/-- Broadcast a proposal and let every replica validate and vote. -/
def proposalPhase (now : Nat) (leaderId : Nat) (block : Block) (sim : Simulation σ) :
    Simulation σ :=
  let (msgs, network) := (sim.network.broadcastProposal leaderId block).drain
  let proposals := msgs.filter fun msg => match msg with
    | .proposal .. => true
    | _ => false
  proposals.foldl (deliverProposal now) { sim with network := network }

/-- The leader collects the votes; the result is the certificate formed last. -/
def votePhase (now : Nat) (sim : Simulation σ) : Simulation σ × Option QuorumCert :=
  let (msgs, network) := sim.network.drain
  msgs.foldl (deliverVote now) ({ sim with network := network }, none)

/-- Broadcast a formed certificate and let every replica adopt it. -/
def qcPhase (now : Nat) (leaderId : Nat) (always : Bool) (qcFormed : Option QuorumCert)
    (sim : Simulation σ) : Simulation σ :=
  match qcFormed with
  | none => sim
  | some qc =>
      let (msgs, network) := (sim.network.broadcastQc leaderId qc qc.blockHash).drain
      msgs.foldl (deliverQc now always) { sim with network := network }

/-- One replica commits what it can and snapshots when one is due. -/
def commitAt (now : Nat) (sim : Simulation σ) (id : Nat) (replica : Replica σ) : Simulation σ :=
  let replica := replica.commitAll now
  let sim := match sim.replicaDataDirs[id]? with
    | some dir =>
        if sim.persistenceEnabled && replica.shouldSnapshot then
          let (_, replica, dir) := replica.takeSnapshot now dir
          { sim.setReplica id replica with replicaDataDirs := sim.replicaDataDirs.set id dir }
        else sim.setReplica id replica
    | none => sim.setReplica id replica
  sim.markResponded id

/-- Every available replica commits. -/
def commitPhase (now : Nat) (sim : Simulation σ) : Simulation σ :=
  sim.forEachAvailable (commitAt now)

/-- From the proposal to the certificate: the state before the commit scan and the certificate
formed. -/
def certifyPhases (now : Nat) (leaderId : Nat) (always : Bool) (block : Block)
    (sim : Simulation σ) : Simulation σ × Option QuorumCert :=
  let (sim, qcFormed) := votePhase now (proposalPhase now leaderId block sim)
  (qcPhase now leaderId always qcFormed sim, qcFormed)

/-- What a round does once its clock has advanced: nothing, a view change without a proposal, or
a proposal with everything that follows. -/
inductive Opening (σ : Type)
  /-- All steps are used up or every replica is crashed. -/
  | finished
  /-- The leader is crashed or unresponsive. -/
  | leaderless
  /-- The leader does not propose. -/
  | silent (sim : Simulation σ)
  /-- The leader has proposed a block. -/
  | proposed (sim : Simulation σ) (leaderId : Nat) (block : Block)

/-- The opening of a round, with the leader's way of proposing as a parameter. -/
def openRound (proposeWith : Replica σ → Nat → Hash → Replica σ × Option Block)
    (sim : Simulation σ) : Opening σ :=
  if sim.maxSteps ≤ sim.step ∨ sim.crashedReplicas.card = sim.replicas.length then .finished
  else
    let leaderId := sim.currentLeader
    match sim.replicas[leaderId]? with
    | none => .finished
    | some leader =>
        if !sim.available leaderId then .leaderless
        else
          let (uniqueHash, network) := sim.network.generateUniqueHash
          match proposeWith leader leader.currentView uniqueHash with
          | (leader, none) => .silent ({ sim with network := network }.setReplica leaderId leader)
          | (leader, some block) =>
              .proposed (({ sim with network := network }.setReplica leaderId leader).markResponded
                leaderId) leaderId block

/-- Count one more step. -/
def bumpStep (sim : Simulation σ) : Simulation σ := { sim with step := sim.step + 1 }

/-- The clock advance and timeout sweep every round starts with. -/
def roundStart (now : Nat) (sim : Simulation σ) : Simulation σ :=
  sim.advanceSimulatedTime.processTimeoutCrashes now

/-- The opening of `runOneRound`. -/
def plainOpening (now : Nat) (sim : Simulation σ) : Opening σ :=
  openRound (fun leader view hash => leader.proposeWithHash now view hash) sim

/-- The opening of `runOneRoundWithPacemaker`. -/
def pacemakerOpening (now : Nat) (sim : Simulation σ) : Opening σ :=
  openRound (fun leader view hash => leader.proposeNextWithHash now view hash) sim

/-- Run one consensus round: propose, vote, form a certificate, commit. -/
def runOneRound (now : Nat) (sim : Simulation σ) : Simulation σ × Bool :=
  let sim := sim.roundStart now
  match plainOpening now sim with
  | .finished => (sim, false)
  | .leaderless =>
      ((advanceViews now .timeout true sim).bumpStep.processTimeoutCrashes now, true)
  | .silent sim =>
      ((advanceViews now .timeout true sim).bumpStep.processTimeoutCrashes now, true)
  | .proposed sim leaderId block =>
      let (sim, _) := certifyPhases now leaderId false block sim
      let sim := advanceViews now .commit true (commitPhase now sim)
      (sim.bumpStep.processTimeoutCrashes now, true)

/-- Run one round using the enhanced pacemaker. -/
def runOneRoundWithPacemaker (now : Nat) (sim : Simulation σ) : Simulation σ × Bool :=
  let sim := sim.roundStart now
  match pacemakerOpening now sim with
  | .finished => (sim, false)
  | .leaderless => ((advanceViews now .timeout false sim).bumpStep, true)
  | .silent sim => ((advanceViews now .commit false sim).bumpStep, true)
  | .proposed sim leaderId block =>
      let (sim, _) := certifyPhases now leaderId true block sim
      let sim := advanceViews now .commit true (commitPhase now sim)
      (sim.bumpStep, true)

end Round

/-- Import the missing blocks of a donor. -/
def importBlocks (recovered donor : Replica σ) : Replica σ :=
  { recovered with
    blockTree := donor.blockTree.entries.foldl (fun tree p =>
      if tree.contains p.1 then tree else tree.insert p.1 p.2) recovered.blockTree }

/-- Whether a donor's log is longer and extends one's own. -/
def adoptsLog (recovered donor : Replica σ) : Bool :=
  recovered.committedLog.length < donor.committedLog.length &&
    (recovered.committedLog.zip donor.committedLog).all fun p => p.1.hash == p.2.hash

/-- Adopt a donor's log if it is longer and extends one's own. -/
def adoptLog (recovered donor : Replica σ) : Replica σ :=
  if adoptsLog recovered donor then
    { recovered with
      committedLog := donor.committedLog
      committedUpTo := donor.committedUpTo }
  else recovered

/-- Whether a donor's certificate is newer than one's own. -/
def dominated (highQc : Option QuorumCert) (donorQc : QuorumCert) : Bool :=
  match highQc with
  | some hq => Replica.newerQc donorQc hq
  | none => true

/-- Adopt a donor's high certificate if it is newer. -/
def adoptHighQc (recovered donor : Replica σ) : Replica σ :=
  match donor.highQc with
  | none => recovered
  | some donorQc =>
      if dominated recovered.highQc donorQc then { recovered with highQc := some donorQc }
      else recovered

/-- Move the local hash counter past every known block. -/
def raiseNextHash (recovered : Replica σ) : Replica σ :=
  match recovered.blockTree.last? with
  | none => recovered
  | some (maxHash, _) =>
      if recovered.nextHash ≤ maxHash then { recovered with nextHash := wrappingAdd maxHash 1 }
      else recovered

/-- Catch up from a live replica. -/
def syncFrom (recovered donor : Replica σ) : Replica σ :=
  raiseNextHash (adoptHighQc (adoptLog (importBlocks recovered donor) donor) donor)

section Recover

variable [Ed25519] [Sha256] [Bincode LogEntry] [Bincode Snapshot] [Crc32] [App σ]

/-- Advance the view until it is at least `target`. -/
def catchUpView (now : Nat) (target : Nat) : Nat → Replica σ → Replica σ
  | 0, r => r
  | fuel + 1, r =>
      if r.currentView < target then
        catchUpView now target fuel (r.advanceViewWithReason now .timeout)
      else r

/-- The live replicas other than one. -/
def liveOthers (sim : Simulation σ) (id : Nat) : List (Replica σ) :=
  (sim.replicas.zipIdx.filter fun p => decide (p.2 ≠ id) && decide (p.2 ∉ sim.crashedReplicas)).map
    Prod.fst

/-- Recover one replica from its directory and attach its log. -/
def openReplica (now : Nat) (id : Nat) (config : Config) (keystore : KeyStore) (dir : DataDir) :
    Except SimulationError (Replica σ) :=
  match recover (σ := σ) now config keystore dir with
  | .error e => .error (.recovery id e)
  | .ok (recovered, wal) =>
      match logGenesis now wal recovered with
      | .error e => .error (.genesisRecord id e)
      | .ok wal => .ok (recovered.attachWal wal)

/-- Catch up from the first of the live others, move on to their views, and make the imported
state durable by a snapshot. -/
def rejoin (now : Nat) (others : List (Replica σ)) (recovered : Replica σ) (dir : DataDir) :
    Replica σ × DataDir :=
  let recovered := match others.head? with
    | some donor => syncFrom recovered donor
    | none => recovered
  let target := (maxView (others.map Replica.currentView)).getD recovered.currentView
  let recovered := catchUpView now target (target - recovered.currentView) recovered
  let (_, recovered, dir) := recovered.takeSnapshot now dir
  (recovered, dir)

/-- Recover a crashed replica from its files, catch up from a live one and rejoin. -/
def recoverReplica (now : Nat) (sim : Simulation σ) (id : Nat) :
    Except SimulationError (Simulation σ) :=
  if !sim.persistenceEnabled then .error .persistenceDisabled
  else
    match sim.replicas[id]?, sim.replicaKeystores[id]? with
    | some replica, some keystore =>
        if id ∉ sim.crashedReplicas then .error (.notCrashed id)
        else
          match sim.replicaDataDirs[id]? with
          | none => .error (.missingDirectory id)
          | some dir =>
              match openReplica (σ := σ) now id replica.config keystore dir with
              | .error e => .error e
              | .ok recovered =>
                  let (recovered, dir) := rejoin now (sim.liveOthers id) recovered dir
                  .ok ({ sim with
                    replicas := sim.replicas.set id recovered
                    replicaDataDirs := sim.replicaDataDirs.set id dir
                    crashedReplicas := sim.crashedReplicas.erase id
                    unresponsiveReplicas := sim.unresponsiveReplicas.erase id }.markResponded id)
    | _, _ => .error (.invalidReplica id)

end Recover

/-- Enable dummy-proposal injection on all replicas. -/
def enableDummyProposals (sim : Simulation σ) (timeoutMs : Nat) : Simulation σ :=
  { sim with replicas := sim.replicas.map fun r => r.enableDummyProposals timeoutMs }

/-- Disable dummy-proposal injection on all replicas. -/
def disableDummyProposals (sim : Simulation σ) : Simulation σ :=
  { sim with replicas := sim.replicas.map Replica.disableDummyProposals }

/-- Enqueue a client command on the current leader. -/
def enqueueClientCommand (sim : Simulation σ) (cmd : ConsensusCommand) : Simulation σ :=
  { sim with replicas := sim.replicas.modify sim.currentLeader fun r => r.enqueueCommand cmd }

/-- Verify consensus safety: compare every other live log with that of the first live replica, up to
the shorter of the two. -/
def verifySafety (sim : Simulation σ) : Bool :=
  match sim.replicas.zipIdx.find? fun p => decide (p.2 ∉ sim.crashedReplicas) with
  | none => true
  | some (reference, referenceIdx) =>
      (sim.replicas.zipIdx.drop 1).all fun p =>
        p.2 == referenceIdx || decide (p.2 ∈ sim.crashedReplicas) ||
          (reference.committedLog.zip p.1.committedLog).all fun b => b.1.hash == b.2.hash

section New

variable [Ed25519] [Sha256] [Bincode LogEntry] [Bincode Snapshot] [Crc32]

/-- Configuration of one simulated replica. -/
def replicaConfig (n f id : Nat) : Config where
  n := n
  f := f
  id := id
  timeoutMs := 5000

/-- A simulation of the given replicas before its first round. -/
def start (n maxSteps : Nat) (persistenceEnabled : Bool) (replicas : List (Replica σ))
    (dirs : List DataDir) (keystores : List KeyStore) : Simulation σ where
  replicas := replicas
  network := Network.new n
  step := 0
  maxSteps := maxSteps
  persistenceEnabled := persistenceEnabled
  replicaDataDirs := dirs
  replicaKeystores := keystores
  crashedReplicas := ∅
  unresponsiveReplicas := ∅
  lastResponseMs := List.replicate n 0
  simulatedTimeMs := 0
  roundTimeMs := 1000

/-- A new simulation without persistence. `allKeys` are the generated keys, one for each replica,
in the iteration order of their map. -/
def new (now f maxSteps : Nat) (allKeys : List (ReplicaId × Bytes)) : Simulation σ :=
  let n := allKeys.length
  let keystores := KeyStore.distributeKeys allKeys
  start n maxSteps false
    (keystores.mapIdx fun id ks => freshReplica now (replicaConfig n f id) ks) [] keystores

/-- A new simulation with persistence over the given directories, one for each replica. -/
def newWithPersistence (now f maxSteps : Nat) (allKeys : List (ReplicaId × Bytes))
    (dirs : List DataDir) : Except SimulationError (Simulation σ) :=
  let n := allKeys.length
  let keystores := KeyStore.distributeKeys allKeys
  let opened := (keystores.zip dirs).mapIdx fun id p =>
    openReplica (σ := σ) now id (replicaConfig n f id) p.1 p.2
  (opened.mapM id).map fun replicas => start n maxSteps true replicas dirs keystores

end New

end Simulation

end PersistHotStuff
