import PersistHotStuff.Source.Persistence

/-!
# Recovery

After a crash the replica is rebuilt from the latest snapshot and the entries
of the log written after it.
-/

namespace PersistHotStuff

open Basis

/-- Errors that can occur during the recovery process. -/
inductive RecoveryError
  | wal (e : WALError)
  | snapshot (e : SnapshotError)
  | outOfOrderCommit (expectedIndex foundIndex : Nat)
  deriving DecidableEq, Repr

/-- The state that replay mutates. -/
structure Recovered where
  blockTree : OrdMap Hash Block
  committedLog : List Block
  committedUpTo : Option Hash
  highQc : Option QuorumCert
  currentView : Nat
  nextHash : Hash
  configEpoch : Nat
  deriving DecidableEq

/-- The part of the base state that replay leaves alone. -/
structure RecoveredBase where
  state : Recovered
  activeValidators : OrdMap ReplicaId Unit
  pendingAppState : Option Bytes
  snapshotCounter : Nat
  deriving DecidableEq

/-- The base state rebuilt from a snapshot. -/
def RecoveredBase.ofSnapshot (snap : Snapshot) : RecoveredBase where
  state :=
    { blockTree := OrdMap.ofList (snap.blockTree.map fun b => (b.hash, b.toBlock))
      committedLog := snap.committedLog.map SerializableBlock.toBlock
      committedUpTo := snap.committedUpTo
      highQc := snap.highQc.map SerializableQC.toQc
      currentView := snap.currentView
      nextHash := snap.nextHash
      configEpoch := snap.configEpoch }
  activeValidators := OrdMap.ofList (snap.activeValidators.map fun id => (id, ()))
  pendingAppState := snap.appState
  snapshotCounter := snap.snapshotId + 1

/-- The base state of a first boot. -/
def RecoveredBase.fresh (n : Nat) : RecoveredBase where
  state :=
    { blockTree := OrdMap.empty
      committedLog := []
      committedUpTo := none
      highQc := none
      currentView := 0
      nextHash := 1
      configEpoch := 0 }
  activeValidators := defaultValidators n
  pendingAppState := none
  snapshotCounter := 0

/-- Replay a single entry. -/
def replayEntry (entry : LogEntry) (st : Recovered) : Except RecoveryError Recovered :=
  match entry with
  | .blockInserted hash parent view epoch proposer qcBlockHash qcView _ _ =>
      let block : Block :=
        { hash := hash
          parent := parent
          view := view
          epoch := epoch
          proposer := proposer
          qc := stubQc qcBlockHash qcView epoch
          command := .noOp }
      .ok { st with
        blockTree := st.blockTree.insert hash block
        nextHash := if st.nextHash ≤ hash then wrappingAdd hash 1 else st.nextHash }
  | .voteReceived .. => .ok st
  | .qcFormed blockHash view epoch _ _ =>
      let dominated := match st.highQc with
        | some hq => decide (hq.view < view)
        | none => true
      .ok { st with
        highQc := if dominated then some { blockHash, view, epoch, signatures := [] } else st.highQc
        configEpoch := max st.configEpoch epoch }
  | .highQcUpdated blockHash view epoch _ =>
      .ok { st with
        highQc := some { blockHash, view, epoch, signatures := [] }
        configEpoch := max st.configEpoch epoch }
  | .blockCommitted hash parent view epoch proposer _ commitIndex _ =>
      -- commits must be replayed in order
      if commitIndex ≠ st.committedLog.length then
        .error (.outOfOrderCommit st.committedLog.length commitIndex)
      else
        let block : Block :=
          { hash := hash
            parent := parent
            view := view
            epoch := epoch
            proposer := proposer
            qc := none
            command := .noOp }
        .ok { st with
          committedLog := st.committedLog ++ [block]
          committedUpTo := some hash
          configEpoch := max st.configEpoch epoch }
  | .viewChanged _ newView _ _ => .ok { st with currentView := newView }
  | .snapshotTaken .. => .ok st

/-- Replay a list of entries in order, stopping at the first error. -/
def replayEntries : List LogEntry → Recovered → Except RecoveryError Recovered
  | [], st => .ok st
  | entry :: entries, st =>
      match replayEntry entry st with
      | .error e => .error e
      | .ok st => replayEntries entries st

section

variable {σ : Type} [Bincode LogEntry] [Bincode Snapshot] [Crc32] [Sha256]

/-- Load the latest snapshot, or start fresh when there is none. -/
def loadBase (config : Config) (dir : DataDir) : Except RecoveryError RecoveredBase :=
  match Snapshot.loadLatest dir with
  | .ok snap => .ok (RecoveredBase.ofSnapshot snap)
  | .error .notFound => .ok (RecoveredBase.fresh config.n)
  | .error e => .error (.snapshot e)

/-- Open the log and replay it over the base state, or create a log. -/
def replayLog (now : Nat) (config : Config) (dir : DataDir) (st : Recovered) :
    Except RecoveryError (Recovered × WAL) :=
  if dir.wal.isSome then
    match WAL.openExisting config.id dir.wal with
    | .error e => .error (.wal e)
    | .ok w =>
        match w.readAll with
        | (.error e, _) => .error (.wal e)
        | (.ok entries, w) =>
            match replayEntries entries st with
            | .error e => .error e
            | .ok st => .ok (st, w)
  else
    match WAL.create now config.id dir.wal with
    | .error e => .error (.wal e)
    | .ok w => .ok (st, w)

/-- Build the replica from the recovered state; an empty tree gets genesis. -/
def buildReplica (now : Nat) (config : Config) (keystore : KeyStore) (base : RecoveredBase)
    (st : Recovered) : Replica σ where
  config := config
  currentView := st.currentView
  blockTree := if st.blockTree.isEmpty then st.blockTree.insert 0 genesisBlock else st.blockTree
  highQc := st.highQc
  votePool := OrdMap.empty
  nextHash := st.nextHash
  committedLog := st.committedLog
  committedUpTo := st.committedUpTo
  timeoutMs := config.timeoutMs
  viewStartTime := now
  activeValidators := base.activeValidators
  configEpoch := st.configEpoch
  keystore := keystore
  wal := none
  snapshotCounter := base.snapshotCounter
  app := none
  pendingAppState := base.pendingAppState
  clientQueue := []
  dummyProposalEnabled := false
  lastProposedTime := 0
  dummyTimeoutMs := 0

/-- Recover a replica from persistent storage. -/
def recover (now : Nat) (config : Config) (keystore : KeyStore) (dir : DataDir) :
    Except RecoveryError (Replica σ × WAL) :=
  match loadBase config dir with
  | .error e => .error e
  | .ok base =>
      match replayLog now config dir base.state with
      | .error e => .error e
      | .ok (st, wal) => .ok (buildReplica now config keystore base st, wal)

end

end PersistHotStuff
