import PersistHotStuff.Source.Pacemaker

/-!
# Snapshots of a replica and catch-up

Taking a snapshot, and exporting and importing the state of a peer.
-/

namespace PersistHotStuff

open Basis

namespace Replica

variable {σ : Type}

/-- Attach a log handle to this replica so future mutations are logged. -/
def attachWal (r : Replica σ) (wal : WAL) : Replica σ := { r with wal := some wal }

/-- What the directory holds once the handle of the log is dropped. -/
def onDisk (r : Replica σ) (dir : DataDir) : DataDir :=
  match r.wal with
  | some wal => { dir with wal := some wal.file.bytes }
  | none => dir

/-- Attach an application, restoring a pending state into it. -/
def attachApp [App σ] (r : Replica σ) (app : σ) : Replica σ :=
  let app := match r.pendingAppState with
    | some state => (App.restore app state).2
    | none => app
  { r with pendingAppState := none, app := some app }

/-- The snapshot a replica would take now. -/
def captureSnapshot [App σ] (now : Nat) (r : Replica σ) : Snapshot :=
  let appState := match r.app with
    | some app => (App.snapshot app).toOption
    | none => none
  Snapshot.capture now r.snapshotCounter r.config.id r.currentView r.configEpoch
    r.activeValidators.keys r.blockTree r.committedLog r.committedUpTo r.highQc r.nextHash appState

/-- Check whether a snapshot should be taken now. -/
def shouldSnapshot (r : Replica σ) : Bool :=
  !r.committedLog.isEmpty && r.committedLog.length % 100 == 0

section

variable [App σ] [Bincode LogEntry] [Bincode Snapshot] [Crc32] [Sha256]

/-- Take a snapshot of the current state and truncate the log. -/
def takeSnapshot (now : Nat) (r : Replica σ) (dir : DataDir) :
    Except WALError Unit × Replica σ × DataDir :=
  let dir := (r.captureSnapshot now).save dir
  let r := r.record (.snapshotTaken r.snapshotCounter r.committedUpTo now)
  match r.wal with
  | none => (.ok (), { r with snapshotCounter := r.snapshotCounter + 1 }, cleanupOld dir 3)
  | some wal =>
      match wal.truncateAfterSnapshot now dir.walTmp with
      | (.error e, wal) => (.error e, { r with wal := some wal }, dir)
      | (.ok (), wal) =>
          (.ok (), { r with wal := some wal, snapshotCounter := r.snapshotCounter + 1 },
            cleanupOld dir 3)

/-- Export state for join catch-up: latest snapshot and log tail. -/
def exportCatchupState (r : Replica σ) (dir : DataDir) :
    Except (SnapshotError ⊕ WALError) (Option Snapshot × List LogEntry) :=
  let entries : Except (SnapshotError ⊕ WALError) (List LogEntry) :=
    if dir.wal.isSome then
      match WAL.openExisting r.config.id dir.wal with
      | .error e => .error (.inr e)
      | .ok wal =>
          match wal.readAll with
          | (.error e, _) => .error (.inr e)
          | (.ok entries, _) => .ok entries
    else .ok []
  match Snapshot.loadLatest dir with
  | .ok snap => entries.map fun es => (some snap, es)
  | .error .notFound => entries.map fun es => (none, es)
  | .error e => .error (.inl e)

end

/-- The snapshot part of an import: everything but membership is replaced. -/
def importSnapshot (r : Replica σ) (snap : Snapshot) : Replica σ :=
  { r with
    currentView := snap.currentView
    blockTree := OrdMap.ofList (snap.blockTree.map fun b => (b.hash, b.toBlock))
    committedLog := snap.committedLog.map SerializableBlock.toBlock
    committedUpTo := snap.committedUpTo
    highQc := snap.highQc.map SerializableQC.toQc
    nextHash := snap.nextHash }

/-- One log entry of an import. -/
def importEntry (r : Replica σ) (entry : LogEntry) : Replica σ :=
  match entry with
  | .blockInserted hash parent view _ proposer qcBlockHash qcView _ _ =>
      { r with
        blockTree := r.blockTree.insert hash
          { hash := hash
            parent := parent
            view := view
            epoch := r.configEpoch
            proposer := proposer
            qc := stubQc qcBlockHash qcView r.configEpoch
            command := .noOp } }
  | .blockCommitted hash parent view _ proposer _ _ _ =>
      let b : Block :=
        { hash := hash
          parent := parent
          view := view
          epoch := r.configEpoch
          proposer := proposer
          qc := none
          command := .noOp }
      { r with committedLog := r.committedLog ++ [b], committedUpTo := some b.hash }
  | .highQcUpdated blockHash view _ _ =>
      { r with highQc := some { blockHash, view, epoch := r.configEpoch, signatures := [] } }
  | .viewChanged _ newView _ _ => { r with currentView := newView }
  | _ => r

/-- Import catch-up state for a newly joined validator. -/
def importCatchupState (r : Replica σ) (snapshot : Option Snapshot) (walEntries : List LogEntry) :
    Replica σ :=
  let r := match snapshot with
    | some snap => r.importSnapshot snap
    | none => r
  walEntries.foldl importEntry r

end Replica

end PersistHotStuff
