import PersistHotStuff.Source.Types

/-!
# Write-ahead log

The log file is its bytes: a header of thirty bytes and one checksummed frame
per entry. A handle owns the file it has open, with its cursor; dropping the
handle leaves the bytes in the directory. `bincode` and `crc32fast` are
parameters.
-/

namespace PersistHotStuff

open Basis

/-- What the code uses of `bincode`, for one type. -/
class Bincode (α : Type) where
  serialize : α → Bytes
  deserialize : Bytes → Option α

/-- `bincode` reads back what it wrote. -/
class LawfulBincode (α : Type) [Bincode α] : Prop where
  deserialize_serialize : ∀ a : α, Bincode.deserialize (Bincode.serialize a) = some a

/-- `bincode` reports the end of its input when a value is cut short. -/
class StrictBincode (α : Type) [Bincode α] : Prop where
  deserialize_take : ∀ (a : α) (k : Nat), k < (Bincode.serialize a).length →
    (Bincode.deserialize ((Bincode.serialize a).take k) : Option α) = none

/-- What the code uses of `crc32fast`. -/
class Crc32 where
  hash : Bytes → UInt32

/-- Reason a view change happened. -/
inductive ViewChangeReason
  | timeout
  | commit
  deriving DecidableEq, Repr

/-- One atomic event that must be durably recorded. -/
inductive LogEntry
  /-- A new block was added to the in-memory block tree. -/
  | blockInserted (hash : Hash) (parent : Option Hash) (view epoch : Nat) (proposer : ReplicaId)
      (qcBlockHash : Option Hash) (qcView : Option Nat) (command : ConsensusCommand)
      (timestamp : Nat)
  /-- A vote was received and added to the vote pool. -/
  | voteReceived (blockHash : Hash) (view : Nat) (signer : ReplicaId) (timestamp : Nat)
  /-- Enough votes were collected to form a quorum certificate. -/
  | qcFormed (blockHash : Hash) (view epoch signerCount timestamp : Nat)
  /-- The `high_qc` pointer was updated. -/
  | highQcUpdated (blockHash : Hash) (view epoch timestamp : Nat)
  /-- A block was committed. -/
  | blockCommitted (hash : Hash) (parent : Option Hash) (view epoch : Nat) (proposer : ReplicaId)
      (command : ConsensusCommand) (commitIndex timestamp : Nat)
  /-- The replica moved to a new view. -/
  | viewChanged (oldView newView : Nat) (reason : ViewChangeReason) (timestamp : Nat)
  /-- A snapshot was taken. -/
  | snapshotTaken (snapshotId : Nat) (lastCommittedHash : Option Hash) (timestamp : Nat)
  deriving DecidableEq, Repr

namespace LogEntry

/-- The record of a block entering the tree. -/
def fromBlock (now : Nat) (block : Block) : LogEntry :=
  .blockInserted block.hash block.parent block.view block.epoch block.proposer
    (block.qc.map QuorumCert.blockHash) (block.qc.map QuorumCert.view) block.command now

/-- The record of a block entering the committed log at an index. -/
def fromCommittedBlock (now : Nat) (block : Block) (commitIndex : Nat) : LogEntry :=
  .blockCommitted block.hash block.parent block.view block.epoch block.proposer block.command
    commitIndex now

end LogEntry

/-- The kinds of input/output errors the code meets. -/
inductive FileError
  | notFound
  | alreadyExists
  | unexpectedEof
  | refused
  deriving DecidableEq, Repr

/-- Errors of log operations. -/
inductive WALError
  | io (e : FileError)
  | serialization
  | corruptedEntry (offset expected actual : Nat)
  | invalidMagic
  | unsupportedVersion (version : Nat)
  deriving DecidableEq, Repr

/-- Magic bytes at the start of every log file, "HSLW". -/
def walMagic : Bytes := [0x48, 0x53, 0x4C, 0x57]

/-- Format version. -/
def walVersion : Nat := 1

/-- Total size of the file header in bytes. -/
def headerSize : Nat := 30

/-- Header of a log file: magic, version, replica, creation time. -/
def walHeader (now : Nat) (replicaId : ReplicaId) : Bytes :=
  walMagic ++ leBytes 2 walVersion ++ leBytes 8 replicaId ++ leBytes 16 now

@[simp] theorem length_walHeader (now : Nat) (replicaId : ReplicaId) :
    (walHeader now replicaId).length = headerSize := by
  simp only [walHeader, List.length_append, length_leBytes]
  rfl

/-- An open file: its contents and the position of the cursor. -/
structure File where
  bytes : Bytes
  pos : Nat
  deriving DecidableEq, Repr

/-- Write at the cursor, over what is there, and move behind it. -/
def File.writeAll (file : File) (bs : Bytes) : File where
  bytes := file.bytes.take file.pos ++ bs ++ file.bytes.drop (file.pos + bs.length)
  pos := file.pos + bs.length

/-- A write at the end of a file appends. -/
theorem File.writeAll_end {file : File} (h : file.pos = file.bytes.length) (bs : Bytes) :
    file.writeAll bs = ⟨file.bytes ++ bs, (file.bytes ++ bs).length⟩ := by
  simp [File.writeAll, h]

/-- After a write at the end the cursor is at the end again. -/
theorem File.writeAll_atEnd {file : File} (h : file.pos = file.bytes.length) (bs : Bytes) :
    (file.writeAll bs).pos = (file.writeAll bs).bytes.length := by
  rw [File.writeAll_end h]

/-- An open log. `refusals` is the environment's: which of the coming appends fail, without
writing anything; none do once it is used up. -/
structure WAL where
  file : File
  replicaId : ReplicaId
  entryCount : Nat
  refusals : List Bool
  deriving DecidableEq, Repr

section

variable [Bincode LogEntry] [Crc32]

/-- Read the entries of a file from a position on. -/
def readEntriesFromFile (pos : Nat) (bytes : Bytes) : Except WALError (List LogEntry) :=
  match readAllFrames Crc32.hash Bincode.deserialize pos (bytes.drop pos) with
  | .ok entries => .ok entries
  | .error .unexpectedEof => .error (.io .unexpectedEof)
  | .error (.corrupted offset expected actual) => .error (.corruptedEntry offset expected actual)
  | .error .undecodable => .error .serialization

namespace WAL

/-- Create a log file; an existing one is refused. -/
def create (now : Nat) (replicaId : ReplicaId) (onDisk : Option Bytes) : Except WALError WAL :=
  if onDisk.isSome then .error (.io .alreadyExists)
  else .ok
    { file := ⟨walHeader now replicaId, headerSize⟩
      replicaId := replicaId
      entryCount := 0
      refusals := [] }

/-- Open an existing log file, validate its header and count its entries. -/
def openExisting (replicaId : ReplicaId) (onDisk : Option Bytes) : Except WALError WAL :=
  match onDisk with
  | none => .error (.io .notFound)
  | some bytes =>
      if bytes.length < 4 then .error (.io .unexpectedEof)
      else if bytes.take 4 ≠ walMagic then .error .invalidMagic
      else if bytes.length < 6 then .error (.io .unexpectedEof)
      else if leNat ((bytes.drop 4).take 2) ≠ walVersion then
        .error (.unsupportedVersion (leNat ((bytes.drop 4).take 2)))
      else if bytes.length < headerSize then .error (.io .unexpectedEof)
      else
        match readEntriesFromFile headerSize bytes with
        | .error e => .error e
        | .ok entries => .ok
            { file := ⟨bytes, bytes.length⟩
              replicaId := replicaId
              entryCount := entries.length
              refusals := [] }

/-- Read every entry; the cursor is left where reading stopped. -/
def readAll (wal : WAL) : Except WALError (List LogEntry) × WAL :=
  (readEntriesFromFile headerSize wal.file.bytes,
    { wal with file := { wal.file with pos := max headerSize wal.file.bytes.length } })

/-- Durably append one entry at the cursor. -/
def append (wal : WAL) (entry : LogEntry) : Except WALError Unit × WAL :=
  match wal.refusals with
  | true :: rest => (.error (.io .refused), { wal with refusals := rest })
  | refusals =>
      let payload := Bincode.serialize entry
      let checksum := (Crc32.hash payload).toNat
      let file := (wal.file.writeAll (leBytes 4 payload.length)).writeAll (leBytes 4 checksum)
      (.ok (), { wal with
        file := file.writeAll payload
        entryCount := wal.entryCount + 1
        refusals := refusals.tail })

/-- Append several entries at the cursor, with one sync behind them. -/
def appendBatch (wal : WAL) : List LogEntry → Except WALError Unit × WAL
  | [] => (.ok (), wal)
  | entry :: entries =>
      match wal.refusals with
      | true :: rest => (.error (.io .refused), { wal with refusals := rest })
      | refusals =>
          let payload := Bincode.serialize entry
          let checksum := (Crc32.hash payload).toNat
          let file := (wal.file.writeAll (leBytes 4 payload.length)).writeAll (leBytes 4 checksum)
          { wal with
            file := file.writeAll payload
            entryCount := wal.entryCount + 1
            refusals := refusals.tail }.appendBatch entries

/-- Replace the log by a fresh empty one, through a temporary file that must not exist yet. -/
def truncateAfterSnapshot (now : Nat) (wal : WAL) (walTmp : Option Bytes) :
    Except WALError Unit × WAL :=
  if walTmp.isSome then (.error (.io .alreadyExists), wal)
  else (.ok (), { wal with file := ⟨walHeader now wal.replicaId, headerSize⟩, entryCount := 0 })

end WAL

end

end PersistHotStuff
