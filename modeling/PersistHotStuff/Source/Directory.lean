import Mathlib.Data.String.Basic
import PersistHotStuff.Source.Snapshot

/-!
# Snapshot files by name

A directory as the file system has it: contents by name, where any number of
replicas and of other programs keep files. Snapshots are found by taking the
names apart. The names come in no particular order, so what scans a directory is
given the order as a listing.
-/

namespace PersistHotStuff

open Basis

/-- A number without its plus sign. -/
def stripPlus : List Char → List Char
  | '+' :: rest => rest
  | s => s

/-- `parse::<u64>`: digits, perhaps after a plus sign, of a number in range. -/
def parseU64 (s : List Char) : Option Nat :=
  let digits := stripPlus s
  if digits.isEmpty || !digits.all Char.isDigit then none
  else
    let n := Nat.ofDigitChars 10 digits 0
    if n ≤ u64Max then some n else none

/-- `Path::with_extension` of a file name: what follows the last dot is replaced, unless the name
starts with that dot. -/
def withExtension (name extension : String) : String :=
  match name.toList.reverse.span (· != '.') with
  | (_, _ :: c :: stem) => String.ofList ((c :: stem).reverse ++ '.' :: extension.toList)
  | _ => String.ofList (name.toList ++ '.' :: extension.toList)

/-- What the names of the snapshot files of a replica start with. -/
def snapshotPrefix (replicaId : ReplicaId) : List Char :=
  "replica_".toList ++ Nat.toDigits 10 replicaId ++ "_snapshot_".toList

/-- `replica_<id>_snapshot_<seq>.bin` -/
def snapshotName (replicaId : ReplicaId) (seq : Nat) : String :=
  String.ofList (snapshotPrefix replicaId ++ Nat.toDigits 10 seq ++ ".bin".toList)

/-- The sequence number in a file name, if it is one of a snapshot of the replica. -/
def snapshotSeq (replicaId : ReplicaId) (name : String) : Option Nat :=
  if (snapshotPrefix replicaId).isPrefixOf name.toList &&
      ".bin".toList.isSuffixOf name.toList then
    parseU64 ((name.toList.take (name.toList.length - 4)).drop (snapshotPrefix replicaId).length)
  else none

/-- `read_to_string` -/
def readToString (content : Bytes) : Except FileError (List Char) :=
  match String.fromUTF8? ⟨content.toArray⟩ with
  | some s => .ok s.toList
  -- what is not UTF-8 is refused
  | none => .error .refused

/-- The files of a directory by name. -/
abbrev Directory := OrdMap String Bytes

namespace Directory

/-- The snapshot files of a replica in a listing, by ascending sequence number. -/
def candidates (replicaId : ReplicaId) (listing : List String) : List (Nat × String) :=
  let found := listing.filterMap fun name => (snapshotSeq replicaId name).map fun seq => (seq, name)
  found.insertionSort fun a b => a.1 ≤ b.1

/-- Delete old snapshots of a replica and their sidecars, keeping the `keep` most recent. -/
def cleanupOld (replicaId : ReplicaId) (listing : List String) (keep : Nat) (dir : Directory) :
    Directory :=
  let found := candidates replicaId listing
  (found.take (found.length - keep)).foldl (fun dir c =>
    (dir.erase c.2).erase (withExtension c.2 "sha256")) dir

variable [Bincode Snapshot] [Sha256]

/-- Write a snapshot and its checksum sidecar. -/
def save (snap : Snapshot) (dir : Directory) : Directory :=
  let payload := Bincode.serialize snap
  let path := snapshotName snap.replicaId snap.snapshotId
  let hash := (String.ofList (Snapshot.checksum payload)).toUTF8.data.toList
  (dir.insert path payload).insert (withExtension path "sha256") hash

/-- Load the snapshot of a replica with the highest sequence number. -/
def loadLatest (replicaId : ReplicaId) (listing : List String) (dir : Directory) :
    Except SnapshotError Snapshot :=
  match (candidates replicaId listing).getLast? with
  | none => .error .notFound
  | some (_, path) =>
      match dir.get? path with
      | none => .error (.io .notFound)
      | some payload =>
          let actual := Snapshot.checksum payload
          let verified : Except SnapshotError Unit :=
            match dir.get? (withExtension path "sha256") with
            | none => .ok ()
            | some content =>
                match readToString content with
                | .error e => .error (.io e)
                | .ok text =>
                    if normalizeHex text ≠ actual then
                      .error (.checksumMismatch (normalizeHex text) actual)
                    else .ok ()
          match verified with
          | .error e => .error e
          | .ok () =>
              match Bincode.deserialize payload with
              | none => .error .serialization
              | some snap => .ok snap

end Directory

end PersistHotStuff
