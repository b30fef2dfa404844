import PersistHotStuff.Basis.CutFrames
import PersistHotStuff.Durability.Log
import PersistHotStuff.Source.Sample

/-!
# A log file cut by a crash

A crash may leave any start of the log file. The reader takes the end of the
file for the end of the log only inside a length prefix; anywhere else in a
frame it is an error, and the whole entries before it are not returned either.
-/

namespace PersistHotStuff

open Basis

section

variable [Bincode LogEntry] [Crc32]

/-- The entries whose frames lie wholly within the first bytes of the file. -/
def wholeEntries (entries : List LogEntry) (cut : Nat) : List LogEntry :=
  wholeFrames Crc32.hash Bincode.serialize entries (cut - headerSize)

/-- A log that is created and appended to holds its entries behind the header. -/
theorem WAL.carries_create {now : Nat} {replicaId : ReplicaId} {wal : WAL}
    (h : WAL.create now replicaId none = .ok wal) : wal.Carries [] := by
  cases h
  refine ⟨⟨now, replicaId, ?_⟩, ?_, rfl⟩
  · rw [logBytes, frames_nil, List.append_nil]
  · exact (length_walHeader now replicaId).symm

/-- A cut behind the header leaves the header and a cut of the frames. -/
theorem take_logBytes (created : Nat) (replicaId : ReplicaId) (entries : List LogEntry) {cut : Nat}
    (hcut : headerSize ≤ cut) :
    (logBytes created replicaId entries).take cut =
      walHeader created replicaId ++
        (frames Crc32.hash Bincode.serialize entries).take (cut - headerSize) := by
  rw [logBytes, List.take_append, length_walHeader,
    List.take_of_length_le (by rw [length_walHeader]; exact hcut)]

/-- Opening a file that starts with a header depends on its entries only, and then they are read
again. -/
theorem WAL.openExisting_readAll_iff {bytes : Bytes} {created : Nat} {rid : ReplicaId}
    {rest : Bytes} (hbytes : bytes = walHeader created rid ++ rest) (replicaId : ReplicaId)
    (entries : List LogEntry) :
    (∃ opened, WAL.openExisting replicaId (some bytes) = .ok opened ∧
        opened.readAll.1 = .ok entries) ↔
      readEntriesFromFile headerSize bytes = .ok entries := by
  have hfile := WAL.openExisting_header (logFile_header created rid) rest replicaId
  rw [← hbytes] at hfile
  rw [hfile]
  cases hread : readEntriesFromFile headerSize bytes with
  | error e =>
    refine iff_of_false ?_ fun h => by cases h
    rintro ⟨opened, hopened, -⟩
    cases hopened
  | ok read =>
    constructor
    · rintro ⟨opened, hopened, hall⟩
      cases hopened
      rwa [WAL.readAll, hread] at hall
    · intro h
      exact ⟨_, rfl, by rw [WAL.readAll, hread]; exact h⟩

/-- Reading the entries of a file is reading its frames. -/
theorem readEntriesFromFile_ok_iff (pos : Nat) (bytes : Bytes) (entries : List LogEntry) :
    readEntriesFromFile pos bytes = .ok entries ↔
      readAllFrames Crc32.hash Bincode.deserialize pos (bytes.drop pos) = .ok entries := by
  rw [readEntriesFromFile]
  split
  · rename_i read hread
    rw [hread, Except.ok.injEq, Except.ok.injEq]
  all_goals
    rename_i hread
    rw [hread]
    exact iff_of_false (fun h => by cases h) fun h => by cases h

/-- Whatever was appended to a new log, and wherever behind its header a crash cuts the file: the
log opens and returns the entries whose frames lie wholly before the cut exactly when each of them
fits its length prefix and fewer than four bytes are left of the next frame. -/
theorem WAL.open_cut_iff [LawfulBincode LogEntry] [StrictBincode LogEntry] {now : Nat}
    {replicaId : ReplicaId} {wal : WAL} (hcreate : WAL.create now replicaId none = .ok wal)
    (entries : List LogEntry) {cut : Nat} (hheader : headerSize ≤ cut) :
    (∃ opened, WAL.openExisting replicaId
          (some ((wal.appendAll entries).file.bytes.take cut)) = .ok opened ∧
        opened.readAll.1 = .ok (wholeEntries entries cut)) ↔
      (∀ entry ∈ wholeEntries entries cut, ShortPayload entry) ∧
        ((wal.appendAll entries).file.bytes.take cut).length <
          headerSize + (frames Crc32.hash Bincode.serialize (wholeEntries entries cut)).length +
            4 := by
  obtain ⟨created, rid, hbytes⟩ := ((WAL.carries_create hcreate).appendAll entries).bytes
  rw [List.nil_append] at hbytes
  have hcut := take_logBytes created rid entries hheader
  have hdrop : ((logBytes created rid entries).take cut).drop headerSize =
      (frames Crc32.hash Bincode.serialize entries).take (cut - headerSize) := by
    rw [hcut]
    exact List.drop_left' (length_walHeader created rid)
  have hlen : ((logBytes created rid entries).take cut).length = headerSize +
      ((frames Crc32.hash Bincode.serialize entries).take (cut - headerSize)).length := by
    rw [hcut, List.length_append, length_walHeader]
  rw [hbytes, WAL.openExisting_readAll_iff hcut, readEntriesFromFile_ok_iff, hdrop, hlen,
    Nat.add_assoc, Nat.add_lt_add_iff_left]
  exact readAllFrames_cut_iff Crc32.hash Bincode.serialize Bincode.deserialize
    (fun e _ => LawfulBincode.deserialize_serialize e)
    (fun e _ => StrictBincode.deserialize_take e) (cut - headerSize) headerSize

end

section Samples

open Sample

/-- The log of replica 3 at its creation. -/
def newLog : WAL := ⟨⟨walHeader 0 3, headerSize⟩, 3, 0, []⟩

/-- Two view changes. -/
def twoViews : List LogEntry := [.viewChanged 0 1 .timeout 5, .viewChanged 1 2 .commit 6]

/-- Three bytes of the second length prefix do no harm. -/
theorem WAL.open_cut_short :
    ∃ opened, WAL.openExisting 3 (some ((newLog.appendAll twoViews).file.bytes.take 57)) =
        .ok opened ∧
      opened.readAll.1 = .ok (wholeEntries twoViews 57) := by
  have hcreate : WAL.create 0 3 none = .ok newLog := rfl
  exact (WAL.open_cut_iff hcreate twoViews (by decide)).mpr (by decide +kernel)

/-- With a whole length prefix of the second entry the first entry is lost too. -/
theorem WAL.open_cut_fails :
    WAL.create 0 3 none = .ok newLog ∧ headerSize ≤ 58 ∧
      wholeEntries twoViews 58 = [.viewChanged 0 1 .timeout 5] ∧
      WAL.openExisting 3 (some ((newLog.appendAll twoViews).file.bytes.take 58)) =
        .error (.io .unexpectedEof) :=
  ⟨rfl, by decide, by decide +kernel, by decide +kernel⟩

end Samples

end PersistHotStuff
