import PersistHotStuff.Basis.FrameGrammar
import PersistHotStuff.Durability.LogRefinement
import PersistHotStuff.Durability.TornLog

/-!
# Log files of any contents

Whatever the bytes behind the header are, reading a log returns the entries of
its intact frames or names the first frame with a wrong checksum. Up to three
bytes may be left behind the last frame. The reader passes over them, but an
append does not: it writes behind them, and the next reader takes them for the
start of the new frame.
-/

namespace PersistHotStuff

open Basis

section

variable [Bincode LogEntry] [Crc32]

/-- Behind the header and intact frames, the first frame with a wrong checksum starts at the offset,
and the reader stops behind it: going back over the payload and the eight bytes before it stays
within the file and ends at the offset. -/
def CorruptedAt (header rest : Bytes) (offset expected actual : Nat) : Prop :=
  ∃ payloads entries payload tail, Decodes (Bincode.deserialize (α := LogEntry)) payloads entries ∧
    rest = payloadFrames Crc32.hash payloads ++ (rawFrame expected payload ++ tail) ∧
    expected < 2 ^ 32 ∧ payload.length < 2 ^ 32 ∧ actual = (Crc32.hash payload).toNat ∧
    actual ≠ expected ∧ offset = (header ++ payloadFrames Crc32.hash payloads).length ∧
    ∃ cursor, cursor =
        (header ++ (payloadFrames Crc32.hash payloads ++ rawFrame expected payload)).length ∧
      payload.length + 8 ≤ cursor ∧ offset = cursor - payload.length - 8

/-- Corruption of a log is corruption of its frames. -/
theorem readEntriesFromFile_corrupted_iff (pos : Nat) (bytes : Bytes)
    (offset expected actual : Nat) :
    readEntriesFromFile pos bytes = .error (.corruptedEntry offset expected actual) ↔
      readAllFrames Crc32.hash (Bincode.deserialize (α := LogEntry)) pos (bytes.drop pos) =
        .error (.corrupted offset expected actual) := by
  rw [readEntriesFromFile]
  split
  · rename_i hread
    rw [hread]
    exact iff_of_false (fun h => by cases h) fun h => by cases h
  · rename_i hread
    rw [hread]
    exact iff_of_false (fun h => by cases h) fun h => by cases h
  · rename_i hread
    rw [hread]
    simp
  · rename_i hread
    rw [hread]
    exact iff_of_false (fun h => by cases h) fun h => by cases h

/-- On any bytes behind a header reading ends within its bound. It returns entries exactly if the
bytes are their frames and fewer than four more bytes, and it reports corruption exactly where the
first frame with a wrong checksum starts. -/
theorem readEntriesFromFile_exact {header : Bytes} (hheader : header.length = headerSize)
    (rest : Bytes) :
    (∀ fuel, rest.length < fuel →
        readFrames Crc32.hash (Bincode.deserialize (α := LogEntry)) fuel headerSize rest =
          readAllFrames Crc32.hash Bincode.deserialize headerSize rest) ∧
      (∀ entries, readEntriesFromFile headerSize (header ++ rest) = .ok entries ↔
        ∃ payloads tail, rest = payloadFrames Crc32.hash payloads ++ tail ∧
          Decodes Bincode.deserialize payloads entries ∧ tail.length < 4) ∧
      ∀ offset expected actual,
        readEntriesFromFile headerSize (header ++ rest) =
            .error (.corruptedEntry offset expected actual) ↔
          CorruptedAt header rest offset expected actual := by
  have hdrop : (header ++ rest).drop headerSize = rest := List.drop_left' hheader
  refine ⟨fun fuel hfuel => ?_, fun entries => ?_, fun offset expected actual => ?_⟩
  · rw [readAllFrames]
    exact readFrames_fuel _ _ hfuel (Nat.lt_succ_self _)
  · rw [readEntriesFromFile_ok_iff, hdrop]
    exact readAllFrames_ok_iff ..
  · rw [readEntriesFromFile_corrupted_iff, hdrop, readAllFrames_corrupted_iff]
    refine exists_congr fun payloads => exists_congr fun entries => exists_congr fun payload =>
      exists_congr fun tail => and_congr_right fun _ => and_congr_right fun _ =>
        and_congr_right fun _ => and_congr_right fun _ => and_congr_right fun _ =>
          and_congr_right fun _ => ?_
    rw [List.length_append, hheader]
    refine ⟨fun hoffset => ⟨hoffset, _, rfl, ?_, ?_⟩, And.left⟩
    · simp only [List.length_append, length_rawFrame]
      omega
    · simp only [List.length_append, length_rawFrame, hheader]
      omega

/-- A file that opens starts with a header, and its entries can be read. -/
theorem WAL.openExisting_ok {replicaId : ReplicaId} {bytes : Bytes} {wal : WAL}
    (h : WAL.openExisting replicaId (some bytes) = .ok wal) :
    (∃ created rid, bytes = walHeader created rid ++ bytes.drop headerSize) ∧
      wal.file = ⟨bytes, bytes.length⟩ := by
  simp only [openExisting] at h
  split at h
  · cases h
  split at h
  · cases h
  rename_i h4 hmagic
  split at h
  · cases h
  split at h
  · cases h
  rename_i h6 hversion
  split at h
  · cases h
  rename_i h30
  have hlen : headerSize ≤ bytes.length := not_lt.mp h30
  have hsize : headerSize = 30 := rfl
  rw [hsize] at hlen
  have hfile : wal.file = ⟨bytes, bytes.length⟩ := by
    split at h
    · cases h
    · cases h
      rfl
  refine ⟨⟨leNat ((bytes.drop 14).take 16), leNat ((bytes.drop 6).take 8), ?_⟩, hfile⟩
  -- each field of the header is what its number is written as
  have hfield : ∀ from_ size, from_ + size ≤ 30 →
      leBytes size (leNat ((bytes.drop from_).take size)) = (bytes.drop from_).take size := by
    intro from_ size hle
    have hfieldlen : ((bytes.drop from_).take size).length = size := by
      simp only [List.length_take, List.length_drop]
      omega
    have hback := leBytes_leNat ((bytes.drop from_).take size)
    rwa [hfieldlen] at hback
  have hv : leBytes 2 walVersion = (bytes.drop 4).take 2 := by
    rw [← not_not.mp hversion]
    exact hfield 4 2 (by decide)
  rw [walHeader, hv, hfield 6 8 (by decide), hfield 14 16 (by decide), ← not_not.mp hmagic, hsize]
  have hcut : ∀ m n : Nat, (bytes.drop m).take n ++ bytes.drop (m + n) = bytes.drop m := by
    intro m n
    rw [← List.drop_drop, List.take_append_drop]
  rw [List.append_assoc, List.append_assoc, List.append_assoc, hcut 14 16, hcut 6 8, hcut 4 2]
  exact (List.take_append_drop 4 bytes).symm

/-- The bytes of a log file behind its last whole frame. -/
def leftoverBytes (bytes : Bytes) : Bytes := leftover bytes.length (bytes.drop headerSize)

/-- Leftover bytes and the frame of an entry happen to form one frame of that entry with a matching
checksum, and up to three bytes. -/
def Coincides (tail : Bytes) (entry : LogEntry) : Prop :=
  tail ≠ [] ∧ ∃ payload rest,
    tail ++ frame Crc32.hash (Bincode.serialize entry) = frame Crc32.hash payload ++ rest ∧
      payload.length < 2 ^ 32 ∧ Bincode.deserialize payload = some entry ∧ rest.length < 4

/-- Bytes read as one entry exactly if they are a frame of it and fewer than four more. -/
theorem readAllFrames_singleton_iff (pos : Nat) (bytes : Bytes) (entry : LogEntry) :
    readAllFrames Crc32.hash Bincode.deserialize pos bytes = .ok [entry] ↔
      ∃ payload rest, bytes = frame Crc32.hash payload ++ rest ∧ payload.length < 2 ^ 32 ∧
        Bincode.deserialize payload = some entry ∧ rest.length < 4 := by
  rw [readAllFrames_ok_iff]
  constructor
  · rintro ⟨payloads, tail, hbytes, hdecodes, htail⟩
    cases hdecodes with
    | @cons payload _ payloads _ hone hnil =>
      cases hnil
      exact ⟨payload, tail, by rw [hbytes, payloadFrames_cons, List.append_assoc]; rfl, hone.1,
        hone.2, htail⟩
  · rintro ⟨payload, rest, hbytes, hlen, hdec, hrest⟩
    refine ⟨[payload], rest, ?_, .cons ⟨hlen, hdec⟩ .nil, hrest⟩
    rw [hbytes, payloadFrames_cons, List.append_assoc]
    rfl

variable [LawfulBincode LogEntry]

/-- Whatever file is opened and appended to: opening it again returns the old entries and the new
one exactly if no bytes were left over behind the last whole frame, or these and the new frame
happen to form a frame of the new entry. -/
theorem WAL.append_read_iff {replicaId : ReplicaId} {bytes : Bytes} {wal : WAL}
    (hopen : WAL.openExisting replicaId (some bytes) = .ok wal) {entries : List LogEntry}
    (hread : wal.readAll.1 = .ok entries) {entry : LogEntry} (hshort : ShortPayload entry)
    {refusals : List Bool} (happend : ((wal.facing refusals).append entry).1 = .ok ()) :
    (∃ reopened, WAL.openExisting replicaId
          (some ((wal.facing refusals).append entry).2.file.bytes) = .ok reopened ∧
        reopened.readAll.1 = .ok (entries ++ [entry])) ↔
      leftoverBytes bytes = [] ∨ Coincides (leftoverBytes bytes) entry := by
  obtain ⟨⟨created, rid, hheader⟩, hfile⟩ := WAL.openExisting_ok hopen
  have hend : (wal.facing refusals).file.pos = (wal.facing refusals).file.bytes.length := by
    show wal.file.pos = wal.file.bytes.length
    rw [hfile]
  have hbytes : ((wal.facing refusals).append entry).2.file.bytes =
      bytes ++ frame Crc32.hash (Bincode.serialize entry) := by
    rcases WAL.append_cases hend entry with ⟨-, hrefused⟩ | ⟨-, hwritten⟩
    · rw [hrefused] at happend
      cases happend
    · rw [hwritten]
      show wal.file.bytes ++ _ = _
      rw [hfile]
  have hread' : readEntriesFromFile headerSize bytes = .ok entries := by
    rwa [WAL.readAll, hfile] at hread
  rw [readEntriesFromFile_ok_iff, readAllFrames_ok_iff] at hread'
  obtain ⟨payloads, tail, hrest, hdecodes, htail⟩ := hread'
  have hleft : leftoverBytes bytes = tail := by
    rw [leftoverBytes, hrest]
    refine leftover_payloadFrames Crc32.hash Bincode.deserialize hdecodes htail ?_
    have hle := length_le_payloadFrames Crc32.hash payloads tail
    rw [← hrest, List.length_drop] at hle
    omega
  have happended : bytes ++ frame Crc32.hash (Bincode.serialize entry) =
      walHeader created rid ++
        (bytes.drop headerSize ++ frame Crc32.hash (Bincode.serialize entry)) := by
    rw [← List.append_assoc, ← hheader]
  rw [hbytes, WAL.openExisting_readAll_iff happended, readEntriesFromFile_ok_iff, happended,
    (walHeader_take created rid _).2.2, hrest, List.append_assoc,
    readAllFrames_payloadFrames Crc32.hash Bincode.deserialize hdecodes, hleft]
  have hmap : ∀ read : Except ReadError (List LogEntry),
      read.map (entries ++ ·) = .ok (entries ++ [entry]) ↔ read = .ok [entry] := by
    intro read
    cases read with
    | error e => exact iff_of_false (fun h => by cases h) fun h => by cases h
    | ok l => simp [Except.map]
  rw [hmap, readAllFrames_singleton_iff]
  by_cases hnil : tail = []
  · refine iff_of_true ?_ (Or.inl hnil)
    exact ⟨Bincode.serialize entry, [], by rw [hnil, List.nil_append, List.append_nil], hshort,
      LawfulBincode.deserialize_serialize entry, by decide⟩
  · simp only [Coincides, hnil, false_or, ne_eq, not_false_eq_true, true_and]

end

section Samples

open Sample

/-- The header of replica 3's log and two bytes of a length prefix. -/
def tornPrefix : Bytes := newLog.file.bytes ++ [0x19, 0x00]

/-- Two bytes behind the header are passed over when the file is opened, but an entry written behind
them cannot be read, nor can the file be opened again. -/
theorem WAL.append_behind_leftover :
    WAL.openExisting 3 (some tornPrefix) = .ok ⟨⟨tornPrefix, tornPrefix.length⟩, 3, 0, []⟩ ∧
      (WAL.mk ⟨tornPrefix, tornPrefix.length⟩ 3 0 []).readAll.1 = .ok [] ∧
      ShortPayload (.viewChanged 0 1 .timeout 5) ∧
      ((WAL.mk ⟨tornPrefix, tornPrefix.length⟩ 3 0 []).append (.viewChanged 0 1 .timeout 5)).1 =
        .ok () ∧
      WAL.openExisting 3 (some ((WAL.mk ⟨tornPrefix, tornPrefix.length⟩ 3 0 []).append
        (.viewChanged 0 1 .timeout 5)).2.file.bytes) = .error (.io .unexpectedEof) := by
  refine ⟨?_, ?_, ?_, ?_, ?_⟩ <;> decide +kernel

/-- Behind whole frames an appended entry is read back. -/
theorem WAL.append_behind_frames :
    ∃ reopened, WAL.openExisting 3
        (some (((newLog.appendAll twoViews).facing []).append
          (.viewChanged 2 3 .timeout 7)).2.file.bytes) = .ok reopened ∧
      reopened.readAll.1 = .ok (twoViews ++ [.viewChanged 2 3 .timeout 7]) := by
  have hopen : WAL.openExisting 3 (some (newLog.appendAll twoViews).file.bytes) =
      .ok (newLog.appendAll twoViews) := by decide +kernel
  exact (WAL.append_read_iff hopen (by decide +kernel) (by decide +kernel)
    (by decide +kernel)).mpr (Or.inl (by decide +kernel))

/-- A frame whose checksum says 1 instead of 0, behind an intact one. -/
theorem readEntriesFromFile_exact_sample :
    readEntriesFromFile headerSize (walHeader 0 3 ++
        (frame Crc32.hash (Bincode.serialize (LogEntry.viewChanged 0 1 .timeout 5)) ++
          rawFrame 1 [7, 7])) =
      .error (.corruptedEntry (headerSize +
        (frame Crc32.hash (Bincode.serialize (LogEntry.viewChanged 0 1 .timeout 5))).length) 1 0) :=
    by
  refine ((readEntriesFromFile_exact (length_walHeader 0 3) _).2.2 _ 1 0).mpr ?_
  refine ⟨[Bincode.serialize (LogEntry.viewChanged 0 1 .timeout 5)],
    [.viewChanged 0 1 .timeout 5], [7, 7], [], ?_, ?_, by decide, by decide, rfl, by decide, ?_, _,
    rfl, ?_, ?_⟩
  · exact .cons ⟨by decide +kernel, by decide +kernel⟩ .nil
  all_goals decide +kernel

end Samples

end PersistHotStuff
