import PersistHotStuff.Durability.LogGrammar
import PersistHotStuff.Durability.Node

/-!
# Recovery from a log with stray bytes

A record that a crash cuts off in its length prefix leaves up to three bytes
behind the last whole frame. The reader passes over them, so recovery does not
see them; what is written behind them is read together with them.
-/

namespace PersistHotStuff

open Basis

section Log

variable [Bincode LogEntry] [Crc32]

/-- A log file: a header, intact frames that decode to the entries, and stray bytes too few for a
length prefix. -/
structure LogSplit (bytes : Bytes) (entries : List LogEntry) (stray : Bytes) : Prop where
  shape : ∃ created replicaId payloads,
    bytes = walHeader created replicaId ++ (payloadFrames Crc32.hash payloads ++ stray) ∧
      Decodes Bincode.deserialize payloads entries
  few : stray.length < 4

/-- A fresh log file has no entries and no stray bytes. -/
theorem logSplit_header (created : Nat) (replicaId : ReplicaId) :
    LogSplit (walHeader created replicaId) [] [] :=
  ⟨⟨created, replicaId, [], (List.append_nil _).symm, .nil⟩, by decide⟩

/-- The stray bytes are what is left over behind the frames. -/
theorem LogSplit.leftoverBytes_eq {bytes : Bytes} {entries : List LogEntry} {stray : Bytes}
    (h : LogSplit bytes entries stray) : leftoverBytes bytes = stray := by
  obtain ⟨⟨created, replicaId, payloads, rfl, hdecodes⟩, hfew⟩ := h
  rw [leftoverBytes, (walHeader_take created replicaId _).2.2]
  refine leftover_payloadFrames Crc32.hash Bincode.deserialize hdecodes hfew ?_
  refine (length_le_payloadFrames Crc32.hash payloads stray).trans ?_
  exact (Nat.le_add_left ..).trans_eq List.length_append.symm

/-- The entries of a log file are read. -/
theorem LogSplit.read {bytes : Bytes} {entries : List LogEntry} {stray : Bytes}
    (h : LogSplit bytes entries stray) : readEntriesFromFile headerSize bytes = .ok entries := by
  obtain ⟨⟨created, replicaId, payloads, rfl, hdecodes⟩, hfew⟩ := h
  exact ((readEntriesFromFile_exact (length_walHeader created replicaId) _).2.1 entries).mpr
    ⟨payloads, stray, rfl, hdecodes, hfew⟩

/-- What is read behind a header are the entries of a log file. -/
theorem logSplit_of_read {bytes : Bytes} {created : Nat} {replicaId : ReplicaId} {rest : Bytes}
    (hbytes : bytes = walHeader created replicaId ++ rest) {entries : List LogEntry}
    (hread : readEntriesFromFile headerSize bytes = .ok entries) :
    LogSplit bytes entries (leftoverBytes bytes) := by
  subst hbytes
  obtain ⟨payloads, tail, hrest, hdecodes, hfew⟩ :=
    ((readEntriesFromFile_exact (length_walHeader created replicaId) _).2.1 entries).mp hread
  have hsplit : LogSplit (walHeader created replicaId ++ rest) entries tail :=
    ⟨⟨created, replicaId, payloads, by rw [hrest], hdecodes⟩, hfew⟩
  rw [hsplit.leftoverBytes_eq]
  exact hsplit

/-- Bytes behind a log file are read together with its stray bytes. -/
theorem LogSplit.append_iff {opened : Bytes} {entries : List LogEntry} {stray : Bytes}
    (h : LogSplit opened entries stray) (more : Bytes) (all : List LogEntry) (stray' : Bytes) :
    LogSplit (opened ++ more) all stray' ↔
      ∃ payloads es, stray ++ more = payloadFrames Crc32.hash payloads ++ stray' ∧
        Decodes Bincode.deserialize payloads es ∧ stray'.length < 4 ∧ all = entries ++ es := by
  obtain ⟨⟨created, replicaId, before, rfl, hbefore⟩, -⟩ := h
  have hbytes : walHeader created replicaId ++ (payloadFrames Crc32.hash before ++ stray) ++ more =
      walHeader created replicaId ++ (payloadFrames Crc32.hash before ++ (stray ++ more)) := by
    simp only [List.append_assoc]
  rw [hbytes]
  constructor
  · intro hsplit
    have hread := (readEntriesFromFile_ok_iff _ _ _).mp hsplit.read
    rw [(walHeader_take created replicaId _).2.2,
      readAllFrames_payloadFrames Crc32.hash Bincode.deserialize hbefore] at hread
    cases hinner : readAllFrames Crc32.hash (Bincode.deserialize (α := LogEntry))
        (headerSize + (payloadFrames Crc32.hash before).length) (stray ++ more) with
    | error e =>
      rw [hinner] at hread
      cases hread
    | ok es =>
      rw [hinner] at hread
      obtain ⟨payloads, tail, hmore, hdecodes, hfew⟩ := (readAllFrames_ok_iff ..).mp hinner
      have hall : all = entries ++ es := (Except.ok.inj hread).symm
      have hagain : LogSplit (walHeader created replicaId ++
          (payloadFrames Crc32.hash before ++ (stray ++ more))) all tail := by
        refine ⟨⟨created, replicaId, before ++ payloads, ?_, ?_⟩, hfew⟩
        · rw [hmore, payloadFrames, payloadFrames, payloadFrames, List.flatMap_append,
            List.append_assoc]
        · rw [hall]
          exact List.rel_append hbefore hdecodes
      have hstray : stray' = tail :=
        hsplit.leftoverBytes_eq.symm.trans hagain.leftoverBytes_eq
      subst hstray
      exact ⟨payloads, es, hmore, hdecodes, hfew, hall⟩
  · rintro ⟨payloads, es, hmore, hdecodes, hfew, rfl⟩
    refine ⟨⟨created, replicaId, before ++ payloads, ?_, List.rel_append hbefore hdecodes⟩, hfew⟩
    rw [hmore, payloadFrames, payloadFrames, payloadFrames, List.flatMap_append, List.append_assoc]

omit [Crc32] in
/-- Entries are encoded as frames that decode to them. -/
theorem decodes_serialize [LawfulBincode LogEntry] {entries : List LogEntry}
    (hshort : ∀ entry ∈ entries, ShortPayload entry) :
    Decodes Bincode.deserialize (entries.map Bincode.serialize) entries := by
  induction entries with
  | nil => exact .nil
  | cons entry entries ih =>
    obtain ⟨hhead, hrest⟩ := List.forall_mem_cons.mp hshort
    exact .cons ⟨hhead, LawfulBincode.deserialize_serialize entry⟩ (ih hrest)

/-- Records behind whole frames are read, and so is the start of a length prefix behind them. -/
theorem LogSplit.append_records [LawfulBincode LogEntry] {opened : Bytes} {entries : List LogEntry}
    (h : LogSplit opened entries []) {records : List LogEntry}
    (hshort : ∀ entry ∈ records, ShortPayload entry) {part : Bytes} (hpart : part.length < 4) :
    LogSplit (opened ++ (frames Crc32.hash Bincode.serialize records ++ part)) (entries ++ records)
      part := by
  refine (h.append_iff _ _ _).mpr ⟨_, records, ?_, decodes_serialize hshort, hpart, rfl⟩
  rw [List.nil_append, frames, payloadFrames, List.flatMap_map]

/-- A few more stray bytes change nothing. -/
theorem LogSplit.append_stray {opened : Bytes} {entries : List LogEntry} {stray : Bytes}
    (h : LogSplit opened entries stray) {part : Bytes} (hfew : (stray ++ part).length < 4) :
    LogSplit (opened ++ part) entries (stray ++ part) :=
  (h.append_iff _ _ _).mpr ⟨[], [], rfl, .nil, hfew, (List.append_nil _).symm⟩

/-- A record cut behind its length prefix makes the log unreadable. -/
theorem LogSplit.not_append_torn [LawfulBincode LogEntry] {opened : Bytes}
    {entries : List LogEntry} (h : LogSplit opened entries []) {records : List LogEntry}
    (hshort : ∀ entry ∈ records, ShortPayload entry) {entry : LogEntry}
    (hentry : ShortPayload entry) {k : Nat} (h4 : 4 ≤ k)
    (hk : k < (frame Crc32.hash (Bincode.serialize entry)).length) (all : List LogEntry)
    (stray : Bytes) :
    ¬ LogSplit (opened ++ (frames Crc32.hash Bincode.serialize records ++
      (frame Crc32.hash (Bincode.serialize entry)).take k)) all stray := by
  intro hsplit
  obtain ⟨payloads, es, hmore, hdecodes, hfew, -⟩ := (h.append_iff _ _ _).mp hsplit
  rw [List.nil_append] at hmore
  have hlen : ((frame Crc32.hash (Bincode.serialize entry)).take k).length = k := by
    rw [List.length_take]
    omega
  have htorn := readAllFrames_torn Crc32.hash Bincode.serialize Bincode.deserialize
    (fun e _ => LawfulBincode.deserialize_serialize e) hshort hentry (List.take_prefix k _)
    (by omega) (by omega) 0
  rw [(readAllFrames_ok_iff ..).mpr ⟨payloads, stray, hmore, hdecodes, hfew⟩] at htorn
  cases htorn

/-- Four or more bytes, the stray ones included, are read only if they make up frames. -/
theorem LogSplit.frames_of_append {opened : Bytes} {entries : List LogEntry} {stray : Bytes}
    (h : LogSplit opened entries stray) {more : Bytes} (hmany : 4 ≤ (stray ++ more).length)
    {all : List LogEntry} {stray' : Bytes} (hsplit : LogSplit (opened ++ more) all stray') :
    ∃ payloads es, payloads ≠ [] ∧ stray ++ more = payloadFrames Crc32.hash payloads ++ stray' ∧
      Decodes (Bincode.deserialize (α := LogEntry)) payloads es ∧ stray'.length < 4 := by
  obtain ⟨payloads, es, hmore, hdecodes, hfew, -⟩ := (h.append_iff _ _ _).mp hsplit
  refine ⟨payloads, es, ?_, hmore, hdecodes, hfew⟩
  rintro rfl
  rw [hmore] at hmany
  exact absurd hfew (not_lt.mpr hmany)

/-- An open handle behind what was opened and the records written since. -/
structure WAL.Extends (wal : WAL) (opened : Bytes) (records : List LogEntry) : Prop where
  bytes : wal.file.bytes = opened ++ frames Crc32.hash Bincode.serialize records
  atEnd : wal.file.pos = wal.file.bytes.length
  willing : wal.refusals = []

theorem WAL.Extends.append {wal : WAL} {opened : Bytes} {records : List LogEntry}
    (h : wal.Extends opened records) (entry : LogEntry) :
    (wal.append entry).2.Extends opened (records ++ [entry]) := by
  rw [WAL.append_eq h.atEnd h.willing]
  refine ⟨?_, rfl, h.willing⟩
  rw [h.bytes, frames_append, frames_cons, frames_nil, List.append_nil, List.append_assoc]

theorem WAL.Extends.appendAll {wal : WAL} {opened : Bytes} {records : List LogEntry}
    (h : wal.Extends opened records) (more : List LogEntry) :
    (wal.appendAll more).Extends opened (records ++ more) := by
  induction more generalizing wal records with
  | nil => rwa [List.append_nil]
  | cons e more ih =>
    have := ih (h.append e)
    rwa [List.append_assoc, List.singleton_append] at this

end Log

section Recovery

variable [Bincode LogEntry] [Bincode Snapshot] [Crc32] [Sha256]

omit [Bincode Snapshot] [Sha256] in
/-- A log behind a header is opened if its entries are read. -/
theorem WAL.openExisting_ok_iff {bytes : Bytes} {created : Nat} {rid : ReplicaId} {rest : Bytes}
    (hbytes : bytes = walHeader created rid ++ rest) (replicaId : ReplicaId) {wal : WAL} :
    WAL.openExisting replicaId (some bytes) = .ok wal ↔
      ∃ entries, readEntriesFromFile headerSize bytes = .ok entries ∧
        wal = ⟨⟨bytes, bytes.length⟩, replicaId, entries.length, []⟩ := by
  subst hbytes
  rw [WAL.openExisting_header (logFile_header created rid) rest replicaId]
  cases readEntriesFromFile headerSize (walHeader created rid ++ rest) with
  | error e => exact iff_of_false (fun h => (by cases h)) fun ⟨_, h, _⟩ => (by cases h)
  | ok entries =>
    constructor
    · rintro ⟨⟩
      exact ⟨entries, rfl, rfl⟩
    · rintro ⟨_, ⟨⟩, rfl⟩
      rfl

/-- A recovery replays the entries of the log over the snapshot. -/
theorem recover_ok_iff_logSplit [LawfulBincode Snapshot] {σ : Type} {dir : DataDir}
    {snap : Option Snapshot} {bytes : Bytes} (hstore : StoreHolds dir snap)
    (hwal : dir.wal = some bytes) {now : Nat} {config : Config} {keystore : KeyStore}
    {r : Replica σ} {wal : WAL} :
    recover now config keystore dir = .ok (r, wal) ↔
      ∃ entries st stray, LogSplit bytes entries stray ∧
        replayEntries entries (baseState snap) = .ok st ∧
        r = buildReplica now config keystore (baseOf config.n snap) st ∧
        wal = ⟨⟨bytes, bytes.length⟩, config.id, entries.length, []⟩ := by
  have hbase := loadBase_of_storeHolds hstore config
  have hsize : ∀ {created : Nat} {replicaId : ReplicaId} {rest : Bytes},
      bytes = walHeader created replicaId ++ rest → headerSize ≤ bytes.length := by
    rintro created replicaId rest rfl
    rw [List.length_append, length_walHeader]
    exact Nat.le_add_right ..
  rw [recover_ok_iff]
  constructor
  · rintro ⟨base, st, hloaded, hlog, rfl⟩
    rw [hbase] at hloaded
    cases hloaded
    simp only [replayLog, hwal, Option.isSome_some, if_true] at hlog
    cases hopened : WAL.openExisting config.id (some bytes) with
    | error e =>
      rw [hopened] at hlog
      cases hlog
    | ok w =>
      obtain ⟨⟨created, replicaId, hbytes⟩, -⟩ := WAL.openExisting_ok hopened
      obtain ⟨entries, hread, rfl⟩ := (WAL.openExisting_ok_iff hbytes config.id).mp hopened
      rw [hopened] at hlog
      simp only [WAL.readAll, hread, Nat.max_eq_right (hsize hbytes), baseOf_state] at hlog
      cases hreplay : replayEntries entries (baseState snap) with
      | error e =>
        rw [hreplay] at hlog
        cases hlog
      | ok st' =>
        rw [hreplay] at hlog
        cases hlog
        exact ⟨entries, _, _, logSplit_of_read hbytes hread, hreplay, rfl, rfl⟩
  · rintro ⟨entries, st, stray, hsplit, hreplay, rfl, rfl⟩
    obtain ⟨created, replicaId, payloads, hbytes, -⟩ := hsplit.shape
    have hopened := (WAL.openExisting_ok_iff hbytes config.id).mpr ⟨entries, hsplit.read, rfl⟩
    refine ⟨_, st, hbase, ?_, rfl⟩
    simp only [replayLog, hwal, Option.isSome_some, if_true, hopened, hsplit.read, WAL.readAll,
      Nat.max_eq_right (hsize hbytes), baseOf_state, hreplay]

end Recovery

end PersistHotStuff
