import PersistHotStuff.Source.Recovery

/-!
# The log file and its entries

A log handle holds a list of entries when its file is a header followed by the
frames of these entries. Appending extends the list, reopening reads it back,
and replay goes through it in order.
-/

namespace PersistHotStuff

open Basis

/-- What the fields of a header at the front of a file are read as. -/
theorem walHeader_take (created : Nat) (replicaId : ReplicaId) (rest : Bytes) :
    (walHeader created replicaId ++ rest).take 4 = walMagic ∧
      leNat (((walHeader created replicaId ++ rest).drop 4).take 2) = walVersion ∧
      (walHeader created replicaId ++ rest).drop headerSize = rest := by
  have hshape : walHeader created replicaId ++ rest =
      walMagic ++
        (leBytes 2 walVersion ++ (leBytes 8 replicaId ++ (leBytes 16 created ++ rest))) := by
    simp only [walHeader, List.append_assoc]
  refine ⟨?_, ?_, ?_⟩
  · rw [hshape]
    exact List.take_left' rfl
  · rw [hshape, List.drop_left' (show walMagic.length = 4 from rfl),
      List.take_left' (length_leBytes 2 _)]
    exact leNat_leBytes (by decide)
  · exact List.drop_left' (length_walHeader created replicaId)

section

variable [Bincode LogEntry] [Crc32]

/-- The contents of a log file created at some time with the given entries. -/
def logBytes (created : Nat) (replicaId : ReplicaId) (entries : List LogEntry) : Bytes :=
  walHeader created replicaId ++ frames Crc32.hash Bincode.serialize entries

/-- The payload of an entry has a length that fits its prefix. -/
def ShortPayload (entry : LogEntry) : Prop := (Bincode.serialize entry).length < 2 ^ 32

instance : DecidablePred ShortPayload := fun entry =>
  inferInstanceAs (Decidable ((Bincode.serialize entry).length < 2 ^ 32))

/-- A file that consists of a header and the given entries. -/
def LogFile (bytes : Bytes) (entries : List LogEntry) : Prop :=
  (∃ created replicaId, bytes = logBytes created replicaId entries) ∧
    ∀ entry ∈ entries, ShortPayload entry

/-- An open handle, ready to append to the given entries. -/
structure WAL.Holds (wal : WAL) (entries : List LogEntry) : Prop where
  file : LogFile wal.file.bytes entries
  atEnd : wal.file.pos = wal.file.bytes.length
  /-- No append will fail. -/
  willing : wal.refusals = []

theorem logBytes_append (created : Nat) (replicaId : ReplicaId) (entries more : List LogEntry) :
    logBytes created replicaId (entries ++ more) =
      logBytes created replicaId entries ++ frames Crc32.hash Bincode.serialize more := by
  rw [logBytes, frames_append, ← List.append_assoc, logBytes]

/-- An append is refused and writes nothing, or writes one frame at the end. -/
theorem WAL.append_cases {wal : WAL} (hend : wal.file.pos = wal.file.bytes.length)
    (entry : LogEntry) :
    wal.refusals.head? = some true ∧
        wal.append entry = (.error (.io .refused), { wal with refusals := wal.refusals.tail }) ∨
      wal.refusals.head? ≠ some true ∧ wal.append entry = (.ok (),
        { wal with
          file := ⟨wal.file.bytes ++ frame Crc32.hash (Bincode.serialize entry),
            (wal.file.bytes ++ frame Crc32.hash (Bincode.serialize entry)).length⟩
          entryCount := wal.entryCount + 1
          refusals := wal.refusals.tail }) := by
  have h1 := File.writeAll_atEnd hend (leBytes 4 (Bincode.serialize entry).length)
  have h2 := File.writeAll_atEnd h1 (leBytes 4 (Crc32.hash (Bincode.serialize entry)).toNat)
  unfold WAL.append
  split
  · rename_i rest hrefused
    rw [hrefused]
    exact .inl ⟨rfl, rfl⟩
  · rename_i hwilling
    refine .inr ⟨fun hhead => ?_, ?_⟩
    · obtain ⟨rest, hrest⟩ := List.head?_eq_some_iff.mp hhead
      exact hwilling rest hrest
    · dsimp only
      rw [File.writeAll_end h2, File.writeAll_end h1, File.writeAll_end hend]
      simp only [frame, List.append_assoc]

/-- Appending to a handle that is willing writes one frame at the end. -/
theorem WAL.append_eq {wal : WAL} (hend : wal.file.pos = wal.file.bytes.length)
    (hwilling : wal.refusals = []) (entry : LogEntry) :
    wal.append entry = (.ok (),
      { wal with
        file := ⟨wal.file.bytes ++ frame Crc32.hash (Bincode.serialize entry),
          (wal.file.bytes ++ frame Crc32.hash (Bincode.serialize entry)).length⟩
        entryCount := wal.entryCount + 1 }) := by
  rcases WAL.append_cases hend entry with ⟨hrefused, -⟩ | ⟨-, happend⟩
  · rw [hwilling] at hrefused
    cases hrefused
  · rw [happend, hwilling]
    rfl

/-- An append uses up one refusal. -/
theorem WAL.append_refusals (wal : WAL) (entry : LogEntry) :
    (wal.append entry).2.refusals = wal.refusals.tail := by
  unfold WAL.append
  split
  · rename_i h
    rw [h]
    rfl
  · rfl

/-- The replica a log belongs to does not change. -/
theorem WAL.append_replicaId (wal : WAL) (entry : LogEntry) :
    (wal.append entry).2.replicaId = wal.replicaId := by
  unfold WAL.append
  split <;> rfl

/-- One more frame behind a log file is one more entry. -/
theorem LogFile.append {bytes : Bytes} {entries : List LogEntry} (h : LogFile bytes entries)
    {entry : LogEntry} (hshort : ShortPayload entry) :
    LogFile (bytes ++ frame Crc32.hash (Bincode.serialize entry)) (entries ++ [entry]) := by
  obtain ⟨⟨created, replicaId, rfl⟩, hall⟩ := h
  refine ⟨⟨created, replicaId, ?_⟩, fun e he => ?_⟩
  · rw [logBytes_append, frames_cons, frames_nil, List.append_nil]
  · rcases List.mem_append.mp he with he | he
    · exact hall e he
    · rw [List.mem_singleton.mp he]
      exact hshort

/-- A short entry is durable once appended. -/
theorem WAL.Holds.append {wal : WAL} {entries : List LogEntry} (h : wal.Holds entries)
    {entry : LogEntry} (hshort : ShortPayload entry) :
    (wal.append entry).2.Holds (entries ++ [entry]) := by
  rw [WAL.append_eq h.atEnd h.willing]
  exact ⟨h.file.append hshort, rfl, h.willing⟩

/-- Append several entries, one after the other. -/
def WAL.appendAll (wal : WAL) (entries : List LogEntry) : WAL :=
  entries.foldl (fun w e => (w.append e).2) wal

theorem WAL.map_appendAll_nil (wal : Option WAL) : wal.map (·.appendAll []) = wal := by
  cases wal <;> rfl

theorem WAL.Holds.appendAll {wal : WAL} {entries : List LogEntry} (h : wal.Holds entries)
    {more : List LogEntry} (hshort : ∀ e ∈ more, ShortPayload e) :
    (wal.appendAll more).Holds (entries ++ more) := by
  induction more generalizing wal entries with
  | nil => rwa [List.append_nil]
  | cons e more ih =>
    have hs := List.forall_mem_cons.mp hshort
    have := ih (h.append hs.1) hs.2
    rwa [List.append_assoc, List.singleton_append] at this

/-- An open handle behind the frames of the given entries, whatever their lengths. -/
structure WAL.Carries (wal : WAL) (entries : List LogEntry) : Prop where
  bytes : ∃ created replicaId, wal.file.bytes = logBytes created replicaId entries
  atEnd : wal.file.pos = wal.file.bytes.length
  willing : wal.refusals = []

theorem WAL.Holds.carries {wal : WAL} {entries : List LogEntry} (h : wal.Holds entries) :
    wal.Carries entries := ⟨h.file.1, h.atEnd, h.willing⟩

theorem WAL.Carries.append {wal : WAL} {entries : List LogEntry} (h : wal.Carries entries)
    (entry : LogEntry) : (wal.append entry).2.Carries (entries ++ [entry]) := by
  obtain ⟨created, replicaId, hbytes⟩ := h.bytes
  rw [WAL.append_eq h.atEnd h.willing]
  refine ⟨⟨created, replicaId, ?_⟩, rfl, h.willing⟩
  rw [logBytes_append, frames_cons, frames_nil, List.append_nil, hbytes]

theorem WAL.Carries.appendAll {wal : WAL} {entries : List LogEntry} (h : wal.Carries entries)
    (more : List LogEntry) : (wal.appendAll more).Carries (entries ++ more) := by
  induction more generalizing wal entries with
  | nil => rwa [List.append_nil]
  | cons e more ih =>
    have := ih (h.append e)
    rwa [List.append_assoc, List.singleton_append] at this

/-- A fresh log file holds no entries. -/
theorem logFile_header (created : Nat) (replicaId : ReplicaId) :
    LogFile (walHeader created replicaId) [] :=
  ⟨⟨created, replicaId, by rw [logBytes, frames_nil, List.append_nil]⟩, fun e he => by cases he⟩

/-- Opening a file that starts with a header succeeds as far as its entries can be read. -/
theorem WAL.openExisting_header {bytes : Bytes} {entries : List LogEntry}
    (h : LogFile bytes entries) (rest : Bytes) (replicaId : ReplicaId) :
    WAL.openExisting replicaId (some (bytes ++ rest)) =
      match readEntriesFromFile headerSize (bytes ++ rest) with
      | .error e => .error e
      | .ok entries => .ok
          { file := ⟨bytes ++ rest, (bytes ++ rest).length⟩
            replicaId := replicaId
            entryCount := entries.length
            refusals := [] } := by
  obtain ⟨⟨created, rid, rfl⟩, -⟩ := h
  obtain ⟨hmagic, hversion, -⟩ :=
    walHeader_take created rid (frames Crc32.hash Bincode.serialize entries ++ rest)
  have hlen : headerSize ≤ (logBytes created rid entries ++ rest).length := by
    rw [logBytes, List.append_assoc, List.length_append, length_walHeader]
    exact Nat.le_add_right ..
  have h30 : headerSize = 30 := rfl
  rw [logBytes, List.append_assoc] at hlen ⊢
  rw [WAL.openExisting]
  refine (if_neg (by omega)).trans ((if_neg (not_not.mpr hmagic)).trans ?_)
  exact (if_neg (by omega)).trans ((if_neg (not_not.mpr hversion)).trans (if_neg (by omega)))

variable [LawfulBincode LogEntry]

/-- The entries of a log file, with at most three bytes behind them, are read back. -/
theorem readEntriesFromFile_logFile {bytes tail : Bytes} {entries : List LogEntry}
    (h : LogFile bytes entries) (htail : tail.length < 4) :
    readEntriesFromFile headerSize (bytes ++ tail) = .ok entries := by
  obtain ⟨⟨created, replicaId, rfl⟩, hall⟩ := h
  rw [readEntriesFromFile, logBytes, List.append_assoc,
    (walHeader_take created replicaId _).2.2,
    readAllFrames_frames Crc32.hash Bincode.serialize Bincode.deserialize
      (fun e _ => LawfulBincode.deserialize_serialize e) hall headerSize htail]

/-- Reopening a log file, with at most three bytes behind its entries. -/
theorem WAL.openExisting_logFile {bytes tail : Bytes} {entries : List LogEntry}
    (h : LogFile bytes entries) (htail : tail.length < 4) (replicaId : ReplicaId) :
    WAL.openExisting replicaId (some (bytes ++ tail)) = .ok
      { file := ⟨bytes ++ tail, (bytes ++ tail).length⟩
        replicaId := replicaId
        entryCount := entries.length
        refusals := [] } := by
  rw [WAL.openExisting_header h, readEntriesFromFile_logFile h htail]

end

/-- Replay of a list in two parts. -/
theorem replayEntries_append (entries more : List LogEntry) (st : Recovered) :
    replayEntries (entries ++ more) st =
      match replayEntries entries st with
      | .ok st => replayEntries more st
      | .error e => .error e := by
  induction entries generalizing st with
  | nil => rfl
  | cons e entries ih =>
    simp only [List.cons_append, replayEntries]
    cases replayEntry e st with
    | error e => rfl
    | ok st => exact ih st

/-- What every entry keeps, replay keeps. -/
theorem replayEntries_preserves {I : Recovered → Prop} {entries : List LogEntry}
    (hone : ∀ entry ∈ entries, ∀ st st', I st → replayEntry entry st = .ok st' → I st')
    {st st' : Recovered} (h : replayEntries entries st = .ok st') (hst : I st) : I st' := by
  induction entries generalizing st with
  | nil =>
    cases h
    exact hst
  | cons entry entries ih =>
    obtain ⟨hhead, hrest⟩ := List.forall_mem_cons.mp hone
    simp only [replayEntries] at h
    cases hentry : replayEntry entry st with
    | error e =>
      rw [hentry] at h
      cases h
    | ok mid =>
      rw [hentry] at h
      exact ih hrest h (hhead st mid hst hentry)

/-- A part of the state that every entry changes by what is read of it, if anything, is the fold of
what is read of all entries. -/
theorem replayEntries_foldl {β γ : Type} {p : Recovered → β} {f : LogEntry → Option γ}
    {g : β → γ → β}
    (hone : ∀ entry st st', replayEntry entry st = .ok st' →
      p st' = (f entry).toList.foldl g (p st))
    {entries : List LogEntry} {st st' : Recovered} (h : replayEntries entries st = .ok st') :
    p st' = (entries.filterMap f).foldl g (p st) := by
  induction entries generalizing st with
  | nil =>
    cases h
    rfl
  | cons entry entries ih =>
    simp only [replayEntries] at h
    cases hentry : replayEntry entry st with
    | error e =>
      rw [hentry] at h
      cases h
    | ok mid =>
      rw [hentry] at h
      rw [ih h, hone entry st mid hentry, ← List.foldl_append]
      cases hread : f entry with
      | none => rw [List.filterMap_cons_none hread]; rfl
      | some c => rw [List.filterMap_cons_some hread]; rfl

/-- An entry that replays as a commit is at its index. -/
theorem replayEntry_commit {hash : Hash} {parent : Option Hash} {view epoch proposer : Nat}
    {command : ConsensusCommand} {commitIndex timestamp : Nat} {st st' : Recovered}
    (h : replayEntry (.blockCommitted hash parent view epoch proposer command commitIndex
      timestamp) st = .ok st') :
    st' = { st with
      committedLog := st.committedLog ++
        [{ hash, parent, view, epoch, proposer, qc := none, command := .noOp }]
      committedUpTo := some hash
      configEpoch := max st.configEpoch epoch } := by
  simp only [replayEntry] at h
  split at h
  · cases h
  · exact (Except.ok.inj h).symm

end PersistHotStuff
