import PersistHotStuff.Durability.Interruptions
import PersistHotStuff.Durability.Pointers
import PersistHotStuff.Durability.Replay

/-!
# Which cuts of a snapshot a replica survives

The snapshot file counts as soon as it is complete, and a log that is still
beside it is replayed over it. Whether a replica survives a cut therefore turns
on what it committed since its latest snapshot, on a temporary log that an
earlier cut left behind, and on stray bytes in the log.
-/

namespace PersistHotStuff

open Basis

section Survival

variable {σ : Type} [Bincode LogEntry] [Bincode Snapshot] [Crc32] [Sha256]

/-- The replica recovered from a directory stands where another one stood and can take
snapshots. -/
def Survives [App σ] (r : Replica σ) (later : Nat) (config : Config) (keystore : KeyStore)
    (d : DataDir) : Prop :=
  ∃ (recovered : Replica σ) (wal : WAL), recover later config keystore d = .ok (recovered, wal) ∧
    recovered.committedLog.map Block.hash = r.committedLog.map Block.hash ∧
    recovered.highQc.map QuorumCert.pointer = r.highQc.map QuorumCert.pointer ∧
    recovered.currentView = r.currentView ∧
    ∀ now, ((recovered.attachWal wal).takeSnapshot now d).1 = .ok ()

/-- Nothing survives without a readable snapshot. -/
theorem not_survives_of_loadLatest [App σ] (r : Replica σ) (later : Nat) (config : Config)
    (keystore : KeyStore) {d : DataDir} {e : SnapshotError} (he : e ≠ .notFound)
    (hload : Snapshot.loadLatest d = .error e) : ¬ Survives r later config keystore d := by
  rintro ⟨recovered, wal, hrec, -⟩
  rw [recover_eq_error he hload] at hrec
  cases hrec

/-- Nothing survives beside a temporary log. -/
theorem not_survives_of_walTmp [App σ] {r : Replica σ} {later : Nat} {config : Config}
    {keystore : KeyStore} {d : DataDir} (htmp : d.walTmp ≠ none) :
    ¬ Survives r later config keystore d := by
  rintro ⟨recovered, wal, -, -, -, -, hsnap⟩
  exact htmp ((takeSnapshot_ok_iff (r := recovered.attachWal wal) rfl 0 d).mp (hsnap 0))

variable [LawfulBincode Snapshot]

/-- What survives has a log that is read. -/
theorem Survives.logSplit [App σ] {r : Replica σ} {d : DataDir} {snap : Option Snapshot}
    {bytes : Bytes} (hdisk : DiskHolds d snap bytes) {later : Nat} {config : Config}
    {keystore : KeyStore} (h : Survives r later config keystore d) :
    ∃ entries stray, LogSplit bytes entries stray := by
  obtain ⟨recovered, wal, hrec, -⟩ := h
  obtain ⟨entries, st, stray, hsplit, -⟩ := (recover_ok_iff_logSplit hdisk.store hdisk.log).mp hrec
  exact ⟨entries, stray, hsplit⟩

/-- A directory whose log replays to the pointers of a replica lets it survive. -/
theorem survives_of_replay [App σ] {r : Replica σ} {d : DataDir} {snap : Option Snapshot}
    {bytes stray : Bytes} {entries : List LogEntry} (hdisk : DiskHolds d snap bytes)
    (hsplit : LogSplit bytes entries stray) (htmp : d.walTmp = none) {st : Recovered}
    (hreplay : replayEntries entries (baseState snap) = .ok st) (hst : st.pointers = r.pointers)
    (later : Nat) (config : Config) (keystore : KeyStore) :
    Survives r later config keystore d := by
  simp only [Recovered.pointers, Replica.pointers, Pointers.mk.injEq] at hst
  obtain ⟨hlog, -, hqc, hview⟩ := hst
  refine ⟨_, _, (recover_ok_iff_logSplit hdisk.store hdisk.log).mpr
    ⟨entries, st, stray, hsplit, hreplay, rfl, rfl⟩, hlog, hqc, hview, fun now => ?_⟩
  exact (takeSnapshot_ok_iff rfl now d).mpr htmp

/-- Behind a snapshot of the current state, the log the state came from replays exactly when it
has no commit. -/
theorem survives_stale_iff [App σ] {r : Replica σ} {now : Nat} {d : DataDir}
    {snap : Option Snapshot} {bytes stray : Bytes} {entries : List LogEntry}
    (hdisk : DiskHolds d (some (r.captureSnapshot now)) bytes)
    (hsplit : LogSplit bytes entries stray) (htmp : d.walTmp = none) {st : Recovered}
    (hreplay : replayEntries entries (baseState snap) = .ok st) (hst : st.pointers = r.pointers)
    (later : Nat) (config : Config) (keystore : KeyStore) :
    Survives r later config keystore d ↔ r.committedLog.length = snapshotLength snap := by
  have hcovered := baseState_length snap
  have hlen : st.committedLog.length = r.committedLog.length := by
    have := congrArg (fun p => p.committed.length) hst
    simpa [Recovered.pointers, Replica.pointers] using this
  have hbase := pointers_captureSnapshot now r
  constructor
  · rintro ⟨recovered, wal, hrec, -⟩
    by_contra hne
    have hbehind : (baseState (some (r.captureSnapshot now))).committedLog.length ≠
        (baseState snap).committedLog.length := by
      have := congrArg (fun p => p.committed.length) hbase
      simp only [Recovered.pointers, Replica.pointers, List.length_map] at this
      rw [this, hcovered]
      exact hne
    obtain ⟨e, he⟩ := replayEntries_behind hreplay (by rw [hlen, hcovered]; exact hne) hbehind
    obtain ⟨read, st', stray', hread, hreplay', -⟩ :=
      (recover_ok_iff_logSplit hdisk.store hdisk.log).mp hrec
    have hsame : read = entries := Except.ok.inj (hread.read.symm.trans hsplit.read)
    rw [hsame, he] at hreplay'
    cases hreplay'
  · intro heq
    obtain ⟨st', hreplay', hst'⟩ := replayEntries_again hreplay (by rw [hlen, hcovered, heq])
      (hbase.trans hst.symm)
    exact survives_of_replay hdisk hsplit htmp hreplay' (hst'.trans hst) later config keystore

end Survival

/-- No block was committed since the latest snapshot. -/
def Node.UpToDate {σ : Type} [Bincode Snapshot] [Sha256] (node : Node σ) : Prop :=
  node.replica.committedLog.length = snapshotLength (latestSnapshot node.dir)

instance {σ : Type} [Bincode Snapshot] [Sha256] (node : Node σ) : Decidable node.UpToDate :=
  inferInstanceAs (Decidable (_ = _))

/-- How much of the snapshot's record a cut leaves in the log. -/
def SnapshotCut.recorded : SnapshotCut → Nat
  | logRecord k => k
  | _ => 0

namespace Life

variable {σ : Type} [Bincode LogEntry] [Crc32]

/-- The log can be read with `k` bytes of the snapshot's record behind it: either there are no stray
bytes, and the record ends in its length prefix or is whole, or nothing but fewer than four stray
bytes is behind what was read before. -/
def Readable (now : Nat) (life : Life σ) (k : Nat) : Prop :=
  life.stray = [] ∧ (k < 4 ∨ k = (recordEffect now life.node.replica).size) ∨
    life.behind = [] ∧ life.stray.length + k < 4

/-- What is written to the log behind the stray bytes. -/
def written (now : Nat) (life : Life σ) (k : Nat) : Bytes :=
  frames Crc32.hash Bincode.serialize life.behind ++ (snapshotFrame now life.node.replica).take k

theorem written_zero (now : Nat) (life : Life σ) :
    life.written now 0 = frames Crc32.hash Bincode.serialize life.behind :=
  List.append_nil _

/-- Stray bytes and what is written behind them happen to make up frames, with lengths and checksums
that match. -/
def Misread (now : Nat) (life : Life σ) (k : Nat) : Prop :=
  life.stray ≠ [] ∧ ∃ payloads entries rest, payloads ≠ [] ∧
    life.stray ++ life.written now k = payloadFrames Crc32.hash payloads ++ rest ∧
    Decodes (Bincode.deserialize (α := LogEntry)) payloads entries ∧ rest.length < 4

variable [Bincode Snapshot] [Sha256]

/-- The cuts that leave a recoverable directory. A complete snapshot file beside the old log
counts, so the log must have no commit; a temporary log blocks the next snapshot. -/
def SafeCut [App σ] (now : Nat) (life : Life σ) (cut : SnapshotCut) : Prop :=
  life.node.dir.walTmp = none ∧
    match cut with
    | .untouched => life.Readable now 0
    | .snapshotFile k =>
        k = (binEffect now life.node.replica).size ∧ life.node.UpToDate ∧ life.Readable now 0
    | .checksumFile k =>
        k = (shaEffect now life.node.replica).size ∧ life.node.UpToDate ∧ life.Readable now 0
    | .logRecord k => life.node.UpToDate ∧ life.Readable now k
    | .temporaryLog _ => False
    | .renamed _ => True

section Reading

variable [LawfulBincode LogEntry] {life : Life σ} {snap : Option Snapshot} {opened : Bytes}
  {entries : List LogEntry} (h : life.Logged snap opened entries) {now k : Nat}
  (hrecord : ShortPayload
    (.snapshotTaken life.node.replica.snapshotCounter life.node.replica.committedUpTo now))

include h hrecord

/-- A readable log replays to where the replica stands. -/
theorem Logged.replay_of_readable (hread : life.Readable now k) :
    ∃ all stray st, LogSplit (opened ++ life.written now k) all stray ∧
      replayEntries all (baseState snap) = .ok st ∧ st.pointers = life.node.replica.pointers := by
  obtain ⟨st, hreplay, hst⟩ := h.replays
  have htake := List.length_take_le k (snapshotFrame now life.node.replica)
  rcases hread with ⟨hnil, hk⟩ | ⟨hnone, hfew⟩
  · have hsplit := h.split
    rw [hnil] at hsplit
    rcases hk with h4 | rfl
    · exact ⟨_, _, st, hsplit.append_records h.short (htake.trans_lt h4), hreplay, hst⟩
    · have hshort := List.forall_mem_append.mpr ⟨h.short, List.forall_mem_singleton.mpr hrecord⟩
      have hwritten : life.written now (recordEffect now life.node.replica).size =
          frames Crc32.hash Bincode.serialize
            (life.behind ++ [.snapshotTaken life.node.replica.snapshotCounter
              life.node.replica.committedUpTo now]) ++ [] := by
        rw [written, frames_append, List.append_nil]
        exact congrArg _ (List.take_length.trans (List.append_nil _).symm)
      rw [hwritten]
      refine ⟨_, _, st, hsplit.append_records hshort (by decide), ?_, hst⟩
      rw [← List.append_assoc, replayEntries_append, hreplay]
      rfl
  · have hwritten : life.written now k = (snapshotFrame now life.node.replica).take k := by
      rw [written, hnone]
      rfl
    have hpart : (life.stray ++ (snapshotFrame now life.node.replica).take k).length < 4 := by
      rw [List.length_append]
      omega
    rw [hnone, List.append_nil] at hreplay
    rw [hwritten]
    exact ⟨entries, _, st, h.split.append_stray hpart, hreplay, hst⟩

/-- A log that is read is readable, or misread. -/
theorem Logged.readable_or_misread (hk : k ≤ (recordEffect now life.node.replica).size)
    {all : List LogEntry} {stray : Bytes}
    (hsplit : LogSplit (opened ++ life.written now k) all stray) :
    life.Readable now k ∨ life.Misread now k := by
  have htake : ((snapshotFrame now life.node.replica).take k).length = k :=
    List.length_take_of_le hk
  by_cases hnil : life.stray = []
  · -- Without stray bytes only a record that is cut behind its length prefix is not read.
    refine .inl (.inl ⟨hnil, ?_⟩)
    by_contra htorn
    obtain ⟨h4, hne⟩ := not_or.mp htorn
    have hopened := h.split
    rw [hnil] at hopened
    exact hopened.not_append_torn h.short hrecord (not_lt.mp h4) (lt_of_le_of_ne hk hne) all stray
      hsplit
  · by_cases hmany : 4 ≤ (life.stray ++ life.written now k).length
    · obtain ⟨payloads, es, hne, hframes, hdecodes, hfew⟩ := h.split.frames_of_append hmany hsplit
      exact .inr ⟨hnil, payloads, es, stray, hne, hframes, hdecodes, hfew⟩
    · rw [written, List.length_append, List.length_append, htake] at hmany
      refine .inl (.inr ⟨?_, by omega⟩)
      cases hbehind : life.behind with
      | nil => rfl
      | cons entry behind =>
        rw [hbehind, frames_cons, List.length_append, length_frame] at hmany
        omega

variable [App σ] [LawfulBincode Snapshot] (later : Nat) (config : Config) (keystore : KeyStore)
  {d : DataDir}

/-- Beside the snapshot its log is for, what is readable survives. -/
theorem Logged.survives_old (hk : k ≤ (recordEffect now life.node.replica).size)
    (hdisk : DiskHolds d snap (opened ++ life.written now k)) (htmp : d.walTmp = none) :
    (life.Readable now k → Survives life.node.replica later config keystore d) ∧
      (Survives life.node.replica later config keystore d →
        life.Readable now k ∨ life.Misread now k) := by
  refine ⟨fun hread => ?_, fun hsurvives => ?_⟩
  · obtain ⟨all, stray, st, hsplit, hreplay, hst⟩ := h.replay_of_readable hrecord hread
    exact survives_of_replay hdisk hsplit htmp hreplay hst later config keystore
  · obtain ⟨all, stray, hsplit⟩ := hsurvives.logSplit hdisk
    exact h.readable_or_misread hrecord hk hsplit

/-- Beside the next snapshot, what is readable survives if no block was committed since the latest
one. -/
theorem Logged.survives_new (hk : k ≤ (recordEffect now life.node.replica).size)
    (hdisk : DiskHolds d (some (life.node.replica.captureSnapshot now))
      (opened ++ life.written now k)) (htmp : d.walTmp = none) :
    (life.node.UpToDate ∧ life.Readable now k →
        Survives life.node.replica later config keystore d) ∧
      (Survives life.node.replica later config keystore d →
        life.node.UpToDate ∧ life.Readable now k ∨ life.Misread now k) := by
  have hiff : life.Readable now k →
      (Survives life.node.replica later config keystore d ↔ life.node.UpToDate) := by
    intro hread
    obtain ⟨all, stray, st, hsplit, hreplay, hst⟩ := h.replay_of_readable hrecord hread
    rw [Node.UpToDate, h.store.latestSnapshot]
    exact survives_stale_iff hdisk hsplit htmp hreplay hst later config keystore
  refine ⟨fun ⟨hup, hread⟩ => (hiff hread).mpr hup, fun hsurvives => ?_⟩
  obtain ⟨all, stray, hsplit⟩ := hsurvives.logSplit hdisk
  exact (h.readable_or_misread hrecord hk hsplit).imp_left fun hread =>
    ⟨(hiff hread).mp hsurvives, hread⟩

/-- A logged node without a temporary log survives the safe cuts, and others only if its log is
misread. -/
theorem Logged.survives [StrictBincode Snapshot] {cut : SnapshotCut}
    (hcut : life.node.InBounds now cut) (hnone : life.node.dir.walTmp = none) :
    (life.SafeCut now cut →
        Survives life.node.replica later config keystore (life.node.cutSnapshot now cut)) ∧
      (Survives life.node.replica later config keystore (life.node.cutSnapshot now cut) →
        life.SafeCut now cut ∨ life.Misread now cut.recorded) := by
  have hdisk := h.onDisk
  obtain ⟨hbelow, hshas⟩ := hdisk.fresh h.counter
  have htmp : (life.node.replica.onDisk life.node.dir).walTmp = none := by
    rwa [Replica.onDisk_walTmp]
  rw [← written_zero now] at hdisk
  simp only [SafeCut.eq_def, hnone, true_and]
  cases cut with
  | untouched => exact h.survives_old hrecord later config keystore (Nat.zero_le _) hdisk htmp
  | snapshotFile k =>
    rcases Nat.lt_or_eq_of_le hcut with hk | rfl
    · have hnot := not_survives_of_loadLatest life.node.replica later config keystore (by decide)
        (loadLatest_snapshotFile now hbelow hshas hk)
      exact ⟨fun hsafe => absurd hsafe.1 hk.ne, fun hsurvives => absurd hsurvives hnot⟩
    · simp only [true_and]
      exact h.survives_new hrecord later config keystore (Nat.zero_le _)
        (hdisk.snapshotFile now h.counter) htmp
  | checksumFile k =>
    rcases Nat.lt_or_eq_of_le hcut with hk | rfl
    · obtain ⟨expected, actual, hload⟩ := loadLatest_checksumFile now hbelow hk
      have hnot := not_survives_of_loadLatest life.node.replica later config keystore (by simp)
        hload
      exact ⟨fun hsafe => absurd hsafe.1 hk.ne, fun hsurvives => absurd hsurvives hnot⟩
    · simp only [true_and]
      exact h.survives_new hrecord later config keystore (Nat.zero_le _)
        (hdisk.saved now h.counter) htmp
  | logRecord k =>
    have hrecorded := h.onDisk.recorded now h.counter k
    rw [List.append_assoc] at hrecorded
    exact h.survives_new hrecord later config keystore hcut hrecorded htmp
  | temporaryLog k =>
    exact ⟨False.elim, fun hsurvives =>
      absurd hsurvives (not_survives_of_walTmp (Option.some_ne_none _))⟩
  | renamed k =>
    obtain ⟨hfresh, htmp'⟩ := h.onDisk.renamed now h.counter life.node.logOwner k
    refine ⟨fun _ => ?_, fun _ => .inl trivial⟩
    exact survives_of_replay hfresh (logSplit_header now life.node.logOwner) htmp' rfl
      (pointers_captureSnapshot now life.node.replica) later config keystore

end Reading

variable [App σ] [Ed25519] [LawfulBincode LogEntry] [LawfulBincode Snapshot]
  [StrictBincode Snapshot]

end Life

section Samples

open Sample

/-- Three blocks of a chain, of which the first commits. -/
def commitOps : List (Nat × CrashOp) :=
  [(1, .op (.call (.validateAndInsertProposal (block 1 0 0 0 none)))),
    (2, .op (.call (.validateAndInsertProposal (block 2 1 1 1 (some (qc [0, 1, 2] 1 0 0)))))),
    (3, .op (.call (.validateAndInsertProposal (block 3 2 2 2 (some (qc [0, 1, 2] 2 1 0)))))),
    (4, .op (.call .commitAll))]

/-- The node that has committed one block. -/
def committedLife : Life NoOpApp := run Life.step ⟨Node.firstNode, [], []⟩ commitOps

/-- Its snapshot, the next one cut in the length prefix of its record, and a restart. -/
def interruptedOps : List (Nat × CrashOp) :=
  commitOps ++
    [(5, .op .takeSnapshot),
      (6, .cutSnapshot (.logRecord 2) 7 (party 4 3).config (keyStore 4 3))]

/-- The node that has been interrupted, with two stray bytes in its log. -/
def interruptedLife : Life NoOpApp := run Life.step ⟨Node.firstNode, [], []⟩ interruptedOps

end Samples

end PersistHotStuff
