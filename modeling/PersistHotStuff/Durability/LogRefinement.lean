import PersistHotStuff.Durability.Log
import PersistHotStuff.Source.Sample

/-!
# The log as a list

One log file through any operations on it: creation, single and batched appends,
reading, reopening and truncation. As long as they succeed, the file holds the
entries appended since it was created or last truncated, and the cursor of the
handle stands behind them.
-/

namespace PersistHotStuff

open Basis

/-- An operation on the log of one replica; `reopen` drops the handle and opens the file again. -/
inductive LogOp
  | create (replicaId : ReplicaId)
  | append (entry : LogEntry)
  | appendBatch (entries : List LogEntry)
  | readAll
  | reopen
  | truncateAfterSnapshot
  deriving DecidableEq

namespace LogOp

/-- The entries an operation is to write. -/
def written : LogOp → List LogEntry
  | .append entry => [entry]
  | .appendBatch entries => entries
  | _ => []

/-- What an operation does to a log that is a list. -/
def onList (log : List LogEntry) : LogOp → List LogEntry
  | .create _ => []
  | .append entry => log ++ [entry]
  | .appendBatch entries => log ++ entries
  | .readAll => log
  | .reopen => log
  | .truncateAfterSnapshot => []

end LogOp

/-- An operation with what it meets: the time, the writes that the file system refuses, and the
temporary file in the directory. -/
structure LogStep where
  now : Nat
  refusals : List Bool
  walTmp : Option Bytes
  op : LogOp

/-- The handle with the coming refusals given. -/
def WAL.facing (wal : WAL) (refusals : List Bool) : WAL := { wal with refusals := refusals }

/-- The outcome of an operation that succeeds, and the handle after it. -/
theorem eq_of_map_ok {α : Type} {result : Except WALError α} {wal wal' : WAL}
    (h : (result.map fun _ => wal) = .ok wal') : (∃ a, result = .ok a) ∧ wal = wal' := by
  cases result with
  | error e => cases h
  | ok a => exact ⟨⟨a, rfl⟩, Except.ok.inj h⟩

section

variable [Bincode LogEntry] [Crc32]

/-- The handle after an operation, if there is one and the operation succeeds. -/
def LogStep.apply (step : LogStep) (wal : Option WAL) : Except WALError WAL :=
  match step.op, wal with
  | .create replicaId, wal => WAL.create step.now replicaId (wal.map fun w => w.file.bytes)
  | _, none => .error (.io .notFound)
  | .append entry, some wal =>
      let (result, wal) := (wal.facing step.refusals).append entry
      result.map fun _ => wal
  | .appendBatch entries, some wal =>
      let (result, wal) := (wal.facing step.refusals).appendBatch entries
      result.map fun _ => wal
  | .readAll, some wal =>
      let (result, wal) := wal.readAll
      result.map fun _ => wal
  | .reopen, some wal => WAL.openExisting wal.replicaId (some wal.file.bytes)
  | .truncateAfterSnapshot, some wal =>
      let (result, wal) := wal.truncateAfterSnapshot step.now step.walTmp
      result.map fun _ => wal

/-- The handle after several operations, if all of them succeed. -/
def applyAll : Option WAL → List LogStep → Except WALError (Option WAL)
  | wal, [] => .ok wal
  | wal, step :: steps =>
      match step.apply wal with
      | .error e => .error e
      | .ok wal => applyAll (some wal) steps

/-- A handle behind a file that holds a list. -/
structure WAL.Refines (wal : WAL) (log : List LogEntry) : Prop where
  file : LogFile wal.file.bytes log
  atEnd : wal.file.pos = wal.file.bytes.length
  count : wal.entryCount = log.length

/-- A batch is an append and, if that succeeds, the rest of the batch. -/
theorem WAL.appendBatch_cons (wal : WAL) (entry : LogEntry) (entries : List LogEntry) :
    wal.appendBatch (entry :: entries) =
      match wal.append entry with
      | (.ok (), wal) => wal.appendBatch entries
      | (.error e, wal) => (.error e, wal) := by
  rw [appendBatch, append]
  cases hrefusals : wal.refusals with
  | nil => rfl
  | cons refused rest => cases refused <;> rfl

/-- A batch that succeeds writes what single appends write. -/
theorem WAL.appendBatch_eq {wal : WAL} {entries : List LogEntry}
    (hok : (wal.appendBatch entries).1 = .ok ()) :
    (wal.appendBatch entries).2 = wal.appendAll entries := by
  induction entries generalizing wal with
  | nil => rfl
  | cons entry entries ih =>
    rw [appendBatch_cons] at hok ⊢
    have hall : wal.appendAll (entry :: entries) = (wal.append entry).2.appendAll entries := rfl
    rw [hall]
    cases happend : wal.append entry with
    | mk result wal' =>
      rw [happend] at hok
      cases result with
      | error e => cases hok
      | ok _ => exact ih hok

/-- A written entry is one more entry of the list. -/
theorem WAL.Refines.append {wal : WAL} {log : List LogEntry} (h : wal.Refines log)
    {entry : LogEntry} (hshort : ShortPayload entry) (hok : (wal.append entry).1 = .ok ()) :
    (wal.append entry).2.Refines (log ++ [entry]) := by
  rcases WAL.append_cases h.atEnd entry with ⟨-, hrefused⟩ | ⟨-, hwritten⟩
  · rw [hrefused] at hok
    cases hok
  · rw [hwritten]
    have hcount : wal.entryCount + 1 = (log ++ [entry]).length := by
      rw [h.count, List.length_append, List.length_singleton]
    exact ⟨h.file.append hshort, rfl, hcount⟩

/-- A written batch is appended to the list. -/
theorem WAL.Refines.appendBatch {wal : WAL} {log : List LogEntry} (h : wal.Refines log)
    {entries : List LogEntry} (hshort : ∀ entry ∈ entries, ShortPayload entry)
    (hok : (wal.appendBatch entries).1 = .ok ()) :
    (wal.appendBatch entries).2.Refines (log ++ entries) := by
  induction entries generalizing wal log with
  | nil => rwa [List.append_nil]
  | cons entry entries ih =>
    obtain ⟨hentry, hrest⟩ := List.forall_mem_cons.mp hshort
    rw [appendBatch_cons] at hok ⊢
    cases happend : wal.append entry with
    | mk result wal' =>
      rw [happend] at hok
      cases result with
      | error e => cases hok
      | ok _ =>
        have hone := h.append hentry (by rw [happend])
        rw [happend] at hone
        rw [← List.singleton_append, ← List.append_assoc]
        exact ih hone hrest hok

/-- The bytes of a log are never overwritten: an append leaves them in front of what it writes. -/
theorem WAL.prefix_append {wal : WAL} (hend : wal.file.pos = wal.file.bytes.length)
    (entry : LogEntry) : wal.file.bytes <+: (wal.append entry).2.file.bytes := by
  rcases WAL.append_cases hend entry with ⟨-, hrefused⟩ | ⟨-, hwritten⟩
  · rw [hrefused]
  · rw [hwritten]
    exact List.prefix_append ..

/-- Reading leaves the cursor behind the last entry. -/
theorem WAL.Refines.readAll {wal : WAL} {log : List LogEntry} (h : wal.Refines log) :
    wal.readAll.2.Refines log := by
  obtain ⟨⟨created, replicaId, hbytes⟩, -⟩ := h.file
  refine ⟨h.file, ?_, h.count⟩
  have hlen : headerSize ≤ wal.file.bytes.length := by
    rw [hbytes, logBytes, List.length_append, length_walHeader]
    exact Nat.le_add_right ..
  exact max_eq_right hlen

/-- A fresh file holds the empty list. -/
theorem WAL.refines_create {now : Nat} {replicaId : ReplicaId} {onDisk : Option Bytes} {wal : WAL}
    (h : WAL.create now replicaId onDisk = .ok wal) : wal.Refines [] := by
  unfold WAL.create at h
  split at h
  · cases h
  · cases h
    exact ⟨logFile_header now replicaId, (length_walHeader now replicaId).symm, rfl⟩

variable [LawfulBincode LogEntry]

/-- Reading yields the list. -/
theorem WAL.Refines.readAll_eq {wal : WAL} {log : List LogEntry} (h : wal.Refines log) :
    wal.readAll.1 = .ok log := by
  have hread := readEntriesFromFile_logFile h.file (show ([] : Bytes).length < 4 by decide)
  rwa [List.append_nil] at hread

/-- A reopened file holds the same list. -/
theorem WAL.Refines.reopen {wal : WAL} {log : List LogEntry} (h : wal.Refines log)
    (replicaId : ReplicaId) {wal' : WAL}
    (hok : WAL.openExisting replicaId (some wal.file.bytes) = .ok wal') : wal'.Refines log := by
  have hopen := WAL.openExisting_logFile h.file (show ([] : Bytes).length < 4 by decide) replicaId
  rw [List.append_nil, hok] at hopen
  cases hopen
  exact ⟨h.file, rfl, rfl⟩

omit [LawfulBincode LogEntry] in
/-- A fresh file after a truncation holds the empty list. -/
theorem WAL.refines_truncate {now : Nat} {wal : WAL} {walTmp : Option Bytes}
    (hok : (wal.truncateAfterSnapshot now walTmp).1 = .ok ()) :
    (wal.truncateAfterSnapshot now walTmp).2.Refines [] := by
  unfold truncateAfterSnapshot at hok ⊢
  split at hok
  · cases hok
  · rename_i hnone
    rw [if_neg hnone]
    exact ⟨logFile_header now wal.replicaId, (length_walHeader now wal.replicaId).symm, rfl⟩

/-- An operation that succeeds does to the file what it does to the list. -/
theorem refines_apply {wal : Option WAL} {log : List LogEntry} (h : ∀ w ∈ wal, w.Refines log)
    {step : LogStep} (hshort : ∀ entry ∈ step.op.written, ShortPayload entry) {wal' : WAL}
    (hok : step.apply wal = .ok wal') : wal'.Refines (step.op.onList log) := by
  obtain ⟨now, refusals, walTmp, op⟩ := step
  cases wal with
  | none =>
    cases op with
    | create replicaId => exact WAL.refines_create hok
    | _ => cases hok
  | some wal =>
    have hwal : (wal.facing refusals).Refines log := ⟨(h wal rfl).file, (h wal rfl).atEnd,
      (h wal rfl).count⟩
    cases op with
    | create replicaId => exact WAL.refines_create hok
    | append entry =>
      obtain ⟨⟨⟨⟩, hres⟩, rfl⟩ := eq_of_map_ok hok
      exact hwal.append (hshort entry (List.mem_singleton_self entry)) hres
    | appendBatch entries =>
      obtain ⟨⟨⟨⟩, hres⟩, rfl⟩ := eq_of_map_ok hok
      exact hwal.appendBatch hshort hres
    | readAll =>
      obtain ⟨-, rfl⟩ := eq_of_map_ok hok
      exact (h wal rfl).readAll
    | reopen => exact (h wal rfl).reopen wal.replicaId hok
    | truncateAfterSnapshot =>
      obtain ⟨⟨⟨⟩, hres⟩, rfl⟩ := eq_of_map_ok hok
      exact WAL.refines_truncate hres

/-- Operations that all succeed do to the file what they do to the list. -/
theorem refines_applyAll {wal : Option WAL} {log : List LogEntry} (h : ∀ w ∈ wal, w.Refines log)
    {steps : List LogStep} (hshort : ∀ step ∈ steps, ∀ entry ∈ step.op.written, ShortPayload entry)
    {wal' : Option WAL} (hok : applyAll wal steps = .ok wal') :
    ∀ w ∈ wal', w.Refines ((steps.map LogStep.op).foldl LogOp.onList log) := by
  induction steps generalizing wal log with
  | nil =>
    cases hok
    exact h
  | cons step steps ih =>
    obtain ⟨hstep, hrest⟩ := List.forall_mem_cons.mp hshort
    rw [applyAll] at hok
    cases happly : step.apply wal with
    | error e =>
      rw [happly] at hok
      cases hok
    | ok next =>
      rw [happly] at hok
      have hnext := refines_apply h hstep happly
      exact ih (fun w hw => Option.some.inj hw ▸ hnext) hrest hok

/-- After any operations that succeed, reading the log yields the entries appended since it was
created or last truncated and the handle counts them; a batch does what single appends do; and an
append, also one behind a read, leaves the bytes of the file in place. -/
theorem log_refines_list {steps : List LogStep}
    (hshort : ∀ step ∈ steps, ∀ entry ∈ step.op.written, ShortPayload entry) {wal : WAL}
    (hok : applyAll none steps = .ok (some wal)) :
    wal.readAll.1 = .ok ((steps.map LogStep.op).foldl LogOp.onList []) ∧
      wal.entryCount = ((steps.map LogStep.op).foldl LogOp.onList []).length ∧
      (∀ (refusals : List Bool) (entries : List LogEntry),
        ((wal.facing refusals).appendBatch entries).1 = .ok () →
        ((wal.facing refusals).appendBatch entries).2 = (wal.facing refusals).appendAll entries) ∧
      ∀ (refusals : List Bool) (entry : LogEntry),
        wal.file.bytes <+: ((wal.facing refusals).append entry).2.file.bytes ∧
        wal.file.bytes <+: ((wal.readAll.2.facing refusals).append entry).2.file.bytes := by
  have hnone : ∀ w ∈ (none : Option WAL), w.Refines [] := fun w hw => by cases hw
  have h : wal.Refines ((steps.map LogStep.op).foldl LogOp.onList []) :=
    refines_applyAll hnone hshort hok wal rfl
  refine ⟨h.readAll_eq, h.count, fun refusals entries => WAL.appendBatch_eq, ?_⟩
  intro refusals entry
  have hplain : (wal.facing refusals).file.pos = (wal.facing refusals).file.bytes.length := h.atEnd
  have hread : (wal.readAll.2.facing refusals).file.pos =
      (wal.readAll.2.facing refusals).file.bytes.length := h.readAll.atEnd
  exact ⟨WAL.prefix_append hplain entry, WAL.prefix_append hread entry⟩

end

section Samples

open Sample

/-- A log is created, written one by one and in a batch, read, reopened, truncated and written. -/
def sampleLogSteps : List LogStep :=
  [.create 7, .append (.voteReceived 1 1 0 1), .readAll,
    .appendBatch [.voteReceived 1 1 1 2, .voteReceived 1 1 2 3], .reopen, .truncateAfterSnapshot,
    .appendBatch [.qcFormed 1 1 0 3 4, .highQcUpdated 1 1 0 4], .readAll,
    .append (.voteReceived 2 2 0 5)].map fun op => ⟨9, [false], none, op⟩

/-- Three entries are left behind the truncation. -/
theorem log_refines_list_sample :
    (applyAll none sampleLogSteps).map (fun wal => wal.map fun w => (w.readAll.1, w.entryCount)) =
      .ok (some (.ok [.qcFormed 1 1 0 3 4, .highQcUpdated 1 1 0 4, .voteReceived 2 2 0 5], 3)) := by
  have hshort : ∀ step ∈ sampleLogSteps, ∀ entry ∈ step.op.written, ShortPayload entry := by
    decide
  have hrun : (applyAll none sampleLogSteps).toOption.join.isSome = true := by decide +kernel
  cases hok : applyAll none sampleLogSteps with
  | error e => rw [hok] at hrun; cases hrun
  | ok wal =>
    cases wal with
    | none => rw [hok] at hrun; cases hrun
    | some wal =>
      obtain ⟨hread, hcount, -⟩ := log_refines_list hshort hok
      simp only [Except.map, Option.map_some, hread, hcount]
      rfl

end Samples

end PersistHotStuff
