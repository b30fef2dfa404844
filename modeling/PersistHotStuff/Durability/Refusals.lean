import PersistHotStuff.Durability.CatchUpRun
import PersistHotStuff.Durability.LogRefinement

/-!
# Appends that fail

Every handler goes on when an append fails, and changes the state all the same.
A lost commit record is missed by every recovery: the block is gone, and the log
does not replay past the next commit. Other records can be lost without losing a
committed block.
-/

namespace PersistHotStuff

open Basis

/-- The records that are written when the coming appends meet the given refusals. -/
def keptRecords : List Bool → List LogEntry → List LogEntry
  | _, [] => []
  | refusals, entry :: entries =>
      if refusals.head? = some true then keptRecords refusals.tail entries
      else entry :: keptRecords refusals.tail entries

/-- The records that are not. -/
def lostRecords : List Bool → List LogEntry → List LogEntry
  | _, [] => []
  | refusals, entry :: entries =>
      if refusals.head? = some true then entry :: lostRecords refusals.tail entries
      else lostRecords refusals.tail entries

theorem keptRecords_sublist (refusals : List Bool) (entries : List LogEntry) :
    (keptRecords refusals entries).Sublist entries := by
  induction entries generalizing refusals with
  | nil => exact .slnil
  | cons entry entries ih =>
    rw [keptRecords]
    split
    · exact (ih _).cons entry
    · exact (ih _).cons_cons entry

theorem lostRecords_sublist (refusals : List Bool) (entries : List LogEntry) :
    (lostRecords refusals entries).Sublist entries := by
  induction entries generalizing refusals with
  | nil => exact .slnil
  | cons entry entries ih =>
    rw [lostRecords]
    split
    · exact (ih _).cons_cons entry
    · exact (ih _).cons entry

/-- Every record is either kept or lost. -/
theorem countP_kept_add_lost (p : LogEntry → Bool) (refusals : List Bool)
    (entries : List LogEntry) :
    (keptRecords refusals entries).countP p + (lostRecords refusals entries).countP p =
      entries.countP p := by
  induction entries generalizing refusals with
  | nil => rfl
  | cons entry entries ih =>
    have := ih refusals.tail
    rw [keptRecords, lostRecords]
    split
    · simp only [List.countP_cons]
      omega
    · simp only [List.countP_cons]
      omega

/-- Without a loss everything is kept. -/
theorem keptRecords_of_lost_nil {refusals : List Bool} {entries : List LogEntry}
    (h : lostRecords refusals entries = []) : keptRecords refusals entries = entries := by
  induction entries generalizing refusals with
  | nil => rfl
  | cons entry entries ih =>
    rw [lostRecords] at h
    split at h
    · cases h
    · rename_i hwilling
      rw [keptRecords, if_neg hwilling, ih h]

section

variable [Bincode LogEntry] [Crc32]

/-- Appends extend what a log carries by the records that are kept. -/
theorem WAL.Carries.appendAll_kept {wal : WAL} {entries : List LogEntry}
    (h : (wal.facing []).Carries entries) (more : List LogEntry) :
    ((wal.appendAll more).facing []).Carries (entries ++ keptRecords wal.refusals more) := by
  induction more generalizing wal entries with
  | nil => rwa [keptRecords, List.append_nil]
  | cons entry more ih =>
    have hall : wal.appendAll (entry :: more) = (wal.append entry).2.appendAll more := rfl
    have htail := WAL.append_refusals wal entry
    rw [hall, keptRecords, ← htail]
    have hend : wal.file.pos = wal.file.bytes.length := h.atEnd
    rcases WAL.append_cases hend entry with ⟨hrefused, happend⟩ | ⟨hwilling, happend⟩
    · rw [if_pos hrefused]
      refine ih ?_
      rw [happend]
      exact h
    · rw [if_neg hwilling, ← List.singleton_append, ← List.append_assoc]
      refine ih ?_
      have hone := h.append entry
      rw [WAL.append_eq h.atEnd h.willing] at hone
      rw [happend]
      exact hone

end

namespace Replica

variable {σ : Type}

/-- The replica with the coming refusals of its log given. -/
def facing (refusals : List Bool) (r : Replica σ) : Replica σ :=
  { r with wal := r.wal.map (·.facing refusals) }

/-- The replica apart from its log. -/
def detached (r : Replica σ) : Replica σ := { r with wal := none }

/-- A call that changes nothing besides what it writes to the log: the block is in the tree, or the
view is the last one and has no votes, and the timer reads the time of the call. -/
def Idle (r : Replica σ) (c : Nat × Call) : Prop :=
  match c.2 with
  | .validateAndInsertProposal block =>
      r.blockTree.get? block.hash = some block ∧ r.viewStartTime = c.1
  | .advanceViewWithReason _ =>
      saturatingAdd r.currentView 1 = r.currentView ∧ r.votePool = OrdMap.empty ∧
        r.viewStartTime = c.1
  | _ => False

instance (r : Replica σ) : DecidablePred r.Idle
  | (_, .validateAndInsertProposal _) => inferInstanceAs (Decidable (_ ∧ _))
  | (_, .advanceViewWithReason _) => inferInstanceAs (Decidable (_ ∧ _ ∧ _))
  | (_, .propose ..) | (_, .handleVote _) | (_, .applyHighQcFromNetwork _) | (_, .commitAll)
  | (_, .enqueueCommand _) | (_, .enableDummyProposals _) | (_, .disableDummyProposals) =>
      inferInstanceAs (Decidable False)

variable [Ed25519] [Sha256] [Bincode LogEntry] [Crc32]

/-- The records of `commitAll` are commits, and those of no other call are. -/
theorem isCommit_records (r : Replica σ) (c : Nat × Call) :
    ∀ entry ∈ r.records c, entry.isCommit = decide (c.2 = .commitAll) := by
  intro entry hentry
  rcases mem_records hentry with ⟨block, hc, -, rfl⟩ | ⟨vote, qc, hc, -, rfl | rfl⟩ |
    ⟨qc, hc, rfl⟩ | ⟨reason, hc, rfl⟩ | ⟨hc, block, -, i, rfl⟩
  all_goals
    rw [hc]
    rfl

variable [App σ]

/-- The committed log grows by the commit records of a call. -/
theorem length_step {r : Replica σ} (hkeyed : TreeKeyed r.blockTree) (c : Nat × Call) :
    (r.step c).committedLog.length =
      r.committedLog.length + (r.records c).countP LogEntry.isCommit := by
  let st : Recovered := { (RecoveredBase.fresh 0).state with committedLog := r.committedLog }
  have hlen : st.committedLog.length = r.committedLog.length := rfl
  obtain ⟨st', hreplay, hstep⟩ := replay_records_length hkeyed hlen c
  rw [← hstep]
  exact replayEntries_length hreplay

/-- A call with a lost record leaves the replica as it is exactly when it is idle. -/
theorem detached_step_iff {r : Replica σ} (hkeyed : TreeKeyed r.blockTree) {c : Nat × Call}
    (hwrites : r.records c ≠ []) : (r.step c).detached = r.detached ↔ r.Idle c := by
  obtain ⟨now, call⟩ := c
  cases call with
  | validateAndInsertProposal block =>
    simp only [records] at hwrites
    simp only [step, Idle]
    rcases r.validateAndInsertProposal_cases now block with ⟨ha, -⟩ | ⟨-, hv⟩
    · rw [ha] at hwrites
      exact absurd rfl hwrites
    · rw [hv]
      constructor
      · intro h
        have htree : r.blockTree.insert block.hash block = r.blockTree :=
          congrArg Replica.blockTree h
        exact ⟨OrdMap.insert_eq_self_iff.mp htree, (congrArg Replica.viewStartTime h).symm⟩
      · rintro ⟨hblock, htime⟩
        rw [OrdMap.insert_eq_self_iff.mpr hblock, ← htime]
        rfl
  | handleVote vote =>
    simp only [records] at hwrites
    simp only [step, Idle, iff_false]
    rcases r.handleVote_cases now vote with hv | ⟨-, ⟨-, hv⟩ | ⟨-, hv⟩⟩
    · rw [hv] at hwrites
      exact absurd rfl hwrites
    · rw [hv] at hwrites
      exact absurd rfl hwrites
    · rw [hv]
      intro h
      -- the pool has the vote that completes the certificate
      have hpool : r.votePool.insert vote.blockHash (r.votedQc vote).signatures = r.votePool :=
        congrArg Replica.votePool h
      have hget := OrdMap.insert_eq_self_iff.mp hpool
      have hlength : ((r.votePool.get? vote.blockHash).getD []).length =
          (r.votedQc vote).signatures.length := by rw [hget]; rfl
      simp only [votedQc, List.length_append, List.length_singleton] at hlength
      omega
  | applyHighQcFromNetwork qc =>
    simp only [records] at hwrites
    simp only [step, Idle, iff_false]
    rcases r.applyHighQcFromNetwork_cases now qc with hq | ⟨hnewer, hq⟩
    · rw [hq] at hwrites
      exact absurd rfl hwrites
    · rw [hq]
      intro h
      have hhigh : some qc = r.highQc := congrArg Replica.highQc h
      have hself := hnewer qc hhigh.symm
      simp [newerQc] at hself
  | advanceViewWithReason reason =>
    simp only [step, Idle]
    constructor
    · intro h
      exact ⟨congrArg Replica.currentView h, (congrArg Replica.votePool h).symm,
        (congrArg Replica.viewStartTime h).symm⟩
    · rintro ⟨hview, hpool, htime⟩
      simp only [advanceViewWithReason, record, detached, hview, ← hpool, ← htime]
  | commitAll =>
    simp only [step, Idle, iff_false]
    intro h
    have hlog : (r.commitAll now).detached.committedLog = r.committedLog := by rw [h]; rfl
    rw [detached, commitAll_committedLog now r hkeyed] at hlog
    simp only [records, List.append_right_eq_self.mp hlog] at hwrites
    exact absurd rfl hwrites
  | _ => exact absurd rfl hwrites

omit [App σ] in
/-- Kept records replay to the committed blocks, if no commit is among the lost ones. -/
theorem replay_keptRecords {r : Replica σ} {st : Recovered}
    (hlen : st.committedLog.length = r.committedLog.length) {refusals : List Bool}
    {c : Nat × Call}
    (hlost : ∀ entry ∈ lostRecords refusals (r.records c), entry.isCommit = false) :
    ∃ st', replayEntries (keptRecords refusals (r.records c)) st = .ok st' ∧
      st'.committedLog =
        match c.2 with
        | .commitAll => st.committedLog ++ r.ready.map replayedCommit
        | _ => st.committedLog := by
  have hall := r.isCommit_records c
  by_cases hc : c.2 = .commitAll
  · -- all records of the call are commits, so none is lost
    have hnil : lostRecords refusals (r.records c) = [] := by
      refine List.eq_nil_iff_forall_not_mem.mpr fun entry hentry => ?_
      have hcommit := hall entry ((lostRecords_sublist ..).subset hentry)
      rw [hlost entry hentry, hc] at hcommit
      cases hcommit
    rw [keptRecords_of_lost_nil hnil]
    exact replay_records_log hlen c
  · have hkept : ∀ entry ∈ keptRecords refusals (r.records c), entry.isCommit = false := by
      intro entry hentry
      rw [hall entry ((keptRecords_sublist ..).subset hentry)]
      exact decide_eq_false hc
    obtain ⟨st', hreplay, hlog, -⟩ := replayEntries_registers hkept st
    refine ⟨st', hreplay, hlog.trans ?_⟩
    split
    · next h => exact absurd h hc
    · rfl

end Replica

namespace Node

section

variable {σ : Type}

/-- The node with the coming refusals of its log given. -/
def facing (refusals : List Bool) (node : Node σ) : Node σ :=
  { node with replica := node.replica.facing refusals }

/-- The recovered blocks are those of the replica, up to certificates and commands. -/
def TracksCommits (_ : Option Snapshot) (st : Recovered) (r : Replica σ) : Prop :=
  st.committedLog.map replayedCommit = r.committedLog.map replayedCommit

theorem TracksCommits.length {snap : Option Snapshot} {st : Recovered} {r : Replica σ}
    (h : TracksCommits snap st r) : st.committedLog.length = r.committedLog.length := by
  have := congrArg List.length h
  simpa only [List.length_map] using this

/-- A snapshot keeps the committed blocks. -/
theorem tracksCommits_captureSnapshot [App σ] (snap : Option Snapshot) (now : Nat)
    (r : Replica σ) : TracksCommits snap (baseState (some (r.captureSnapshot now))) r := by
  simp only [TracksCommits, baseState, RecoveredBase.ofSnapshot, Replica.captureSnapshot,
    Snapshot.capture, List.map_map]
  rfl

/-- What a log refuses has no effect on the files. -/
theorem onDisk_facing (node : Node σ) (refusals : List Bool) :
    (node.facing refusals).replica.onDisk node.dir = node.replica.onDisk node.dir := by
  simp only [facing, Replica.facing, Replica.onDisk]
  cases node.replica.wal <;> rfl

end

section Recovery

variable {σ : Type} [Bincode LogEntry] [Bincode Snapshot] [Crc32] [Sha256]

/-- Recovery succeeds and finds every committed block at its index, up to the certificate and the
command, which no record of a commit brings back. -/
def Recovers (node : Node σ) : Prop :=
  ∀ (config : Config) (keystore : KeyStore) (now : Nat), ∃ recovered : Node σ,
    node.restart config keystore now = .ok recovered ∧
      ∀ (index : Nat) (block : Block), node.replica.committedLog[index]? = some block →
        ∃ found, recovered.replica.committedLog[index]? = some found ∧
          replayedCommit found = replayedCommit block

theorem restart_facing (node : Node σ) (refusals : List Bool) (config : Config)
    (keystore : KeyStore) (now : Nat) :
    (node.facing refusals).restart config keystore now = node.restart config keystore now := by
  have hdisk : (node.facing refusals).replica.onDisk (node.facing refusals).dir =
    node.replica.onDisk node.dir := node.onDisk_facing refusals
  simp only [restart, hdisk]

/-- The log of a durable node refuses nothing. -/
theorem Durable.facing_nil {node : Node σ} {snap : Option Snapshot} {entries : List LogEntry}
    (h : Durable node snap entries) : node.facing [] = node := by
  obtain ⟨wal, hwal, hholds⟩ := h.log
  have hsame : wal.facing [] = wal := by rw [WAL.facing, ← hholds.willing]
  simp only [facing, Replica.facing, hwal, Option.map_some, hsame]
  rw [← hwal]

variable [Ed25519] [App σ]

/-- The node after an operation during which the log refuses the given appends. -/
def stepFacing (node : Node σ) (op : List Bool × Nat × NodeOp) : Node σ :=
  (node.facing op.1).step op.2

/-- The records an operation puts behind those in the log. A snapshot leaves an empty log. -/
def appended (node : Node σ) (op : Nat × NodeOp) : List LogEntry :=
  match op.2 with
  | .call call => node.replica.records (op.1, call)
  | _ => []

/-- The records of an operation that reach the log. -/
def kept (node : Node σ) (op : List Bool × Nat × NodeOp) : List LogEntry :=
  keptRecords op.1 ((node.facing op.1).appended op.2)

/-- The records of an operation that do not. -/
def lost (node : Node σ) (op : List Bool × Nat × NodeOp) : List LogEntry :=
  lostRecords op.1 ((node.facing op.1).appended op.2)

/-- An operation with a lost record leaves the replica as it is. -/
def UnchangedIfLost (node : Node σ) (op : List Bool × Nat × NodeOp) : Prop :=
  node.lost op ≠ [] → (node.stepFacing op).replica.detached = node.replica.detached

/-- No record of a commit is lost, and what is written fits its frame. -/
structure KeepsCommits (node : Node σ) (op : List Bool × Nat × NodeOp) : Prop where
  commits : ∀ entry ∈ node.lost op, entry.isCommit = false
  short : ∀ entry ∈ node.kept op, ShortPayload entry

/-- The operation is an idle call. -/
def Idle (node : Node σ) (op : Nat × NodeOp) : Prop :=
  match op.2 with
  | .call call => node.replica.Idle (op.1, call)
  | _ => False

instance (node : Node σ) : DecidablePred node.Idle
  | (now, .call call) => inferInstanceAs (Decidable (node.replica.Idle (now, call)))
  | (_, .takeSnapshot) | (_, .restart ..) => inferInstanceAs (Decidable False)

/-- Records are lost of idle calls alone, and what is written fits its frame. -/
structure Harmless (node : Node σ) (op : List Bool × Nat × NodeOp) : Prop where
  idle : node.lost op ≠ [] → node.Idle op.2
  short : ∀ entry ∈ node.kept op, ShortPayload entry

instance (node : Node σ) (op : List Bool × Nat × NodeOp) : Decidable (node.Harmless op) :=
  decidable_of_iff
    ((node.lost op ≠ [] → node.Idle op.2) ∧ ∀ entry ∈ node.kept op, ShortPayload entry)
    ⟨fun h => ⟨h.1, h.2⟩, fun h => ⟨h.idle, h.short⟩⟩

omit [Bincode Snapshot] in
/-- Blocks that are recovered as they are committed stay tracked. -/
theorem TracksCommits.step {snap : Option Snapshot} {st st' : Recovered} {r : Replica σ}
    (h : TracksCommits snap st r) (hkeyed : TreeKeyed r.blockTree) {c : Nat × Call}
    (hlog : st'.committedLog =
      match c.2 with
      | .commitAll => st.committedLog ++ r.ready.map replayedCommit
      | _ => st.committedLog) : TracksCommits snap st' (r.step c) := by
  rw [TracksCommits, hlog, Replica.step_committedLog r hkeyed]
  obtain ⟨now, call⟩ := c
  cases call with
  | commitAll =>
    simp only [List.map_append, List.map_map]
    exact congrArg (· ++ r.ready.map replayedCommit) h
  | _ => exact h

omit [Bincode Snapshot] in
/-- Recovery finds the blocks of the snapshot and of the records. -/
theorem tracking_commits : Tracking (σ := σ) TracksCommits where
  call _ _ _ c hkeyed h := by
    obtain ⟨st', hreplay, hlog⟩ := Replica.replay_records_log h.length c
    exact ⟨st', hreplay, h.step hkeyed hlog⟩
  snapshot snap _ r now _ _ _ := tracksCommits_captureSnapshot snap now r
  restart _ _ _ _ _ _ _ _ := rfl

/-- With its log willing again, the node is recoverable. -/
def Tracked (node : Node σ) : Prop := Recoverable TracksCommits (node.facing [])

/-- The records kept of a call extend what the log carries. -/
theorem Durable.call_facing {node : Node σ} {snap : Option Snapshot} {entries : List LogEntry}
    (h : Durable (node.facing []) snap entries) (refusals : List Bool) (now : Nat) (call : Call) :
    Carrying ((node.stepFacing (refusals, now, .call call)).facing []) snap
      (entries ++ node.kept (refusals, now, .call call)) := by
  obtain ⟨wal, hwal, hholds⟩ := h.log
  have hkeyed : TreeKeyed (node.facing refusals).replica.blockTree := h.keyed
  obtain ⟨live, hlive, rfl⟩ := Option.map_eq_some_iff.mp hwal
  have hlive' : (node.facing refusals).replica.wal = some (live.facing refusals) :=
    congrArg (Option.map (WAL.facing · refusals)) hlive
  have hbefore : ((live.facing refusals).facing []).Carries entries := hholds.carries
  have hkept := hbefore.appendAll_kept ((node.facing refusals).replica.records (now, call))
  refine ⟨Replica.treeKeyed_step hkeyed (now, call), ⟨_, ?_, hkept⟩, h.store, h.noTmp,
    fun seq hseq => ?_, h.paired⟩
  · show ((node.facing refusals).replica.step (now, call)).wal.map (·.facing []) = _
    rw [Replica.step_wal _ hkeyed, hlive']
    rfl
  · show seq < ((node.facing refusals).replica.step (now, call)).snapshotCounter
    rw [Replica.step_snapshotCounter]
    exact h.below seq hseq

/-- A refused record of a snapshot makes no difference. -/
theorem stepFacing_takeSnapshot {node : Node σ} {wal : WAL} (hwal : node.replica.wal = some wal)
    (hnoTmp : node.dir.walTmp = none) (refusals : List Bool) (now : Nat) :
    (node.stepFacing (refusals, now, .takeSnapshot)).facing [] =
      (node.facing []).step (now, .takeSnapshot) := by
  have hfacing : ∀ refusals,
      (node.facing refusals).replica.wal = some (wal.facing refusals) :=
    fun refusals => congrArg (Option.map (WAL.facing · refusals)) hwal
  have htmp : ∀ refusals, (node.facing refusals).dir.walTmp = none := fun _ => hnoTmp
  simp only [stepFacing, Node.step]
  rw [Replica.takeSnapshot_eq (hfacing refusals) (htmp refusals),
    Replica.takeSnapshot_eq (hfacing []) (htmp [])]
  rfl

omit [Ed25519] [App σ] in
theorem Tracked.keyed {node : Node σ} (h : Tracked node) : TreeKeyed node.replica.blockTree := by
  obtain ⟨snap, entries, st, hdur, -⟩ := h
  exact hdur.keyed

variable [LawfulBincode LogEntry] [LawfulBincode Snapshot]

omit [Ed25519] [App σ] in
/-- A tracked node is recovered with its committed blocks. -/
theorem Tracked.recovers {node : Node σ} (h : Tracked node) : Recovers node := by
  obtain ⟨snap, entries, st, hdur, hreplay, htrack⟩ := h
  intro config keystore now
  obtain ⟨wal, hrestart, -⟩ := hdur.restart hreplay config keystore now
  rw [restart_facing] at hrestart
  refine ⟨_, hrestart, fun index block hblock => ?_⟩
  have hindex := congrArg (fun log : List Block => log[index]?) htrack
  have hlive : (node.facing []).replica.committedLog[index]? = some block := hblock
  simp only [List.getElem?_map, hlive, Option.map_some] at hindex
  exact Option.map_eq_some_iff.mp hindex

/-- An operation that loses no commit keeps a node tracked. -/
theorem Tracked.stepFacing {node : Node σ} (h : Tracked node) {op : List Bool × Nat × NodeOp}
    (hkeeps : node.KeepsCommits op) : Tracked (node.stepFacing op) := by
  obtain ⟨refusals, now, op⟩ := op
  cases op with
  | call call =>
    obtain ⟨snap, entries, st, hdur, hreplay, htrack⟩ := h
    obtain ⟨wal, -, hholds⟩ := hdur.log
    have htrack' : TracksCommits snap st (node.facing refusals).replica := htrack
    obtain ⟨st', hreplay', hlog⟩ :=
      Replica.replay_keptRecords htrack'.length (c := (now, call)) hkeeps.commits
    refine ⟨snap, _, st', (hdur.call_facing refusals now call).durable ?_, ?_,
      htrack'.step hdur.keyed hlog⟩
    · exact fun entry hentry =>
        (List.mem_append.mp hentry).elim (hholds.file.2 entry) (hkeeps.short entry)
    · rw [replayEntries_append, hreplay]
      exact hreplay'
  | takeSnapshot =>
    obtain ⟨snap, entries, st, hdur, -⟩ := id h
    obtain ⟨wal, hwal, -⟩ := hdur.log
    obtain ⟨live, hlive, -⟩ := Option.map_eq_some_iff.mp hwal
    rw [Tracked, stepFacing_takeSnapshot hlive hdur.noTmp]
    exact h.takeSnapshot tracking_commits now
  | restart config keystore =>
    obtain ⟨snap, entries, st, hdur, hreplay, -⟩ := id h
    obtain ⟨wal, hrestart, hdur'⟩ := hdur.restart hreplay config keystore now
    have hnext := h.restart tracking_commits config keystore now
    simp only [Node.step, hrestart] at hnext
    rw [restart_facing, ← node.restart_facing refusals] at hrestart
    simp only [Tracked, Node.stepFacing, Node.step, hrestart, hdur'.facing_nil]
    exact hnext

/-- What recovery cannot find is lost: a node that recovers has lost no commit. -/
theorem KeepsCommits.of_recovers [StrictBincode LogEntry] {node : Node σ} (h : Tracked node)
    {op : List Bool × Nat × NodeOp} (hrecovers : (node.stepFacing op).Recovers) :
    node.KeepsCommits op := by
  obtain ⟨refusals, now, op⟩ := op
  cases op with
  | call call =>
    obtain ⟨snap, entries, st, hdur, hreplay, htrack⟩ := h
    have hcarry := hdur.call_facing refusals now call
    obtain ⟨recovered, hrestart, hfound⟩ :=
      hrecovers node.replica.config node.replica.keystore now
    rw [← restart_facing _ []] at hrestart
    have hdur' := hcarry.durable_of_restart hrestart
    obtain ⟨wal, -, hholds⟩ := hdur'.log
    obtain ⟨st', wal', hreplay', rfl, -⟩ := hdur'.of_restart hrestart
    refine ⟨?_, fun entry hentry => hholds.file.2 entry (List.mem_append_right _ hentry)⟩
    rw [replayEntries_append, hreplay] at hreplay'
    have hrecovered := replayEntries_length hreplay'
    have hlive := Replica.length_step (r := (node.facing refusals).replica) hdur.keyed (now, call)
    have hbefore : st.committedLog.length = (node.facing refusals).replica.committedLog.length :=
      htrack.length
    have hsplit : (node.kept (refusals, now, .call call)).countP LogEntry.isCommit +
        (node.lost (refusals, now, .call call)).countP LogEntry.isCommit =
          ((node.facing refusals).replica.records (now, call)).countP LogEntry.isCommit :=
      countP_kept_add_lost ..
    -- every block in memory is among the recovered ones
    have hle : ((node.facing refusals).replica.step (now, call)).committedLog.length ≤
        st'.committedLog.length := by
      by_contra hlt
      have hlt := not_le.mp hlt
      obtain ⟨found, hget, -⟩ := hfound _ _ (List.getElem?_eq_getElem hlt)
      have hnone : st'.committedLog[st'.committedLog.length]? = none :=
        List.getElem?_eq_none (le_refl _)
      exact absurd (hnone.symm.trans hget) (by simp)
    have hzero : (node.lost (refusals, now, .call call)).countP LogEntry.isCommit = 0 := by omega
    intro entry hentry
    simpa using List.countP_eq_zero.mp hzero entry hentry
  | takeSnapshot => exact ⟨(fun _ h => nomatch h), (fun _ h => nomatch h)⟩
  | restart config keystore => exact ⟨(fun _ h => nomatch h), (fun _ h => nomatch h)⟩

/-- Throughout a run recovery finds every committed block exactly when no commit is lost. -/
theorem recovers_iff [StrictBincode LogEntry] {node : Node σ} (h : Tracked node)
    (ops : List (List Bool × Nat × NodeOp)) :
    Throughout stepFacing Recovers node ops ↔ Along stepFacing KeepsCommits node ops := by
  rw [throughout_iff_after, and_iff_right h.recovers]
  exact along_congr
    (fun _ _ h => ⟨KeepsCommits.of_recovers h, fun hkeeps => (h.stepFacing hkeeps).recovers⟩)
    (fun _ _ h hkeeps => h.stepFacing hkeeps) h

omit [LawfulBincode LogEntry] [LawfulBincode Snapshot] in
/-- No commit is lost and no other loss shows exactly when records are lost of idle calls alone. -/
theorem harmless_iff {node : Node σ} (hkeyed : TreeKeyed node.replica.blockTree)
    {op : List Bool × Nat × NodeOp} :
    node.KeepsCommits op ∧ node.UnchangedIfLost op ↔ node.Harmless op := by
  by_cases hlost : node.lost op = []
  · constructor
    · rintro ⟨hkeeps, -⟩
      exact ⟨fun hne => absurd hlost hne, hkeeps.short⟩
    · intro h
      refine ⟨⟨fun entry hentry => ?_, h.short⟩, fun hne => absurd hlost hne⟩
      rw [hlost] at hentry
      cases hentry
  · obtain ⟨refusals, now, op⟩ := op
    cases op with
    | call call =>
      have hsub : (node.lost (refusals, now, .call call)).Sublist
        ((node.facing refusals).replica.records (now, call)) := lostRecords_sublist ..
      have hwrites : (node.facing refusals).replica.records (now, call) ≠ [] := by
        intro hnil
        rw [hnil] at hsub
        exact hlost (List.sublist_nil.mp hsub)
      have hidle := Replica.detached_step_iff (r := (node.facing refusals).replica) hkeyed hwrites
      constructor
      · rintro ⟨hkeeps, hunchanged⟩
        exact ⟨fun hne => hidle.mp (hunchanged hne), hkeeps.short⟩
      · rintro ⟨hcall, hshort⟩
        refine ⟨⟨fun entry hentry => ?_, hshort⟩, fun hne => hidle.mpr (hcall hne)⟩
        rw [(node.facing refusals).replica.isCommit_records (now, call) entry (hsub.subset hentry)]
        -- a commit is not idle
        refine decide_eq_false fun hcommit => ?_
        obtain rfl : call = .commitAll := hcommit
        exact hcall hlost
    | takeSnapshot => exact absurd rfl hlost
    | restart config keystore => exact absurd rfl hlost

omit [LawfulBincode Snapshot] in
/-- A node is tracked from the beginning, if the log it begins with can be opened. -/
theorem Begins.tracked [StrictBincode LogEntry] {node : Node σ} (h : Begins node) {opened : WAL}
    (hopens : WAL.openExisting node.replica.config.id (node.replica.onDisk node.dir).wal =
      .ok opened) : Tracked node := by
  cases h with
  | @boot config keystore now node hboot =>
    obtain ⟨wal, heq, hdur⟩ := durable_boot (σ := σ) config keystore now
    rw [heq] at hboot
    cases hboot
    rw [Tracked, hdur.facing_nil]
    exact ⟨none, [], _, hdur, rfl, rfl⟩
  | @opened config keystore now id r hok =>
    have hdur := (carrying_opened hok).durable_of_openExisting hopens
    rw [Tracked, hdur.facing_nil]
    rw [openReplica_empty] at hok
    cases hok
    exact ⟨none, _, _, hdur, rfl, rfl⟩
  | @snapshot node now hwritable _ _ =>
    obtain ⟨wal, dir, heq, hdur⟩ := hwritable.takeSnapshot now
    simp only [Node.step, heq]
    rw [Tracked, hdur.facing_nil]
    exact ⟨_, [], _, hdur, rfl, tracksCommits_captureSnapshot none now node.replica⟩

/-- In any run in which appends fail, recovery finds every committed block throughout and operations
with lost records change nothing, exactly when records are lost of idle calls alone. -/
theorem write_ahead_iff [StrictBincode LogEntry] {node : Node σ} (hbegins : Begins node)
    {opened : WAL}
    (hopens : WAL.openExisting node.replica.config.id (node.replica.onDisk node.dir).wal =
      .ok opened) (ops : List (List Bool × Nat × NodeOp)) :
    Throughout stepFacing Recovers node ops ∧ Along stepFacing UnchangedIfLost node ops ↔
      Along stepFacing Harmless node ops := by
  have htracked := hbegins.tracked hopens
  rw [recovers_iff htracked, ← along_and]
  exact along_congr (I := Tracked) (fun _ _ h => harmless_iff h.keyed)
    (fun _ _ h hharmless => h.stepFacing ((harmless_iff h.keyed).mpr hharmless).1) htracked

end Recovery

section Samples

open Sample

/-- Blocks 1 to 3, the first one twice, up to the commit of block 1. The record of the repetition is
refused. -/
def repeatedOps : List (List Bool × Nat × NodeOp) :=
  [([], 1, .call (.validateAndInsertProposal (block 1 0 0 0 none))),
    ([true], 1, .call (.validateAndInsertProposal (block 1 0 0 0 none))),
    ([], 2, .call (.validateAndInsertProposal (block 2 1 1 1 (some (qc [0, 1, 2] 1 0 0))))),
    ([], 3, .call (.validateAndInsertProposal (block 3 2 2 2 (some (qc [0, 1, 2] 2 1 0))))),
    ([], 4, .call .commitAll)]

/-- The lost record does not show. -/
theorem write_ahead_iff_sample :
    Throughout stepFacing Recovers firstNode repeatedOps ∧
      Along stepFacing UnchangedIfLost firstNode repeatedOps ∧
      (run stepFacing firstNode repeatedOps).replica.committedLog.map Block.hash = [1] := by
  have hboot : boot (party 4 3).config (keyStore 4 3) 0 = .ok firstNode := by decide +kernel
  have hopens : WAL.openExisting firstNode.replica.config.id
      (firstNode.replica.onDisk firstNode.dir).wal =
        .ok ⟨⟨walHeader 0 3, headerSize⟩, 3, 0, []⟩ := by
    decide +kernel
  have hharmless : Along stepFacing Harmless firstNode repeatedOps := by decide +kernel
  obtain ⟨hrecovers, hunchanged⟩ :=
    (write_ahead_iff (.boot hboot) hopens repeatedOps).mpr hharmless
  exact ⟨hrecovers, hunchanged, by decide +kernel⟩

/-- Blocks 1 to 4 with a commit of block 1, whose record is refused, and one of block 2. -/
def refusedOps : List (List Bool × Nat × NodeOp) :=
  [([], 1, .call (.validateAndInsertProposal (block 1 0 0 0 none))),
    ([], 2, .call (.validateAndInsertProposal (block 2 1 1 1 (some (qc [0, 1, 2] 1 0 0))))),
    ([], 3, .call (.validateAndInsertProposal (block 3 2 2 2 (some (qc [0, 1, 2] 2 1 0))))),
    ([true], 4, .call .commitAll),
    ([], 5, .call (.validateAndInsertProposal (block 4 3 3 3 (some (qc [0, 1, 2] 3 2 0))))),
    ([], 6, .call .commitAll)]

/-- The commit is made all the same, and the log cannot be replayed past the next one. -/
theorem write_ahead_counterexample :
    (run stepFacing firstNode refusedOps).replica.committedLog.map Block.hash = [1, 2] ∧
      (run stepFacing firstNode refusedOps).restart (party 4 3).config (keyStore 4 3) 9 =
        .error (.outOfOrderCommit 0 1) ∧
      ¬ Throughout stepFacing Recovers firstNode refusedOps ∧
      ¬ Along stepFacing UnchangedIfLost firstNode refusedOps := by
  have hfails : (run stepFacing firstNode refusedOps).restart (party 4 3).config (keyStore 4 3) 9 =
      .error (.outOfOrderCommit 0 1) := by
    decide +kernel
  refine ⟨by decide +kernel, hfails, fun h => ?_, fun h => ?_⟩
  · obtain ⟨recovered, hrestart, -⟩ :=
      h refusedOps List.prefix_rfl (party 4 3).config (keyStore 4 3) 9
    rw [hfails] at hrestart
    cases hrestart
  · have hcommit := h.2.2.2.1 (by decide +kernel)
    have hlog := congrArg Replica.committedLog hcommit
    revert hlog
    decide +kernel

end Samples

end Node

end PersistHotStuff
