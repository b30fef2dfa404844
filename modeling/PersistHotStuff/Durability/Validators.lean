import PersistHotStuff.Durability.Commands
import PersistHotStuff.Durability.Rejoin
import PersistHotStuff.Durability.Replay

/-!
# Recovery of the membership

Commits fold the membership commands of the log into the membership. Recovery
does not: it takes the configuration and the keys from its caller, the validator
set from the snapshot, and the epoch from the snapshot and the records. Adopting
a log, or importing one, leaves the membership as it is.
-/

namespace PersistHotStuff

open Basis

namespace LogEntry

/-- The epoch a record has a say in when the epoch is recovered. -/
def countedEpoch : LogEntry → Option Nat
  | qcFormed _ _ epoch _ _ => some epoch
  | highQcUpdated _ _ epoch _ => some epoch
  | blockCommitted _ _ _ epoch _ _ _ _ => some epoch
  | _ => none

/-- The command of a commit record. -/
def committedCommand : LogEntry → Option ConsensusCommand
  | blockCommitted _ _ _ _ _ command _ _ => some command
  | _ => none

end LogEntry

/-- Replay keeps the epoch when no record carries a later one. -/
theorem replayEntries_configEpoch {entries : List LogEntry} {st st' : Recovered}
    (h : replayEntries entries st = .ok st')
    (hle : ∀ e ∈ entries, ∀ epoch ∈ e.countedEpoch, epoch ≤ st.configEpoch) :
    st'.configEpoch = st.configEpoch := by
  refine replayEntries_preserves (I := fun s => s.configEpoch = st.configEpoch) ?_ h rfl
  intro entry hmem s s' hs hone
  have hentry := hle entry hmem
  cases entry with
  | blockCommitted hash parent view epoch proposer command commitIndex timestamp =>
    rw [replayEntry_commit hone, hs]
    exact max_eq_left (hentry epoch rfl)
  | qcFormed blockHash view epoch signerCount timestamp =>
    cases hone
    rw [hs]
    exact max_eq_left (hentry epoch rfl)
  | highQcUpdated blockHash view epoch timestamp =>
    cases hone
    rw [hs]
    exact max_eq_left (hentry epoch rfl)
  | _ =>
    cases hone
    exact hs

/-- The membership of a rebuilt replica. -/
theorem buildReplica_membership {σ : Type} (now : Nat) (config : Config) (keystore : KeyStore)
    (base : RecoveredBase) (st : Recovered) (wal : WAL) :
    ((buildReplica (σ := σ) now config keystore base st).attachWal wal).membership =
      { activeValidators := base.activeValidators
        configEpoch := st.configEpoch
        n := config.n
        f := config.f
        publicKeys := keystore.publicKeys } := rfl

/-- Imported entries change the log by their commits and leave the membership alone. -/
theorem importCatchupState_accounts {σ : Type} (r : Replica σ) (snapshot : Option Snapshot)
    (entries : List LogEntry) :
    (r.importCatchupState snapshot entries).membership = r.membership ∧
      (r.importCatchupState snapshot entries).committedLog.length =
        (match snapshot with
          | some snap => snap.committedLog.length
          | none => r.committedLog.length) +
          (entries.filterMap LogEntry.committedCommand).length := by
  have hentries : ∀ s : Replica σ,
      (entries.foldl Replica.importEntry s).membership = s.membership ∧
        (entries.foldl Replica.importEntry s).committedLog.length =
          s.committedLog.length + (entries.filterMap LogEntry.committedCommand).length := by
    induction entries with
    | nil => exact fun s => ⟨rfl, rfl⟩
    | cons e entries ih =>
      intro s
      obtain ⟨hm, hlen⟩ := ih (s.importEntry e)
      rw [List.foldl_cons, hm, hlen]
      cases e with
      | blockCommitted hash parent view epoch proposer command commitIndex timestamp =>
        refine ⟨rfl, ?_⟩
        simp only [Replica.importEntry, List.length_append, LogEntry.committedCommand,
          List.filterMap_cons, List.length_cons, List.length_nil]
        omega
      | _ => exact ⟨rfl, rfl⟩
  cases snapshot with
  | none => exact hentries r
  | some snap =>
    obtain ⟨hm, hlen⟩ := hentries (r.importSnapshot snap)
    refine ⟨hm, hlen.trans ?_⟩
    simp only [Replica.importSnapshot, List.length_map]

section Disk

variable [Bincode LogEntry] [Crc32]

/-- The entries of the log in a directory. -/
def logEntries (d : DataDir) : List LogEntry :=
  match d.wal with
  | some bytes => ((readEntriesFromFile headerSize bytes).toOption).getD []
  | none => []

theorem DirHolds.logEntries [Bincode Snapshot] [Sha256] [LawfulBincode LogEntry] {d : DataDir}
    {snap : Option Snapshot} {entries : List LogEntry} (h : DirHolds d snap entries) :
    logEntries d = entries := by
  obtain ⟨bytes, hwal, hfile⟩ := h.log
  have hread : readEntriesFromFile headerSize (bytes ++ []) = .ok entries :=
    readEntriesFromFile_logFile hfile (by decide)
  rw [List.append_nil] at hread
  rw [PersistHotStuff.logEntries, hwal]
  simp only [hread]
  rfl

/-- An import leaves the directory and the open log alone. -/
theorem Node.durable_import {σ : Type} [Bincode Snapshot] [Sha256] {node : Node σ}
    {snap : Option Snapshot} {log : List LogEntry} (h : Durable node snap log)
    (snapshot : Option Snapshot) (entries : List LogEntry) :
    Durable ⟨node.replica.importCatchupState snapshot entries, node.dir⟩ snap log := by
  have hentries : ∀ r : Replica σ, Durable ⟨r, node.dir⟩ snap log →
      Durable ⟨entries.foldl Replica.importEntry r, node.dir⟩ snap log := by
    induction entries with
    | nil => exact fun r hr => hr
    | cons e entries ih =>
      intro r hr
      refine ih _ ?_
      cases e with
      | blockInserted hash parent view epoch proposer qcBlockHash qcView command timestamp =>
        exact ⟨hr.keyed.insert
          { hash, parent, view, epoch := r.configEpoch, proposer,
            qc := stubQc qcBlockHash qcView r.configEpoch, command := .noOp },
          hr.log, hr.store, hr.noTmp, hr.below, hr.paired⟩
      | _ => exact ⟨hr.keyed, hr.log, hr.store, hr.noTmp, hr.below, hr.paired⟩
  cases snapshot with
  | none => exact hentries node.replica h
  | some s =>
    exact hentries (node.replica.importSnapshot s)
      ⟨treeKeyed_ofList s.blockTree, h.log, h.store, h.noTmp, h.below, h.paired⟩

end Disk

/-- A node with the history of its log: the command each committed block carried when it was first
committed, and the same for the log in the latest snapshot. -/
structure Member (σ : Type) where
  node : Node σ
  carried : List ConsensusCommand
  saved : List ConsensusCommand

/-- What happens to a member. -/
inductive MemberOp (σ : Type)
  | call (call : Call)
  | takeSnapshot
  /-- The replica crashes and is recovered with a configuration and keys. -/
  | restart (config : Config) (keystore : KeyStore)
  /-- The replica crashes and rejoins the live others; the donor's log carried `donorCarried`. -/
  | recoverReplica (id : Nat) (keystore : KeyStore) (others : List (Replica σ))
      (donorCarried : List ConsensusCommand)
  /-- Catch-up state is imported; the log in its snapshot carried `snapshotCarried`. -/
  | importCatchupState (snapshot : Option Snapshot) (entries : List LogEntry)
      (snapshotCarried : List ConsensusCommand)

namespace Member

section Conditions

variable {σ : Type} [Ed25519]

/-- The membership of the replica is that of its log. -/
structure Accounts (initial : Membership) (m : Member σ) : Prop where
  membership : m.node.replica.membership = initial.fold m.carried
  /-- One command for each committed block. -/
  counted : m.carried.length = m.node.replica.committedLog.length

/-- The membership in a snapshot is that of the log it covers. -/
structure AccountsSaved (initial : Membership) (saved : List ConsensusCommand)
    (snap : Option Snapshot) : Prop where
  none : snap = none → saved = []
  validators : ∀ s ∈ snap, s.activeValidators = (initial.fold saved).activeValidators.keys
  epoch : ∀ s ∈ snap, s.configEpoch = (initial.fold saved).configEpoch
  counted : saved.length = snapshotLength snap

variable [Bincode LogEntry] [Crc32]

/-- What the directory of the replica holds once it is dropped. -/
def disk (m : Member σ) : DataDir := m.node.replica.onDisk m.node.dir

/-- What the log on disk carried: the snapshot's part, then the commit records. -/
def carriedOnDisk (m : Member σ) : List ConsensusCommand :=
  m.saved ++ (logEntries m.disk).filterMap LogEntry.committedCommand

/-- What the log carried after an opened replica was synchronised with a donor. -/
def carriedAfterSync (m : Member σ) (recovered : Replica σ) (others : List (Replica σ))
    (donorCarried : List ConsensusCommand) : List ConsensusCommand :=
  match others.head? with
  | some donor =>
      if Simulation.adoptsLog recovered donor then donorCarried else m.carriedOnDisk
  | none => m.carriedOnDisk

variable [Bincode Snapshot] [Sha256]

/-- A recovery with a configuration and keys that puts the membership of a log in place. -/
structure Restores (initial : Membership) (m : Member σ) (config : Config) (keystore : KeyStore)
    (resulting : List ConsensusCommand) : Prop where
  /-- The caller passes the size and threshold the log prescribes. -/
  size : config.n = (initial.fold resulting).n ∧ config.f = (initial.fold resulting).f
  /-- The caller passes the keys the log prescribes. -/
  keys : keystore.publicKeys = (initial.fold resulting).publicKeys
  /-- Behind the snapshot no membership command of the log has taken effect. -/
  settled : initial.fold resulting = initial.fold m.saved
  /-- No record carries a later epoch. -/
  epochs : ∀ e ∈ logEntries m.disk, ∀ epoch ∈ e.countedEpoch,
    epoch ≤ (initial.fold m.saved).configEpoch
  /-- Without a snapshot, the initial validators are the default ones of epoch 0. -/
  default : latestSnapshot m.disk = none →
    initial.activeValidators = defaultValidators config.n ∧ initial.configEpoch = 0

variable [LawfulBincode LogEntry]

/-- The recovered log has as many blocks as the log on disk has commands. -/
theorem recovered_counted {initial : Membership}
    {m : Member σ} {snap : Option Snapshot} {entries : List LogEntry}
    (hdur : Node.Durable m.node snap entries) (hsaved : AccountsSaved initial m.saved snap)
    {st : Recovered} (hreplay : replayEntries entries (baseState snap) = .ok st) :
    m.carriedOnDisk.length = st.committedLog.length := by
  have hentries : logEntries m.disk = entries := hdur.onDisk.logEntries
  have hcommits : ∀ entries : List LogEntry,
      (entries.filterMap LogEntry.committedCommand).length = entries.countP LogEntry.isCommit := by
    intro entries
    induction entries with
    | nil => rfl
    | cons e entries ih =>
      rw [List.countP_cons, ← ih]
      cases e <;> rfl
  rw [carriedOnDisk, List.length_append, hentries, hcommits, hsaved.counted,
    replayEntries_length hreplay, baseState_length]

variable [LawfulBincode Snapshot]

/-- A recovery that meets its condition restores the membership of the resulting log. -/
theorem Restores.membership
    {initial : Membership} {m : Member σ} {config : Config} {keystore : KeyStore}
    {resulting : List ConsensusCommand} (h : Restores initial m config keystore resulting)
    {snap : Option Snapshot} {entries : List LogEntry} (hdur : Node.Durable m.node snap entries)
    (hsaved : AccountsSaved initial m.saved snap) {st : Recovered}
    (hreplay : replayEntries entries (baseState snap) = .ok st) (now : Nat) (wal : WAL) :
    ((buildReplica (σ := σ) now config keystore (baseOf config.n snap) st).attachWal wal).membership
      = initial.fold resulting := by
  have hentries : logEntries m.disk = entries := hdur.onDisk.logEntries
  have hlatest : latestSnapshot m.disk = snap := hdur.onDisk.store.latestSnapshot
  have hbase : (baseOf config.n snap).activeValidators = (initial.fold m.saved).activeValidators ∧
      (baseState snap).configEpoch = (initial.fold m.saved).configEpoch := by
    cases snap with
    | none =>
      obtain ⟨hvalidators, hepoch⟩ := h.default hlatest
      rw [hsaved.none rfl]
      exact ⟨hvalidators.symm, hepoch.symm⟩
    | some s =>
      refine ⟨?_, hsaved.epoch s rfl⟩
      show OrdMap.ofList (s.activeValidators.map fun id => (id, ())) = _
      rw [hsaved.validators s rfl, OrdMap.ofList_keys]
  have hepoch : st.configEpoch = (baseState snap).configEpoch :=
    replayEntries_configEpoch hreplay (by rw [hbase.2, ← hentries]; exact h.epochs)
  rw [buildReplica_membership, hbase.1, hepoch, hbase.2, h.size.1, h.size.2, h.keys, ← h.settled]

end Conditions

/-- A snapshot of an accounted replica is accounted. -/
theorem accountsSaved_capture {σ : Type} [Ed25519] [App σ] {initial : Membership} {r : Replica σ}
    {carried : List ConsensusCommand} (hm : r.membership = initial.fold carried)
    (hlen : carried.length = r.committedLog.length) (now : Nat) :
    AccountsSaved initial carried (some (r.captureSnapshot now)) where
  none h := by cases h
  validators s hs := by
    cases hs
    rw [← hm]
    rfl
  epoch s hs := by
    cases hs
    rw [← hm]
    rfl
  counted := by
    rw [hlen]
    exact (List.length_map ..).symm

variable {σ : Type} [Ed25519] [Sha256] [Bincode LogEntry] [Bincode Snapshot] [Crc32] [App σ]

/-- The member after an operation at a time. A recovery that fails changes nothing. -/
def step (m : Member σ) (op : Nat × MemberOp σ) : Member σ :=
  match op.2 with
  | .call call =>
      { m with
        node := ⟨m.node.replica.step (op.1, call), m.node.dir⟩
        carried := match call with
          | .commitAll => m.carried ++ m.node.replica.ready.map Block.command
          | _ => m.carried }
  | .takeSnapshot =>
      let (_, replica, dir) := m.node.replica.takeSnapshot op.1 m.node.dir
      { node := ⟨replica, dir⟩, carried := m.carried, saved := m.carried }
  | .restart config keystore =>
      match m.node.restart config keystore op.1 with
      | .ok node => { node := node, carried := m.carriedOnDisk, saved := m.saved }
      | .error _ => m
  | .recoverReplica id keystore others donorCarried =>
      match Simulation.openReplica op.1 id m.node.replica.config keystore m.disk with
      | .ok recovered =>
          let (replica, dir) := Simulation.rejoin op.1 others recovered m.disk
          let carried := m.carriedAfterSync recovered others donorCarried
          { node := ⟨replica, dir⟩, carried := carried, saved := carried }
      | .error _ => m
  | .importCatchupState snapshot entries snapshotCarried =>
      { m with
        node := ⟨m.node.replica.importCatchupState snapshot entries, m.node.dir⟩
        carried := (if snapshot.isSome then snapshotCarried else m.carried) ++
          entries.filterMap LogEntry.committedCommand }

/-- What an operation brings along is well formed: records fit their frames, a donor's blocks sit
under their hashes, and the commands carried match their log. -/
def Admissible (m : Member σ) (op : Nat × MemberOp σ) : Prop :=
  match op.2 with
  | .call call => ∀ e ∈ m.node.replica.records (op.1, call), ShortPayload e
  | .recoverReplica _ _ others donorCarried =>
      ∀ donor ∈ others.head?, TreeKeyed donor.blockTree ∧
        donorCarried.length = donor.committedLog.length
  | .importCatchupState snapshot _ snapshotCarried =>
      ∀ snap ∈ snapshot, snapshotCarried.length = snap.committedLog.length
  | _ => True

/-- An operation after which the membership is that of the log. -/
def Keeps (initial : Membership) (m : Member σ) (op : Nat × MemberOp σ) : Prop :=
  match op.2 with
  | .restart config keystore => Restores initial m config keystore m.carriedOnDisk
  | .recoverReplica id keystore others donorCarried =>
      ∀ recovered, Simulation.openReplica op.1 id m.node.replica.config keystore m.disk =
          .ok recovered →
        Restores initial m m.node.replica.config keystore
          (m.carriedAfterSync recovered others donorCarried)
  | .importCatchupState snapshot entries snapshotCarried =>
      initial.fold ((if snapshot.isSome then snapshotCarried else m.carried) ++
        entries.filterMap LogEntry.committedCommand) = initial.fold m.carried
  | _ => True

/-- The invariant of a member: its directory is in order and so are both accounts. -/
def Settled (initial : Membership) (m : Member σ) : Prop :=
  Accounts initial m ∧ ∃ snap entries, Node.Durable m.node snap entries ∧
    AccountsSaved initial m.saved snap

/-- A call folds the commands it commits into the membership. -/
theorem call_accounts {initial : Membership} {m : Member σ} (h : Accounts initial m)
    (hkeyed : TreeKeyed m.node.replica.blockTree) (now : Nat) (call : Call) :
    Accounts initial (m.step (now, .call call)) := by
  have hlog := Replica.step_committedLog m.node.replica hkeyed (now, call)
  by_cases hc : call = .commitAll
  · subst hc
    constructor
    · show (m.node.replica.commitAll now).membership = _
      rw [Replica.commitAll_membership now _ hkeyed, h.membership]
      exact (List.foldl_append ..).symm
    · show (m.carried ++ m.node.replica.ready.map Block.command).length =
        (m.node.replica.commitAll now).committedLog.length
      rw [Replica.commitAll_committedLog now _ hkeyed, List.length_append, List.length_append,
        List.length_map, h.counted]
  · have hcarried : (m.step (now, .call call)).carried = m.carried := by
      cases call with
      | commitAll => exact absurd rfl hc
      | _ => rfl
    constructor
    · rw [hcarried, ← h.membership]
      exact Replica.step_membership m.node.replica hc
    · rw [hcarried, h.counted]
      show _ = (m.node.replica.step (now, call)).committedLog.length
      rw [hlog]
      cases call with
      | commitAll => exact absurd rfl hc
      | _ => rfl

section Run

variable [LawfulBincode LogEntry] [LawfulBincode Snapshot]

/-- Every operation that meets its condition keeps the accounts. -/
theorem settled_step {initial : Membership} {m : Member σ} (h : Settled initial m)
    {op : Nat × MemberOp σ} (hadmissible : m.Admissible op) (hkeeps : Keeps initial m op) :
    Settled initial (m.step op) := by
  obtain ⟨hacc, snap, entries, hdur, hsaved⟩ := h
  obtain ⟨now, op⟩ := op
  cases op with
  | call call =>
    exact ⟨call_accounts hacc hdur.keyed now call, snap, _, hdur.call hadmissible, hsaved⟩
  | takeSnapshot =>
    obtain ⟨wal, dir, heq, hdur'⟩ := hdur.writable.takeSnapshot now
    simp only [step, heq]
    exact ⟨⟨hacc.membership, hacc.counted⟩, _, _, hdur',
      accountsSaved_capture hacc.membership hacc.counted now⟩
  | restart config keystore =>
    simp only [step]
    cases hrestart : m.node.restart config keystore now with
    | error e => exact ⟨hacc, snap, entries, hdur, hsaved⟩
    | ok node =>
      obtain ⟨st, wal, hreplay, rfl, hdur'⟩ := hdur.of_restart hrestart
      exact ⟨⟨Restores.membership hkeeps hdur hsaved hreplay now wal,
        recovered_counted hdur hsaved hreplay⟩, snap, entries, hdur', hsaved⟩
  | recoverReplica id keystore others donorCarried =>
    simp only [step]
    cases hopen : Simulation.openReplica now id m.node.replica.config keystore m.disk with
    | error e => exact ⟨hacc, snap, entries, hdur, hsaved⟩
    | ok recovered =>
      obtain ⟨st, wal, hreplay, hrecovered, hwritable⟩ := hdur.of_openReplica hopen
      have hrestored := (hkeeps recovered hopen).membership hdur hsaved hreplay now wal
      rw [← hrecovered] at hrestored
      have hmember : (Simulation.synced now others recovered).membership =
          initial.fold (m.carriedAfterSync recovered others donorCarried) := by
        rw [Simulation.synced_membership]
        exact hrestored
      have hcounted : (m.carriedAfterSync recovered others donorCarried).length =
          (Simulation.synced now others recovered).committedLog.length := by
        have hown : m.carriedOnDisk.length = recovered.committedLog.length := by
          rw [recovered_counted hdur hsaved hreplay, hrecovered]
          rfl
        rw [Simulation.synced_committedLog, carriedAfterSync]
        cases hhead : others.head? with
        | none => exact hown
        | some donor =>
          simp only [Simulation.adoptLog]
          split
          · exact (hadmissible donor hhead).2
          · exact hown
      obtain ⟨wal', dir, heq, hdur'⟩ :=
        (hwritable.synced now fun donor hd => (hadmissible donor hd).1).takeSnapshot now
      simp only [Simulation.rejoin_eq]
      rw [show m.disk = m.node.replica.onDisk m.node.dir from rfl, heq]
      exact ⟨⟨hmember, hcounted⟩, _, _, hdur', accountsSaved_capture hmember hcounted now⟩
  | importCatchupState snapshot log snapshotCarried =>
    obtain ⟨hm, hlen⟩ := importCatchupState_accounts m.node.replica snapshot log
    refine ⟨⟨?_, ?_⟩, snap, entries, Node.durable_import hdur snapshot log, hsaved⟩
    · exact hm.trans (hacc.membership.trans hkeeps.symm)
    · refine Eq.trans ?_ hlen.symm
      simp only [step, List.length_append]
      cases snapshot with
      | none => exact congrArg (· + _) hacc.counted
      | some s => exact congrArg (· + _) (hadmissible s rfl)

/-- Along every run whose recoveries and imports meet their condition, the membership is the fold
of the commands of the log over the initial membership. -/
theorem membership_of_log {initial : Membership} {m : Member σ}
    (hempty : Node.Durable m.node none []) (hlog : m.node.replica.committedLog = [])
    (hcarried : m.carried = []) (hsaved : m.saved = [])
    (hinitial : m.node.replica.membership = initial) {ops : List (Nat × MemberOp σ)}
    (hops : Along step (fun m op => m.Admissible op ∧ Keeps initial m op) m ops) :
    Throughout step (Accounts initial) m ops := by
  have hstart : Settled initial m := by
    refine ⟨⟨?_, ?_⟩, none, [], hempty, ?_⟩
    · rw [hcarried]
      exact hinitial
    · rw [hcarried, hlog]
      rfl
    · rw [hsaved]
      exact ⟨fun _ => rfl, fun s hs => (by cases hs), fun s hs => (by cases hs), rfl⟩
  have hall : Throughout step (Settled initial) m ops :=
    throughout_of_step (fun m op h hc => settled_step h hc.1 hc.2) hstart hops
  exact fun pre hpre => (hall pre hpre).1

end Run

end Member

namespace Member

section Samples

open Sample

instance (m : Member NoOpApp) (op : Nat × MemberOp NoOpApp) : Decidable (m.Admissible op) :=
  match op with
  | (now, .call call) =>
      inferInstanceAs (Decidable (∀ e ∈ m.node.replica.records (now, call), ShortPayload e))
  | (_, .recoverReplica _ _ others donorCarried) =>
      inferInstanceAs (Decidable (∀ donor ∈ others.head?, TreeKeyed donor.blockTree ∧
        donorCarried.length = donor.committedLog.length))
  | (_, .importCatchupState snapshot _ snapshotCarried) =>
      inferInstanceAs (Decidable (∀ snap ∈ snapshot,
        snapshotCarried.length = snap.committedLog.length))
  | (_, .takeSnapshot) => .isTrue trivial
  | (_, .restart _ _) => .isTrue trivial

/-- Replica 1 of three after its first start. -/
def firstMember : Member NoOpApp where
  node := ⟨(party 3 1).attachWal ⟨⟨walHeader 0 1, headerSize⟩, 1, 0, []⟩, DataDir.empty⟩
  carried := []
  saved := []

/-- Three blocks of a chain, the first with a command, a commit and a restart. -/
def commandOps (command : ConsensusCommand) : List (Nat × MemberOp NoOpApp) :=
  [(1, .call (.validateAndInsertProposal { block 1 0 0 0 none with command := command })),
    (2, .call (.validateAndInsertProposal (block 2 1 1 1 (some (qc [1] 1 0 0))))),
    (3, .call (.validateAndInsertProposal (block 3 2 2 2 (some (qc [1] 2 1 0))))),
    (4, .call .commitAll),
    (5, .restart (party 3 1).config (keyStore 3 1))]

theorem membership_of_log_sample :
    Accounts firstMember.node.replica.membership
      (run step firstMember (commandOps (.clientTx "transfer"))) := by
  have hempty : Node.Durable firstMember.node none [] := by
    obtain ⟨wal, hboot, hdur⟩ :=
      Node.durable_boot (σ := NoOpApp) (party 3 1).config (keyStore 3 1) 0
    have hfirst : Node.boot (party 3 1).config (keyStore 3 1) 0 = .ok firstMember.node := by
      decide +kernel
    rw [hfirst] at hboot
    rw [Except.ok.inj hboot]
    exact hdur
  have hrestores : Restores firstMember.node.replica.membership
      (run step firstMember ((commandOps (.clientTx "transfer")).take 4)) (party 3 1).config
      (keyStore 3 1)
      (run step firstMember ((commandOps (.clientTx "transfer")).take 4)).carriedOnDisk := by
    have hcarried : (run step firstMember
        ((commandOps (.clientTx "transfer")).take 4)).carriedOnDisk = [.clientTx "transfer"] := by
      decide +kernel
    rw [hcarried]
    exact ⟨by decide +kernel, by decide +kernel, by decide +kernel, by decide +kernel,
      fun _ => by decide +kernel⟩
  have hops : Along step (fun m op => m.Admissible op ∧ Keeps firstMember.node.replica.membership m
      op) firstMember (commandOps (.clientTx "transfer")) :=
    ⟨⟨by decide +kernel, trivial⟩, ⟨by decide +kernel, trivial⟩, ⟨by decide +kernel, trivial⟩,
      ⟨by decide +kernel, trivial⟩, ⟨trivial, hrestores⟩, trivial⟩
  exact membership_of_log hempty rfl rfl rfl rfl hops _ (List.prefix_refl _)

/-- After the restart the log still starts with the join, but the membership is the initial one. -/
theorem membership_reset_by_restart :
    Node.boot (party 3 1).config (keyStore 3 1) 0 = .ok firstMember.node ∧
      Along step Admissible firstMember (commandOps (.joinValidator 3 (signingKey 3))) ∧
      (run step firstMember (commandOps (.joinValidator 3 (signingKey 3)))).carried =
        [.joinValidator 3 (signingKey 3)] ∧
      (run step firstMember
        ((commandOps (.joinValidator 3 (signingKey 3))).take 4)).node.replica.config.n = 4 ∧
      (run step firstMember
        (commandOps (.joinValidator 3 (signingKey 3)))).node.replica.membership =
          firstMember.node.replica.membership ∧
      (run step firstMember
        (commandOps (.joinValidator 3 (signingKey 3)))).node.replica.membership ≠
          firstMember.node.replica.membership.fold [.joinValidator 3 (signingKey 3)] := by
  refine ⟨?_, ?_, ?_, ?_, ?_, ?_⟩ <;> decide +kernel

end Samples

end Member

end PersistHotStuff
