import PersistHotStuff.Handlers.Execution

/-!
# The application beside the replica

No handler reads the application: one that commits tells it of the committed
blocks, and that is all. So the application of a replica can be exchanged at any
time, and what a call does to the replica and what it answers stay the same.
-/

namespace PersistHotStuff

open Basis

/-- What a call gives back to its caller. -/
inductive Answer
  | proposed (block : Option Block)
  | verdict (ok : Bool)
  | certificate (qc : Option QuorumCert)
  | done
  deriving DecidableEq, Repr

namespace Replica

variable {σ τ : Type}

/-- The replica with another application. -/
def withApp (r : Replica σ) (app : Option τ) (pending : Option Bytes) : Replica τ where
  config := r.config
  currentView := r.currentView
  blockTree := r.blockTree
  highQc := r.highQc
  votePool := r.votePool
  nextHash := r.nextHash
  committedLog := r.committedLog
  committedUpTo := r.committedUpTo
  timeoutMs := r.timeoutMs
  viewStartTime := r.viewStartTime
  activeValidators := r.activeValidators
  configEpoch := r.configEpoch
  keystore := r.keystore
  wal := r.wal
  snapshotCounter := r.snapshotCounter
  app := app
  pendingAppState := pending
  clientQueue := r.clientQueue
  dummyProposalEnabled := r.dummyProposalEnabled
  lastProposedTime := r.lastProposedTime
  dummyTimeoutMs := r.dummyTimeoutMs

@[simp] theorem withApp_app (r : Replica σ) (app : Option τ) (pending : Option Bytes) :
    (r.withApp app pending).app = app := rfl

@[simp] theorem withApp_committedLog (r : Replica σ) (app : Option τ) (pending : Option Bytes) :
    (r.withApp app pending).committedLog = r.committedLog := rfl

@[simp] theorem withApp_blockTree (r : Replica σ) (app : Option τ) (pending : Option Bytes) :
    (r.withApp app pending).blockTree = r.blockTree := rfl

@[simp] theorem withApp_wal (r : Replica σ) (app : Option τ) (pending : Option Bytes) :
    (r.withApp app pending).wal = r.wal := rfl

@[simp] theorem withApp_self (r : Replica σ) : r.withApp r.app r.pendingAppState = r := rfl

@[simp] theorem withApp_withApp {υ : Type} (r : Replica σ) (app : Option τ)
    (pending : Option Bytes) (app' : Option υ) (pending' : Option Bytes) :
    (r.withApp app pending).withApp app' pending' = r.withApp app' pending' := rfl

/-- The replica without its application. -/
def withoutApp (r : Replica σ) : Replica NoOpApp := r.withApp none none

section Handlers

variable (now : Nat) (r : Replica σ) (app : Option τ) (pending : Option Bytes)

/-- A proposal is made, and answered, as with any other application. -/
theorem proposeBy_withApp (view : Nat) (how : ProposeCall) :
    (r.withApp app pending).proposeBy now view how =
      ((r.proposeBy now view how).1.withApp app pending, (r.proposeBy now view how).2) := by
  have hproposes : (r.withApp app pending).proposes now view how = r.proposes now view how := by
    cases how <;> rfl
  rw [proposeBy_eq, proposeBy_eq, hproposes]
  cases r.proposes now view how with
  | false => rfl
  | true => cases how <;> rfl

variable [Bincode LogEntry] [Crc32]

theorem applyHighQcFromNetwork_withApp (qc : QuorumCert) :
    (r.withApp app pending).applyHighQcFromNetwork now qc =
      ((r.applyHighQcFromNetwork now qc).1.withApp app pending,
        (r.applyHighQcFromNetwork now qc).2) := by
  have hhigh : (r.withApp app pending).highQc = r.highQc := rfl
  simp only [applyHighQcFromNetwork, hhigh]
  split <;> split <;> rfl

variable [Ed25519] [Sha256]

theorem validateAndInsertProposal_withApp (block : Block) :
    (r.withApp app pending).validateAndInsertProposal now block =
      ((r.validateAndInsertProposal now block).1.withApp app pending,
        (r.validateAndInsertProposal now block).2) := by
  have haccepts : (r.withApp app pending).acceptsProposal block = r.acceptsProposal block := rfl
  simp only [validateAndInsertProposal, haccepts]
  cases r.acceptsProposal block <;> rfl

theorem handleVote_withApp (vote : Vote) :
    (r.withApp app pending).handleVote now vote =
      ((r.handleVote now vote).1.withApp app pending, (r.handleVote now vote).2) := by
  by_cases hpass : r.VotePasses vote
  · have hpass' : (r.withApp app pending).VotePasses vote :=
      ⟨hpass.epoch, hpass.active, hpass.verified, hpass.inRange, hpass.known, hpass.first⟩
    have hquorum : (r.withApp app pending).dynamicQuorumSize = r.dynamicQuorumSize := rfl
    have hvoted : (r.withApp app pending).votedQc vote = r.votedQc vote := rfl
    rw [handleVote_of_passes hpass, handleVote_of_passes hpass', hquorum, hvoted]
    split <;> rfl
  · rcases r.handleVote_cases now vote with h | ⟨hpass', -⟩
    · rcases (r.withApp app pending).handleVote_cases now vote with h' | ⟨hpass', -⟩
      · rw [h, h']
      · exact absurd ⟨hpass'.epoch, hpass'.active, hpass'.verified, hpass'.inRange, hpass'.known,
          hpass'.first⟩ hpass
    · exact absurd hpass' hpass

end Handlers

section Commits

variable [Ed25519] [Bincode LogEntry] [Crc32] [App σ] [App τ]

/-- The application after the commits that lengthen one log to another. -/
def executed (app : Option τ) (log log' : List Block) : Option τ :=
  app.map fun app => execute app log.length (log'.drop log.length)

omit [Ed25519] [Bincode LogEntry] [Crc32] [App σ] in
@[simp] theorem executed_self (app : Option τ) (log : List Block) :
    executed app log log = app := by
  rw [executed, List.drop_length]
  cases app <;> rfl

omit [Ed25519] [Bincode LogEntry] [Crc32] [App σ] in
/-- Commits in two parts. -/
theorem executed_trans (app : Option τ) {log log' log'' : List Block} (h : log <+: log')
    (h' : log' <+: log'') : executed (executed app log log') log' log'' =
      executed app log log'' := by
  obtain ⟨more, rfl⟩ := h
  obtain ⟨most, rfl⟩ := h'
  have hmost : (log ++ more ++ most).drop (log ++ more).length = most := List.drop_left ..
  rw [executed, executed, executed, hmost, List.append_assoc, List.drop_left, List.drop_left,
    Option.map_map, List.length_append]
  simp only [Function.comp_def, execute_append]

/-- A commit tells whatever application there is of the block. -/
theorem executeAndCommit_withApp (now : Nat) (r : Replica σ) (app : Option τ)
    (pending : Option Bytes) (block : Block) :
    (r.withApp app pending).executeAndCommit now block =
      (r.executeAndCommit now block).withApp
        (executed app r.committedLog (r.executeAndCommit now block).committedLog) pending := by
  rw [executeAndCommit_eq, executeAndCommit_app, executeAndCommit_committedLog, executed,
    List.drop_left, executeAndCommit_eq]
  rfl

theorem commitLoop_withApp (now fuel : Nat) (r : Replica σ) (app : Option τ)
    (pending : Option Bytes) :
    r.committedLog <+: (commitLoop now fuel r).committedLog ∧
      commitLoop now fuel (r.withApp app pending) =
        (commitLoop now fuel r).withApp
          (executed app r.committedLog (commitLoop now fuel r).committedLog) pending := by
  induction fuel generalizing r app with
  | zero => exact ⟨List.prefix_rfl, by simp only [commitLoop, executed_self]⟩
  | succ fuel ih =>
    have hfind : (r.withApp app pending).findCommittedBlock = r.findCommittedBlock := rfl
    simp only [commitLoop, tryCommitOnce, hfind]
    cases r.findCommittedBlock with
    | none => exact ⟨List.prefix_rfl, by simp only [executed_self]⟩
    | some block =>
      have hone : r.committedLog <+: (r.executeAndCommit now block).committedLog := by
        rw [executeAndCommit_committedLog]
        exact List.prefix_append ..
      obtain ⟨hrest, heq⟩ := ih (r.executeAndCommit now block)
        (executed app r.committedLog (r.executeAndCommit now block).committedLog)
      refine ⟨hone.trans hrest, ?_⟩
      dsimp only
      rw [executeAndCommit_withApp, heq, executed_trans app hone hrest]

end Commits

section Calls

variable [Ed25519] [Sha256] [Bincode LogEntry] [Crc32] [App σ] [App τ]

/-- What a call answers. -/
def answer (r : Replica σ) (c : Nat × Call) : Answer :=
  match c.2 with
  | .propose how view => .proposed (r.proposeBy c.1 view how).2
  | .validateAndInsertProposal block => .verdict (r.validateAndInsertProposal c.1 block).2
  | .handleVote vote => .certificate (r.handleVote c.1 vote).2
  | .applyHighQcFromNetwork qc => .verdict (r.applyHighQcFromNetwork c.1 qc).2
  | _ => .done

/-- With another application a call does the same to the replica, and tells that application of the
same blocks. -/
theorem step_withApp (r : Replica σ) (app : Option τ) (pending : Option Bytes) (c : Nat × Call) :
    (r.withApp app pending).step c =
      (r.step c).withApp (executed app r.committedLog (r.step c).committedLog) pending := by
  -- a call that commits nothing leaves the application alone
  have hquiet : c.2 ≠ .commitAll →
      executed app r.committedLog (r.step c).committedLog = app := by
    intro hc
    rw [step_frame committedLog (by intros; rfl) r hc, executed_self]
  obtain ⟨now, call⟩ := c
  cases call with
  | commitAll => exact (commitLoop_withApp now _ r app pending).2
  | propose how view =>
    rw [hquiet (by simp)]
    simp only [step, proposeBy_withApp]
  | validateAndInsertProposal block =>
    rw [hquiet (by simp)]
    simp only [step, validateAndInsertProposal_withApp]
  | handleVote vote =>
    rw [hquiet (by simp)]
    simp only [step, handleVote_withApp]
  | applyHighQcFromNetwork qc =>
    rw [hquiet (by simp)]
    simp only [step, applyHighQcFromNetwork_withApp]
  | _ =>
    rw [hquiet (by simp)]
    rfl

omit [App τ] in
/-- A call tells the application of what it commits, and leaves a pending state alone. -/
theorem step_told (r : Replica σ) (c : Nat × Call) :
    (r.step c).app = executed r.app r.committedLog (r.step c).committedLog ∧
      (r.step c).pendingAppState = r.pendingAppState := by
  have hself := r.step_withApp r.app r.pendingAppState c
  rw [withApp_self] at hself
  have hpending := congrArg Replica.pendingAppState hself
  exact ⟨congrArg Replica.app hself, hpending⟩

omit [App σ] [App τ] in
theorem answer_withApp (r : Replica σ) (app : Option τ) (pending : Option Bytes)
    (c : Nat × Call) : (r.withApp app pending).answer c = r.answer c := by
  obtain ⟨now, call⟩ := c
  cases call with
  | propose how view => simp only [answer, proposeBy_withApp]
  | validateAndInsertProposal block => simp only [answer, validateAndInsertProposal_withApp]
  | handleVote vote => simp only [answer, handleVote_withApp]
  | applyHighQcFromNetwork qc => simp only [answer, applyHighQcFromNetwork_withApp]
  | _ => rfl

omit [App τ] in
/-- No call takes a block out of the log. -/
theorem committedLog_grows (r : Replica σ) (c : Nat × Call) :
    r.committedLog <+: (r.step c).committedLog := by
  obtain ⟨now, call⟩ := c
  cases call with
  | commitAll => exact (commitLoop_withApp now _ r r.app r.pendingAppState).1
  | _ => rw [step_frame committedLog (by intros; rfl) r (by simp)]

omit [App τ] in
theorem run_committedLog_grows (r : Replica σ) (cs : List (Nat × Call)) :
    r.committedLog <+: (run step r cs).committedLog :=
  run_preserves (I := fun s : Replica σ => r.committedLog <+: s.committedLog)
    (fun s c h => h.trans (s.committedLog_grows c)) List.prefix_rfl cs

/-- With another application a run does the same to the replica, and tells that application of the
same blocks. -/
theorem run_withApp (r : Replica σ) (app : Option τ) (pending : Option Bytes)
    (cs : List (Nat × Call)) :
    run step (r.withApp app pending) cs =
      (run step r cs).withApp (executed app r.committedLog (run step r cs).committedLog)
        pending := by
  induction cs generalizing r app with
  | nil => rw [run_nil, run_nil, executed_self]
  | cons c cs ih =>
    rw [run_cons, run_cons, step_withApp, ih,
      executed_trans app (r.committedLog_grows c) (run_committedLog_grows (r.step c) cs)]

omit [App τ] in
/-- A run tells the application of what it commits. -/
theorem run_app (r : Replica σ) (cs : List (Nat × Call)) :
    (run step r cs).app = executed r.app r.committedLog (run step r cs).committedLog := by
  have hself := run_withApp r r.app r.pendingAppState cs
  rw [withApp_self] at hself
  exact congrArg Replica.app hself

/-- The answers of a run do not depend on the application. -/
theorem answers_withApp (r : Replica σ) (app : Option τ) (pending : Option Bytes)
    (cs : List (Nat × Call)) :
    outputs step (fun r c => [r.answer c]) (r.withApp app pending) cs =
      outputs step (fun r c => [r.answer c]) r cs := by
  induction cs generalizing r app with
  | nil => rfl
  | cons c cs ih => rw [outputs, outputs, step_withApp, ih, answer_withApp]

end Calls

end Replica

end PersistHotStuff
