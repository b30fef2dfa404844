import PersistHotStuff.Basis.Tally
import PersistHotStuff.Simulator.Custody
import PersistHotStuff.Simulator.Survival
import PersistHotStuff.Simulator.Vouched

/-!
# Nothing but what was submitted

A client command waits in one queue and leaves it with the one block that
carries it; a crash loses the queue. So the commands proposed and those still
waiting are together no more than the clients have submitted, and the logs
commit nothing else, each submission at most once.
-/

namespace PersistHotStuff

open Basis

/-- The command of a block, unless it is the one without effect. -/
def load (block : Block) : Multiset ConsensusCommand :=
  if block.command = .noOp then 0 else {block.command}

theorem load_of_noOp {block : Block} (h : block.command = .noOp) : load block = 0 := if_pos h

/-- What blocks load are the commands that have an effect. -/
theorem tally_load (blocks : List Block) :
    tally load blocks = ((blocks.filter fun b => decide (b.command ≠ .noOp)).map Block.command :
      Multiset ConsensusCommand) := by
  induction blocks with
  | nil => rfl
  | cons block blocks ih =>
    rw [tally_cons, ih, List.filter_cons, load]
    split
    · next hnone => rw [if_neg (by simp [hnone]), zero_add]
    · next hsome => rw [if_pos (by simpa using hsome), List.map_cons, ← Multiset.cons_coe,
        Multiset.singleton_add]

theorem load_le (block : Block) : load block ≤ {block.command} := by
  rw [load]
  split
  · exact Multiset.zero_le _
  · exact le_rfl

namespace Simulation

section Waiting

variable {σ : Type} {sim sim' : Simulation σ}

/-- The commands a replica has in its queue. -/
def queued (r : Replica σ) : Multiset ConsensusCommand := r.clientQueue

/-- The commands in the queues of a simulation. -/
def waiting (sim : Simulation σ) : Multiset ConsensusCommand := tally queued sim.replicas

/-- A replica that starts over has no command. -/
theorem queued_freshReplica (now : Nat) (config : Config) (keystore : KeyStore) :
    queued (freshReplica (σ := σ) now config keystore) = 0 := by
  simp only [freshReplica, Replica.ensureDefaultValidators]
  split <;> rfl

/-- A crash loses what is waiting at the replica. -/
theorem waiting_crashReplica {now i : Nat} (hok : sim.crashReplica now i = .ok sim') :
    sim'.waiting ≤ sim.waiting := by
  obtain ⟨r, keystore, -, hr, -, -, rfl⟩ := crashReplica_ok_iff.mp hok
  refine tally_set_le hr ?_
  rw [queued_freshReplica]
  exact Multiset.zero_le _

theorem waiting_processTimeoutCrashes (now : Nat) (sim : Simulation σ) :
    (sim.processTimeoutCrashes now).waiting ≤ sim.waiting :=
  processTimeoutCrashes_preserves (I := fun s : Simulation σ => s.waiting ≤ sim.waiting)
    (fun _ _ _ hs hok => (waiting_crashReplica hok).trans hs) le_rfl

/-- The same queues seat by seat. -/
theorem waiting_congr (hframe : sim'.frame = sim.frame)
    (h : ∀ (i : Nat) r, sim.replicas[i]? = some r →
      ∃ r', sim'.replicas[i]? = some r' ∧ r'.clientQueue = r.clientQueue) :
    sim'.waiting = sim.waiting := by
  refine tally_congr (congrArg Frame.count hframe) fun i r hr => ?_
  obtain ⟨r', hr', hsame⟩ := h i r hr
  exact ⟨r', hr', by rw [queued, hsame, queued]⟩

variable [Bincode LogEntry] [Crc32]

/-- A replica opened from a directory has no command either. -/
theorem clientQueue_openReplica [Sha256] [Bincode Snapshot] {now id : Nat} {config : Config}
    {keystore : KeyStore} {dir : DataDir} {opened : Replica σ}
    (hok : openReplica now id config keystore dir = .ok opened) : opened.clientQueue = [] := by
  obtain ⟨disk, wal, log, hrec, -, rfl⟩ := Node.openReplica_ok_iff.mp hok
  obtain ⟨base, st, -, -, rfl⟩ := recover_ok_iff.mp hrec
  rfl

/-- A rejoin brings no command back. -/
theorem waiting_recoverReplica [Sha256] [Bincode Snapshot] [App σ] {now i : Nat}
    (hok : sim.recoverReplica now i = .ok sim') : sim'.waiting ≤ sim.waiting := by
  obtain ⟨r, keystore, dir, opened, -, hr, -, -, -, hopen, rfl⟩ := recoverReplica_ok_iff.mp hok
  refine tally_set_le hr ?_
  have hopened := clientQueue_openReplica hopen
  have hempty : (rejoin now (sim.liveOthers i) opened dir).1.clientQueue = [] := by
    rw [rejoin_eq, takeSnapshot_replica]
    refine synced_preserves (I := fun s : Replica σ => s.clientQueue = []) (fun _ h => h) hopened
      fun donor _ => ?_
    rw [syncFrom_eq]
    exact hopened
  rw [queued, hempty]
  exact Multiset.zero_le _

/-- A program starts with no command. -/
theorem waiting_of_restarts [Ed25519] [Sha256] [Bincode Snapshot] {earlier : Simulation σ}
    (h : Restarts earlier sim) : sim.waiting = 0 := by
  obtain ⟨now, f, maxSteps, allKeys, dirs, -, -, hok⟩ := h
  obtain ⟨replicas, rfl, -, hslots⟩ := newWithPersistence_slots hok
  refine tally_eq_zero fun r hr => ?_
  obtain ⟨i, hi⟩ := List.mem_iff_getElem?.mp hr
  obtain ⟨ks, dir, -, -, hopened⟩ := hslots i r hi
  rw [queued, clientQueue_openReplica hopened]
  rfl

omit [Bincode LogEntry] [Crc32] in
theorem waiting_new [Ed25519] (now f maxSteps : Nat) (allKeys : List (ReplicaId × Bytes)) :
    (Simulation.new (σ := σ) now f maxSteps allKeys).waiting = 0 := by
  refine tally_eq_zero fun r hr => ?_
  obtain ⟨i, hi⟩ := List.mem_iff_getElem?.mp hr
  simp only [Simulation.new, start, List.getElem?_mapIdx, Option.map_eq_some_iff] at hi
  obtain ⟨ks, -, rfl⟩ := hi
  exact queued_freshReplica now _ ks

theorem waiting_advanceViews (now : Nat) (reason : ViewChangeReason) (responds : Bool)
    (sim : Simulation σ) : (advanceViews now reason responds sim).waiting = sim.waiting := by
  obtain ⟨hframe, hvisits⟩ := advanceViews_visits now reason responds sim
  refine waiting_congr hframe fun i r hr => ?_
  obtain ⟨r', hr', hchange⟩ := hvisits i r hr
  refine ⟨r', hr', ?_⟩
  split at hchange
  · rw [hchange]
    rfl
  · rw [hchange]

end Waiting

section Round

variable {σ : Type} [Ed25519] [Sha256] [Bincode LogEntry] [Crc32] [App σ] {sim : Simulation σ}

/-- Votes leave the queue alone. -/
theorem clientQueue_handleVotes (now : Nat) (votes : List Vote)
    (acc : Replica σ × Option QuorumCert) :
    (Replica.handleVotes now acc votes).1.clientQueue = acc.1.clientQueue := by
  induction votes generalizing acc with
  | nil => rfl
  | cons vote votes ih =>
    refine (ih _).trans ?_
    exact acc.1.step_clientQueue (c := (now, .handleVote vote)) (by simp) (by simp)

/-- Nothing between the proposal and the commits touches a queue. -/
theorem clientQueue_certified (now : Nat) (block : Block) {leaderId id : Nat}
    {leader r : Replica σ} (hself : id = leaderId → r = leader) :
    (sim.certified now leaderId block leader id r).clientQueue = r.clientQueue := by
  rw [certified]
  split
  · next he => rw [collect, clientQueue_handleVotes, hself he]
  · rw [(grows_learn now _ _).2]
    exact r.step_clientQueue (c := (now, .validateAndInsertProposal block)) (by simp) (by simp)

theorem waiting_certifyPhases (now : Nat) (always : Bool) (block : Block) {leaderId : Nat}
    {leader : Replica σ} (hquiet : sim.network.messageQueue = [])
    (hcount : sim.network.numReplicas = sim.replicas.length)
    (hleader : sim.replicas[leaderId]? = some leader) (ha : sim.available leaderId = true) :
    (certifyPhases now leaderId always block sim).1.waiting = sim.waiting := by
  obtain ⟨hframe, -, -, hvisits⟩ :=
    certifyPhases_visits now always block hquiet hcount hleader ha
  refine waiting_congr hframe fun i r hr => ⟨_, hvisits i r hr, ?_⟩
  split
  · refine clientQueue_certified now block fun he => ?_
    subst he
    exact Option.some.inj (hr.symm.trans hleader)
  · rfl

/-- The end of a round touches no queue either. -/
theorem Closes.clientQueue {now : Nat} {r r' : Replica σ} (h : Closes now r r') :
    r'.clientQueue = r.clientQueue := by
  obtain ⟨wal, counter, rfl⟩ := h
  exact r.step_clientQueue (c := (now, .commitAll)) (by simp) (by simp)

theorem waiting_close [Bincode Snapshot] (now : Nat) (sim : Simulation σ) :
    (advanceViews now .commit true (commitPhase now sim)).waiting = sim.waiting := by
  obtain ⟨hframe, hvisits⟩ := close_visits now sim
  refine waiting_congr hframe fun i r hr => ?_
  obtain ⟨r', hr', hchange⟩ := hvisits i r hr
  refine ⟨r', hr', ?_⟩
  split at hchange
  · exact hchange.clientQueue
  · rw [hchange]

/-- A proposal takes the command of its block out of the queue, unless the caller names it. -/
theorem load_proposeBy {now view : Nat} {how : ProposeCall} {r : Replica σ} {block : Block}
    (hown : ∀ cmd, how ≠ .proposeCommand cmd)
    (hins : r.inserted (now, .propose how view) = some block) :
    load block + queued (r.step (now, .propose how view)) ≤ queued r := by
  have hnext : load (r.nextBlock view (r.proposedHash how) (r.proposedCommand how)) +
      (r.queueAfter how : Multiset ConsensusCommand) ≤ queued r := by
    have hplain : r.proposedCommand how = .noOp → r.queueAfter how = r.clientQueue →
        load (r.nextBlock view (r.proposedHash how) (r.proposedCommand how)) +
          (r.queueAfter how : Multiset ConsensusCommand) ≤ queued r := by
      intro hcommand hqueue
      rw [load_of_noOp hcommand, zero_add, hqueue]
      exact le_rfl
    have hlast : r.proposedCommand how = (r.clientQueue.getLast?).getD .noOp →
        r.queueAfter how = r.clientQueue.dropLast →
        load (r.nextBlock view (r.proposedHash how) (r.proposedCommand how)) +
          (r.queueAfter how : Multiset ConsensusCommand) ≤ queued r := by
      intro hcommand hqueue
      cases hq : r.clientQueue.getLast? with
      | none =>
        rw [List.getLast?_eq_none_iff] at hq
        rw [hq] at hcommand
        exact hplain hcommand (by rw [hqueue, hq, List.dropLast_nil])
      | some cmd =>
        -- the queue is what stays in it and its last command
        rw [hq, Option.getD_some] at hcommand
        have hsplit : (r.clientQueue : Multiset ConsensusCommand) =
            {cmd} + (r.clientQueue.dropLast : Multiset ConsensusCommand) := by
          have hlist := List.dropLast_append_getLast? cmd hq
          conv_lhs => rw [← hlist]
          rw [← Multiset.coe_add, add_comm]
          rfl
        rw [queued, hsplit, hqueue]
        refine add_le_add_left ((load_le _).trans ?_) _
        exact (congrArg _ hcommand).le
    cases how with
    | proposeCommand cmd => exact absurd rfl (hown cmd)
    | propose => exact hplain rfl rfl
    | proposeWithHash uniqueHash => exact hplain rfl rfl
    | proposeNext => exact hlast rfl rfl
    | proposeNextWithHash uniqueHash => exact hlast rfl rfl
  simp only [Replica.inserted, Replica.proposeBy_eq] at hins
  simp only [Replica.step, Replica.proposeBy_eq]
  split at hins
  · next hproposes =>
    rw [if_pos hproposes]
    cases hins
    exact hnext
  · cases hins

/-- The leader is asked to propose. -/
theorem waiting_led (now : Nat) {how : Hash → ProposeCall} {leader : Replica σ}
    (hown : ∀ hash cmd, how hash ≠ .proposeCommand cmd)
    (hr : sim.replicas[sim.currentLeader]? = some leader) :
    tally load (leader.inserted
        (now, .propose (how sim.network.nextGlobalHash) leader.currentView)).toList +
      (sim.led now how leader).waiting ≤ sim.waiting := by
  have hled := tally_set (f := queued) hr
    (leader.step (now, .propose (how sim.network.nextGlobalHash) leader.currentView))
  refine le_of_add_le_add_right (a := queued leader) ?_
  show tally load _ + tally queued (sim.replicas.set sim.currentLeader _) + queued leader ≤
    tally queued sim.replicas + queued leader
  rw [add_assoc, hled, add_left_comm]
  refine add_le_add_right ?_ _
  cases hin : leader.inserted
      (now, .propose (how sim.network.nextGlobalHash) leader.currentView) with
  | some block =>
    rw [Option.toList_some, tally_cons, tally_nil, add_zero]
    exact load_proposeBy (hown _) hin
  | none =>
    rw [Option.toList_none, tally_nil, zero_add]
    simp only [Replica.inserted, Replica.proposeBy_eq] at hin
    simp only [Replica.step, Replica.proposeBy_eq]
    split at hin
    · cases hin
    · next hsilent =>
      rw [if_neg hsilent]

variable [Bincode Snapshot]

/-- What a round proposes it takes out of the queues. -/
theorem waiting_simAfter (history : History) (hquiet : sim.network.messageQueue = [])
    (hcount : sim.network.numReplicas = sim.replicas.length) {now : Nat} {how : Hash → ProposeCall}
    (hown : ∀ hash cmd, how hash ≠ .proposeCommand cmd) {opening : Opening σ}
    (hopen : Opens now how sim opening) (always : Bool) :
    tally load (historyAfter history now always opening).blocks +
        (sim.simAfter now always opening).waiting ≤
      tally load history.blocks + sim.waiting := by
  cases hopen with
  | finished => exact le_rfl
  | leaderless => exact le_rfl
  | silent hr ha hins =>
    have hled := waiting_led now hown hr
    rw [hins, Option.toList_none, tally_nil, zero_add] at hled
    exact add_le_add_right hled _
  | @proposed leader block hr ha hins =>
    have hled := waiting_led now hown hr
    rw [hins, Option.toList_some] at hled
    have hseat : ((sim.led now how leader).markResponded
        sim.currentLeader).replicas[sim.currentLeader]? = some (leader.step
          (now, .propose (how sim.network.nextGlobalHash) leader.currentView)) :=
      List.getElem?_set_self (List.getElem?_eq_some_iff.mp hr).1
    have hcertified : (certifyPhases now sim.currentLeader always block
        ((sim.led now how leader).markResponded sim.currentLeader)).1.waiting =
        ((sim.led now how leader).markResponded sim.currentLeader).waiting :=
      waiting_certifyPhases now always block hquiet (hcount.trans (List.length_set ..).symm) hseat
        ha
    show tally load (history.blocks ++ [block]) + (advanceViews now .commit true (commitPhase now
      (certifyPhases now sim.currentLeader always block _).1)).waiting ≤ _
    rw [waiting_close, hcertified, tally_append, add_assoc]
    exact add_le_add_right hled _

end Round

end Simulation

/-- What a client submits with an operation. -/
def SimulationOp.submits : SimulationOp → Multiset ConsensusCommand
  | .enqueueClientCommand cmd => {cmd}
  | _ => 0

namespace Trace

open Simulation

section Step

variable {σ : Type} [Ed25519] [Sha256] [Bincode LogEntry] [Bincode Snapshot] [Crc32] [App σ]
  {t : Trace σ}

/-- The commands proposed so far and those that wait. -/
def taken (t : Trace σ) : Multiset ConsensusCommand := tally load t.history.blocks + t.sim.waiting

/-- An operation takes in what is submitted with it. -/
theorem taken_step (hquiet : t.sim.network.messageQueue = [])
    (hcount : t.sim.network.numReplicas = t.sim.replicas.length) (op : Nat × SimulationOp) :
    (t.step op).taken ≤ t.taken + op.2.submits := by
  obtain ⟨now, op⟩ := op
  have hstart : (t.sim.roundStart now).waiting ≤ t.sim.waiting :=
    waiting_processTimeoutCrashes now t.sim.advanceSimulatedTime
  have hsame : (t.sim.roundStart now).network = t.sim.network ∧
      (t.sim.roundStart now).replicas.length = t.sim.replicas.length := by
    refine processTimeoutCrashes_preserves (I := fun s : Simulation σ =>
      s.network = t.sim.network ∧ s.replicas.length = t.sim.replicas.length)
      (fun s id s' hs hok => ?_) ⟨rfl, rfl⟩
    obtain ⟨hnetwork, -, -, -, hlen⟩ := Surroundings.mk.inj (crashReplica_surroundings hok)
    exact ⟨hnetwork.trans hs.1, hlen.trans hs.2⟩
  have hquiet' : (t.sim.roundStart now).network.messageQueue = [] := hsame.1 ▸ hquiet
  have hcount' : (t.sim.roundStart now).network.numReplicas =
      (t.sim.roundStart now).replicas.length := by
    rw [hsame.1, hsame.2, hcount]
  have hkept : ∀ sim' : Simulation σ, sim'.waiting ≤ t.sim.waiting →
      tally load t.history.blocks + sim'.waiting ≤ t.taken + 0 := by
    intro sim' hle
    rw [add_zero]
    exact add_le_add_right hle _
  cases op with
  | runOneRound =>
    have hround := waiting_simAfter t.history hquiet' hcount' (by simp)
      (openRound_opens now .proposeWithHash _) false
    refine runOneRound_closes (I := fun s : Simulation σ =>
        tally load (t.step (now, .runOneRound)).history.blocks + s.waiting ≤ t.taken + 0)
      (J := fun s : Simulation σ =>
        tally load (t.step (now, .runOneRound)).history.blocks + s.waiting ≤ t.taken + 0)
      (fun s reason responds hs => ?_) (fun s hs => ?_) t.sim (fun hfinished => ?_) fun _ => ?_
    · rwa [waiting_advanceViews]
    · exact (add_le_add_right (waiting_processTimeoutCrashes now s.bumpStep) _).trans hs
    · have hhistory : (t.step (now, .runOneRound)).history = t.history := by
        simp only [step, opening, hfinished, historyAfter]
      rw [hhistory]
      exact hkept _ hstart
    · exact hround.trans (hkept _ hstart)
  | runOneRoundWithPacemaker =>
    have hround := waiting_simAfter t.history hquiet' hcount' (by simp)
      (openRound_opens now .proposeNextWithHash _) true
    refine runOneRoundWithPacemaker_closes (I := fun s : Simulation σ =>
        tally load (t.step (now, .runOneRoundWithPacemaker)).history.blocks + s.waiting ≤
          t.taken + 0)
      (J := fun s : Simulation σ =>
        tally load (t.step (now, .runOneRoundWithPacemaker)).history.blocks + s.waiting ≤
          t.taken + 0)
      (fun s reason responds hs => ?_) (fun s hs => hs) t.sim (fun hfinished => ?_) fun _ => ?_
    · rwa [waiting_advanceViews]
    · have hhistory : (t.step (now, .runOneRoundWithPacemaker)).history = t.history := by
        simp only [step, opening, hfinished, historyAfter]
      rw [hhistory]
      exact hkept _ hstart
    · exact hround.trans (hkept _ hstart)
  | enqueueClientCommand cmd =>
    show tally load t.history.blocks + tally queued (t.sim.replicas.modify _ _) ≤
      tally load t.history.blocks + tally queued t.sim.replicas + {cmd}
    rw [add_assoc]
    refine add_le_add_right (tally_modify_le (fun r => ?_) _ _) _
    rw [queued, Replica.enqueueCommand, ← Multiset.coe_add]
    rfl
  | enableDummyProposals timeoutMs =>
    refine hkept _ (le_of_eq (tally_congr (List.length_map _) fun i r hr => ?_))
    exact ⟨_, (List.getElem?_map ..).trans (congrArg _ hr), rfl⟩
  | disableDummyProposals =>
    refine hkept _ (le_of_eq (tally_congr (List.length_map _) fun i r hr => ?_))
    exact ⟨_, (List.getElem?_map ..).trans (congrArg _ hr), rfl⟩
  | setReplicaUnresponsive id unresponsive =>
    refine hkept _ ?_
    simp only [step, nextSim]
    split
    · next hok =>
      obtain ⟨-, -, rfl⟩ := setReplicaUnresponsive_ok_iff.mp hok
      cases unresponsive <;> exact le_rfl
    · exact le_rfl
  | crashReplica id =>
    refine hkept _ ?_
    simp only [step, nextSim]
    split
    · next hok => exact waiting_crashReplica hok
    · exact le_rfl
  | recoverReplica id =>
    refine hkept _ ?_
    simp only [step, nextSim]
    split
    · next hok => exact waiting_recoverReplica hok
    · exact le_rfl

end Step

section Life

variable {σ : Type} [Ed25519] [Sha256] [Bincode LogEntry] [Bincode Snapshot] [Crc32] [App σ]
  {cmds : Multiset ConsensusCommand} {t : Trace σ}

/-- A state that arises in a sequence of programs, the first one over empty directories, in which
the clients have submitted these commands. -/
inductive Fed : Multiset ConsensusCommand → Trace σ → Prop
  | start {t : Trace σ} : t.Start → Fed 0 t
  | step {cmds : Multiset ConsensusCommand} {t : Trace σ} (op : Nat × SimulationOp) : Fed cmds t →
      Fed (cmds + op.2.submits) (t.step op)
  | restart {cmds : Multiset ConsensusCommand} {t : Trace σ} {sim : Simulation σ} : Fed cmds t →
      Restarts t.sim sim → Fed cmds ⟨sim, t.history⟩

theorem Fed.arises (h : Fed cmds t) : t.sim.Arises := by
  induction h with
  | start hstart => exact hstart.starting.arises
  | step op _ ih => exact .step op ih
  | restart _ hrestarts ih => exact .restart ih hrestarts

/-- What is submitted in a run. -/
theorem Fed.run (h : Fed cmds t) (ops : List (Nat × SimulationOp)) :
    Fed (cmds + tally (fun op => op.2.submits) ops) (run Trace.step t ops) := by
  induction ops generalizing cmds t with
  | nil =>
    rw [tally_nil, add_zero]
    exact h
  | cons op ops ih =>
    rw [tally_cons, ← add_assoc]
    exact ih (h.step op)

variable [LawfulBincode LogEntry] [StrictBincode LogEntry] [LawfulBincode Snapshot]

/-- Whatever is proposed or waits was submitted. -/
theorem Fed.taken_le (h : Fed cmds t) : t.taken ≤ cmds := by
  induction h with
  | @start t hstart =>
    have hwaiting : t.sim.waiting = 0 := by
      rcases hstart.starting with ⟨now, f, maxSteps, allKeys, heq⟩ | ⟨earlier, -, hrestarts⟩
      · rw [heq]
        exact waiting_new now f maxSteps allKeys
      · exact waiting_of_restarts hrestarts
    rw [taken, hwaiting, add_zero, hstart.1]
    exact le_rfl
  | @step cmds t op hfed ih =>
    obtain ⟨old, maxSteps, blocks, hminted⟩ := hfed.arises.minted
    exact (taken_step hminted.quiet hminted.count op).trans (add_le_add_left ih _)
  | @restart cmds t sim hfed hrestarts ih =>
    rw [taken, waiting_of_restarts hrestarts, add_zero]
    exact (Multiset.le_add_right _ _).trans ih

/-- Every block in a tree, in a log or on disk has a command proposed under its hash, or none. -/
theorem Fed.vouched (h : Fed cmds t) : VouchedSeats t.history.blocks t.sim := by
  induction h with
  | @start t hstart =>
    rcases hstart.2 with ⟨now, f, maxSteps, allKeys, heq⟩ | ⟨now, f, maxSteps, allKeys, hok⟩
    · rw [heq]
      exact vouchedSeats_new _ now f maxSteps allKeys
    · refine vouchedSeats_of_dirs hok fun id dir hdir => ?_
      rw [List.eq_of_mem_replicate (List.mem_of_getElem? hdir)]
      exact vouchedDir_empty _
  | @step cmds t op hfed ih =>
    obtain ⟨old, maxSteps, blocks, hminted⟩ := hfed.arises.minted
    exact vouched_rule.step ih hminted.quiet op
  | @restart cmds t sim hfed hrestarts ih =>
    obtain ⟨now, f, maxSteps, allKeys, dirs, -, hdirs, hok⟩ := hrestarts
    refine vouchedSeats_of_dirs hok fun id dir hdir => ?_
    rcases hdirs id dir hdir with rfl | hleaves
    · exact vouchedDir_empty _
    · exact ih.leaves hleaves

/-- Over any sequence of programs, with crashes, recoveries and lost disks, the commands in the log
of a live replica, those without effect apart, are among the commands the clients have submitted:
none is made up, and none is committed more often than it was submitted. -/
theorem Fed.committed_le (h : Fed cmds t) {i : Nat} {r : Replica σ}
    (hr : t.sim.replicas[i]? = some r) (hi : i ∉ t.sim.crashedReplicas) :
    tally load r.committedLog ≤ cmds := by
  have hdistinct : (r.committedLog.map Block.hash).Nodup :=
    (h.arises.inOrder.live i r hr hi).distinct
  have hvouched := (h.vouched.live i r hr hi).state.log
  have hproposed : tally load r.committedLog ≤ tally load t.history.blocks := by
    rw [tally_load, tally_load]
    refine map_le_map_of_keys Block.hash Block.command ?_ fun block hblock => ?_
    · exact (List.filter_sublist.map _).nodup hdistinct
    · obtain ⟨hlog, hcommand⟩ := List.mem_filter.mp hblock
      rcases hvouched block hlog with hnone | ⟨b, hb, hhash, hsame⟩
      · rw [hnone] at hcommand
        cases hcommand
      · refine ⟨b, List.mem_filter.mpr ⟨hb, ?_⟩, hhash, hsame⟩
        rwa [hsame]
  exact hproposed.trans ((Multiset.le_add_right _ _).trans h.taken_le)

end Life

section Samples

open Sample SimulationOp

/-- A client submits the same command twice. -/
def twiceOps : List (Nat × SimulationOp) :=
  [(0, enableDummyProposals 0), (1, enqueueClientCommand (.clientTx "SET key value")),
    (1, runOneRoundWithPacemaker), (2, enqueueClientCommand (.clientTx "SET key value")),
    (2, runOneRoundWithPacemaker), (3, runOneRoundWithPacemaker), (4, runOneRoundWithPacemaker)]

/-- Both submissions are committed. -/
theorem committed_le_twice :
    ∃ r, (run step fourVolatile twiceOps).sim.replicas[2]? = some r ∧
      r.committedLog.map Block.command =
        [.clientTx "SET key value", .clientTx "SET key value"] ∧
      tally load r.committedLog ≤ 0 + tally (fun op => op.2.submits) twiceOps := by
  have hlog : (run step fourVolatile twiceOps).sim.replicas[2]?.map
      (fun r => r.committedLog.map Block.command) =
        some [.clientTx "SET key value", .clientTx "SET key value"] := by decide +kernel
  have hlive : 2 ∉ (run step fourVolatile twiceOps).sim.crashedReplicas := by decide +kernel
  obtain ⟨r, hr, hcommands⟩ := Option.map_eq_some_iff.mp hlog
  exact ⟨r, hr, hcommands, ((Fed.start fourVolatile_start).run twiceOps).committed_le hr hlive⟩

end Samples

end Trace

end PersistHotStuff
