import PersistHotStuff.Simulator.Flow
import PersistHotStuff.Simulator.Leaders

/-!
# Every command once and in one order

While no more replicas are silent than a certificate can do without, those that
respond have committed the same blocks, and each command submitted is in their
log, in one of the two last blocks or in a queue. When the pacemaker has run as
many rounds as drain the queues of those that respond and everybody has had one
more turn, their logs have exactly what was submitted to them.
-/

namespace PersistHotStuff

open Basis

/-- The commands other than the one without effect. -/
def proper (cmds : Multiset ConsensusCommand) : Multiset ConsensusCommand :=
  cmds.filter fun cmd => cmd ≠ .noOp

theorem proper_add (a b : Multiset ConsensusCommand) : proper (a + b) = proper a + proper b :=
  Multiset.filter_add ..

theorem load_eq_proper (block : Block) : load block = proper {block.command} := by
  rw [load, proper, Multiset.filter_singleton]
  split
  · next h => simp [h]
  · rfl

/-- Without its last command a queue has one less, unless it is empty. -/
theorem proper_dropLast (queue : List ConsensusCommand) :
    proper (queue.dropLast : Multiset ConsensusCommand) + proper {(queue.getLast?).getD .noOp} =
      proper (queue : Multiset ConsensusCommand) := by
  rcases List.eq_nil_or_concat queue with rfl | ⟨front, last, rfl⟩
  · rfl
  · rw [List.concat_eq_append, List.dropLast_concat, List.getLast?_concat, Option.getD_some,
      ← Multiset.coe_singleton, ← proper_add, Multiset.coe_add]

/-- An operation that submits nothing that changes a membership of the first `n` validators,
silences none but the given replicas and wakes none of them. -/
def SimulationOp.Calm [Ed25519] (n : Nat) (silent : Finset Nat) : SimulationOp → Prop
  | .enqueueClientCommand cmd => Inert n cmd
  | .setReplicaUnresponsive id unresponsive => unresponsive = true ↔ id ∈ silent
  | _ => True

instance [Ed25519] (n : Nat) (silent : Finset Nat) : DecidablePred (SimulationOp.Calm n silent)
  | .enqueueClientCommand cmd => inferInstanceAs (Decidable (Inert n cmd))
  | .setReplicaUnresponsive id unresponsive =>
      inferInstanceAs (Decidable (unresponsive = true ↔ id ∈ silent))
  | .runOneRound | .runOneRoundWithPacemaker | .enableDummyProposals _ | .disableDummyProposals
  | .crashReplica _ | .recoverReplica _ => .isTrue trivial

namespace Simulation

section Queues

variable {σ : Type} {sim sim' : Simulation σ} {leader : Replica σ} {how : ProposeCall}

/-- When the leader is silent the same commands wait. -/
theorem Advances.waiting_eq (h : Advances how sim sim')
    (hcount : sim'.replicas.length = sim.replicas.length)
    (ha : sim.available sim.currentLeader = false) : sim'.waiting = sim.waiting := by
  refine tally_congr hcount fun i r hr => ?_
  obtain ⟨r', hr', hqueue⟩ := h.queue i r hr
  refine ⟨r', hr', ?_⟩
  rw [queued, hqueue, if_neg ?_]
  · rfl
  · rintro ⟨rfl, ha'⟩
    exact absurd (ha.symm.trans ha') Bool.false_ne_true

/-- What waits after a round is what waited before, but for the queue of the leader. -/
theorem Advances.waiting (h : Advances how sim sim')
    (hcount : sim'.replicas.length = sim.replicas.length)
    (ha : sim.available sim.currentLeader = true)
    (hr : sim.replicas[sim.currentLeader]? = some leader) :
    sim'.waiting + queued leader = sim.waiting + (leader.queueAfter how : Multiset _) := by
  have hset : sim'.waiting = tally queued (sim.replicas.set sim.currentLeader
      { leader with clientQueue := leader.queueAfter how }) := by
    refine tally_congr (hcount.trans (List.length_set ..).symm) fun i s hs => ?_
    have hlt : i < sim.replicas.length := by
      simpa only [List.length_set] using (List.getElem?_eq_some_iff.mp hs).1
    obtain ⟨r', hr', hqueue⟩ := h.queue i _ (List.getElem?_eq_getElem hlt)
    refine ⟨r', hr', ?_⟩
    rw [List.getElem?_set] at hs
    split at hs
    · next he =>
      subst he
      rw [if_pos hlt, Option.some.injEq] at hs
      rw [List.getElem?_eq_getElem hlt, Option.some.injEq] at hr
      rw [queued, hqueue, if_pos ⟨rfl, ha⟩, hr, ← hs]
      rfl
    · next hne =>
      rw [List.getElem?_eq_getElem hlt, Option.some.injEq] at hs
      rw [queued, hqueue, if_neg fun hlead => hne hlead.1.symm, hs]
      rfl
  rw [hset, tally_set hr]
  rfl

end Queues

variable {σ : Type} [Ed25519] [Sha256] {allKeys : List (ReplicaId × Bytes)} {silent : Finset Nat}
  {blocks : List Block} {cmds : Multiset ConsensusCommand} {sim : Simulation σ}

/-- A simulation in which these blocks have been proposed and these commands submitted, and at most
the given replicas are silent. -/
structure Broadcasts (allKeys : List (ReplicaId × Bytes)) (silent : Finset Nat)
    (blocks : List Block) (cmds : Multiset ConsensusCommand) (sim : Simulation σ) : Prop where
  flowing : ∃ highQc, Flowing allKeys silent blocks highQc sim
  bounded : sim.maxSteps ≤ u64Max
  accounted : tally load blocks + proper sim.waiting = proper cmds

/-- A new simulation has proposed nothing. -/
theorem broadcasts_new (now f : Nat) {maxSteps : Nat} (hmax : maxSteps ≤ u64Max)
    (allKeys : List (ReplicaId × Bytes)) (silent : Finset Nat) :
    Broadcasts allKeys silent [genesisBlock] 0
      (Simulation.new (σ := σ) now f maxSteps allKeys) := by
  refine ⟨⟨none, flowing_new now f maxSteps allKeys silent⟩, hmax, ?_⟩
  rw [waiting_new]
  rfl

section Settings

variable [Bincode LogEntry] [Crc32] [App σ] {highQc : Option QuorumCert}

/-- A setting leaves a replica as it is, but for what it submits. -/
theorem FlowingReplica.setting {n view : Nat} {r : Replica σ}
    (h : FlowingReplica n view blocks highQc r) {op : SimulationOp} {call : Call}
    (hsetting : op.setting = some call) (hop : op.Calm n silent) (now : Nat) :
    FlowingReplica n view blocks highQc (r.step (now, call)) := by
  cases op with
  | enqueueClientCommand cmd =>
    cases hsetting
    refine ⟨h.view, h.tree, h.highQc, h.epoch, h.log, fun c hc => ?_⟩
    rcases List.mem_append.mp hc with hc | hc
    · exact h.queue c hc
    · exact List.mem_singleton.mp hc ▸ hop
  | enableDummyProposals timeoutMs =>
    cases hsetting
    exact ⟨h.view, h.tree, h.highQc, h.epoch, h.log, h.queue⟩
  | disableDummyProposals =>
    cases hsetting
    exact ⟨h.view, h.tree, h.highQc, h.epoch, h.log, h.queue⟩
  | _ => cases hsetting

theorem Flowing.configure (h : Flowing allKeys silent blocks highQc sim) {op : SimulationOp}
    {call : Call} (hsetting : op.setting = some call) (hop : op.Calm allKeys.length silent)
    {now : Nat} {replicas : List (Replica σ)} (hlen : replicas.length = sim.replicas.length)
    (hreplicas : ∀ (i : Nat) r', replicas[i]? = some r' →
      ∃ r, sim.replicas[i]? = some r ∧ (r' = r ∨ r' = r.step (now, call))) :
    Flowing allKeys silent blocks highQc { sim with replicas := replicas } := by
  have hstep : ∀ (i : Nat) (r : Replica σ), (r.OnDuty allKeys i →
      (r.step (now, call)).OnDuty allKeys i) ∧
      (r.step (now, call)).currentView = r.currentView := by
    intro i r
    cases op <;> cases hsetting <;>
      exact ⟨fun hr => ⟨⟨hr.size, hr.id, hr.validators, hr.keystore⟩, hr.pool⟩, rfl⟩
  refine { h with
    staffed := ⟨hlen.trans h.staffed.count, h.staffed.network, h.staffed.quiet,
      h.staffed.crashed, fun i r' hr' => ?_⟩
    replica := fun i r' hr' ha => ?_
    behind := fun i r' hr' => ?_ }
  · obtain ⟨r, hr, rfl | rfl⟩ := hreplicas i r' hr'
    · exact h.staffed.duty i r' hr
    · exact (hstep i r).1 (h.staffed.duty i r hr)
  · obtain ⟨r, hr, rfl | rfl⟩ := hreplicas i r' hr'
    · exact h.replica i r' hr ha
    · exact (h.replica i r hr ha).setting hsetting hop now
  · obtain ⟨r, hr, rfl | rfl⟩ := hreplicas i r' hr'
    · exact h.behind i r' hr
    · exact (hstep i r).2.le.trans (h.behind i r hr)

omit [Bincode LogEntry] [Crc32] [App σ] in
/-- One of the replicas that may falls silent, or another one gives a sign of life. -/
theorem Flowing.interrupt (h : Flowing allKeys silent blocks highQc sim) {id : Nat}
    {unresponsive : Bool} (hid : unresponsive = true ↔ id ∈ silent) {sim' : Simulation σ}
    (hok : sim.setReplicaUnresponsive id unresponsive = .ok sim') :
    Flowing allKeys silent blocks highQc sim' := by
  obtain ⟨-, -, rfl⟩ := setReplicaUnresponsive_ok_iff.mp hok
  have hstaffed := h.staffed
  cases unresponsive with
  | true =>
    rw [if_pos rfl]
    refine { h with
      staffed := ⟨hstaffed.count, hstaffed.network, hstaffed.quiet, hstaffed.crashed,
        hstaffed.duty⟩
      replica := fun i r hr ha => h.replica i r hr ?_
      silent := Finset.insert_subset (hid.mp rfl) h.silent }
    rw [Simulation.available_iff] at ha ⊢
    exact ⟨ha.1, fun hin => ha.2 (Finset.mem_insert_of_mem hin)⟩
  | false =>
    -- it was not silent before
    have hresponds : id ∉ sim.unresponsiveReplicas := fun hin =>
      Bool.false_ne_true (hid.mpr (h.silent hin))
    rw [if_neg Bool.false_ne_true, Finset.erase_eq_of_notMem hresponds]
    exact { h with
      staffed := ⟨hstaffed.count, hstaffed.network, hstaffed.quiet, hstaffed.crashed,
        hstaffed.duty⟩ }

end Settings

section Step

variable [LawfulEd25519] [Bincode LogEntry] [Bincode Snapshot] [Crc32] [App σ]

section Account

variable (h : Broadcasts allKeys silent blocks cmds sim) {how : ProposeCall} {sim' : Simulation σ}
  (hadvances : Advances how sim sim')

include h hadvances

omit [LawfulEd25519] [Bincode LogEntry] [Bincode Snapshot] [Crc32] [App σ] in
/-- A round that adds what it takes from the queue of its leader keeps the account. -/
theorem Broadcasts.advance {more : List Block} {leader : Replica σ}
    (hflowing : ∃ highQc, Flowing allKeys silent (blocks ++ more) highQc sim')
    (ha : sim.available sim.currentLeader = true)
    (hr : sim.replicas[sim.currentLeader]? = some leader)
    (htaken : tally load more + proper (leader.queueAfter how : Multiset ConsensusCommand) =
      proper (queued leader)) :
    Broadcasts allKeys silent (blocks ++ more) cmds sim' := by
  obtain ⟨highQc, hold⟩ := h.flowing
  obtain ⟨highQc', hnew⟩ := hflowing
  refine ⟨⟨highQc', hnew⟩, hadvances.maxSteps ▸ h.bounded, ?_⟩
  have hwaiting := congrArg proper
    (hadvances.waiting (hnew.staffed.count.trans hold.staffed.count.symm) ha hr)
  rw [proper_add, proper_add, ← htaken, ← add_assoc] at hwaiting
  have hwaiting := add_right_cancel hwaiting
  rw [tally_append, add_assoc, add_comm (tally load more), hwaiting, h.accounted]

omit [LawfulEd25519] [Bincode LogEntry] [Bincode Snapshot] [Crc32] [App σ] in
/-- The turn of a silent leader adds and takes nothing. -/
theorem Broadcasts.pass (hflowing : ∃ highQc, Flowing allKeys silent blocks highQc sim')
    (ha : sim.available sim.currentLeader = false) :
    Broadcasts allKeys silent blocks cmds sim' := by
  obtain ⟨highQc, hold⟩ := h.flowing
  obtain ⟨highQc', hnew⟩ := hflowing
  refine ⟨⟨highQc', hnew⟩, hadvances.maxSteps ▸ h.bounded, ?_⟩
  rw [hadvances.waiting_eq (hnew.staffed.count.trans hold.staffed.count.symm) ha, h.accounted]

end Account

omit [LawfulEd25519] [Bincode LogEntry] [Bincode Snapshot] [Crc32] [App σ] in
/-- The commands proposed are those in the log of every replica that responds and those of the last
two blocks, which it has too. -/
theorem Broadcasts.account (h : Broadcasts allKeys silent blocks cmds sim) :
    ∃ pending : List Block, pending.length ≤ 2 ∧
      (∀ (i : Nat) r, sim.replicas[i]? = some r → i ∉ sim.unresponsiveReplicas →
        r.committedLog = settled blocks ∧ ∀ b ∈ pending, r.blockTree.get? b.hash = some b) ∧
      tally load (settled blocks) + tally load pending + proper sim.waiting = proper cmds := by
  obtain ⟨highQc, hflowing⟩ := h.flowing
  refine ⟨blocks.drop (blocks.length - 2), ?_, fun i r hr hi => ?_, ?_⟩
  · rw [List.length_drop]
    omega
  · have hr := hflowing.replica i r hr (hflowing.available_iff.mpr hi)
    refine ⟨hr.log, fun b hb => ?_⟩
    rw [hr.tree]
    exact hflowing.line.get?_eq_some.mpr ⟨List.mem_of_mem_drop hb, rfl⟩
  · have hsplit : tally load (settled blocks) + tally load (blocks.drop (blocks.length - 2)) =
        tally load blocks := by
      have htail : tally load (settled blocks) = tally load (blocks.take (blocks.length - 2)) := by
        rw [settled, hflowing.line.eq_cons]
        cases (genesisBlock :: blocks.tail).length - 2 with
        | zero => rfl
        | succ m => rw [List.take_succ_cons, List.tail_cons, tally_cons,
            load_of_noOp (show genesisBlock.command = .noOp from rfl), zero_add]
      rw [htail, ← tally_append, List.take_append_drop]
    rw [hsplit, h.accounted]

variable (h : Broadcasts allKeys silent blocks cmds sim) (hkeys : GeneratedKeys allKeys)
  (hquorum : silent.card + (2 * ((allKeys.length - 1) / 3) + 1) < allKeys.length)

include h hkeys hquorum

/-- A plain round with steps left adds one block without effect, if the leader responds. -/
theorem Broadcasts.runOneRound (hleft : sim.step < sim.maxSteps) (now : Nat) :
    ∃ more : List Block, (∀ b ∈ more, b.command = .noOp) ∧
      more.length = (if sim.available sim.currentLeader = true then 1 else 0) ∧
      Broadcasts allKeys silent (blocks ++ more) cmds (sim.runOneRound now).1 ∧
      Advances (.proposeWithHash sim.network.nextGlobalHash) sim (sim.runOneRound now).1 := by
  obtain ⟨highQc, hflowing⟩ := h.flowing
  by_cases ha : sim.available sim.currentLeader = true
  · obtain ⟨leader, hstep⟩ := hflowing.inStep hquorum ha
    obtain ⟨block, highQc', hcommand, hnew, hadvances⟩ :=
      hflowing.runOneRound hkeys hquorum h.bounded hleft now ha
    refine ⟨[block], fun b hb => List.mem_singleton.mp hb ▸ hcommand, (if_pos ha).symm,
      h.advance hadvances ⟨highQc', hnew⟩ ha hstep.leaderAt ?_, hadvances⟩
    rw [tally_cons, tally_nil, load_of_noOp hcommand, add_zero, zero_add]
    rfl
  · have hsilent := Bool.eq_false_iff.mpr ha
    obtain ⟨⟨hnew, hadvances⟩, -⟩ := hflowing.leaderless hquorum h.bounded hleft now hsilent
      (.proposeWithHash sim.network.nextGlobalHash)
    refine ⟨[], fun b hb => absurd hb List.not_mem_nil, (if_neg ha).symm, ?_, hadvances⟩
    rw [List.append_nil]
    exact h.pass hadvances ⟨highQc, hnew⟩ hsilent

/-- A pacemaker round with steps left puts at most one block to the end of the line. -/
theorem Broadcasts.runOneRoundWithPacemaker (hleft : sim.step < sim.maxSteps) (now : Nat) :
    ∃ more, Broadcasts allKeys silent (blocks ++ more) cmds (sim.runOneRoundWithPacemaker now).1 ∧
      Advances (.proposeNextWithHash sim.network.nextGlobalHash) sim
        (sim.runOneRoundWithPacemaker now).1 := by
  obtain ⟨highQc, hflowing⟩ := h.flowing
  by_cases ha : sim.available sim.currentLeader = true
  · obtain ⟨leader, more, highQc', hr, hmore, hnew, hadvances⟩ :=
      hflowing.runOneRoundWithPacemaker hkeys hquorum h.bounded hleft now ha
    refine ⟨more, h.advance hadvances ⟨highQc', hnew⟩ ha hr ?_, hadvances⟩
    rw [add_comm]
    rcases hmore with hmore | ⟨rfl, hempty⟩
    · obtain ⟨block, rfl, hcommand⟩ := List.map_eq_singleton_iff.mp hmore
      rw [tally_cons, tally_nil, add_zero, load_eq_proper, hcommand]
      exact proper_dropLast leader.clientQueue
    · rw [tally_nil, add_zero, queued, Replica.queueAfter, hempty]
      rfl
  · have hsilent := Bool.eq_false_iff.mpr ha
    obtain ⟨-, hnew, hadvances⟩ := hflowing.leaderless hquorum h.bounded hleft now hsilent
      (.proposeNextWithHash sim.network.nextGlobalHash)
    refine ⟨[], ?_, hadvances⟩
    rw [List.append_nil]
    exact h.pass hadvances ⟨highQc, hnew⟩ hsilent

omit hkeys hquorum [LawfulEd25519] in
/-- With no steps left a round changes nothing but the clock. -/
theorem Broadcasts.finished (hover : sim.maxSteps ≤ sim.step) (now : Nat) :
    Broadcasts allKeys silent blocks cmds (sim.runOneRound now).1 ∧
      Broadcasts allKeys silent blocks cmds (sim.runOneRoundWithPacemaker now).1 := by
  obtain ⟨highQc, hflowing⟩ := h.flowing
  have hclock : Broadcasts allKeys silent blocks cmds sim.advanceSimulatedTime :=
    ⟨⟨highQc, hflowing.advanceSimulatedTime⟩, h.bounded, h.accounted⟩
  have hopen : ∀ proposeWith : Replica σ → Nat → Hash → Replica σ × Option Block,
      openRound proposeWith sim.advanceSimulatedTime = .finished :=
    fun proposeWith => if_pos (Or.inl hover)
  constructor
  · simp only [Simulation.runOneRound, hflowing.roundStart_eq, plainOpening, hopen]
    exact hclock
  · simp only [Simulation.runOneRoundWithPacemaker, hflowing.roundStart_eq, pacemakerOpening,
      hopen]
    exact hclock

/-- Plain rounds with steps left add a block for each turn of a replica that responds. -/
theorem Broadcasts.fill {times : List Nat} (hleft : sim.step + times.length ≤ sim.maxSteps) :
    ∃ more sim', run (fun sim now => (sim.runOneRound now).1) sim times = sim' ∧
      (∀ b ∈ more, b.command = .noOp) ∧
      more.length = (List.range' sim.step times.length).countP
        (fun v => sim.available (v % allKeys.length)) ∧
      Broadcasts allKeys silent (blocks ++ more) cmds sim' ∧
      (∀ i, sim'.available i = sim.available i) ∧
      ∀ (i : Nat) r, sim.replicas[i]? = some r → ∃ r', sim'.replicas[i]? = some r' ∧
        r'.clientQueue = r.clientQueue := by
  induction times generalizing blocks sim with
  | nil => exact ⟨[], sim, rfl, fun b hb => absurd hb List.not_mem_nil, rfl,
      (List.append_nil blocks).symm ▸ h, fun _ => rfl, fun i r hr => ⟨r, hr, rfl⟩⟩
  | cons now times ih =>
    rw [List.length_cons] at hleft
    obtain ⟨more, hnoOp, hlen, hround, hadvances⟩ := h.runOneRound hkeys hquorum (by omega) now
    obtain ⟨more', sim', hrun, hnoOp', hlen', hend, havailable, hqueues⟩ :=
      ih hround (by rw [hadvances.step, hadvances.maxSteps]; omega)
    have hlead : sim.currentLeader = sim.step % allKeys.length := by
      obtain ⟨highQc, hflowing⟩ := h.flowing
      exact hflowing.currentLeader_eq hquorum
    refine ⟨more ++ more', sim', hrun, fun b hb => (List.mem_append.mp hb).elim (hnoOp b)
      (hnoOp' b), ?_, List.append_assoc blocks more more' ▸ hend,
      fun i => (havailable i).trans (hadvances.available i), fun i r hr => ?_⟩
    · rw [List.length_append, hlen, hlen', hadvances.step, List.length_cons, List.range'_succ,
        List.countP_cons, hlead, funext hadvances.available, Nat.add_comm]
    · obtain ⟨r₁, hr₁, hqueue₁⟩ := hadvances.queue i r hr
      obtain ⟨r', hr', hqueue'⟩ := hqueues i r₁ hr₁
      exact ⟨r', hr', hqueue'.trans (hqueue₁.trans (ite_self _))⟩

/-- Pacemaker rounds with steps left take one command of a queue at each turn of its replica, if
that responds. -/
theorem Broadcasts.drain {times : List Nat} (hleft : sim.step + times.length ≤ sim.maxSteps) :
    ∃ more sim', run (fun sim now => (sim.runOneRoundWithPacemaker now).1) sim times = sim' ∧
      Broadcasts allKeys silent (blocks ++ more) cmds sim' ∧
      sim'.step = sim.step + times.length ∧ sim'.maxSteps = sim.maxSteps ∧
      (∀ i, sim'.available i = sim.available i) ∧
      ∀ (i : Nat) r, sim.replicas[i]? = some r → sim.available i = true →
        ∃ r', sim'.replicas[i]? = some r' ∧ r'.clientQueue.length = r.clientQueue.length -
          (List.range' sim.step times.length).countP fun v => v % allKeys.length == i := by
  induction times generalizing blocks sim with
  | nil => exact ⟨[], sim, rfl, (List.append_nil blocks).symm ▸ h, rfl, rfl, fun _ => rfl,
      fun i r hr _ => ⟨r, hr, rfl⟩⟩
  | cons now times ih =>
    rw [List.length_cons] at hleft
    obtain ⟨more, hround, hadvances⟩ :=
      h.runOneRoundWithPacemaker hkeys hquorum (by omega) now
    obtain ⟨more', sim', hrun, hend, hstep, hmaxSteps, havailable, hqueues⟩ :=
      ih hround (by rw [hadvances.step, hadvances.maxSteps]; omega)
    have hlead : sim.currentLeader = sim.step % allKeys.length := by
      obtain ⟨highQc, hflowing⟩ := h.flowing
      exact hflowing.currentLeader_eq hquorum
    refine ⟨more ++ more', sim', hrun, List.append_assoc blocks more more' ▸ hend, ?_,
      hmaxSteps.trans hadvances.maxSteps,
      fun i => (havailable i).trans (hadvances.available i), fun i r hr ha => ?_⟩
    · rw [hstep, hadvances.step, List.length_cons]
      omega
    · obtain ⟨r₁, hr₁, hqueue₁⟩ := hadvances.queue i r hr
      obtain ⟨r', hr', hqueue'⟩ := hqueues i r₁ hr₁ ((hadvances.available i).trans ha)
      refine ⟨r', hr', ?_⟩
      rw [hqueue', hadvances.step, List.length_cons, List.range'_succ, List.countP_cons, hqueue₁,
        hlead]
      by_cases he : i = sim.step % allKeys.length
      · rw [if_pos ⟨he, ha⟩, if_pos (beq_iff_eq.mpr he.symm), Replica.queueAfter,
          List.length_dropLast]
        omega
      · rw [if_neg fun hboth => he hboth.1, if_neg fun hturn => he (beq_iff_eq.mp hturn).symm]
        rfl

/-- When no queue of those that respond is longer than `q`, the pacemaker has drained them after `q`
turns of everybody. -/
theorem Broadcasts.drained {q : Nat}
    (hq : ∀ (i : Nat) r, sim.replicas[i]? = some r → i ∉ sim.unresponsiveReplicas →
      r.clientQueue.length ≤ q)
    {times : List Nat} (htimes : allKeys.length * q ≤ times.length)
    (hleft : sim.step + times.length ≤ sim.maxSteps) :
    ∃ more sim', run (fun sim now => (sim.runOneRoundWithPacemaker now).1) sim times = sim' ∧
      Broadcasts allKeys silent (blocks ++ more) cmds sim' ∧
      sim'.step = sim.step + times.length ∧ sim'.maxSteps = sim.maxSteps ∧
      ∀ (i : Nat) r, sim'.replicas[i]? = some r → sim'.available i = true →
        r.clientQueue = [] := by
  obtain ⟨more, sim', hrun, hend, hstep, hmaxSteps, havailable, hqueues⟩ :=
    h.drain hkeys hquorum hleft
  refine ⟨more, sim', hrun, hend, hstep, hmaxSteps, fun i r' hr' ha => ?_⟩
  obtain ⟨⟨_, hold⟩, ⟨_, hnew⟩⟩ := And.intro h.flowing hend.flowing
  have hlt : i < allKeys.length := hnew.staffed.count ▸ (List.getElem?_eq_some_iff.mp hr').1
  have hr := List.getElem?_eq_getElem (hold.staffed.count.symm ▸ hlt : i < sim.replicas.length)
  rw [havailable] at ha
  obtain ⟨s, hs, hlen⟩ := hqueues i _ hr ha
  obtain rfl : r' = s := Option.some.inj (hr'.symm.trans hs)
  have hturns := le_countP_turns hlt sim.step q htimes
  have hshort := hq i _ hr (hold.available_iff.mp ha)
  exact List.eq_nil_of_length_eq_zero (by omega)

/-- When nothing waits with those that respond, one more turn of everybody makes their logs
complete. -/
theorem Broadcasts.flush
    (hidle : ∀ (i : Nat) r, sim.replicas[i]? = some r → sim.available i = true →
      r.clientQueue = [])
    {times : List Nat} (htimes : allKeys.length ≤ times.length)
    (hleft : sim.step + times.length ≤ sim.maxSteps) :
    ∃ log sim', run (fun sim now => (sim.runOneRound now).1) sim times = sim' ∧
      tally load log + proper sim'.waiting = proper cmds ∧
      ∀ (i : Nat) r, sim'.replicas[i]? = some r → i ∉ sim'.unresponsiveReplicas →
        r.committedLog = log ∧ r.clientQueue = [] := by
  obtain ⟨more, sim', hrun, hnoOp, hlen, hend, havailable, hqueues⟩ := h.fill hkeys hquorum hleft
  obtain ⟨⟨highQc, hold⟩, ⟨highQc', hnew⟩⟩ := And.intro h.flowing hend.flowing
  have hmore : 2 ≤ more.length := by
    have hturns := card_le_countP_turns (Finset.filter_subset (fun i => sim.available i = true)
      (Finset.range allKeys.length)) sim.step htimes
    refine (hold.two_le_card_available hquorum).trans (hturns.trans (hlen ▸ ?_))
    refine List.countP_mono_left fun v _ hv => ?_
    exact (Finset.mem_filter.mp (of_decide_eq_true hv)).2
  have hnothing : ∀ l : List Block, (∀ b ∈ l, b ∈ more) → tally load l = 0 :=
    fun l hl => tally_eq_zero fun b hb => load_of_noOp (hnoOp b (hl b hb))
  refine ⟨blocks.tail ++ more.take (more.length - 2), sim', hrun, ?_, fun i r hr hi => ?_⟩
  · have haccount := hend.accounted
    rw [tally_append, hnothing more fun _ => id, add_zero, hold.line.eq_cons, tally_cons,
      load_of_noOp (show genesisBlock.command = .noOp from rfl), zero_add] at haccount
    rw [tally_append, hnothing _ fun b hb => List.mem_of_mem_take hb, add_zero, haccount]
  · have ha := hnew.available_iff.mpr hi
    have hlt : i < sim.replicas.length := by
      rw [hold.staffed.count, ← hnew.staffed.count]
      exact (List.getElem?_eq_some_iff.mp hr).1
    have hr₀ := List.getElem?_eq_getElem hlt
    obtain ⟨r', hr', hqueue⟩ := hqueues i _ hr₀
    obtain rfl : r = r' := Option.some.inj (hr.symm.trans hr')
    rw [havailable] at ha
    refine ⟨(hnew.replica i r hr ((havailable i).trans ha)).log.trans ?_,
      hqueue.trans (hidle i _ hr₀ ha)⟩
    exact settled_append hold.line.ne_nil hmore

end Step

end Simulation

namespace Trace

open Simulation

section Run

variable {σ : Type} [Ed25519] [Sha256] [Bincode LogEntry] [Bincode Snapshot] [Crc32] [App σ]
  {allKeys : List (ReplicaId × Bytes)} {silent : Finset Nat} {blocks : List Block}
  {cmds : Multiset ConsensusCommand} {t : Trace σ}

/-- A setting adds to the queues what is submitted with it. -/
theorem waiting_setting {leader : Replica σ}
    (hr : t.sim.replicas[t.sim.currentLeader]? = some leader) {op : SimulationOp} {call : Call}
    (hsetting : op.setting = some call) (now : Nat) :
    (t.step (now, op)).sim.waiting = t.sim.waiting + op.submits := by
  cases op with
  | enqueueClientCommand cmd =>
    have hmodify := tally_modify (f := queued) hr fun r => r.enqueueCommand cmd
    have hqueue : queued (leader.enqueueCommand cmd) = {cmd} + queued leader := by
      rw [queued, Replica.enqueueCommand, ← Multiset.coe_add, add_comm]
      rfl
    rw [hqueue, ← add_assoc] at hmodify
    exact add_right_cancel hmodify
  | enableDummyProposals timeoutMs =>
    refine (tally_congr (List.length_map _) fun i r hr => ?_).trans (add_zero _).symm
    exact ⟨_, (List.getElem?_map ..).trans (congrArg _ hr), rfl⟩
  | disableDummyProposals =>
    refine (tally_congr (List.length_map _) fun i r hr => ?_).trans (add_zero _).symm
    exact ⟨_, (List.getElem?_map ..).trans (congrArg _ hr), rfl⟩
  | _ => cases hsetting

/-- Between rounds nothing is proposed. Without persistence no replica is crashed or recovered. -/
theorem broadcasts_between (h : Broadcasts allKeys silent blocks cmds t.sim)
    (hquorum : silent.card + (2 * ((allKeys.length - 1) / 3) + 1) < allKeys.length)
    {op : SimulationOp} (hround : op.isRound = false) (hop : op.Calm allKeys.length silent)
    (now : Nat) : Broadcasts allKeys silent blocks (cmds + op.submits) (t.step (now, op)).sim := by
  obtain ⟨highQc, hflowing⟩ := h.flowing
  have hlt := hflowing.staffed.count.symm ▸ hflowing.currentLeader_lt hquorum
  have hwaiting := fun call (hsetting : op.setting = some call) =>
    waiting_setting (List.getElem?_eq_getElem hlt) hsetting now
  have hsame : op.setting = none → Broadcasts allKeys silent blocks (cmds + op.submits) t.sim := by
    intro hnone
    have hnothing : op.submits = 0 := by cases op <;> first | rfl | cases hnone
    rw [hnothing, add_zero]
    exact h
  have hdoes := t.step_does now op
  generalize (t.step (now, op)).sim = sim' at hdoes hwaiting ⊢
  cases hdoes with
  | runOneRound => cases hround
  | runOneRoundWithPacemaker => cases hround
  | configured hsetting hlen hreplicas =>
    refine ⟨⟨highQc, hflowing.configure hsetting hop hlen hreplicas⟩, h.bounded, ?_⟩
    rw [hwaiting _ hsetting, proper_add, ← add_assoc, h.accounted, ← proper_add]
  | interrupted hok =>
    have hflows := hflowing.interrupt hop hok
    obtain ⟨-, -, rfl⟩ := setReplicaUnresponsive_ok_iff.mp hok
    have hold := hsame rfl
    refine ⟨⟨highQc, hflows⟩, ?_, ?_⟩
    · split
      · exact h.bounded
      · exact h.bounded
    · split
      · exact hold.accounted
      · exact hold.accounted
  | crashed hok =>
    obtain ⟨-, -, hpersistent, -⟩ := crashReplica_ok_iff.mp hok
    exact absurd (hflowing.volatile.symm.trans hpersistent) Bool.false_ne_true
  | recovered hok =>
    obtain ⟨-, -, -, -, hpersistent, -⟩ := recoverReplica_ok_iff.mp hok
    exact absurd (hflowing.volatile.symm.trans hpersistent) Bool.false_ne_true
  | refused _ =>
    cases hcall : op.setting with
    | none => exact hsame hcall
    | some call =>
      refine ⟨⟨highQc, hflowing⟩, h.bounded, ?_⟩
      rw [hwaiting call hcall, proper_add, ← add_assoc, h.accounted, ← proper_add]

variable [LawfulEd25519]

/-- Every operation keeps the account. -/
theorem broadcasts_step (hkeys : GeneratedKeys allKeys)
    (hquorum : silent.card + (2 * ((allKeys.length - 1) / 3) + 1) < allKeys.length)
    (h : Broadcasts allKeys silent blocks cmds t.sim) {op : Nat × SimulationOp}
    (hop : op.2.Calm allKeys.length silent) :
    ∃ more, Broadcasts allKeys silent (blocks ++ more) (cmds + op.2.submits) (t.step op).sim := by
  obtain ⟨now, op⟩ := op
  have hbetween : op.isRound = false → ∃ more,
      Broadcasts allKeys silent (blocks ++ more) (cmds + op.submits) (t.step (now, op)).sim :=
    fun hround => ⟨[], (List.append_nil blocks).symm ▸
      broadcasts_between h hquorum hround hop now⟩
  cases op with
  | runOneRound =>
    show ∃ more, Broadcasts allKeys silent (blocks ++ more) (cmds + 0) _
    rw [add_zero]
    by_cases hleft : t.sim.step < t.sim.maxSteps
    · obtain ⟨more, -, -, hround, -⟩ := h.runOneRound hkeys hquorum hleft now
      exact ⟨more, hround⟩
    · exact ⟨[], (List.append_nil blocks).symm ▸ (h.finished (not_lt.mp hleft) now).1⟩
  | runOneRoundWithPacemaker =>
    show ∃ more, Broadcasts allKeys silent (blocks ++ more) (cmds + 0) _
    rw [add_zero]
    by_cases hleft : t.sim.step < t.sim.maxSteps
    · obtain ⟨more, hround, -⟩ := h.runOneRoundWithPacemaker hkeys hquorum hleft now
      exact ⟨more, hround⟩
    · exact ⟨[], (List.append_nil blocks).symm ▸ (h.finished (not_lt.mp hleft) now).2⟩
  | _ => exact hbetween rfl

theorem broadcasts_run (hkeys : GeneratedKeys allKeys)
    (hquorum : silent.card + (2 * ((allKeys.length - 1) / 3) + 1) < allKeys.length)
    (h : Broadcasts allKeys silent blocks cmds t.sim) {ops : List (Nat × SimulationOp)}
    (hops : ∀ op ∈ ops, op.2.Calm allKeys.length silent) :
    ∃ more, Broadcasts allKeys silent (blocks ++ more)
      (cmds + tally (fun op => op.2.submits) ops) (run step t ops).sim := by
  induction ops generalizing blocks cmds t with
  | nil =>
    refine ⟨[], ?_⟩
    rw [List.append_nil, tally_nil, add_zero]
    exact h
  | cons op ops ih =>
    obtain ⟨hop, hrest⟩ := List.forall_mem_cons.mp hops
    obtain ⟨more, hstep⟩ := broadcasts_step hkeys hquorum h hop
    obtain ⟨more', hrun⟩ := ih hstep hrest
    refine ⟨more ++ more', ?_⟩
    rw [tally_cons, ← add_assoc, ← List.append_assoc]
    exact hrun

omit [LawfulEd25519] in
/-- One operation again and again. -/
theorem run_again (op : SimulationOp) {f : Simulation σ → Nat → Simulation σ}
    (hf : ∀ (t : Trace σ) now, (t.step (now, op)).sim = f t.sim now) (times : List Nat)
    (t : Trace σ) :
    (run step t (times.map fun now => (now, op))).sim = run f t.sim times := by
  induction times generalizing t with
  | nil => rfl
  | cons now times ih => rw [List.map_cons, run_cons, run_cons, ih, hf]

section Volatile

variable (hkeys : GeneratedKeys allKeys)
  (hquorum : silent.card + (2 * ((allKeys.length - 1) / 3) + 1) < allKeys.length) (now f : Nat)
  {maxSteps : Nat} (hmax : maxSteps ≤ u64Max) {ops : List (Nat × SimulationOp)}
  (hops : ∀ op ∈ ops, op.2.Calm allKeys.length silent)
  (ht : t = run step ⟨Simulation.new now f maxSteps allKeys, History.genesis⟩ ops)

include hkeys hquorum hmax hops ht

/-- Let plain rounds, pacemaker rounds, client commands and replicas falling silent come in any
order, but never so many silent that a block misses a vote. All replicas that respond have committed
the same blocks. The commands submitted are those in this log, those of at most two more blocks
that these replicas have, and those still in a queue. -/
theorem broadcast_account :
    ∃ log pending : List Block, pending.length ≤ 2 ∧
      (∀ (i : Nat) r, t.sim.replicas[i]? = some r → i ∉ t.sim.unresponsiveReplicas →
        r.committedLog = log ∧ ∀ b ∈ pending, r.blockTree.get? b.hash = some b) ∧
      tally load log + tally load pending + proper t.sim.waiting =
        proper (tally (fun op => op.2.submits) ops) := by
  obtain ⟨more, hrun⟩ := broadcasts_run (t := ⟨Simulation.new now f maxSteps allKeys,
    History.genesis⟩) hkeys hquorum (broadcasts_new (σ := σ) now f hmax allKeys silent) hops
  rw [zero_add, ← ht] at hrun
  obtain ⟨pending, hlen, hlogs, haccount⟩ := hrun.account
  exact ⟨_, pending, hlen, hlogs, haccount⟩

/-- After such a run let the pacemaker run as many rounds as drain the queue of every replica that
responds, and give everybody one plain round more. Then the log of every replica that responds has
exactly what was submitted, each command as often as it was submitted, but for what waits with a
silent replica. -/
theorem broadcast_delivers {q : Nat}
    (hq : ∀ (i : Nat) r, t.sim.replicas[i]? = some r → i ∉ t.sim.unresponsiveReplicas →
      r.clientQueue.length ≤ q)
    {times rest : List Nat} (htimes : allKeys.length * q ≤ times.length)
    (hrest : allKeys.length ≤ rest.length)
    (hleft : t.sim.step + times.length + rest.length ≤ t.sim.maxSteps) {final : Trace σ}
    (hfinal : final = run step t
      (times.map (fun now => (now, SimulationOp.runOneRoundWithPacemaker)) ++
        rest.map fun now => (now, SimulationOp.runOneRound))) :
    ∃ log : List Block,
      tally load log + proper final.sim.waiting = proper (tally (fun op => op.2.submits) ops) ∧
      ∀ (i : Nat) r, final.sim.replicas[i]? = some r → i ∉ final.sim.unresponsiveReplicas →
        r.committedLog = log ∧ r.clientQueue = [] := by
  obtain ⟨more, hrun⟩ := broadcasts_run (t := ⟨Simulation.new now f maxSteps allKeys,
    History.genesis⟩) hkeys hquorum (broadcasts_new (σ := σ) now f hmax allKeys silent) hops
  rw [zero_add, ← ht] at hrun
  obtain ⟨more', drained, hdrained, hend, hstep, hmaxSteps, hidle⟩ :=
    hrun.drained hkeys hquorum hq htimes (by omega)
  obtain ⟨log, sim', hflushed, hlog, hall⟩ :=
    hend.flush hkeys hquorum hidle hrest (by rw [hstep, hmaxSteps]; exact hleft)
  have hsim : final.sim = sim' := by
    have hplain := run_again (σ := σ) .runOneRound (f := fun sim now => (sim.runOneRound now).1)
      (fun _ _ => rfl) rest
    have hpacemaker := run_again (σ := σ) .runOneRoundWithPacemaker
      (f := fun sim now => (sim.runOneRoundWithPacemaker now).1) (fun _ _ => rfl) times
    rw [hfinal, run_append, hplain, hpacemaker, hdrained, hflushed]
  rw [hsim]
  exact ⟨log, hlog, hall⟩

end Volatile

end Run

section Samples

open Sample SimulationOp

/-- Commands reach the queues of three replicas, of which the last one falls silent. -/
def mixedOps : List (Nat × SimulationOp) :=
  [(0, enqueueClientCommand (.clientTx "SET a 1")), (1, runOneRoundWithPacemaker),
    (2, enqueueClientCommand (.clientTx "SET b 2")), (3, runOneRound),
    (4, setReplicaUnresponsive 2 true), (5, enqueueClientCommand (.clientTx "SET c 3")),
    (6, runOneRound), (7, runOneRoundWithPacemaker), (8, runOneRound),
    (9, runOneRoundWithPacemaker), (10, enqueueClientCommand (.clientTx "SET a 1"))]

/-- The first command is committed, and the others wait in three queues. -/
theorem broadcast_account_mixed :
    ((run step threeVolatile mixedOps).sim.replicas.map fun r =>
        (r.committedLog.map Block.command, r.clientQueue)) =
      [([.clientTx "SET a 1"], [.clientTx "SET a 1"]),
        ([.clientTx "SET a 1"], [.clientTx "SET b 2"]), ([], [.clientTx "SET c 3"])] ∧
      ∃ log pending : List Block, pending.length ≤ 2 ∧
        (∀ (i : Nat) r, (run step threeVolatile mixedOps).sim.replicas[i]? = some r →
          i ∉ (run step threeVolatile mixedOps).sim.unresponsiveReplicas →
          r.committedLog = log ∧ ∀ b ∈ pending, r.blockTree.get? b.hash = some b) ∧
        tally load log + tally load pending +
            proper (run step threeVolatile mixedOps).sim.waiting =
          proper (tally (fun op => op.2.submits) mixedOps) :=
  ⟨by decide +kernel, broadcast_account
    (show GeneratedKeys (sampleKeys 3) from List.Perm.refl _) (by decide) 0 0
    (show 20 ≤ u64Max by decide) (show ∀ op ∈ mixedOps, op.2.Calm 3 {2} by decide) rfl⟩

/-- What the rounds after `mixedOps` lead to. -/
def mixedEnd : Trace NoOpApp :=
  run step (run step threeVolatile mixedOps)
    (([11, 12, 13].map fun now => (now, runOneRoundWithPacemaker)) ++
      [14, 15, 16].map fun now => (now, runOneRound))

/-- Three pacemaker rounds drain the two queues of those that respond, and three more rounds commit
what was in them. The command in the third queue stays there. -/
theorem broadcast_delivers_mixed :
    mixedEnd.sim.waiting = {.clientTx "SET c 3"} ∧ ∃ log : List Block,
      tally load log + proper mixedEnd.sim.waiting =
        proper (tally (fun op => op.2.submits) mixedOps) ∧
      ∀ (i : Nat) r, mixedEnd.sim.replicas[i]? = some r → i ∉ mixedEnd.sim.unresponsiveReplicas →
        r.committedLog = log ∧ r.clientQueue = [] := by
  have hshort : ∀ i < 3, ∀ r ∈ (run step threeVolatile mixedOps).sim.replicas[i]?,
      r.clientQueue.length ≤ 1 := by decide +kernel
  refine ⟨by decide +kernel, broadcast_delivers (q := 1)
    (show GeneratedKeys (sampleKeys 3) from List.Perm.refl _) (by decide) 0 0
    (show 20 ≤ u64Max by decide) (show ∀ op ∈ mixedOps, op.2.Calm 3 {2} by decide)
    (t := run step threeVolatile mixedOps) rfl (fun i r hr _ => ?_)
    (show 3 * 1 ≤ [11, 12, 13].length by decide) (show 3 ≤ [14, 15, 16].length by decide)
    (by decide +kernel) rfl⟩
  have hlt : i < 3 := (List.getElem?_eq_some_iff.mp hr).1.trans_eq (by decide +kernel)
  exact hshort i hlt r hr

end Samples

end Trace

end PersistHotStuff
