import PersistHotStuff.Simulator.Faults
import PersistHotStuff.Simulator.Line
import PersistHotStuff.Simulator.Proposing

/-!
# Rounds while some replicas are silent

Some replicas fall silent for good, at any time; enough stay to certify a block
without the vote of its leader. Then the two kinds of rounds and client commands
mix in any order. Turns of a silent replica and pacemaker rounds without a command
pass without a block, and hashes leave gaps; still the blocks form one line, every
replica that responds holds it, the last block is certified and all but the last
two are committed.
-/

namespace PersistHotStuff

open Basis

namespace Simulation

/-- The leader is the one of the latest view, if nobody is crashed. -/
theorem currentLeader_of_latest {σ : Type} {sim : Simulation σ} (hcrashed : sim.crashedReplicas = ∅)
    {view : Nat} (hle : ∀ r ∈ sim.replicas, r.currentView ≤ view)
    (hlatest : ∃ r ∈ sim.replicas, r.currentView = view) :
    sim.currentLeader = view % sim.replicas.length := by
  obtain ⟨last, hlast, hview⟩ := hlatest
  have hne : sim.replicas ≠ [] := List.ne_nil_of_mem hlast
  have hlive : (sim.replicas.zipIdx.filter fun p => decide (p.2 ∉ sim.crashedReplicas)) =
      sim.replicas.zipIdx := by
    rw [hcrashed]
    exact List.filter_eq_self.mpr fun p _ => decide_eq_true (Finset.notMem_empty p.2)
  have hmax : maxView (sim.replicas.zipIdx.map fun p => p.1.currentView) = some view := by
    refine List.max?_eq_some_iff.mpr ⟨?_, fun v hv => ?_⟩
    · obtain ⟨i, hi⟩ := List.mem_iff_getElem?.mp hlast
      exact List.mem_map.mpr ⟨(last, i), List.mem_zipIdx_iff_getElem?.mpr hi, hview⟩
    · obtain ⟨p, hp, rfl⟩ := List.mem_map.mp hv
      exact hle p.1 (List.mem_of_getElem? (List.mem_zipIdx_iff_getElem?.mp hp))
  obtain ⟨k, hk⟩ : ∃ k, sim.replicas.length = k + 1 :=
    ⟨_, (Nat.succ_pred_eq_of_pos (List.length_pos_iff.mpr hne)).symm⟩
  have hempty : sim.replicas.isEmpty = false := List.isEmpty_eq_false_iff.mpr hne
  simp only [currentLeader, hempty, Bool.false_eq_true, if_false]
  rw [hlive, hmax, Option.getD_some, hk, List.range_succ_eq_map, List.map_cons]
  simp [hcrashed]

variable {σ : Type} [Ed25519] {allKeys : List (ReplicaId × Bytes)} {sim : Simulation σ}
  {leader : Replica σ} {silent : Finset Nat}

/-- One replica that responds in a run in which these blocks have been certified. -/
structure FlowingReplica (n view : Nat) (blocks : List Block) (highQc : Option QuorumCert)
    (r : Replica σ) : Prop where
  view : r.currentView = view
  tree : r.blockTree = lineTree blocks
  highQc : r.highQc = highQc
  epoch : r.configEpoch = 0
  log : r.committedLog = settled blocks
  queue : ∀ cmd ∈ r.clientQueue, Inert n cmd

variable [Sha256]

/-- A simulation in which these blocks have been certified and at most the given replicas are
silent. -/
structure Flowing (allKeys : List (ReplicaId × Bytes)) (silent : Finset Nat) (blocks : List Block)
    (highQc : Option QuorumCert) (sim : Simulation σ) : Prop where
  staffed : Staffed allKeys sim
  line : Line blocks
  inert : ∀ b ∈ blocks, Inert allKeys.length b.command
  older : ∀ b ∈ tip blocks, b.view < sim.step
  fresh : ∀ b ∈ blocks, b.hash < sim.network.nextGlobalHash
  /-- The last block is certified. -/
  certified : highQc.map QuorumCert.pointer = (tip blocks).map fun b => (b.hash, b.view, 0)
  verified : ∀ q ∈ highQc, ∀ (i : Nat) (r : Replica σ), r.OnDuty allKeys i →
    r.keystore.verifyQc q r.dynamicQuorumSize = true
  /-- Whoever responds is up to date. -/
  replica : ∀ (i : Nat) r, sim.replicas[i]? = some r → sim.available i = true →
    FlowingReplica allKeys.length sim.step blocks highQc r
  /-- Nobody is ahead of them. -/
  behind : ∀ (i : Nat) r, sim.replicas[i]? = some r → r.currentView ≤ sim.step
  volatile : sim.persistenceEnabled = false
  crashed : sim.crashedReplicas = ∅
  silent : sim.unresponsiveReplicas ⊆ silent

/-- A new simulation flows with genesis alone. -/
theorem flowing_new (now f maxSteps : Nat) (allKeys : List (ReplicaId × Bytes))
    (silent : Finset Nat) : Flowing allKeys silent [genesisBlock] none
      (Simulation.new (σ := σ) now f maxSteps allKeys) := by
  have hfresh : ∀ (i : Nat) r, (Simulation.new (σ := σ) now f maxSteps allKeys).replicas[i]? =
      some r → FlowingReplica allKeys.length 0 [genesisBlock] none r := by
    intro i r hr
    simp only [Simulation.new, start, List.getElem?_mapIdx, Option.map_eq_some_iff] at hr
    obtain ⟨ks, -, rfl⟩ := hr
    simp only [freshReplica, Replica.ensureDefaultValidators]
    split
    · exact ⟨rfl, rfl, rfl, rfl, rfl, by simp⟩
    · exact ⟨rfl, rfl, rfl, rfl, rfl, by simp⟩
  refine ⟨staffed_new now f maxSteps allKeys, .genesis, fun b hb => ?_, fun b hb => (by cases hb),
    fun b hb => ?_, rfl, fun q hq => (by cases hq), fun i r hr _ => hfresh i r hr,
    fun i r hr => (hfresh i r hr).view.le, rfl, rfl, Finset.empty_subset silent⟩
  · rw [List.mem_singleton.mp hb]
    rfl
  · rw [List.mem_singleton.mp hb]
    exact Nat.one_pos

variable {blocks : List Block} {highQc : Option QuorumCert}

theorem Flowing.advanceSimulatedTime (h : Flowing allKeys silent blocks highQc sim) :
    Flowing allKeys silent blocks highQc sim.advanceSimulatedTime :=
  { h with staffed := ⟨h.staffed.count, h.staffed.network, h.staffed.quiet, h.staffed.crashed,
      h.staffed.duty⟩ }

/-- The silent replicas are those that are not available. -/
theorem Flowing.available_iff (h : Flowing allKeys silent blocks highQc sim) {i : Nat} :
    sim.available i = true ↔ i ∉ sim.unresponsiveReplicas := by
  simp [Simulation.available_iff, h.crashed]

/-- Who does not respond is one of those that may be silent. -/
theorem Flowing.card_missing_le (h : Flowing allKeys silent blocks highQc sim) (n : Nat) :
    ((Finset.range n).filter fun i => sim.available i = false).card ≤ silent.card := by
  refine Finset.card_le_card fun i hi => h.silent ?_
  by_contra hresponds
  simp [h.available_iff.mpr hresponds] at hi

section Leader

variable (h : Flowing allKeys silent blocks highQc sim)
  (hquorum : silent.card + (2 * ((allKeys.length - 1) / 3) + 1) < allKeys.length)

include h hquorum

/-- There are leaders enough. -/
theorem Flowing.two_le_card_available :
    2 ≤ ((Finset.range allKeys.length).filter fun i => sim.available i = true).card := by
  have hmissing := h.card_missing_le allKeys.length
  have hsplit := Finset.card_filter_add_card_filter_not (s := Finset.range allKeys.length)
    fun i => sim.available i = true
  simp only [Bool.not_eq_true, Finset.card_range] at hsplit
  omega

theorem Flowing.exists_available : ∃ i, i < allKeys.length ∧ sim.available i = true := by
  have hcard := h.two_le_card_available hquorum
  obtain ⟨i, hi⟩ := Finset.card_pos.mp (Nat.two_pos.trans_le hcard)
  obtain ⟨hlt, ha⟩ := Finset.mem_filter.mp hi
  exact ⟨i, Finset.mem_range.mp hlt, ha⟩

/-- Leaders take turns, whether they respond or not. -/
theorem Flowing.currentLeader_eq : sim.currentLeader = sim.step % allKeys.length := by
  obtain ⟨i, hi, ha⟩ := h.exists_available hquorum
  have hr := List.getElem?_eq_getElem (h.staffed.count.symm ▸ hi : i < sim.replicas.length)
  rw [currentLeader_of_latest h.crashed (fun r hr => ?_)
    ⟨_, List.mem_of_getElem? hr, (h.replica i _ hr ha).view⟩, h.staffed.count]
  obtain ⟨j, hj⟩ := List.mem_iff_getElem?.mp hr
  exact h.behind j r hj

theorem Flowing.currentLeader_lt : sim.currentLeader < allKeys.length := by
  rw [h.currentLeader_eq hquorum]
  exact Nat.mod_lt _ (by omega)

/-- A leader that responds and all others that do agree. -/
theorem Flowing.inStep (ha : sim.available sim.currentLeader = true) :
    ∃ leader : Replica σ, sim.InStep leader := by
  have hn : 0 < allKeys.length := by omega
  have hlead := h.currentLeader_eq hquorum
  have hlt : sim.currentLeader < sim.replicas.length :=
    h.staffed.count.symm ▸ h.currentLeader_lt hquorum
  have hleader := List.getElem?_eq_getElem hlt
  have hduty := h.staffed.duty _ _ hleader
  have hflowing := h.replica _ _ hleader ha
  refine ⟨_, hleader, ha, ?_, fun j r hr ha' => ?_⟩
  · rw [Replica.isLeader, Replica.dynamicLeaderForView_default hn hduty.validators, hflowing.view,
      hduty.id, hlead]
    exact beq_self_eq_true _
  · have hr' := h.replica j r hr ha'
    exact ⟨hr'.view.trans hflowing.view.symm, hr'.tree.trans hflowing.tree.symm,
      hr'.highQc.trans hflowing.highQc.symm, hr'.epoch.trans hflowing.epoch.symm,
      (h.staffed.duty j r hr).validators.trans hduty.validators.symm⟩

end Leader

section Propose

variable (h : Flowing allKeys silent blocks highQc sim) (hstep : sim.InStep leader)

include h hstep

theorem Flowing.leader_flows : FlowingReplica allKeys.length sim.step blocks highQc leader :=
  h.replica _ _ hstep.leaderAt hstep.available

/-- The next block is built on the last one. -/
theorem Flowing.nextParent_eq : leader.nextParent = blocks.getLast?.map Block.hash := by
  have hflowing := h.leader_flows hstep
  have hqc := h.certified
  have hlast : blocks.getLast? = some ((tip blocks).getD genesisBlock) := by
    rw [h.line.eq_cons, List.getLast?_cons]
    rfl
  rw [Replica.nextParent, hflowing.highQc, hlast]
  cases htip : tip blocks with
  | some b =>
    rw [htip, Option.map_some, Option.map_eq_some_iff] at hqc
    obtain ⟨q, rfl, hpointer⟩ := hqc
    exact congrArg (fun p => some p.1) hpointer
  | none =>
    rw [htip, Option.map_none, Option.map_eq_none_iff] at hqc
    -- only genesis is there
    have hnil : blocks.tail = [] := List.getLast?_eq_none_iff.mp htip
    have hone : blocks = [genesisBlock] := by rw [h.line.eq_cons, hnil]
    rw [hqc]
    simp only [Replica.latestBlockHash, hflowing.tree, hone]
    rfl

/-- The certificate of the leader is usable. -/
theorem Flowing.usable : leader.Usable := by
  have hflowing := h.leader_flows hstep
  constructor
  · intro parent hparent
    rw [h.nextParent_eq hstep, Option.mem_def, Option.map_eq_some_iff] at hparent
    obtain ⟨b, hb, rfl⟩ := hparent
    rw [hflowing.tree]
    exact OrdMap.contains_iff.mpr ⟨b, h.line.get?_eq_some.mpr ⟨List.mem_of_getLast? hb, rfl⟩⟩
  · intro q hq
    rw [hflowing.highQc] at hq
    refine ⟨?_, h.verified q hq _ _ (h.staffed.duty _ _ hstep.leaderAt)⟩
    have hqc := h.certified
    rw [Option.mem_def.mp hq, Option.map_some] at hqc
    obtain ⟨b, -, hpointer⟩ := Option.map_eq_some_iff.mp hqc.symm
    rw [hflowing.epoch]
    exact congrArg (fun p => p.2.2) hpointer.symm

/-- A block the leader builds under a new hash goes to the end of the line. -/
theorem Flowing.line_append {command : ConsensusCommand} {block : Block}
    (hblock : block = leader.nextBlock leader.currentView sim.network.nextGlobalHash command) :
    Line (blocks ++ [block]) := by
  subst hblock
  refine h.line.append h.fresh (h.nextParent_eq hstep) ?_
  have hqc := congrArg Option.isSome h.certified
  rw [Option.isSome_map, Option.isSome_map] at hqc
  exact (congrArg Option.isSome (h.leader_flows hstep).highQc).trans hqc

end Propose

section Round

variable {now : Nat} {block : Block} {led : Simulation σ}

/-- Enough replicas vote for a proposal. -/
theorem Flowing.outcome_eq (h : Flowing allKeys silent blocks highQc sim)
    (hquorum : silent.card + (2 * ((allKeys.length - 1) / 3) + 1) < allKeys.length)
    (hstep : sim.InStep leader)
    (hproposed : Proposed allKeys now sim.currentLeader leader block led)
    (havailable : ∀ j, led.available j = sim.available j) :
    ∃ qc, led.outcome sim.currentLeader block leader = some qc := by
  have hduty := h.staffed.duty _ _ hstep.leaderAt
  have hcount := countP_others (h.currentLeader_lt hquorum) hstep.available
  have hmissing := h.card_missing_le allKeys.length
  have hlen : (led.ballots sim.currentLeader block).length =
      (others allKeys.length sim.currentLeader).countP sim.available := by
    rw [hproposed.length_ballots.1 (h.usable hstep), ← funext havailable]
  refine ⟨_, if_pos ?_⟩
  rw [List.length_map, hlen, Replica.dynamicQuorumSize_default (by omega) hduty.validators]
  omega

variable [LawfulEd25519]

/-- Every replica that responds has the certificate at the end of the round. -/
theorem Flowing.certifiedQc_eq (h : Flowing allKeys silent blocks highQc sim)
    (hkeys : GeneratedKeys allKeys)
    (hquorum : silent.card + (2 * ((allKeys.length - 1) / 3) + 1) < allKeys.length)
    (hstep : sim.InStep leader)
    (hproposed : Proposed allKeys now sim.currentLeader leader block led)
    (havailable : ∀ j, led.available j = sim.available j) {command : ConsensusCommand}
    (hblock : block = leader.nextBlock leader.currentView sim.network.nextGlobalHash command) :
    ∃ qc, qc.pointer = (block.hash, block.view, 0) ∧
      (∀ (i : Nat) (r : Replica σ), r.OnDuty allKeys i →
        r.keystore.verifyQc qc r.dynamicQuorumSize = true) ∧
      ∀ j, led.certifiedQc sim.currentLeader block leader j = some qc := by
  have hflowing := h.leader_flows hstep
  obtain ⟨qc, hqc⟩ := h.outcome_eq hquorum hstep hproposed havailable
  have hverify := fun (i : Nat) (r : Replica σ) (hr : r.OnDuty allKeys i) =>
    hproposed.verifyQc_outcome hkeys hqc hr
  obtain ⟨hpointer, -⟩ := hverify _ _ (h.staffed.duty _ _ hstep.leaderAt)
  have hepoch : block.epoch = 0 := hblock ▸ hflowing.epoch
  have hview : block.view = sim.step := hblock ▸ hflowing.view
  rw [hepoch] at hpointer
  refine ⟨qc, hpointer, fun i r hr => (hverify i r hr).2, fun j => ?_⟩
  rw [certifiedQc, hqc]
  split
  · rfl
  · rw [hflowing.highQc]
    cases hold : highQc with
    | none => rfl
    | some old =>
      -- the certificate before is for an older block
      have hcertified := h.certified
      rw [hold, Option.map_some] at hcertified
      obtain ⟨b, hb, hpointer'⟩ := Option.map_eq_some_iff.mp hcertified.symm
      have hnewer : Replica.newerQc qc old = true := by
        have hqview : qc.view = sim.step := (congrArg (fun p => p.2.1) hpointer).trans hview
        have hqepoch : qc.epoch = 0 := congrArg (fun p => p.2.2) hpointer
        have holdview : b.view = old.view := congrArg (fun p => p.2.1) hpointer'
        have holdepoch : 0 = old.epoch := congrArg (fun p => p.2.2) hpointer'
        rw [Replica.newerQc, decide_eq_true_eq, hqview, hqepoch, ← holdview, ← holdepoch]
        exact Or.inr ⟨rfl, h.older b hb⟩
      rw [Replica.newest, if_pos hnewer]

variable [Bincode LogEntry] [Bincode Snapshot] [Crc32] [App σ]

omit [Sha256] [LawfulEd25519] [Bincode Snapshot] in
/-- A replica with the block of the round commits what it settles, and its membership stays. -/
theorem FlowingReplica.closes {n view : Nat} {r c r' : Replica σ}
    (h : FlowingReplica n view blocks highQc r) (hkeeps : r.Keeps c)
    (hqueue : r'.clientQueue ⊆ r.clientQueue)
    (hvalidators : r.activeValidators = defaultValidators n)
    (hline : Line (blocks ++ [block])) (hinert : ∀ b ∈ blocks ++ [block], Inert n b.command)
    (htree : c.blockTree = lineTree (blocks ++ [block])) (hclose : Closes now c r')
    (hview : view < u64Max) :
    FlowingReplica n (view + 1) (blocks ++ [block]) c.highQc r' ∧ r'.membership = r.membership ∧
      r'.identity = r.identity ∧ r'.votePool = OrdMap.empty := by
  obtain ⟨hview', htree', hqc, hpool, hid, hmembership, hlog⟩ := hclose.fields
  have hkeyed : TreeKeyed c.blockTree := htree ▸ hline.keyed
  have hmembership' : r'.membership = r.membership := by
    rw [hmembership, Replica.commitAll_membership now c hkeyed, hkeeps.membership]
    refine Membership.fold_of_not_effective fun command hcommand => ?_
    obtain ⟨b, hb, rfl⟩ := List.mem_map.mp hcommand
    have hmem := (Replica.mem_ready.mp hb).1
    rw [htree, hline.mem_values] at hmem
    exact (hinert b hmem).not_effective hvalidators
  refine ⟨⟨?_, htree'.trans htree, hqc, ?_, ?_, fun cmd hcmd =>
      h.queue cmd (hqueue hcmd)⟩, hmembership',
    hid.trans hkeeps.identity, hpool⟩
  · rw [hview', hkeeps.view, h.view, saturatingAdd]
    exact Nat.min_eq_left hview
  · exact (congrArg Membership.configEpoch hmembership').trans h.epoch
  · rw [hlog, Replica.commitAll_committedLog now c hkeyed]
    refine hline.log_ready htree (m := blocks.length - 2) ?_ ?_
    · rw [List.length_append]
      omega
    · rw [hkeeps.log, h.log, List.take_append_of_le_length (Nat.sub_le ..)]
      rfl

/-- What a round does besides adding blocks: it takes a step, and from the queue of its leader. -/
structure Advances (how : ProposeCall) (sim sim' : Simulation σ) : Prop where
  step : sim'.step = sim.step + 1
  maxSteps : sim'.maxSteps = sim.maxSteps
  available : ∀ i, sim'.available i = sim.available i
  queue : ∀ (i : Nat) r, sim.replicas[i]? = some r → ∃ r', sim'.replicas[i]? = some r' ∧
    r'.clientQueue = if i = sim.currentLeader ∧ sim.available i = true
      then r.queueAfter how else r.clientQueue

omit [Ed25519] [Sha256] [LawfulEd25519] [Bincode LogEntry] [Bincode Snapshot] [Crc32] [App σ] in
theorem Advances.ofClock {how : ProposeCall} {sim' : Simulation σ}
    (h : Advances how sim.advanceSimulatedTime sim') : Advances how sim sim' :=
  ⟨h.step, h.maxSteps, h.available, h.queue⟩

omit [LawfulEd25519] [Bincode LogEntry] [Bincode Snapshot] [Crc32] [App σ] in
/-- A simulation flows after a round if every seat that responds does and no other changes. -/
theorem Flowing.close (h : Flowing allKeys silent blocks highQc sim) {closed : Simulation σ}
    {next : Hash} (hle : sim.network.nextGlobalHash ≤ next)
    (hframe : closed.frame = { sim.frame with nextGlobalHash := next })
    (hquiet : closed.network.messageQueue = []) {blocks' : List Block}
    {highQc' : Option QuorumCert} (hline : Line blocks')
    (hinert : ∀ b ∈ blocks', Inert allKeys.length b.command)
    (holder : ∀ b ∈ tip blocks', b.view ≤ sim.step)
    (hfresh : ∀ b ∈ blocks', b ∈ blocks ∨ b.hash < next)
    (hcertified : highQc'.map QuorumCert.pointer = (tip blocks').map fun b => (b.hash, b.view, 0))
    (hverified : ∀ q ∈ highQc', ∀ (i : Nat) (r : Replica σ), r.OnDuty allKeys i →
      r.keystore.verifyQc q r.dynamicQuorumSize = true) {how : ProposeCall}
    (hseat : ∀ (i : Nat) r, sim.replicas[i]? = some r → ∃ r', closed.replicas[i]? = some r' ∧
      if sim.available i = true then
        r'.clientQueue = (if i = sim.currentLeader then r.queueAfter how else r.clientQueue) ∧
          FlowingReplica allKeys.length (sim.step + 1) blocks' highQc' r' ∧ r'.OnDuty allKeys i
      else r' = r) :
    Flowing allKeys silent blocks' highQc' closed.bumpStep ∧ Advances how sim closed.bumpStep := by
  have hcount : closed.replicas.length = sim.replicas.length := congrArg Frame.count hframe
  have hnum : closed.network.numReplicas = sim.network.numReplicas :=
    congrArg Frame.numReplicas hframe
  have hnext : closed.network.nextGlobalHash = next := congrArg Frame.nextGlobalHash hframe
  have hsteps : closed.step = sim.step := congrArg Frame.step hframe
  have hcrashed : closed.crashedReplicas = sim.crashedReplicas :=
    congrArg Frame.crashedReplicas hframe
  have hresponsive : closed.unresponsiveReplicas = sim.unresponsiveReplicas :=
    congrArg Frame.unresponsiveReplicas hframe
  have havailable : ∀ i, closed.bumpStep.available i = sim.available i := by
    intro i
    show closed.available i = _
    rw [available, available, hcrashed, hresponsive]
  have hback : ∀ (i : Nat) r', closed.replicas[i]? = some r' → r'.OnDuty allKeys i ∧
      r'.currentView ≤ sim.step + 1 ∧ (sim.available i = true →
        FlowingReplica allKeys.length (sim.step + 1) blocks' highQc' r') := by
    intro i r' hr'
    have hlt : i < sim.replicas.length := hcount ▸ (List.getElem?_eq_some_iff.mp hr').1
    have hr := List.getElem?_eq_getElem hlt
    obtain ⟨r'', hr'', hflows⟩ := hseat i _ hr
    obtain rfl : r' = r'' := Option.some.inj (hr'.symm.trans hr'')
    split at hflows
    · obtain ⟨-, hflows, hduty⟩ := hflows
      exact ⟨hduty, hflows.view.le, fun _ => hflows⟩
    · next ha =>
      subst hflows
      exact ⟨h.staffed.duty i _ hr, (h.behind i _ hr).trans (Nat.le_succ _), fun ha' =>
        absurd ha' ha⟩
  refine ⟨⟨⟨hcount.trans h.staffed.count, hnum.trans h.staffed.network, hquiet,
      hcrashed.symm ▸ h.staffed.crashed, fun i r' hr' => (hback i r' hr').1⟩, hline, hinert,
      fun b hb => ?_, fun b hb => ?_, hcertified, hverified, fun i r' hr' ha => ?_,
      fun i r' hr' => ?_, (congrArg Frame.persistenceEnabled hframe).trans h.volatile,
      hcrashed.trans h.crashed, hresponsive.le.trans h.silent⟩,
    congrArg (· + 1) hsteps, congrArg Frame.maxSteps hframe, havailable, fun i r hr => ?_⟩
  · show b.view < closed.step + 1
    rw [hsteps]
    exact Nat.lt_succ_of_le (holder b hb)
  · show b.hash < closed.network.nextGlobalHash
    rw [hnext]
    exact (hfresh b hb).elim (fun hold => (h.fresh b hold).trans_le hle) id
  · show FlowingReplica _ (closed.step + 1) _ _ r'
    rw [hsteps]
    exact (hback i r' hr').2.2 ((havailable i).symm.trans ha)
  · show r'.currentView ≤ closed.step + 1
    rw [hsteps]
    exact (hback i r' hr').2.1
  · obtain ⟨r', hr', hflows⟩ := hseat i r hr
    refine ⟨r', hr', ?_⟩
    split at hflows
    · next ha => simp [hflows.1, ha]
    · next ha => simp [hflows, ha]

section End

variable (how : Hash → ProposeCall) {command : ConsensusCommand} {closed : Simulation σ}
  (h : Flowing allKeys silent blocks highQc sim) (hkeys : GeneratedKeys allKeys)
  (hstep : sim.InStep leader) (hview : sim.step < u64Max)
  (hinert : Inert allKeys.length command)
  (hproposes : leader.proposes now leader.currentView (how sim.network.nextGlobalHash) = true)
  (hblock : block = leader.nextBlock leader.currentView sim.network.nextGlobalHash command)
  (hins : leader.inserted (now, .propose (how sim.network.nextGlobalHash) leader.currentView) =
    some block) (always : Bool)
  (hclosed : closed = advanceViews now .commit true (commitPhase now (certifyPhases now
    sim.currentLeader always block ((sim.led now how leader).markResponded sim.currentLeader)).1))

include h hinert hblock

omit [LawfulEd25519] [Bincode LogEntry] [Bincode Snapshot] [Crc32] [App σ] in
theorem Flowing.inert_append : ∀ b ∈ blocks ++ [block], Inert allKeys.length b.command := by
  intro b hb
  rcases List.mem_append.mp hb with hb | hb
  · exact h.inert b hb
  · rw [List.mem_singleton.mp hb, hblock]
    exact hinert

include hkeys hstep hview hproposes hins hclosed

/-- The end of a round in which the leader has proposed, for one replica. -/
theorem Flowing.roundEnd_seat {qc : QuorumCert}
    (hcertified : ∀ j, ((sim.led now how leader).markResponded sim.currentLeader).certifiedQc
      sim.currentLeader block leader j = some qc)
    {i : Nat} {r : Replica σ} (hr : sim.replicas[i]? = some r) :
    ∃ r', closed.replicas[i]? = some r' ∧
      if sim.available i = true then
        r'.clientQueue = (if i = sim.currentLeader
          then r.queueAfter (how sim.network.nextGlobalHash) else r.clientQueue) ∧
        FlowingReplica allKeys.length (sim.step + 1) (blocks ++ [block]) (some qc) r' ∧
        r'.OnDuty allKeys i
      else r' = r := by
  obtain ⟨-, -, hvisits⟩ := (h.staffed.led_proposed hstep hins).close_visits hkeys always hclosed
  obtain ⟨s, hs, hkeeps, hsilent, hqueue⟩ := led_seats how hstep now i r hr
  obtain ⟨r', hr', hsame, hvisit⟩ := hvisits i s hs
  have havailable : ((sim.led now how leader).markResponded sim.currentLeader).available i =
    sim.available i := rfl
  rw [havailable] at hvisit
  refine ⟨r', hr', ?_⟩
  split at hvisit
  · next ha =>
    have hr₀ := h.replica i r hr ha
    have hduty := h.staffed.duty i r hr
    obtain ⟨c, hkept, hqc, htree, hclose⟩ := hvisit
    have htree' : c.blockTree = lineTree (blocks ++ [block]) := by
      rw [htree (h.usable hstep), lineTree_append, (h.leader_flows hstep).tree]
    simp only [hproposes, and_true] at hqueue
    have hsub : s.clientQueue ⊆ r.clientQueue := by
      rw [hqueue]
      split
      · exact queueAfter_subset r _
      · exact List.Subset.refl _
    obtain ⟨hflowing, hmembership, hidentity, hpool⟩ := hr₀.closes (hkeeps.trans hkept)
      (hsame ▸ hsub) hduty.validators (h.line_append hstep hblock) (h.inert_append hinert hblock)
      htree' hclose hview
    rw [hqc, hcertified] at hflowing
    rw [if_pos ha]
    exact ⟨hsame.trans hqueue, hflowing, hduty.congr hmembership hidentity, hpool⟩
  · next ha =>
    have hne : i ≠ sim.currentLeader := by
      rintro rfl
      exact ha hstep.available
    rw [if_neg ha, hvisit, hsilent hne]

/-- The end of a round in which the leader has proposed. -/
theorem Flowing.roundEnd
    (hquorum : silent.card + (2 * ((allKeys.length - 1) / 3) + 1) < allKeys.length) :
    (∃ highQc', Flowing allKeys silent (blocks ++ [block]) highQc' closed.bumpStep) ∧
      Advances (how sim.network.nextGlobalHash) sim closed.bumpStep := by
  have hproposed := h.staffed.led_proposed hstep hins
  obtain ⟨qc, hpointer, hverified, hcertified⟩ :=
    h.certifiedQc_eq hkeys hquorum hstep hproposed (fun _ => rfl) hblock
  obtain ⟨hframe, hquiet, -⟩ := hproposed.close_visits hkeys always hclosed
  have hend : Flowing allKeys silent (blocks ++ [block]) (some qc) closed.bumpStep ∧
      Advances (how sim.network.nextGlobalHash) sim closed.bumpStep := by
    refine h.close (Nat.le_succ _) (hframe.trans (led_frame now how sim leader)) hquiet
      (h.line_append hstep hblock) (h.inert_append hinert hblock) (fun b hb => ?_) (fun b hb => ?_)
      ?_ (fun q hq => ?_) fun i r hr => h.roundEnd_seat how hkeys hstep hview hinert hproposes
        hblock hins always hclosed hcertified hr
    · rw [tip_append h.line.ne_nil, Option.mem_some_iff] at hb
      rw [← hb, hblock]
      exact (h.leader_flows hstep).view.le
    · rcases List.mem_append.mp hb with hb | hb
      · exact Or.inl hb
      · rw [List.mem_singleton.mp hb, hblock]
        exact Or.inr (Nat.lt_succ_self _)
    · rw [tip_append h.line.ne_nil, Option.map_some, Option.map_some, hpointer]
    · cases hq
      exact hverified
  exact ⟨⟨_, hend.1⟩, hend.2⟩

end End

omit [LawfulEd25519] [Bincode Snapshot] [App σ] in
/-- A round without a proposal uses up a view, and maybe a hash. -/
theorem Flowing.idle (h : Flowing allKeys silent blocks highQc sim) (hview : sim.step < u64Max)
    {opened closed : Simulation σ} {next : Hash} (hle : sim.network.nextGlobalHash ≤ next)
    (hframe : opened.frame = { sim.frame with nextGlobalHash := next })
    (hquiet : opened.network.messageQueue = [])
    (hsame : ∀ i : Nat, opened.replicas[i]? = sim.replicas[i]?) {how : ProposeCall}
    (hidle : ∀ r : Replica σ, sim.replicas[sim.currentLeader]? = some r →
      sim.available sim.currentLeader = true → r.queueAfter how = r.clientQueue)
    (reason : ViewChangeReason) (responds : Bool)
    (hclosed : closed = advanceViews now reason responds opened) :
    Flowing allKeys silent blocks highQc closed.bumpStep ∧ Advances how sim closed.bumpStep := by
  obtain ⟨hframe', hvisits⟩ := advanceViews_visits now reason responds opened
  have hquiet' : closed.network.messageQueue = [] := by
    rw [hclosed, advanceViews_network]
    exact hquiet
  have havailable : ∀ i, opened.available i = sim.available i := by
    intro i
    rw [available, available, show opened.crashedReplicas = sim.crashedReplicas from
      congrArg Frame.crashedReplicas hframe, show opened.unresponsiveReplicas =
      sim.unresponsiveReplicas from congrArg Frame.unresponsiveReplicas hframe]
  rw [← hclosed] at hframe' hvisits
  refine h.close hle (hframe'.trans hframe) hquiet' h.line h.inert
    (fun b hb => (h.older b hb).le) (fun b hb => Or.inl hb) h.certified h.verified
    fun i r hr => ?_
  have hduty := h.staffed.duty i r hr
  obtain ⟨r', hr', hchange⟩ := hvisits i r ((hsame i).trans hr)
  rw [havailable] at hchange
  refine ⟨r', hr', ?_⟩
  split at hchange
  · next ha =>
    have hr₀ := h.replica i r hr ha
    subst hchange
    rw [if_pos ha]
    refine ⟨?_, ⟨?_, hr₀.tree, hr₀.highQc, hr₀.epoch, hr₀.log, hr₀.queue⟩,
      ⟨hduty.size, hduty.id, hduty.validators, hduty.keystore⟩, rfl⟩
    · split
      · next he =>
        subst he
        exact (hidle r hr ha).symm
      · rfl
    · show saturatingAdd r.currentView 1 = _
      rw [hr₀.view, saturatingAdd]
      exact Nat.min_eq_left hview
  · next ha => rw [if_neg ha, hchange]

omit [Sha256] [LawfulEd25519] [Bincode LogEntry] [Bincode Snapshot] [Crc32] [App σ] in
/-- What a leader may propose changes no membership. -/
theorem FlowingReplica.inert_proposed {n view : Nat} {r : Replica σ}
    (h : FlowingReplica n view blocks highQc r) (how : ProposeCall)
    (hown : ∀ cmd, how ≠ .proposeCommand cmd) : Inert n (r.proposedCommand how) := by
  have hlast : Inert n ((r.clientQueue.getLast?).getD .noOp) := by
    cases hq : r.clientQueue.getLast? with
    | none => rfl
    | some cmd => exact h.queue cmd (List.mem_of_getLast? hq)
  cases how with
  | proposeCommand cmd => exact absurd rfl (hown cmd)
  | proposeNext => exact hlast
  | proposeNextWithHash uniqueHash => exact hlast
  | _ => rfl

omit [LawfulEd25519] [Bincode LogEntry] [Bincode Snapshot] [Crc32] [App σ] in
/-- Nobody is swept away. -/
theorem Flowing.processTimeoutCrashes_eq (h : Flowing allKeys silent blocks highQc sim)
    (now : Nat) : sim.processTimeoutCrashes now = sim :=
  foldl_crash_volatile now h.volatile _

omit [LawfulEd25519] [Bincode LogEntry] [Bincode Snapshot] [Crc32] [App σ] in
theorem Flowing.roundStart_eq (h : Flowing allKeys silent blocks highQc sim) (now : Nat) :
    sim.roundStart now = sim.advanceSimulatedTime :=
  h.advanceSimulatedTime.processTimeoutCrashes_eq now

section Rounds

variable (h : Flowing allKeys silent blocks highQc sim) (hkeys : GeneratedKeys allKeys)
  (hquorum : silent.card + (2 * ((allKeys.length - 1) / 3) + 1) < allKeys.length)
  (hmax : sim.maxSteps ≤ u64Max) (hleft : sim.step < sim.maxSteps) (now : Nat)

include h hquorum hmax hleft

omit [LawfulEd25519] in
/-- The turn of a silent leader passes. -/
theorem Flowing.leaderless (ha : sim.available sim.currentLeader = false) (how : ProposeCall) :
    (Flowing allKeys silent blocks highQc (sim.runOneRound now).1 ∧
        Advances how sim (sim.runOneRound now).1) ∧
      Flowing allKeys silent blocks highQc (sim.runOneRoundWithPacemaker now).1 ∧
        Advances how sim (sim.runOneRoundWithPacemaker now).1 := by
  have h' := h.advanceSimulatedTime
  have hopen := fun proposeWith : Replica σ → Nat → Hash → Replica σ × Option Block =>
    h'.staffed.openRound_leaderless (by omega) h'.crashed (h'.currentLeader_lt hquorum) ha hleft
      proposeWith
  have hround : ∀ responds : Bool, Flowing allKeys silent blocks highQc
      (advanceViews now .timeout responds sim.advanceSimulatedTime).bumpStep ∧
      Advances how sim.advanceSimulatedTime
        (advanceViews now .timeout responds sim.advanceSimulatedTime).bumpStep := fun responds =>
    h'.idle (hleft.trans_le hmax) le_rfl rfl h'.staffed.quiet (fun _ => rfl)
      (fun _ _ ha' => absurd (ha.symm.trans ha') Bool.false_ne_true) .timeout responds rfl
  have hplain := hround true
  have hpacemaker := hround false
  constructor
  · simp only [Simulation.runOneRound, h.roundStart_eq, plainOpening, hopen]
    rw [hplain.1.processTimeoutCrashes_eq]
    exact ⟨hplain.1, hplain.2.ofClock⟩
  · simp only [Simulation.runOneRoundWithPacemaker, h.roundStart_eq, pacemakerOpening, hopen]
    exact ⟨hpacemaker.1, hpacemaker.2.ofClock⟩

include hkeys

/-- A plain round of a leader that responds adds a block without effect. -/
theorem Flowing.runOneRound (ha : sim.available sim.currentLeader = true) :
    ∃ block highQc', block.command = .noOp ∧
      Flowing allKeys silent (blocks ++ [block]) highQc' (sim.runOneRound now).1 ∧
      Advances (.proposeWithHash sim.network.nextGlobalHash) sim (sim.runOneRound now).1 := by
  have h' := h.advanceSimulatedTime
  obtain ⟨leader, hstep⟩ := h'.inStep hquorum ha
  have hproposes : leader.proposes now leader.currentView
      (.proposeWithHash sim.advanceSimulatedTime.network.nextGlobalHash) = true := by
    show (leader.isLeader leader.currentView && true) = true
    rw [hstep.leads]
    rfl
  rcases leader.step_propose_cases now leader.currentView
    (.proposeWithHash sim.advanceSimulatedTime.network.nextGlobalHash) with
    ⟨-, hins, -⟩ | ⟨hsilent, -⟩
  · obtain ⟨block, hblock, hins⟩ : ∃ block : Block, block = leader.nextBlock leader.currentView
        sim.advanceSimulatedTime.network.nextGlobalHash .noOp ∧ leader.inserted (now, .propose
          (.proposeWithHash sim.advanceSimulatedTime.network.nextGlobalHash) leader.currentView) =
            some block := ⟨_, rfl, hins⟩
    have hopen : plainOpening now sim.advanceSimulatedTime = _ :=
      h'.staffed.openRound_eq hstep hleft now .proposeWithHash
    rw [hins] at hopen
    obtain ⟨closed, hclosed⟩ : ∃ closed, closed = advanceViews now .commit true (commitPhase now
        (certifyPhases now sim.advanceSimulatedTime.currentLeader false block
          ((sim.advanceSimulatedTime.led now .proposeWithHash leader).markResponded
            sim.advanceSimulatedTime.currentLeader)).1) := ⟨_, rfl⟩
    obtain ⟨⟨highQc', hflowing⟩, hadvances⟩ := h'.roundEnd .proposeWithHash hkeys hstep
      (hleft.trans_le hmax) (show Inert allKeys.length .noOp from rfl) hproposes hblock hins false
      hclosed hquorum
    have hround : (sim.runOneRound now).1 = closed.bumpStep := by
      simp only [Simulation.runOneRound, h.roundStart_eq, hopen, ← hclosed]
      exact hflowing.processTimeoutCrashes_eq now
    rw [hround]
    exact ⟨block, highQc', congrArg Block.command hblock, hflowing, hadvances.ofClock⟩
  · rw [hsilent] at hproposes
    cases hproposes

/-- A pacemaker round of a leader that responds adds a block with the last command of its queue, or
none if there is no command. -/
theorem Flowing.runOneRoundWithPacemaker (ha : sim.available sim.currentLeader = true) :
    ∃ leader more highQc', sim.replicas[sim.currentLeader]? = some leader ∧
      (more.map Block.command = [(leader.clientQueue.getLast?).getD .noOp] ∨
        more = [] ∧ leader.clientQueue = []) ∧
      Flowing allKeys silent (blocks ++ more) highQc' (sim.runOneRoundWithPacemaker now).1 ∧
      Advances (.proposeNextWithHash sim.network.nextGlobalHash) sim
        (sim.runOneRoundWithPacemaker now).1 := by
  have h' := h.advanceSimulatedTime
  obtain ⟨leader, hstep⟩ := h'.inStep hquorum ha
  have hopen : pacemakerOpening now sim.advanceSimulatedTime = _ :=
    h'.staffed.openRound_eq hstep hleft now .proposeNextWithHash
  rcases leader.step_propose_cases now leader.currentView
    (.proposeNextWithHash sim.advanceSimulatedTime.network.nextGlobalHash) with
    ⟨hproposes, hins, -⟩ | ⟨hsilent, hins, hafter⟩
  · obtain ⟨block, hblock, hins⟩ : ∃ block : Block, block = leader.nextBlock leader.currentView
        sim.advanceSimulatedTime.network.nextGlobalHash ((leader.clientQueue.getLast?).getD .noOp) ∧
          leader.inserted (now, .propose
            (.proposeNextWithHash sim.advanceSimulatedTime.network.nextGlobalHash)
              leader.currentView) = some block := ⟨_, rfl, hins⟩
    have hinert := (h'.leader_flows hstep).inert_proposed
      (.proposeNextWithHash sim.network.nextGlobalHash) (by simp)
    rw [hins] at hopen
    obtain ⟨closed, hclosed⟩ : ∃ closed, closed = advanceViews now .commit true (commitPhase now
        (certifyPhases now sim.advanceSimulatedTime.currentLeader true block
          ((sim.advanceSimulatedTime.led now .proposeNextWithHash leader).markResponded
            sim.advanceSimulatedTime.currentLeader)).1) := ⟨_, rfl⟩
    obtain ⟨⟨highQc', hflowing⟩, hadvances⟩ := h'.roundEnd .proposeNextWithHash hkeys hstep
      (hleft.trans_le hmax) hinert hproposes hblock hins true hclosed hquorum
    have hround : (sim.runOneRoundWithPacemaker now).1 = closed.bumpStep := by
      simp only [Simulation.runOneRoundWithPacemaker, h.roundStart_eq, hopen, ← hclosed]
    rw [hround]
    exact ⟨leader, [block], highQc', hstep.leaderAt,
      Or.inl (congrArg (fun b : Block => [b.command]) hblock), hflowing, hadvances.ofClock⟩
  · rw [hins] at hopen
    have hempty : leader.clientQueue = [] := by
      rw [Replica.proposes, hstep.leads, Bool.true_and] at hsilent
      simpa using (Bool.or_eq_false_iff.mp hsilent).1
    have hsame : ∀ i : Nat, (sim.advanceSimulatedTime.led now .proposeNextWithHash
        leader).replicas[i]? = sim.advanceSimulatedTime.replicas[i]? := by
      intro i
      by_cases hi : i = sim.advanceSimulatedTime.currentLeader
      · subst hi
        rw [hstep.leaderAt, led, hafter]
        exact List.getElem?_set_self (List.getElem?_eq_some_iff.mp hstep.leaderAt).1
      · exact List.getElem?_set_ne (Ne.symm hi)
    have hidle : ∀ r : Replica σ, sim.advanceSimulatedTime.replicas[
        sim.advanceSimulatedTime.currentLeader]? = some r →
        sim.advanceSimulatedTime.available sim.advanceSimulatedTime.currentLeader = true →
        r.queueAfter (.proposeNextWithHash sim.network.nextGlobalHash) = r.clientQueue := by
      intro r hr _
      obtain rfl : leader = r := Option.some.inj (hstep.leaderAt.symm.trans hr)
      rw [Replica.queueAfter, hempty]
      rfl
    obtain ⟨hflowing, hadvances⟩ := h'.idle (hleft.trans_le hmax) (Nat.le_succ _)
      (led_frame now .proposeNextWithHash sim.advanceSimulatedTime leader) h'.staffed.quiet hsame
      hidle .commit false rfl
    have hround : (sim.runOneRoundWithPacemaker now).1 = (advanceViews now .commit false
        (sim.advanceSimulatedTime.led now .proposeNextWithHash leader)).bumpStep := by
      simp only [Simulation.runOneRoundWithPacemaker, h.roundStart_eq, hopen]
    rw [hround]
    exact ⟨leader, [], highQc, hstep.leaderAt, Or.inr ⟨rfl, hempty⟩,
      (List.append_nil blocks).symm ▸ hflowing, hadvances.ofClock⟩

end Rounds

end Round

end Simulation

end PersistHotStuff
