import PersistHotStuff.Simulator.Duty
import PersistHotStuff.Simulator.SteadyTree

/-!
# Runs without faults

While no replica is crashed or unresponsive, all replicas hold the same tree and
the same certificate. Every round proposes the block of its view, certifies it
with the votes of everyone but the leader, and commits the block two views back.
-/

namespace PersistHotStuff

open Basis

namespace Simulation

variable {σ : Type} [Ed25519] {allKeys : List (ReplicaId × Bytes)} {k : Nat}
  {tree : OrdMap Hash Block} {highQc : Option QuorumCert} {sim : Simulation σ}

/-- One replica after `k` rounds without faults. -/
structure SteadyReplica (k : Nat) (tree : OrdMap Hash Block) (highQc : Option QuorumCert)
    (r : Replica σ) : Prop where
  view : r.currentView = k
  tree : r.blockTree = tree
  highQc : r.highQc = highQc
  epoch : r.configEpoch = 0
  log : r.committedLog.map Block.hash = List.range' 1 (k - 2)

/-- The certificate after `k` rounds is for block `k`, in view `k - 1`. -/
def SteadyQc (k : Nat) (highQc : Option QuorumCert) : Prop :=
  highQc.map QuorumCert.pointer = if k = 0 then none else some (k, k - 1, 0)

variable [Sha256]

/-- A simulation after `k` rounds without faults. -/
structure Steady (allKeys : List (ReplicaId × Bytes)) (k : Nat) (tree : OrdMap Hash Block)
    (highQc : Option QuorumCert) (sim : Simulation σ) : Prop where
  staffed : Staffed allKeys sim
  chain : SteadyTree allKeys.length k tree
  qc : SteadyQc k highQc
  verified : ∀ q ∈ highQc, ∀ (i : Nat) (r : Replica σ), r.OnDuty allKeys i →
    r.keystore.verifyQc q r.dynamicQuorumSize = true
  replica : ∀ (i : Nat) r, sim.replicas[i]? = some r → SteadyReplica k tree highQc r
  nextHash : sim.network.nextGlobalHash = k + 1
  step : sim.step = k
  crashed : sim.crashedReplicas = ∅
  unresponsive : sim.unresponsiveReplicas = ∅

omit [Ed25519] [Sha256] in
theorem available_of_calm (hcrashed : sim.crashedReplicas = ∅)
    (hunresponsive : sim.unresponsiveReplicas = ∅) (i : Nat) : sim.available i = true := by
  rw [available, hcrashed, hunresponsive]
  rfl

omit [Ed25519] [Sha256] in
/-- Without unresponsive replicas nothing times out. -/
theorem processTimeoutCrashes_calm (h : sim.unresponsiveReplicas = ∅) (now : Nat) :
    sim.processTimeoutCrashes now = sim := by
  obtain ⟨ids, hids, heq⟩ := processTimeoutCrashes_eq now sim
  have hnone : ids = [] := by
    refine List.eq_nil_iff_forall_not_mem.mpr fun i hi => ?_
    have hmem := hids i hi
    rw [h] at hmem
    exact Finset.notMem_empty i hmem
  rw [heq, hnone]
  rfl

omit [Sha256] in
/-- A new simulation is staffed. -/
theorem staffed_new (now f maxSteps : Nat) (allKeys : List (ReplicaId × Bytes)) :
    Staffed allKeys (Simulation.new (σ := σ) now f maxSteps allKeys) := by
  have hlen : (KeyStore.distributeKeys allKeys).length = allKeys.length :=
    KeyStore.length_distributeKeys
  exact ⟨(List.length_mapIdx ..).trans hlen, rfl, rfl,
    fun i hi => absurd hi (Finset.notMem_empty i), fun i r hr => onDuty_new now f maxSteps hr⟩

/-- A new simulation is steady. -/
theorem steady_new (now f maxSteps : Nat) (allKeys : List (ReplicaId × Bytes)) :
    Steady allKeys 0 genesisTree none (Simulation.new (σ := σ) now f maxSteps allKeys) := by
  refine ⟨staffed_new now f maxSteps allKeys, SteadyTree.genesisTree _, rfl,
    fun q hq => (by cases hq), fun i r hr => ?_, rfl, rfl, rfl, rfl⟩
  simp only [Simulation.new, start, List.getElem?_mapIdx, Option.map_eq_some_iff] at hr
  obtain ⟨ks, -, rfl⟩ := hr
  simp only [freshReplica, Replica.ensureDefaultValidators]
  split
  · exact ⟨rfl, rfl, rfl, rfl, rfl⟩
  · exact ⟨rfl, rfl, rfl, rfl, rfl⟩

theorem Steady.advanceSimulatedTime (h : Steady allKeys k tree highQc sim) :
    Steady allKeys k tree highQc sim.advanceSimulatedTime :=
  ⟨⟨h.staffed.count, h.staffed.network, h.staffed.quiet, h.staffed.crashed, h.staffed.duty⟩,
    h.chain, h.qc, h.verified, h.replica, h.nextHash, h.step, h.crashed, h.unresponsive⟩

omit [Ed25519] [Sha256] in
/-- What stays during a round that opens with a proposal. -/
theorem roundEnd_frame {leader : Replica σ} {now : Nat} {sim' : Simulation σ}
    (h : sim'.frame = (sim.afterProposal now leader).frame) :
    sim'.replicas.length = sim.replicas.length ∧
      sim'.network.numReplicas = sim.network.numReplicas ∧
      sim'.network.nextGlobalHash = sim.network.nextGlobalHash + 1 ∧ sim'.step = sim.step ∧
      sim'.maxSteps = sim.maxSteps ∧ sim'.crashedReplicas = sim.crashedReplicas ∧
      sim'.unresponsiveReplicas = sim.unresponsiveReplicas := by
  rw [afterProposal_frame] at h
  exact ⟨congrArg Frame.count h, congrArg Frame.numReplicas h, congrArg Frame.nextGlobalHash h,
    congrArg Frame.step h, congrArg Frame.maxSteps h, congrArg Frame.crashedReplicas h,
    congrArg Frame.unresponsiveReplicas h⟩

omit [Ed25519] [Sha256] in
/-- With everyone live and in one view, the replica leads whose seat is the view modulo the number
of seats. -/
theorem currentLeader_of_uniform (hne : sim.replicas ≠ []) (hcrashed : sim.crashedReplicas = ∅)
    {view : Nat} (hview : ∀ r ∈ sim.replicas, r.currentView = view) :
    sim.currentLeader = view % sim.replicas.length := by
  have hpos : 0 < sim.replicas.length := List.length_pos_iff.mpr hne
  have hlive : (sim.replicas.zipIdx.filter fun p => decide (p.2 ∉ sim.crashedReplicas)) =
      sim.replicas.zipIdx := by
    rw [hcrashed]
    exact List.filter_eq_self.mpr fun p _ => decide_eq_true (Finset.notMem_empty p.2)
  have hviews : sim.replicas.zipIdx.map (fun p => p.1.currentView) =
      List.replicate sim.replicas.length view := by
    refine List.eq_replicate_iff.mpr ⟨by rw [List.length_map, List.length_zipIdx], ?_⟩
    intro v hv
    obtain ⟨p, hp, rfl⟩ := List.mem_map.mp hv
    exact hview p.1 (List.mem_of_getElem? (List.mem_zipIdx_iff_getElem?.mp hp))
  obtain ⟨k, hk⟩ : ∃ k, sim.replicas.length = k + 1 := ⟨_, (Nat.succ_pred_eq_of_pos hpos).symm⟩
  have hmax : maxView (List.replicate (k + 1) view) = some view := by
    refine List.max?_eq_some_iff.mpr ⟨?_, fun v hv => (List.eq_of_mem_replicate hv).le⟩
    exact List.mem_replicate.mpr ⟨Nat.succ_ne_zero k, rfl⟩
  have hempty : sim.replicas.isEmpty = false := List.isEmpty_eq_false_iff.mpr hne
  have hfirst : (List.range sim.replicas.length).map (fun offset =>
      (view + offset) % sim.replicas.length) = view % sim.replicas.length ::
        (List.range k).map fun offset => (view + (offset + 1)) % sim.replicas.length := by
    rw [hk, List.range_succ_eq_map, List.map_cons, List.map_map]
    rfl
  simp only [currentLeader, hempty, Bool.false_eq_true, if_false]
  rw [hlive, hviews, hk, hmax, Option.getD_some, ← hk, hfirst]
  simp only [List.find?_cons, hcrashed, Finset.notMem_empty, not_false_eq_true, decide_true,
    Option.getD_some]

section Lead

variable (h : Steady allKeys k tree highQc sim) (hn : 0 < allKeys.length)

include h hn

/-- Leaders take turns. -/
theorem Steady.currentLeader_eq : sim.currentLeader = k % allKeys.length := by
  have hne : sim.replicas ≠ [] := List.length_pos_iff.mp (h.staffed.count ▸ hn)
  have hview : ∀ r ∈ sim.replicas, r.currentView = k := by
    intro r hr
    obtain ⟨i, hi⟩ := List.mem_iff_getElem?.mp hr
    exact (h.replica i r hi).view
  rw [currentLeader_of_uniform hne h.crashed hview, h.staffed.count]

/-- The leader proposes and all others agree with it. -/
theorem Steady.inStep : ∃ leader : Replica σ, sim.InStep leader ∧ leader.config.id =
    k % allKeys.length := by
  have hlead := h.currentLeader_eq hn
  have hlt : sim.currentLeader < sim.replicas.length := by
    rw [hlead, h.staffed.count]
    exact Nat.mod_lt _ hn
  have hleader := List.getElem?_eq_getElem hlt
  have hduty := h.staffed.duty _ _ hleader
  have hsteady := h.replica _ _ hleader
  refine ⟨_, ⟨hleader, available_of_calm h.crashed h.unresponsive _, ?_, fun j r hr _ => ?_⟩,
    hduty.id.trans hlead⟩
  · rw [Replica.isLeader, Replica.dynamicLeaderForView_default hn hduty.validators, hsteady.view,
      hduty.id, hlead]
    exact beq_self_eq_true _
  · have hr' := h.replica j r hr
    exact ⟨hr'.view.trans hsteady.view.symm, hr'.tree.trans hsteady.tree.symm,
      hr'.highQc.trans hsteady.highQc.symm, hr'.epoch.trans hsteady.epoch.symm,
      (h.staffed.duty j r hr).validators.trans hduty.validators.symm⟩

end Lead

section Propose

variable {leader : Replica σ} (h : Steady allKeys k tree highQc sim) (hstep : sim.InStep leader)

include h hstep

/-- The next block is built on the last one. -/
theorem Steady.nextParent_eq : leader.nextParent = some k := by
  have hsteady := h.replica _ _ hstep.leaderAt
  have hqc := h.qc
  rw [Replica.nextParent, hsteady.highQc]
  cases highQc with
  | some q =>
    rw [SteadyQc, Option.map_some] at hqc
    split at hqc
    · cases hqc
    · exact congrArg (Option.map Prod.fst) hqc
  | none =>
    rw [SteadyQc, Option.map_none] at hqc
    split at hqc
    · rename_i hk
      subst hk
      -- only genesis is there
      have htree : tree = genesisTree := by
        refine OrdMap.ext_get? fun hash => ?_
        by_cases hz : hash = 0
        · rw [hz, h.chain.genesis]
          rfl
        · have hnone : ∀ t : OrdMap Hash Block, SteadyTree allKeys.length 0 t →
              t.get? hash = none := by
            intro t ht
            rw [← Option.not_isSome_iff_eq_none]
            exact fun hsome => hz (Nat.le_zero.mp ((ht.known hash).mp hsome))
          rw [hnone _ h.chain, hnone _ (SteadyTree.genesisTree _)]
      simp only [Replica.latestBlockHash, hsteady.tree, htree]
      rfl
    · cases hqc

/-- The certificate of the leader is usable. -/
theorem Steady.usable : leader.Usable := by
  have hsteady := h.replica _ _ hstep.leaderAt
  constructor
  · intro parent hparent
    rw [h.nextParent_eq hstep, Option.mem_def, Option.some.injEq] at hparent
    rw [hsteady.tree, h.chain.known, ← hparent]
  · intro q hq
    rw [hsteady.highQc] at hq
    refine ⟨?_, h.verified q hq _ _ (h.staffed.duty _ _ hstep.leaderAt)⟩
    have hqc := h.qc
    rw [SteadyQc, Option.mem_def.mp hq, Option.map_some] at hqc
    split at hqc
    · cases hqc
    · rw [hsteady.epoch]
      exact congrArg (fun p => p.2.2) (Option.some.inj hqc)

/-- The leader proposes the block of its view. -/
theorem Steady.nextProposal_eq (hid : leader.config.id = k % allKeys.length) :
    sim.nextProposal leader = steadyBlock allKeys.length k highQc := by
  have hsteady := h.replica _ _ hstep.leaderAt
  rw [nextProposal, Replica.nextBlock, h.nextParent_eq hstep, hsteady.view, hsteady.epoch,
    hsteady.highQc, h.nextHash, hid]
  rfl

end Propose

section Round

variable {leader : Replica σ} {now : Nat}

/-- Every round without faults forms a certificate. -/
theorem Steady.outcome_eq (h : Steady allKeys k tree highQc sim) (hstep : sim.InStep leader)
    (hn : 2 ≤ allKeys.length) (now : Nat) :
    ∃ qc, (sim.afterProposal now leader).outcome sim.currentLeader (sim.nextProposal leader)
      leader = some qc := by
  have hproposed := h.staffed.proposed hstep now
  have hduty := h.staffed.duty _ _ hstep.leaderAt
  have hlt : sim.currentLeader < allKeys.length := by
    rw [h.currentLeader_eq (by omega)]
    exact Nat.mod_lt _ (by omega)
  have hall : (others allKeys.length sim.currentLeader).countP
      (fun j => (sim.afterProposal now leader).available j) = allKeys.length - 1 := by
    rw [← length_others hlt, List.countP_eq_length]
    intro j _
    rw [afterProposal_available]
    exact available_of_calm h.crashed h.unresponsive j
  have hlen := hproposed.length_ballots.1 (h.usable hstep)
  rw [hall] at hlen
  refine ⟨_, if_pos ?_⟩
  rw [List.length_map, hlen, Replica.dynamicQuorumSize_default (by omega) hduty.validators]
  omega

/-- Every block but the first one carries a certificate. -/
theorem Steady.insert (h : Steady allKeys k tree highQc sim) : SteadyTree allKeys.length (k + 1)
    (tree.insert (k + 1) (steadyBlock allKeys.length k highQc)) := by
  refine h.chain.insert ?_
  have hchain := h.qc
  rw [SteadyQc] at hchain
  cases highQc with
  | none =>
    split at hchain
    · simp [*]
    · cases hchain
  | some old =>
    split at hchain
    · cases hchain
    · simp only [Option.isSome_some, true_iff]
      omega

variable [LawfulEd25519]

/-- It is the certificate of every replica at the end of the round. -/
theorem Steady.certifiedQc_eq (h : Steady allKeys k tree highQc sim) (hkeys : GeneratedKeys allKeys)
    (hstep : sim.InStep leader) (hn : 2 ≤ allKeys.length) (now : Nat) :
    ∃ qc, SteadyQc (k + 1) (some qc) ∧
      (∀ (i : Nat) (r : Replica σ), r.OnDuty allKeys i →
        r.keystore.verifyQc qc r.dynamicQuorumSize = true) ∧
      ∀ j, (sim.afterProposal now leader).certifiedQc sim.currentLeader (sim.nextProposal leader)
        leader j = some qc := by
  have hsteady := h.replica _ _ hstep.leaderAt
  obtain ⟨qc, hqc⟩ := h.outcome_eq hstep hn now
  have hverify := fun (i : Nat) (r : Replica σ) (hr : r.OnDuty allKeys i) =>
    (h.staffed.proposed hstep now).verifyQc_outcome hkeys hqc hr
  obtain ⟨hpointer, -⟩ := hverify _ _ (h.staffed.duty _ _ hstep.leaderAt)
  have hpointer' : qc.pointer = (k + 1, k, 0) := by
    rw [hpointer]
    simp only [nextProposal, Replica.nextBlock, h.nextHash, hsteady.view, hsteady.epoch]
  refine ⟨qc, ?_, fun i r hr => (hverify i r hr).2, fun j => ?_⟩
  · rw [SteadyQc, if_neg (Nat.succ_ne_zero k), Option.map_some, hpointer', Nat.add_sub_cancel]
  · rw [certifiedQc, hqc]
    split
    · rfl
    · rw [hsteady.highQc]
      cases hold : highQc with
      | none => rfl
      | some old =>
        have hchain := h.qc
        rw [SteadyQc, hold, Option.map_some] at hchain
        split at hchain
        · cases hchain
        · rename_i hk
          have hview : old.view = k - 1 := congrArg (fun p => p.2.1) (Option.some.inj hchain)
          have hepoch : old.epoch = 0 := congrArg (fun p => p.2.2) (Option.some.inj hchain)
          have hview' : qc.view = k := congrArg (fun p => p.2.1) hpointer'
          have hepoch' : qc.epoch = 0 := congrArg (fun p => p.2.2) hpointer'
          have hnewer : Replica.newerQc qc old = true := by
            rw [Replica.newerQc, decide_eq_true_eq, hview, hepoch, hview', hepoch']
            exact Or.inr ⟨rfl, by omega⟩
          rw [Replica.newest, if_pos hnewer]

variable [Bincode LogEntry] [Bincode Snapshot] [Crc32] [App σ]

omit [Sha256] [LawfulEd25519] [Bincode Snapshot] in
/-- A replica with the block of the round commits one block, and its membership stays. -/
theorem SteadyReplica.closes {n : Nat} {r c r' : Replica σ} (h : SteadyReplica k tree highQc r)
    (hkeeps : r.Keeps c) (htree : SteadyTree n (k + 1) c.blockTree)
    (hclose : Closes now c r') (hk : k < u64Max) :
    SteadyReplica (k + 1) c.blockTree c.highQc r' ∧ r'.membership = r.membership ∧
      r'.identity = r.identity ∧ r'.votePool = OrdMap.empty := by
  obtain ⟨hview, htree', hqc, hpool, hid, hmembership, hlog⟩ := hclose.fields
  have hmembership' : r'.membership = r.membership := by
    rw [hmembership, Replica.commitAll_membership now c htree.keyed, hkeeps.membership]
    refine Membership.fold_of_not_effective fun command hcommand => ?_
    obtain ⟨block, hblock, rfl⟩ := List.mem_map.mp hcommand
    rw [htree.command_eq (Replica.mem_ready.mp hblock).1]
    rfl
  refine ⟨⟨?_, htree', hqc, ?_, ?_⟩, hmembership', hid.trans hkeeps.identity, hpool⟩
  · rw [hview, hkeeps.view, h.view, saturatingAdd]
    exact Nat.min_eq_left hk
  · exact (congrArg Membership.configEpoch hmembership').trans h.epoch
  · rw [hlog, Replica.commitAll_committedLog now c htree.keyed]
    refine htree.log_ready ?_
    rw [hkeeps.log, h.log]
    rfl

/-- The end of a round without faults, for one replica. -/
theorem Steady.roundEnd_replica (hkeys : GeneratedKeys allKeys)
    (h : Steady allKeys k tree highQc sim) (hstep : sim.InStep leader)
    (hid : leader.config.id = k % allKeys.length) (hk : k < u64Max) (now : Nat)
    {qc : QuorumCert} (hcertified : ∀ j, (sim.afterProposal now leader).certifiedQc
      sim.currentLeader (sim.nextProposal leader) leader j = some qc)
    {i : Nat} {r' : Replica σ} (hr' : (sim.roundEnd now leader).replicas[i]? = some r') :
    SteadyReplica (k + 1) (tree.insert (k + 1) (steadyBlock allKeys.length k highQc)) (some qc)
      r' ∧ r'.OnDuty allKeys i := by
  obtain ⟨hframe, -, hvisits⟩ := h.staffed.roundEnd_visits hkeys hstep now
  obtain ⟨hlen, -⟩ := roundEnd_frame hframe
  obtain ⟨hlt, -⟩ := List.getElem?_eq_some_iff.mp hr'
  have hr := List.getElem?_eq_getElem (hlen ▸ hlt)
  obtain ⟨r'', hr'', hvisit⟩ := hvisits i _ hr
  rw [hr', Option.some.injEq] at hr''
  subst hr''
  rw [available_of_calm h.crashed h.unresponsive, if_pos rfl] at hvisit
  obtain ⟨c, hkeeps, hqc, htree, hclose⟩ := hvisit
  rw [hcertified] at hqc
  have htree := htree (h.usable hstep)
  rw [h.nextProposal_eq hstep hid, (h.replica _ _ hstep.leaderAt).tree] at htree
  obtain ⟨hsteady, hmembership, hidentity, hpool⟩ :=
    (h.replica i _ hr).closes hkeeps (htree.symm ▸ h.insert) hclose hk
  rw [htree, hqc] at hsteady
  exact ⟨hsteady, ⟨(h.staffed.duty i _ hr).congr hmembership hidentity, hpool⟩⟩

/-- The end of a round without faults. -/
theorem Steady.roundEnd (hkeys : GeneratedKeys allKeys) (hn : 2 ≤ allKeys.length)
    (h : Steady allKeys k tree highQc sim) (hstep : sim.InStep leader)
    (hid : leader.config.id = k % allKeys.length) (hk : k < u64Max) (now : Nat) :
    ∃ tree' highQc', Steady allKeys (k + 1) tree' highQc' (sim.roundEnd now leader).bumpStep := by
  obtain ⟨hframe, hquiet, -⟩ := h.staffed.roundEnd_visits hkeys hstep now
  obtain ⟨hcount, hnum, hnext, hstep', -, hcrashed, hunresponsive⟩ := roundEnd_frame hframe
  obtain ⟨qc, hqc, hverified, hcertified⟩ := h.certifiedQc_eq hkeys hstep hn now
  have hreplica := fun (i : Nat) (r' : Replica σ)
    (hr' : (sim.roundEnd now leader).replicas[i]? = some r') =>
      h.roundEnd_replica hkeys hstep hid hk now hcertified hr'
  have hcalm := hcrashed.trans h.crashed
  generalize sim.roundEnd now leader = sim'
    at hquiet hcount hnum hnext hstep' hunresponsive hcalm hreplica ⊢
  refine ⟨_, some qc,
    { staffed :=
        { count := hcount.trans h.staffed.count
          network := hnum.trans h.staffed.network
          quiet := hquiet
          crashed := fun i hi => ?_
          duty := fun i r' hr' => (hreplica i r' hr').2 }
      chain := h.insert
      qc := hqc
      verified := fun q hq => ?_
      replica := fun i r' hr' => (hreplica i r' hr').1
      nextHash := hnext.trans (congrArg (· + 1) h.nextHash)
      step := congrArg (· + 1) (hstep'.trans h.step)
      crashed := hcalm
      unresponsive := hunresponsive.trans h.unresponsive }⟩
  · have hmem : i ∈ sim'.crashedReplicas := hi
    rw [hcalm] at hmem
    exact absurd hmem (Finset.notMem_empty i)
  · cases hq
    exact hverified

/-- A round without faults. -/
theorem Steady.runOneRound (hkeys : GeneratedKeys allKeys) (hn : 2 ≤ allKeys.length)
    (h : Steady allKeys k tree highQc sim) (hleft : k < sim.maxSteps)
    (hmax : sim.maxSteps ≤ u64Max) (now : Nat) :
    (∃ tree' highQc', Steady allKeys (k + 1) tree' highQc' (sim.runOneRound now).1) ∧
      (sim.runOneRound now).1.maxSteps = sim.maxSteps := by
  have h' := h.advanceSimulatedTime
  have hstart : sim.roundStart now = sim.advanceSimulatedTime :=
    processTimeoutCrashes_calm h'.unresponsive now
  obtain ⟨leader, hstep, hid⟩ := h'.inStep (by omega)
  have hround := h'.staffed.runOneRound_eq hstep (h.step.symm ▸ hleft) hstart
  obtain ⟨hframe, -⟩ := h'.staffed.roundEnd_visits hkeys hstep now
  obtain ⟨-, -, -, -, hmaxSteps, -⟩ := roundEnd_frame hframe
  have hend := h'.roundEnd hkeys hn hstep hid (by omega) now
  generalize sim.advanceSimulatedTime.roundEnd now leader = sim' at hround hmaxSteps hend
  obtain ⟨tree', highQc', hend⟩ := hend
  rw [hround, processTimeoutCrashes_calm hend.unresponsive]
  exact ⟨⟨tree', highQc', hend⟩, hmaxSteps⟩

/-- Rounds without faults. -/
theorem Steady.run (hkeys : GeneratedKeys allKeys) (hn : 2 ≤ allKeys.length)
    (h : Steady allKeys k tree highQc sim) {times : List Nat}
    (hleft : k + times.length ≤ sim.maxSteps) (hmax : sim.maxSteps ≤ u64Max) :
    ∃ tree' highQc', Steady allKeys (k + times.length) tree' highQc'
      (run (fun sim now => (sim.runOneRound now).1) sim times) := by
  induction times generalizing k tree highQc sim with
  | nil => exact ⟨tree, highQc, h⟩
  | cons now times ih =>
    rw [List.length_cons] at hleft ⊢
    obtain ⟨⟨tree', highQc', hround⟩, hsame⟩ := h.runOneRound hkeys hn (by omega) hmax now
    rw [run_cons, Nat.add_comm times.length, ← Nat.add_assoc]
    exact ih hround (by omega) (hsame.symm ▸ hmax)

end Round

end Simulation

/-- What a replica of `n` holds after `k` rounds without faults. -/
structure Replica.ExactAfter {σ : Type} [Ed25519] [Sha256] (n k : Nat) (r : Replica σ) :
    Prop where
  view : r.currentView = k
  hashes : r.blockTree.keys = List.range (k + 1)
  chain : ∀ i, 0 < i → i ≤ k → ∃ block, r.blockTree.get? i = some block ∧
    block.parent = some (i - 1) ∧ block.view = i - 1 ∧ block.proposer = (i - 1) % n
  certified : 0 < k → ∃ qc, r.highQc = some qc ∧ qc.blockHash = k ∧ qc.view = k - 1 ∧
    r.keystore.verifyQc qc r.dynamicQuorumSize = true
  committed : r.committedLog.map Block.hash = List.range' 1 (k - 2)

namespace Simulation

variable {σ : Type} [Ed25519] [Sha256] {allKeys : List (ReplicaId × Bytes)} {k : Nat}
  {tree : OrdMap Hash Block} {highQc : Option QuorumCert} {sim : Simulation σ}

theorem Steady.exactAfter (h : Steady allKeys k tree highQc sim) {i : Nat} {r : Replica σ}
    (hr : sim.replicas[i]? = some r) : r.ExactAfter allKeys.length k := by
  have hsteady := h.replica i r hr
  refine ⟨hsteady.view, ?_, fun j hpos hle => ?_, fun hpos => ?_, hsteady.log⟩
  · rw [hsteady.tree, h.chain.keys_eq]
  · obtain ⟨qc, hget, -⟩ := h.chain.chained (j - 1) (by omega)
    rw [show j - 1 + 1 = j by omega] at hget
    exact ⟨_, hsteady.tree.symm ▸ hget, rfl, rfl, rfl⟩
  · have hchain := h.qc
    rw [SteadyQc, if_neg (by omega)] at hchain
    obtain ⟨qc, hqc, hpointer⟩ := Option.map_eq_some_iff.mp hchain
    exact ⟨qc, hsteady.highQc.trans hqc, congrArg Prod.fst hpointer,
      congrArg (fun p => p.2.1) hpointer, h.verified qc hqc i r (h.staffed.duty i r hr)⟩

/-- After `k` rounds without faults every replica is in view `k` with one block for each view, the
last one certified and all but the last two committed. -/
theorem exactAfter_rounds [LawfulEd25519] [Bincode LogEntry] [Bincode Snapshot] [Crc32] [App σ]
    (hkeys : GeneratedKeys allKeys) (hn : 2 ≤ allKeys.length) (now f : Nat) {maxSteps : Nat}
    (hmax : maxSteps ≤ u64Max) {times : List Nat} (hrounds : times.length ≤ maxSteps) :
    (run (fun sim now => (sim.runOneRound now).1)
        (Simulation.new (σ := σ) now f maxSteps allKeys) times).replicas.length = allKeys.length ∧
      ∀ r ∈ (run (fun sim now => (sim.runOneRound now).1)
        (Simulation.new (σ := σ) now f maxSteps allKeys) times).replicas,
        r.ExactAfter allKeys.length times.length := by
  have hleft : 0 + times.length ≤ maxSteps := by omega
  obtain ⟨tree, highQc, h⟩ := (steady_new (σ := σ) now f maxSteps allKeys).run hkeys hn hleft hmax
  rw [Nat.zero_add] at h
  refine ⟨h.staffed.count, fun r hr => ?_⟩
  obtain ⟨i, hlt, rfl⟩ := List.mem_iff_getElem.mp hr
  exact h.exactAfter (List.getElem?_eq_getElem hlt)

end Simulation

namespace Simulation

section Samples

open Sample

/-- Five rounds of two replicas without faults. -/
theorem exactAfter_five :
    (run (fun sim now => (sim.runOneRound now).1)
        (Simulation.new (σ := NoOpApp) 0 0 20 (Trace.sampleKeys 2)) [1, 2, 3, 4, 5]).replicas.length
        = 2 ∧
      ∀ r ∈ (run (fun sim now => (sim.runOneRound now).1)
        (Simulation.new (σ := NoOpApp) 0 0 20 (Trace.sampleKeys 2)) [1, 2, 3, 4, 5]).replicas,
        r.ExactAfter 2 5 :=
  exactAfter_rounds (show GeneratedKeys (Trace.sampleKeys 2) from List.Perm.refl _) (by decide)
    0 0 (show 20 ≤ u64Max by decide) (show [1, 2, 3, 4, 5].length ≤ 20 by decide)

end Samples

end Simulation

end PersistHotStuff
