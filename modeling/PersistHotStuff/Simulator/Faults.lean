import PersistHotStuff.Simulator.Sweep

/-!
# Rounds with faults

A leader never votes for its own block, so of `3f + 1` replicas the `2f + 1`
votes of a quorum must come from the `3f` others: one replica less than `f` may
be missing. With `f` replicas missing no certificate is formed.
-/

namespace PersistHotStuff

open Basis

/-- The replica's high certificate certifies a block and verifies. -/
def Replica.Certifies {σ : Type} [Ed25519] [Sha256] (r : Replica σ) (block : Block) : Prop :=
  ∃ qc, r.highQc = some qc ∧ qc.pointer = (block.hash, block.view, block.epoch) ∧
    r.keystore.verifyQc qc r.dynamicQuorumSize = true

namespace Simulation

variable {σ : Type}

/-- The replicas that are crashed or unresponsive. -/
def unavailable (sim : Simulation σ) : Finset Nat :=
  (Finset.range sim.replicas.length).filter fun i => sim.available i = false

section Count

/-- The replicas that can answer a leader. -/
theorem countP_others {n leaderId : Nat} {available : Nat → Bool} (hlt : leaderId < n)
    (ha : available leaderId = true) :
    (others n leaderId).countP available +
      ((Finset.range n).filter fun i => available i = false).card + 1 = n := by
  have hcard : ((Finset.range n).filter fun i => available i = false).card =
      (others n leaderId).countP fun i => !available i := by
    have hfilter : (others n leaderId).filter (fun i => !available i) =
        (List.range n).filter fun i => decide (available i = false) := by
      rw [others, List.filter_filter]
      refine List.filter_congr fun i _ => ?_
      by_cases hi : i = leaderId
      · subst hi
        simp [ha]
      · simp [hi]
    rw [List.countP_eq_length_filter, hfilter]
    rfl
  have hsum := List.length_eq_countP_add_countP available (l := others n leaderId)
  rw [length_others hlt] at hsum
  rw [hcard]
  have hnot : (others n leaderId).countP (fun i => !available i) =
      (others n leaderId).countP fun a => decide ¬ available a = true := by
    refine List.countP_congr fun i _ => ?_
    simp
  omega

end Count

variable [Ed25519] [Sha256] {allKeys : List (ReplicaId × Bytes)}
  {sim : Simulation σ} {leader : Replica σ} {f now : Nat}

section Quorum

/-- Which rounds form a certificate. -/
theorem Staffed.outcome_isSome (h : Staffed allKeys sim) (hstep : sim.InStep leader)
    (hn : allKeys.length = 3 * f + 1) (now : Nat) :
    ((sim.afterProposal now leader).outcome sim.currentLeader (sim.nextProposal leader)
      leader).isSome = true ↔ leader.Usable ∧ sim.unavailable.card < f := by
  have hproposed := h.proposed hstep now
  have hlt : sim.currentLeader < allKeys.length :=
    h.count ▸ (List.getElem?_eq_some_iff.mp hstep.leaderAt).1
  have hcount : (others allKeys.length sim.currentLeader).countP (fun j => sim.available j) +
      sim.unavailable.card + 1 = allKeys.length := by
    rw [unavailable, h.count]
    exact countP_others hlt hstep.available
  obtain ⟨hall, hnone⟩ := hproposed.length_ballots
  have hquorum : leader.dynamicQuorumSize = 2 * f + 1 := by
    rw [Replica.dynamicQuorumSize_default (by omega) (h.duty _ _ hstep.leaderAt).validators, hn]
    omega
  have hiff : ((sim.afterProposal now leader).outcome sim.currentLeader (sim.nextProposal leader)
      leader).isSome = true ↔ 2 * f + 1 ≤ ((sim.afterProposal now leader).ballots
        sim.currentLeader (sim.nextProposal leader)).length := by
    rw [outcome, Replica.quorumQc, hquorum, List.length_map]
    split <;> simp [*]
  rw [hiff]
  by_cases husable : leader.Usable
  · rw [hall husable]
    simp only [afterProposal_available]
    constructor
    · intro hle
      exact ⟨husable, by omega⟩
    · rintro ⟨-, hlt⟩
      omega
  · rw [hnone husable]
    exact iff_of_false (by simp) fun hboth => husable hboth.1

end Quorum

section Proposal

variable [Bincode LogEntry] [Bincode Snapshot] [Crc32] [App σ]

/-- The block proposed in a round. -/
def proposal (now : Nat) (sim : Simulation σ) : Option Block :=
  match plainOpening now (sim.roundStart now) with
  | .proposed _ _ block => some block
  | _ => none

/-- When the leader changes nothing is proposed, for the new one does not lead the view. -/
theorem OffDuty.proposal_eq_none (h : OffDuty allKeys sim) (hstep : sim.InStep leader)
    (hchanged : ¬ sim.KeepsLeader) (now : Nat) : sim.proposal now = none := by
  have hopen : Opens now .proposeWithHash (sim.roundStart now)
      (plainOpening now (sim.roundStart now)) := openRound_opens ..
  have hswept := h.roundStart_swept now
  have hids : ∀ i ∈ sim.advanceSimulatedTime.timedOut,
      i ∈ sim.advanceSimulatedTime.unresponsiveReplicas := fun i hi => (mem_timedOut hi).2.2
  rw [proposal]
  generalize plainOpening now (sim.roundStart now) = opening at hopen
  cases hopen with
  | finished => rfl
  | leaderless => rfl
  | silent _ _ _ => rfl
  | proposed hr ha hins =>
    rename_i other block
    refine absurd ((h.roundStart_currentLeader now).mp ?_) hchanged
    have ha' := (hswept.available hids _).symm.trans ha
    have hr' : sim.replicas[(sim.roundStart now).currentLeader]? = some other :=
      (hswept.replica hids ha').symm.trans hr
    have hduty := h.staffed.duty _ _ hr'
    have hduty' := h.staffed.duty _ _ hstep.leaderAt
    have hleads : other.isLeader other.currentView = true := by
      simp only [Replica.inserted, Replica.proposeBy, Replica.proposeWithHash] at hins
      split at hins
      · assumption
      · cases hins
    rw [Replica.isLeader, beq_iff_eq, Replica.dynamicLeaderForView_default hduty.pos
      hduty.validators, hduty.id, (hstep.agrees _ _ hr' ha').view] at hleads
    have hleads' := hstep.leads
    rw [Replica.isLeader, beq_iff_eq, Replica.dynamicLeaderForView_default hduty.pos
      hduty'.validators, hduty'.id] at hleads'
    exact hleads.symm.trans hleads'

end Proposal

section Certified

omit [Sha256] [Ed25519] in
/-- When the newest of two certificates is a good one, if the one offered is good and is newer
exactly than older ones. -/
theorem newest_good_iff {highQc formed : Option QuorumCert} {Good Older : QuorumCert → Prop}
    (hgood : ∀ qc ∈ formed, Good qc)
    (hnewer : ∀ qc ∈ formed, ∀ current ∈ highQc,
      (Replica.newerQc qc current = true ↔ Older current)) :
    (∃ qc, Replica.newest highQc formed = some qc ∧ Good qc) ↔
      (∃ qc, highQc = some qc ∧ Good qc) ∨
        formed.isSome = true ∧ ∀ current ∈ highQc, Older current := by
  cases formed with
  | none => simp [Replica.newest]
  | some qc =>
    have hqc := hgood qc rfl
    cases highQc with
    | none => simp [Replica.newest, hqc]
    | some current =>
      have holder := hnewer qc rfl current rfl
      by_cases hnew : Replica.newerQc qc current = true
      · simp [Replica.newest, hnew, hqc, holder.mp hnew]
      · have hnot : ¬ Older current := fun ho => hnew (holder.mpr ho)
        simp [Replica.newest, hnew, hnot]

omit [Sha256] [Ed25519] in
/-- A certificate that replaces the one before, if there is any, is a good one. -/
theorem or_good {highQc formed : Option QuorumCert} {Good : QuorumCert → Prop}
    (hgood : ∀ qc ∈ formed, Good qc)
    (h : (∃ qc, highQc = some qc ∧ Good qc) ∨ formed.isSome = true) :
    ∃ qc, formed.or highQc = some qc ∧ Good qc := by
  cases formed with
  | none => exact h.resolve_right Bool.false_ne_true
  | some qc => exact ⟨qc, rfl, hgood qc rfl⟩

variable [LawfulEd25519]

/-- When every available replica ends a round with a certificate for its block. -/
theorem Staffed.certified_iff (hkeys : GeneratedKeys allKeys) (h : Staffed allKeys sim)
    (hstep : sim.InStep leader) (hn : allKeys.length = 3 * f + 1) (hf : 1 ≤ f)
    (hfaults : sim.unavailable.card ≤ f) (now : Nat) :
    (∀ j, j < allKeys.length → sim.available j = true →
      ∃ qc, (sim.afterProposal now leader).certifiedQc sim.currentLeader (sim.nextProposal leader)
          leader j = some qc ∧
        qc.pointer = ((sim.nextProposal leader).hash, (sim.nextProposal leader).view,
          (sim.nextProposal leader).epoch) ∧
        leader.keystore.verifyQc qc leader.dynamicQuorumSize = true) ↔
      leader.Certifies (sim.nextProposal leader) ∨
        sim.unavailable.card < f ∧ leader.Usable ∧
          ∀ qc ∈ leader.highQc, qc.view < leader.currentView := by
  have hformed := h.outcome_isSome hstep hn now
  have hgood := fun qc (hqc : (sim.afterProposal now leader).outcome sim.currentLeader
    (sim.nextProposal leader) leader = some qc) =>
      (h.proposed hstep now).verifyQc_outcome hkeys hqc (h.duty _ _ hstep.leaderAt)
  simp only [certifiedQc]
  generalize (sim.afterProposal now leader).outcome sim.currentLeader (sim.nextProposal leader)
    leader = formed at hformed hgood ⊢
  -- in one epoch a certificate is newer exactly when its view is greater
  have hnewer : ∀ qc ∈ formed, ∀ current ∈ leader.highQc,
      (Replica.newerQc qc current = true ↔ current.view < leader.currentView) := by
    intro qc hqc current hcurrent
    obtain ⟨hpointer, -⟩ := hgood qc hqc
    have husable : leader.Usable := (hformed.mp (by rw [Option.mem_def.mp hqc]; rfl)).1
    have hview : qc.view = leader.currentView := congrArg (fun p => p.2.1) hpointer
    have hepoch : qc.epoch = leader.configEpoch := congrArg (fun p => p.2.2) hpointer
    rw [Replica.newerQc, decide_eq_true_eq, hview, hepoch, (husable.certificate current hcurrent).1]
    exact ⟨fun hor => (hor.resolve_left (lt_irrefl _)).2, fun hlt => Or.inr ⟨rfl, hlt⟩⟩
  have hcond : (leader.Certifies (sim.nextProposal leader) ∨
      formed.isSome = true ∧ ∀ qc ∈ leader.highQc, qc.view < leader.currentView) ↔
      leader.Certifies (sim.nextProposal leader) ∨ sim.unavailable.card < f ∧ leader.Usable ∧
        ∀ qc ∈ leader.highQc, qc.view < leader.currentView := by
    rw [hformed, and_comm (a := leader.Usable), and_assoc]
  rw [← hcond, Replica.Certifies, ← newest_good_iff hgood hnewer]
  constructor
  · intro hall
    -- a replica other than the leader
    obtain ⟨j, hj, hja⟩ : ∃ j ∈ others allKeys.length sim.currentLeader,
        sim.available j = true := by
      have hlt : sim.currentLeader < allKeys.length :=
        h.count ▸ (List.getElem?_eq_some_iff.mp hstep.leaderAt).1
      have hcount := countP_others hlt hstep.available
      rw [unavailable, h.count] at hfaults
      rw [← List.countP_pos_iff]
      omega
    obtain ⟨hlt, hne⟩ := mem_others.mp hj
    have hqc := hall j hlt hja
    rwa [if_neg hne] at hqc
  · intro hnewest j _ _
    split
    · exact or_good hgood (((newest_good_iff hgood hnewer).mp hnewest).imp_right And.left)
    · exact hnewest

end Certified

section Round

variable [LawfulEd25519] [Bincode LogEntry] [Bincode Snapshot] [Crc32] [App σ]

/-- A block is proposed in a round, and at its end every available replica has a certificate for
it. -/
def RoundCertifies (now : Nat) (sim : Simulation σ) : Prop :=
  ∃ block, sim.proposal now = some block ∧
    ∀ (i : Nat) r, (sim.runOneRound now).1.replicas[i]? = some r →
      (sim.runOneRound now).1.available i = true → r.Certifies block

/-- The states a new simulation reaches. -/
def Reachable (allKeys : List (ReplicaId × Bytes)) (sim : Simulation σ) : Prop :=
  ∃ (t : Trace σ) (ops : List (Nat × SimulationOp)), Starts allKeys t.sim ∧
    sim = (run Trace.step t ops).sim

omit [Sha256] [LawfulEd25519] [Bincode LogEntry] [Bincode Snapshot] [Crc32] [App σ] in
/-- Replicas in their places check certificates alike. -/
theorem verifyQc_onDuty {r s : Replica σ} [Sha256] {i j : Nat} (hr : r.OnDuty allKeys i)
    (hs : s.OnDuty allKeys j) (qc : QuorumCert) :
    r.keystore.verifyQc qc r.dynamicQuorumSize = s.keystore.verifyQc qc s.dynamicQuorumSize := by
  rw [KeyStore.verifyQc_congr (hr.publicKeys hs),
    Replica.dynamicQuorumSize_congr (hr.validators.trans hs.validators.symm)]

/-- A round that opens with a proposal, seen from the available replicas. -/
theorem OffDuty.runOneRound_replica (hkeys : GeneratedKeys allKeys) (h : OffDuty allKeys sim)
    {before : Simulation σ} (hbefore : before.roundStart now = sim) (hstep : sim.InStep leader)
    (hleft : sim.step < sim.maxSteps) :
    (∀ j, (before.runOneRound now).1.available j = sim.available j) ∧
      ∀ j, j < allKeys.length → sim.available j = true →
        ∃ r', (before.runOneRound now).1.replicas[j]? = some r' ∧
          r'.highQc = (sim.afterProposal now leader).certifiedQc sim.currentLeader
            (sim.nextProposal leader) leader j := by
  have hround := h.staffed.runOneRound_eq hstep hleft hbefore
  obtain ⟨hframe, -, hvisits⟩ := h.staffed.roundEnd_visits hkeys hstep now
  rw [hround]
  generalize sim.roundEnd now leader = ended at hframe hvisits
  have hsame : ∀ j, ended.available j = sim.available j := fun j => available_congr hframe j
  rw [afterProposal_frame] at hframe
  have hcount : ended.replicas.length = sim.replicas.length := congrArg Frame.count hframe
  have hks : ended.replicaKeystores = sim.replicaKeystores :=
    congrArg Frame.replicaKeystores hframe
  have hwide : ended.bumpStep.replicas.length ≤ ended.bumpStep.replicaKeystores.length := by
    show ended.replicas.length ≤ ended.replicaKeystores.length
    rw [hcount, hks, h.count, h.keystores, KeyStore.length_distributeKeys]
  have hswept := processTimeoutCrashes_swept hwide now
  have hids : ∀ i ∈ ended.bumpStep.timedOut, i ∈ ended.bumpStep.unresponsiveReplicas :=
    fun i hi => (mem_timedOut hi).2.2
  have havailable : ∀ j, ended.bumpStep.available j = sim.available j := hsame
  refine ⟨fun j => (hswept.available hids j).trans (havailable j), fun j hlt ha => ?_⟩
  have hr := List.getElem?_eq_getElem (h.count.symm ▸ hlt : j < sim.replicas.length)
  obtain ⟨r', hr', hvisit⟩ := hvisits j _ hr
  rw [ha, if_pos rfl] at hvisit
  obtain ⟨c, -, hqc, -, hclose⟩ := hvisit
  exact ⟨r', (hswept.replica hids ((havailable j).trans ha)).trans hr',
    hclose.fields.2.2.1.trans hqc⟩

/-- A round of a simulation in step, seen from its leader's certificate. -/
theorem OffDuty.roundCertifies_iff (hkeys : GeneratedKeys allKeys) (hf : 1 ≤ f)
    (hn : allKeys.length = 3 * f + 1) (h : OffDuty allKeys sim) {before : Simulation σ}
    (hbefore : before.roundStart now = sim) (hend : OffDuty allKeys (before.runOneRound now).1)
    (hstep : sim.InStep leader) (hleft : sim.step < sim.maxSteps)
    (hfaults : sim.unavailable.card ≤ f) :
    before.RoundCertifies now ↔
      leader.Certifies (sim.nextProposal leader) ∨
        sim.unavailable.card < f ∧ leader.Usable ∧
          ∀ qc ∈ leader.highQc, qc.view < leader.currentView := by
  have hproposal : before.proposal now = some (sim.nextProposal leader) := by
    simp only [proposal, hbefore, h.staffed.plainOpening_eq hstep hleft]
  obtain ⟨havailable, hreplica⟩ := h.runOneRound_replica hkeys hbefore hstep hleft
  have hleader := h.staffed.duty _ _ hstep.leaderAt
  rw [← h.staffed.certified_iff hkeys hstep hn hf hfaults now]
  constructor
  · rintro ⟨block, hblock, hall⟩ j hlt ha
    rw [hproposal, Option.some.injEq] at hblock
    subst hblock
    obtain ⟨r', hr', hqc⟩ := hreplica j hlt ha
    obtain ⟨qc, hqc', hpointer, hvalid⟩ := hall j r' hr' ((havailable j).trans ha)
    rw [verifyQc_onDuty (hend.staffed.duty j r' hr') hleader] at hvalid
    exact ⟨qc, hqc.symm.trans hqc', hpointer, hvalid⟩
  · intro hall
    refine ⟨_, hproposal, fun j r' hr' ha => ?_⟩
    have hlt : j < allKeys.length := hend.count ▸ (List.getElem?_eq_some_iff.mp hr').1
    rw [havailable] at ha
    obtain ⟨r'', hr'', hqc⟩ := hreplica j hlt ha
    rw [hr', Option.some.injEq] at hr''
    subst hr''
    obtain ⟨qc, hqc', hpointer, hvalid⟩ := hall j hlt ha
    rw [← verifyQc_onDuty (hend.staffed.duty j r' hr') hleader] at hvalid
    exact ⟨qc, hqc.trans hqc', hpointer, hvalid⟩

variable [LawfulBincode Snapshot]

/-- With `3f + 1` replicas of which at most `f` are missing, a round whose leader is in step
certifies its block exactly when fewer than `f` are missing and the certificate of the leader is
usable and of an earlier view; unless there is no step left, the leader changes as replicas time
out, or its certificate is for that block already. -/
theorem reachable_roundCertifies_iff (hkeys : GeneratedKeys allKeys) (hf : 1 ≤ f)
    (hn : allKeys.length = 3 * f + 1) (hreach : Reachable allKeys sim)
    (hstep : sim.InStep leader) (hfaults : sim.unavailable.card ≤ f) (now : Nat) :
    sim.RoundCertifies now ↔
      sim.step < sim.maxSteps ∧ sim.KeepsLeader ∧
        (leader.Certifies (sim.nextProposal leader) ∨
          sim.unavailable.card < f ∧ leader.Usable ∧
            ∀ qc ∈ leader.highQc, qc.view < leader.currentView) := by
  have hmod : allKeys.length % 3 = 1 := by omega
  have h : OffDuty allKeys sim := by
    obtain ⟨t, ops, hstart, rfl⟩ := hreach
    exact hstart.offDuty_run hmod ops
  have hswept := h.roundStart_swept now
  have hsteps : (sim.roundStart now).step = sim.step := hswept.step
  have hmax : (sim.roundStart now).maxSteps = sim.maxSteps := hswept.maxSteps
  by_cases hleft : sim.step < sim.maxSteps
  · by_cases hkeeps : sim.KeepsLeader
    · have hnext : (sim.roundStart now).nextProposal leader = sim.nextProposal leader := by
        rw [nextProposal, hswept.network]
        rfl
      have hmissing : (sim.roundStart now).unavailable = sim.unavailable := by
        have hcount : (sim.roundStart now).replicas.length = sim.replicas.length := hswept.count
        rw [unavailable, hcount]
        refine Finset.filter_congr fun i _ => ?_
        rw [hswept.available fun i hi => (mem_timedOut hi).2.2]
        rfl
      have hround := (h.roundStart now).roundCertifies_iff hkeys hf hn rfl (h.runOneRound hmod now)
        (h.roundStart_inStep hstep hkeeps now) (by omega) (hmissing ▸ hfaults)
      rw [hnext, hmissing] at hround
      rw [hround, and_iff_right hleft, and_iff_right hkeeps]
    · refine iff_of_false ?_ fun hall => hkeeps hall.2.1
      rintro ⟨block, hblock, -⟩
      rw [h.proposal_eq_none hstep hkeeps now] at hblock
      cases hblock
  · refine iff_of_false ?_ fun hall => hleft hall.1
    rintro ⟨block, hblock, -⟩
    have hfinished : plainOpening now (sim.roundStart now) = .finished := by
      rw [plainOpening, openRound, if_pos (Or.inl (by omega))]
    rw [proposal, hfinished] at hblock
    cases hblock

end Round

end Simulation

namespace Simulation

section Samples

open Sample Trace

/-- The leader of four fresh replicas. -/
def firstLeader : Replica NoOpApp :=
  freshReplica 0 (replicaConfig 4 1 0) (KeyStore.distributeKeys (sampleKeys 4))[0]

/-- Seven sample replicas of which one does not respond. -/
def sevenButOne : Simulation NoOpApp :=
  (run Trace.step ⟨Simulation.new 0 2 20 (sampleKeys 7), History.genesis⟩
    [(0, .setReplicaUnresponsive 5 true)]).sim

/-- Their leader. -/
def firstOfSeven : Replica NoOpApp :=
  freshReplica 0 (replicaConfig 7 2 0) (KeyStore.distributeKeys (sampleKeys 7))[0]

/-- Fresh replicas agree with one another. -/
theorem agrees_fresh {config config' : Config} (hn : config.n = config'.n) (ks ks' : KeyStore) :
    (freshReplica (σ := NoOpApp) 0 config ks).Agrees (freshReplica 0 config' ks') := by
  simp only [freshReplica, Replica.ensureDefaultValidators, hn]
  split <;> exact ⟨rfl, rfl, rfl, rfl, rfl⟩

/-- Fresh replicas after operations that leave them alone. -/
theorem inStep_fresh {f : Nat} {allKeys : List (ReplicaId × Bytes)} {sim : Simulation NoOpApp}
    {leader : Replica NoOpApp}
    (hreplicas : sim.replicas = (Simulation.new 0 f 20 allKeys).replicas)
    (hleader : sim.replicas[sim.currentLeader]? = some leader)
    (havailable : sim.available sim.currentLeader = true)
    (hleads : leader.isLeader leader.currentView = true) : sim.InStep leader := by
  refine ⟨hleader, havailable, hleads, fun j r hr _ => ?_⟩
  rw [hreplicas, Simulation.new, start, List.getElem?_mapIdx, Option.map_eq_some_iff] at hr hleader
  obtain ⟨ks, -, rfl⟩ := hr
  obtain ⟨ks', -, rfl⟩ := hleader
  have hn : (replicaConfig allKeys.length f j).n =
      (replicaConfig allKeys.length f sim.currentLeader).n := rfl
  exact agrees_fresh hn ks ks'

/-- With one of seven unresponsive the first round certifies its block. -/
theorem first_round_certifies : sevenButOne.RoundCertifies 1 := by
  have hreplicas : sevenButOne.replicas = (Simulation.new 0 2 20 (sampleKeys 7)).replicas := by rfl
  have hleader : sevenButOne.replicas[sevenButOne.currentLeader]? = some firstOfSeven := by
    have hzero : sevenButOne.currentLeader = 0 := by decide +kernel
    rw [hzero, hreplicas]
    rfl
  have hstep : sevenButOne.InStep firstOfSeven :=
    inStep_fresh hreplicas hleader (by decide +kernel) (by decide +kernel)
  have husable : firstOfSeven.Usable := by
    refine ⟨fun parent hparent => ?_, fun qc hqc => by cases hqc⟩
    cases hparent
    decide +kernel
  have hkeys : GeneratedKeys (sampleKeys 7) := List.Perm.refl (List.range 7)
  have hreach : Reachable (sampleKeys 7) sevenButOne := ⟨_, _, Or.inl ⟨0, 2, 20, rfl⟩, rfl⟩
  exact (reachable_roundCertifies_iff (f := 2) hkeys (by decide) rfl hreach hstep
    (by decide +kernel) 1).mpr
    ⟨by decide +kernel, by decide +kernel, Or.inr ⟨by decide +kernel, husable,
      fun qc hqc => by cases hqc⟩⟩

/-- With one of the four unresponsive it is proposed but not certified. -/
theorem one_missing :
    GeneratedKeys (sampleKeys 4) ∧ (sampleKeys 4).length = 3 * 1 + 1 ∧
      Reachable (sampleKeys 4)
        (run Trace.step fourVolatile [(0, .setReplicaUnresponsive 3 true)]).sim ∧
      (run Trace.step fourVolatile [(0, .setReplicaUnresponsive 3 true)]).sim.InStep firstLeader ∧
      (run Trace.step fourVolatile
        [(0, .setReplicaUnresponsive 3 true)]).sim.unavailable.card ≤ 1 ∧
      ((run Trace.step fourVolatile
        [(0, .setReplicaUnresponsive 3 true)]).sim.proposal 1).isSome = true ∧
      ¬ (run Trace.step fourVolatile
        [(0, .setReplicaUnresponsive 3 true)]).sim.RoundCertifies 1 := by
  have hleader : (run Trace.step fourVolatile [(0, .setReplicaUnresponsive 3 true)]).sim.replicas[
      (run Trace.step fourVolatile [(0, .setReplicaUnresponsive 3 true)]).sim.currentLeader]? =
      some firstLeader := by
    have hzero : (run Trace.step fourVolatile
        [(0, .setReplicaUnresponsive 3 true)]).sim.currentLeader = 0 := by decide +kernel
    rw [hzero]
    rfl
  have hreplicas : (run Trace.step fourVolatile
      [(0, .setReplicaUnresponsive 3 true)]).sim.replicas =
      (Simulation.new 0 1 20 (sampleKeys 4)).replicas := by rfl
  refine ⟨List.Perm.refl (List.range 4), rfl,
    ⟨fourVolatile, _, Or.inl ⟨0, 1, 20, rfl⟩, rfl⟩,
    inStep_fresh hreplicas hleader (by decide +kernel) (by decide +kernel), by decide +kernel,
    by decide +kernel, ?_⟩
  rintro ⟨block, -, hall⟩
  generalize hended : ((run Trace.step fourVolatile
    [(0, .setReplicaUnresponsive 3 true)]).sim.runOneRound 1).1 = ended at hall
  have hqc : (ended.replicas[0]?).map Replica.highQc = some none := by
    rw [← hended]
    decide +kernel
  obtain ⟨r, hr, hnone⟩ := Option.map_eq_some_iff.mp hqc
  have havailable : ended.available 0 = true := by
    rw [← hended]
    decide +kernel
  obtain ⟨qc, hsome, -⟩ := hall 0 r hr havailable
  rw [hnone] at hsome
  cases hsome

end Samples

end Simulation

end PersistHotStuff
