import PersistHotStuff.Simulator.Sweep
import PersistHotStuff.Simulator.Trace

/-!
# Two round loops

The plain loop and the pacemaker loop are written out separately. They differ in
how the leader proposes, in which certificates count as responses, and in a
second timeout sweep. Where the leader proposes a dummy none of this shows: the
commits that follow are responses of everyone available, and the opening sweep
has left nothing for a second one.
-/

namespace PersistHotStuff

open Basis

namespace Simulation

section Settled

variable {σ : Type}

/-- Apart from those listed, no unresponsive replica that can be crashed is overdue. -/
def SettledBut (ids : List Nat) (sim : Simulation σ) : Prop :=
  sim.persistenceEnabled = true → ∀ (i : Nat) r keystore, i ∉ ids →
    sim.replicas[i]? = some r → sim.replicaKeystores[i]? = some keystore →
    i ∉ sim.crashedReplicas → i ∈ sim.unresponsiveReplicas →
    sim.simulatedTimeMs - (sim.lastResponseMs[i]?).getD 0 < r.timeoutMs

/-- No unresponsive replica that can be crashed is overdue. -/
def Settled (sim : Simulation σ) : Prop := sim.SettledBut []

/-- Trying to crash a replica settles it. -/
theorem SettledBut.tryCrash {ids : List Nat} {i : Nat} {sim : Simulation σ}
    (h : sim.SettledBut (i :: ids)) (now : Nat) : (tryCrash now sim i).SettledBut ids := by
  cases hok : sim.crashReplica now i with
  | error e =>
    have heq : Simulation.tryCrash now sim i = sim := by simp only [Simulation.tryCrash, hok]
    rw [heq]
    intro hp j r keystore hj hr hks hcrashed hunresponsive
    refine h hp j r keystore (fun hmem => ?_) hr hks hcrashed hunresponsive
    rcases List.mem_cons.mp hmem with rfl | hmem
    · have hcan : sim.crashReplica now j = .ok _ :=
        crashReplica_ok_iff.mpr ⟨r, keystore, hp, hr, hks, hcrashed, rfl⟩
      rw [hok] at hcan
      cases hcan
    · exact hj hmem
  | ok sim' =>
    have heq : Simulation.tryCrash now sim i = sim' := by simp only [Simulation.tryCrash, hok]
    obtain ⟨old, _, -, -, -, -, rfl⟩ := crashReplica_ok_iff.mp hok
    rw [heq]
    intro hp j r keystore hj hr hks hcrashed hunresponsive
    have hne : j ≠ i := by
      rintro rfl
      exact hcrashed (Finset.mem_insert_self ..)
    refine h hp j r keystore (fun hmem => ?_) ((List.getElem?_set_ne hne.symm).symm.trans hr) hks
      (fun hin => hcrashed (Finset.mem_insert_of_mem hin)) (Finset.mem_of_mem_erase hunresponsive)
    exact (List.mem_cons.mp hmem).elim hne hj

/-- A timeout sweep leaves nobody overdue. -/
theorem settled_processTimeoutCrashes (sim : Simulation σ) (now : Nat) :
    (sim.processTimeoutCrashes now).Settled := by
  refine foldl_tryCrash (P := SettledBut) (fun i ids s hs => hs.tryCrash now)
    fun _ i r keystore hi hr _ hcrashed hunresponsive => ?_
  by_contra hover
  refine hi (List.mem_filter.mpr ⟨?_, ?_⟩)
  · exact List.mem_range.mpr (List.getElem?_eq_some_iff.mp hr).1
  · simp only [hr, hcrashed, hunresponsive, not_false_eq_true, decide_true, Bool.true_and,
      decide_eq_true_eq]
    exact Nat.not_lt.mp hover

/-- Where nobody is overdue, a timeout sweep does nothing. -/
theorem Settled.processTimeoutCrashes {sim : Simulation σ} (h : sim.Settled) (now : Nat) :
    sim.processTimeoutCrashes now = sim := by
  have hfold : ∀ ids : List Nat, (∀ i ∈ ids, tryCrash now sim i = sim) →
      ids.foldl (tryCrash now) sim = sim := by
    intro ids
    induction ids with
    | nil => exact fun _ => rfl
    | cons i ids ih =>
      intro hids
      rw [List.foldl_cons, hids i (List.mem_cons_self ..)]
      exact ih fun j hj => hids j (List.mem_cons_of_mem i hj)
  refine hfold _ fun i hi => ?_
  simp only [tryCrash]
  cases hok : sim.crashReplica now i with
  | error e => rfl
  | ok sim' =>
    obtain ⟨r, keystore, hp, hr, hks, hcrashed, -⟩ := crashReplica_ok_iff.mp hok
    have hover := (List.mem_filter.mp hi).2
    simp only [hr, Bool.and_eq_true, decide_eq_true_eq] at hover
    have hlt := h hp i r keystore (List.not_mem_nil) hr hks hcrashed hover.1.2
    exact absurd hover.2 (Nat.not_le.mpr hlt)

variable [Ed25519] [Sha256] [Bincode LogEntry] [Bincode Snapshot] [Crc32] [App σ]

/-- No step of a round makes a replica overdue. -/
theorem settled_rule : RoundRule (Settled (σ := σ)) := by
  have hset : ∀ (sim : Simulation σ) (i : Nat) (r' : Replica σ), sim.Settled →
      sim.available i = true → (sim.setReplica i r').Settled := by
    intro sim i r' h ha hp j r keystore hj hr hks hcrashed hunresponsive
    have hne : i ≠ j := by
      rintro rfl
      exact (available_iff.mp ha).2 hunresponsive
    exact h hp j r keystore hj ((List.getElem?_set_ne hne).symm.trans hr) hks hcrashed hunresponsive
  refine ⟨fun sim i r c h _ ha => hset sim i _ h ha, fun sim i r dir now h _ ha _ => ?_,
    fun sim i h => ?_, fun sim net h _ => h⟩
  · exact hset sim i _ h ha
  · -- who responds now is overdue only with a timeout of zero, and then was before
    intro hp j r keystore hj hr hks hcrashed hunresponsive
    have hlt := h hp j r keystore hj hr hks hcrashed hunresponsive
    rcases getElem?_markResponded sim i j with hsame | hnow
    · rw [hsame]
      exact hlt
    · rw [hnow, Option.getD_some]
      exact (Nat.sub_self _).trans_lt (Nat.zero_lt_of_lt hlt)

end Settled

section Responses

variable {σ : Type}

/-- Two simulations that agree but for when the pending ones of the available replicas responded
last. -/
def AgreeBut (pending : List Nat) (sim sim' : Simulation σ) : Prop :=
  ∃ responses, responses.length = sim.lastResponseMs.length ∧
    (∀ i : Nat, sim.available i = false ∨ i ∉ pending →
      responses[i]? = sim.lastResponseMs[i]?) ∧
    sim' = { sim with lastResponseMs := responses }

theorem AgreeBut.refl (pending : List Nat) (sim : Simulation σ) : AgreeBut pending sim sim :=
  ⟨sim.lastResponseMs, rfl, fun _ _ => rfl, rfl⟩

/-- With nothing pending they are the same. -/
theorem AgreeBut.eq {sim sim' : Simulation σ} (h : AgreeBut [] sim sim') : sim' = sim := by
  obtain ⟨responses, -, hsame, rfl⟩ := h
  have hall : responses = sim.lastResponseMs :=
    List.ext_getElem? fun i => hsame i (.inr List.not_mem_nil)
  rw [hall]

/-- A response of a pending replica that only one of the two notes. -/
theorem AgreeBut.markResponded {pending : List Nat} {sim sim' : Simulation σ}
    (h : AgreeBut pending sim sim') {i : Nat} (ha : sim.available i = true) (hi : i ∈ pending) :
    AgreeBut pending sim (sim'.markResponded i) := by
  obtain ⟨responses, hlen, hsame, rfl⟩ := h
  refine ⟨responses.set i sim.simulatedTimeMs, ?_, fun j hj => ?_, rfl⟩
  · rw [List.length_set, hlen]
  · rw [← hsame j hj]
    refine List.getElem?_set_ne ?_
    rintro rfl
    rcases hj with hj | hj
    · rw [ha] at hj
      cases hj
    · exact hj hi

theorem AgreeBut.replicas {pending : List Nat} {sim sim' : Simulation σ}
    (h : AgreeBut pending sim sim') : sim'.replicas = sim.replicas := by
  obtain ⟨_, -, -, rfl⟩ := h
  rfl

theorem AgreeBut.available {pending : List Nat} {sim sim' : Simulation σ}
    (h : AgreeBut pending sim sim') : sim'.available = sim.available := by
  obtain ⟨_, -, -, rfl⟩ := h
  rfl

theorem AgreeBut.mono {pending pending' : List Nat} {sim sim' : Simulation σ}
    (h : AgreeBut pending sim sim') (hsub : pending ⊆ pending') : AgreeBut pending' sim sim' := by
  obtain ⟨responses, hlen, hsame, rfl⟩ := h
  exact ⟨responses, hlen, fun i hi => hsame i (hi.imp_right fun hn hmem => hn (hsub hmem)), rfl⟩

theorem AgreeBut.setReplica {pending : List Nat} {sim sim' : Simulation σ}
    (h : AgreeBut pending sim sim') (i : Nat) (r : Replica σ) :
    AgreeBut pending (sim.setReplica i r) (sim'.setReplica i r) := by
  obtain ⟨responses, hlen, hsame, rfl⟩ := h
  exact ⟨responses, hlen, hsame, rfl⟩

/-- A response that both note is no longer pending. -/
theorem AgreeBut.heard {pending : List Nat} {i : Nat} {sim sim' : Simulation σ}
    (h : AgreeBut (i :: pending) sim sim') :
    AgreeBut pending (sim.markResponded i) (sim'.markResponded i) := by
  obtain ⟨responses, hlen, hsame, rfl⟩ := h
  refine ⟨responses.set i sim.simulatedTimeMs, ?_, fun j hj => ?_, rfl⟩
  · simp only [Simulation.markResponded, List.length_set, hlen]
  · simp only [Simulation.markResponded]
    by_cases hij : i = j
    · subst hij
      rw [List.getElem?_set, List.getElem?_set, hlen, if_pos rfl, if_pos rfl]
    · rw [List.getElem?_set_ne hij, List.getElem?_set_ne hij]
      refine hsame j (hj.imp_right fun hn hmem => ?_)
      exact (List.mem_cons.mp hmem).elim (fun he => hij he.symm) hn

/-- A replica that is not available is not pending. -/
theorem AgreeBut.skip {pending : List Nat} {i : Nat} {sim sim' : Simulation σ}
    (h : AgreeBut (i :: pending) sim sim') (hi : sim.available i = false) :
    AgreeBut pending sim sim' := by
  obtain ⟨responses, hlen, hsame, rfl⟩ := h
  refine ⟨responses, hlen, fun j hj => ?_, rfl⟩
  rcases hj with ha | hn
  · exact hsame j (.inl ha)
  · by_cases hij : j = i
    · exact hsame j (.inl (hij ▸ hi))
    · exact hsame j (.inr fun hmem => (List.mem_cons.mp hmem).elim hij hn)

variable [Ed25519] [Sha256] [Bincode LogEntry] [Bincode Snapshot] [Crc32] [App σ]

omit [Ed25519] [Sha256] [Bincode Snapshot] [App σ] in
/-- Whether a certificate that is not adopted counts as a response shows in the responses only. -/
theorem AgreeBut.deliverQc {pending : List Nat} {sim sim' : Simulation σ}
    (h : AgreeBut pending sim sim') (hpending : ∀ i < sim.replicas.length, i ∈ pending) (now : Nat)
    (msg : Message) :
    AgreeBut pending (deliverQc now false sim msg) (deliverQc now true sim' msg) ∧
      (deliverQc now false sim msg).replicas.length = sim.replicas.length := by
  cases msg with
  | quorumCertBroadcast sender receiver qc hash =>
    simp only [Simulation.deliverQc, h.replicas, h.available]
    cases hr : sim.replicas[receiver]? with
    | none => exact ⟨h, rfl⟩
    | some r =>
      cases ha : sim.available receiver with
      | false => exact ⟨h, rfl⟩
      | true =>
        have hmem := hpending receiver (List.getElem?_eq_some_iff.mp hr).1
        have hset := h.setReplica receiver (r.applyHighQcFromNetwork now qc).1
        cases hupdated : (r.applyHighQcFromNetwork now qc).2 with
        | false =>
          refine ⟨?_, ?_⟩
          · simpa [hupdated] using hset.markResponded ha hmem
          · simp [hupdated, Simulation.setReplica]
        | true =>
          refine ⟨?_, ?_⟩
          · have hboth := (hset.mono (List.subset_cons_self receiver pending)).heard
            simpa [hupdated] using hboth
          · simp [hupdated, Simulation.setReplica, Simulation.markResponded]
  | _ => exact ⟨h, rfl⟩

/-- The commit at a replica is a response of it. -/
theorem AgreeBut.commitAt {pending : List Nat} {i : Nat} {sim sim' : Simulation σ}
    (h : AgreeBut (i :: pending) sim sim') (now : Nat) (r : Replica σ) :
    AgreeBut pending (commitAt now sim i r) (commitAt now sim' i r) := by
  obtain ⟨responses, hlen, hsame, rfl⟩ := h
  simp only [Simulation.commitAt]
  refine AgreeBut.heard ?_
  cases sim.replicaDataDirs[i]? with
  | none => exact ⟨responses, hlen, hsame, rfl⟩
  | some dir =>
    cases sim.persistenceEnabled && (r.commitAll now).shouldSnapshot with
    | false => exact ⟨responses, hlen, hsame, rfl⟩
    | true => exact ⟨responses, hlen, hsame, rfl⟩

/-- A commit keeps the number of replicas. -/
theorem length_commitAt (now : Nat) (sim : Simulation σ) (i : Nat) (r : Replica σ) :
    (commitAt now sim i r).replicas.length = sim.replicas.length := by
  simp only [commitAt]
  split
  · split <;> exact List.length_set ..
  · exact List.length_set ..

/-- Once every pending replica has had its turn to commit, nothing is left to differ. -/
theorem AgreeBut.commits {pending : List Nat} {sim sim' : Simulation σ}
    (h : AgreeBut pending sim sim') (hpending : ∀ i ∈ pending, i < sim.replicas.length)
    (now : Nat) :
    pending.foldl (onAvailable (Simulation.commitAt now)) sim' =
      pending.foldl (onAvailable (Simulation.commitAt now)) sim := by
  induction pending generalizing sim sim' with
  | nil => exact h.eq
  | cons i pending ih =>
    obtain ⟨hi, hpending⟩ := List.forall_mem_cons.mp hpending
    rw [List.foldl_cons, List.foldl_cons]
    simp only [onAvailable, h.replicas, h.available, List.getElem?_eq_getElem hi]
    cases ha : sim.available i with
    | false => exact ih (h.skip ha) hpending
    | true =>
      rw [if_pos rfl, if_pos rfl]
      refine ih (h.commitAt now _) fun j hj => ?_
      rw [length_commitAt]
      exact hpending j hj

/-- The commits bring together what the certificates have kept apart. -/
theorem commitPhase_qcPhase (now leaderId : Nat) (formed : Option QuorumCert)
    (sim : Simulation σ) :
    commitPhase now (qcPhase now leaderId true formed sim) =
      commitPhase now (qcPhase now leaderId false formed sim) := by
  have hfold : ∀ (msgs : List Message) (s s' : Simulation σ),
      AgreeBut (List.range s.replicas.length) s s' →
      AgreeBut (List.range s.replicas.length) (msgs.foldl (deliverQc now false) s)
          (msgs.foldl (deliverQc now true) s') ∧
        (msgs.foldl (deliverQc now false) s).replicas.length = s.replicas.length := by
    intro msgs
    induction msgs with
    | nil => exact fun s s' h => ⟨h, rfl⟩
    | cons msg msgs ih =>
      intro s s' h
      obtain ⟨hnext, hlen⟩ := h.deliverQc (fun i hi => List.mem_range.mpr hi) now msg
      rw [← hlen] at hnext
      obtain ⟨hrest, hlen'⟩ := ih _ _ hnext
      rw [hlen] at hrest hlen'
      exact ⟨hrest, hlen'⟩
  cases formed with
  | none => rfl
  | some qc =>
    simp only [qcPhase, Network.drain]
    generalize (sim.network.broadcastQc leaderId qc qc.blockHash).messageQueue = msgs
    generalize ({ sim with network := _ } : Simulation σ) = s
    obtain ⟨hagree, hlen⟩ := hfold msgs s s (.refl _ _)
    have hcommits := hagree.commits (fun i hi => hlen.symm ▸ List.mem_range.mp hi) now
    have hphase : ∀ always, commitPhase now (msgs.foldl (deliverQc now always) s) =
        (List.range (msgs.foldl (deliverQc now always) s).replicas.length).foldl
          (onAvailable (Simulation.commitAt now)) (msgs.foldl (deliverQc now always) s) :=
      fun _ => rfl
    rw [hphase, hphase, hagree.replicas, hlen]
    exact hcommits

end Responses

section Rounds

variable {σ : Type}

/-- A leader without commands that proposes proposes what the plain loop would. -/
theorem proposeNextWithHash_of_idle {now view : Nat} {hash : Hash} {leader : Replica σ}
    {dummy : Block} (hqueue : leader.clientQueue = [])
    (hdummy : (leader.proposeNextWithHash now view hash).2 = some dummy) :
    leader.proposeNextWithHash now view hash = leader.proposeWithHash now view hash := by
  simp only [Replica.proposeNextWithHash, hqueue, List.getLast?_nil] at hdummy ⊢
  split at hdummy
  · cases hdummy
  · next hleads =>
    rw [if_neg hleads]
    split at hdummy
    · next hdue => rw [if_pos hdue]
    · cases hdummy

/-- A round whose leader proposes is over at once or goes on with the proposal. -/
theorem pacemakerOpening_of_proposal {now : Nat} {sim : Simulation σ} {leader : Replica σ}
    {block : Block} (hleader : sim.replicas[sim.currentLeader]? = some leader)
    (havailable : sim.available sim.currentLeader = true)
    (hblock : (leader.proposeNextWithHash now leader.currentView
      sim.network.generateUniqueHash.1).2 = some block) :
    pacemakerOpening now sim = .finished ∨
      ∃ s, pacemakerOpening now sim = .proposed s sim.currentLeader block := by
  simp only [pacemakerOpening, openRound, hleader, havailable, Bool.not_true, Bool.false_eq_true,
    if_false]
  by_cases hfinished : sim.maxSteps ≤ sim.step ∨ sim.crashedReplicas.card = sim.replicas.length
  · exact .inl (if_pos hfinished)
  · rw [if_neg hfinished]
    cases hp : leader.proposeNextWithHash now leader.currentView
      sim.network.generateUniqueHash.1 with
    | mk leader' proposal =>
      rw [hp] at hblock
      subst hblock
      exact .inr ⟨_, rfl⟩

variable [Ed25519] [Sha256] [Bincode LogEntry] [Bincode Snapshot] [Crc32] [App σ]

/-- The certifying phases of the two loops lead to the same commits. -/
theorem commitPhase_certifyPhases (now leaderId : Nat) (block : Block) (sim : Simulation σ) :
    commitPhase now (certifyPhases now leaderId true block sim).1 =
      commitPhase now (certifyPhases now leaderId false block sim).1 :=
  commitPhase_qcPhase now leaderId (votePhase now (proposalPhase now leaderId block sim)).2
    (votePhase now (proposalPhase now leaderId block sim)).1

/-- When after the opening sweep the leader is available, has no command to propose and proposes
nevertheless, the two round loops do the same at the same time: they leave the same replicas, files,
network, steps, crashed and unresponsive replicas and responses. -/
theorem runOneRound_eq_withPacemaker {now : Nat} {sim : Simulation σ} {leader : Replica σ}
    {dummy : Block}
    (hleader : (sim.roundStart now).replicas[(sim.roundStart now).currentLeader]? = some leader)
    (havailable : (sim.roundStart now).available (sim.roundStart now).currentLeader = true)
    (hqueue : leader.clientQueue = [])
    (hdummy : (leader.proposeNextWithHash now leader.currentView
      (sim.roundStart now).network.generateUniqueHash.1).2 = some dummy) :
    sim.runOneRound now = sim.runOneRoundWithPacemaker now := by
  have hopening : plainOpening now (sim.roundStart now) =
      pacemakerOpening now (sim.roundStart now) := by
    have hpropose := proposeNextWithHash_of_idle hqueue hdummy
    simp only [plainOpening, pacemakerOpening, openRound, hleader, havailable, Bool.not_true,
      Bool.false_eq_true, if_false, hpropose]
  have hafter := settled_rule.ruleFor.simAfter
    (settled_processTimeoutCrashes sim.advanceSimulatedTime now)
    (openRound_opens now .proposeNextWithHash (sim.roundStart now)) (fun _ _ _ _ => trivial)
    (fun _ _ _ _ => trivial) true
  change ((sim.roundStart now).simAfter now true
    (pacemakerOpening now (sim.roundStart now))).Settled at hafter
  rcases pacemakerOpening_of_proposal hleader havailable hdummy with hfinished | ⟨s, hproposed⟩
  · simp only [runOneRound, runOneRoundWithPacemaker, hopening, hfinished]
  · rw [hproposed] at hafter
    simp only [simAfter] at hafter
    simp only [runOneRound, runOneRoundWithPacemaker, hopening, hproposed]
    -- the second sweep finds nobody overdue, since nobody was after the first one
    rw [← commitPhase_certifyPhases]
    generalize advanceViews now .commit true _ = after at hafter ⊢
    have hbump : after.bumpStep.Settled := hafter
    rw [hbump.processTimeoutCrashes now]

end Rounds

end Simulation

namespace Trace

section Samples

open Sample SimulationOp

/-- Four durable replicas, idle with dummies enabled; replica 2 is crashed, replica 3 does not
respond. -/
def idleDurable : Simulation NoOpApp :=
  (run step fourDurable [(0, enableDummyProposals 0), (1, runOneRoundWithPacemaker),
    (2, crashReplica 2), (2, setReplicaUnresponsive 3 true)]).sim

theorem runOneRound_eq_withPacemaker_idleDurable :
    idleDurable.runOneRound 3 = idleDurable.runOneRoundWithPacemaker 3 := by
  have hready : ((idleDurable.roundStart 3).replicas[(idleDurable.roundStart 3).currentLeader]?).any
      (fun leader => decide (leader.clientQueue = []) &&
        (leader.proposeNextWithHash 3 leader.currentView
          (idleDurable.roundStart 3).network.generateUniqueHash.1).2.isSome) = true := by
    decide +kernel
  have havailable : (idleDurable.roundStart 3).available
      (idleDurable.roundStart 3).currentLeader = true := by decide +kernel
  obtain ⟨leader, hleader, hready⟩ := Option.any_eq_true _ _ |>.mp hready
  rw [Bool.and_eq_true, decide_eq_true_eq] at hready
  obtain ⟨dummy, hdummy⟩ := Option.isSome_iff_exists.mp hready.2
  exact Simulation.runOneRound_eq_withPacemaker hleader havailable hready.1 hdummy

end Samples

end Trace

end PersistHotStuff
