import PersistHotStuff.Handlers.VoteCount
import PersistHotStuff.Simulator.Rounds

/-!
# What the phases do to each replica

A phase visits the replicas one after the other and leaves the frame of the
simulation alone: who is crashed or unresponsive, the hash counter and the
steps. So the outcome of a round is read off replica by replica, whatever the
order in which messages are delivered.
-/

namespace PersistHotStuff

open Basis

/-- The replicas other than a sender, in the order of a broadcast. -/
def others (n sender : Nat) : List Nat := (List.range n).filter fun id => decide (id ≠ sender)

theorem nodup_others (n sender : Nat) : (others n sender).Nodup := List.nodup_range.filter _

theorem mem_others {n sender id : Nat} : id ∈ others n sender ↔ id < n ∧ id ≠ sender := by
  simp [others]

theorem length_others {n sender : Nat} (h : sender < n) : (others n sender).length = n - 1 := by
  have herase : others n sender = (List.range n).erase sender := by
    rw [List.nodup_range.erase_eq_filter]
    refine List.filter_congr fun id _ => ?_
    rw [bne, beq_eq_decide, decide_not]
  rw [herase, List.length_erase_of_mem (List.mem_range.mpr h), List.length_range]

/-- A broadcast appends one message for each other replica. -/
theorem Network.broadcast_eq (net : Network) (sender : ReplicaId) (msg : ReplicaId → Message) :
    net.broadcast sender msg =
      { net with messageQueue := net.messageQueue ++ (others net.numReplicas sender).map msg } := by
  simp only [broadcast, others]
  generalize List.range net.numReplicas = ids
  induction ids generalizing net with
  | nil => simp
  | cons id ids ih =>
    rw [List.foldl_cons, ih]
    by_cases h : id = sender
    · simp [h]
    · simp [h, send]

/-- The vote a message carries. -/
def Message.ballot : Message → Option Vote
  | .vote _ _ v => some v
  | _ => none

/-- The vote of a replica for a block. -/
def Replica.voteFor {σ : Type} [Ed25519] [Sha256] (r : Replica σ) (block : Block) : Vote where
  blockHash := block.hash
  view := block.view
  epoch := block.epoch
  signature := r.keystore.sign block.hash block.view block.epoch

namespace Simulation

/-- What no phase of a round changes. -/
structure Frame where
  count : Nat
  numReplicas : Nat
  nextGlobalHash : Hash
  step : Nat
  maxSteps : Nat
  persistenceEnabled : Bool
  replicaKeystores : List KeyStore
  crashedReplicas : Finset Nat
  unresponsiveReplicas : Finset Nat

section Slots

variable {σ : Type}

/-- The frame of a simulation. -/
def frame (sim : Simulation σ) : Frame where
  count := sim.replicas.length
  numReplicas := sim.network.numReplicas
  nextGlobalHash := sim.network.nextGlobalHash
  step := sim.step
  maxSteps := sim.maxSteps
  persistenceEnabled := sim.persistenceEnabled
  replicaKeystores := sim.replicaKeystores
  crashedReplicas := sim.crashedReplicas
  unresponsiveReplicas := sim.unresponsiveReplicas

theorem available_congr {sim sim' : Simulation σ} (h : sim'.frame = sim.frame) (i : Nat) :
    sim'.available i = sim.available i := by
  have hc : sim'.crashedReplicas = sim.crashedReplicas := congrArg Frame.crashedReplicas h
  have hu : sim'.unresponsiveReplicas = sim.unresponsiveReplicas :=
    congrArg Frame.unresponsiveReplicas h
  rw [available, available, hc, hu]

/-- A visit to one slot: the frame and the other slots stay, and its replica changes as `G` says. -/
structure Visits (G : Replica σ → Replica σ → Prop) (i : Nat) (sim sim' : Simulation σ) : Prop where
  frame : sim'.frame = sim.frame
  elsewhere : ∀ j, j ≠ i → sim'.replicas[j]? = sim.replicas[j]?
  here : ∀ r, sim.replicas[i]? = some r → ∃ r', sim'.replicas[i]? = some r' ∧ G r r'

/-- A slot is set. -/
theorem visits_setReplica {G : Replica σ → Replica σ → Prop} {sim : Simulation σ} {i : Nat}
    {r r' : Replica σ} (hr : sim.replicas[i]? = some r) (hG : G r r') :
    Visits G i sim (sim.setReplica i r') := by
  obtain ⟨hlt, -⟩ := List.getElem?_eq_some_iff.mp hr
  refine ⟨?_, fun j hj => List.getElem?_set_ne (Ne.symm hj), fun s hs => ⟨r', ?_, ?_⟩⟩
  · simp only [frame, setReplica, List.length_set]
  · exact List.getElem?_set_self hlt
  · rw [hr, Option.some.injEq] at hs
    rwa [← hs]

/-- Nothing happens. -/
theorem visits_refl {G : Replica σ → Replica σ → Prop} {sim : Simulation σ} {i : Nat}
    (hG : ∀ r, sim.replicas[i]? = some r → G r r) : Visits G i sim sim :=
  ⟨rfl, fun _ _ => rfl, fun r hr => ⟨r, hr, hG r hr⟩⟩

theorem Visits.markResponded {G : Replica σ → Replica σ → Prop} {i : Nat} {sim sim' : Simulation σ}
    (h : Visits G i sim sim') (j : Nat) : Visits G i sim (sim'.markResponded j) :=
  ⟨h.frame, h.elsewhere, h.here⟩

/-- Visits to different slots, one after the other. -/
theorem foldl_visits (act : Simulation σ → Nat → Simulation σ) (fr : Frame)
    {G : Nat → Replica σ → Replica σ → Prop}
    (hact : ∀ sim i, sim.frame = fr → Visits (G i) i sim (act sim i)) {ids : List Nat}
    (hnodup : ids.Nodup) {sim : Simulation σ} (h : sim.frame = fr) :
    (ids.foldl act sim).frame = fr ∧
      (∀ j, j ∉ ids → (ids.foldl act sim).replicas[j]? = sim.replicas[j]?) ∧
      ∀ j ∈ ids, ∀ r, sim.replicas[j]? = some r →
        ∃ r', (ids.foldl act sim).replicas[j]? = some r' ∧ G j r r' := by
  induction ids generalizing sim with
  | nil => exact ⟨h, fun _ _ => rfl, fun _ hj => nomatch hj⟩
  | cons i ids ih =>
    obtain ⟨hi, hnodup⟩ := List.nodup_cons.mp hnodup
    have hvisit := hact sim i h
    obtain ⟨hframe, hout, hin⟩ := ih hnodup (hvisit.frame.trans h)
    refine ⟨hframe, fun j hj => ?_, fun j hj r hr => ?_⟩
    · rw [List.mem_cons, not_or] at hj
      rw [List.foldl_cons, hout j hj.2]
      exact hvisit.elsewhere j hj.1
    · rw [List.foldl_cons]
      rcases List.mem_cons.mp hj with rfl | hj
      · obtain ⟨r', hr', hG⟩ := hvisit.here r hr
        exact ⟨r', by rw [hout j hi, hr'], hG⟩
      · have hne : j ≠ i := fun he => hi (he ▸ hj)
        exact hin j hj r ((hvisit.elsewhere j hne).trans hr)

/-- An action on one replica, if it is available. -/
def onAvailable (act : Simulation σ → Nat → Replica σ → Simulation σ) (sim : Simulation σ)
    (id : Nat) : Simulation σ :=
  match sim.replicas[id]? with
  | some replica => if sim.available id then act sim id replica else sim
  | none => sim

/-- An action on every available replica visits each of them. -/
theorem forEachAvailable_visits (act : Simulation σ → Nat → Replica σ → Simulation σ) {fr : Frame}
    {G : Nat → Replica σ → Replica σ → Prop}
    (hact : ∀ sim i r, sim.frame = fr → sim.replicas[i]? = some r →
      Visits (G i) i sim (act sim i r)) {sim : Simulation σ} (h : sim.frame = fr) :
    (sim.forEachAvailable act).frame = fr ∧
      ∀ j r, sim.replicas[j]? = some r →
        ∃ r', (sim.forEachAvailable act).replicas[j]? = some r' ∧
          if sim.available j = true then G j r r' else r' = r := by
  have havail : ∀ s : Simulation σ, s.frame = fr → ∀ j, s.available j = sim.available j :=
    fun s hs j => available_congr (hs.trans h.symm) j
  obtain ⟨hframe, -, hin⟩ := foldl_visits (onAvailable act) fr
    (G := fun j r r' => if sim.available j = true then G j r r' else r' = r)
    (fun s i hs => by
      rw [← havail s hs i, onAvailable]
      cases hr : s.replicas[i]? with
      | none => exact visits_refl fun r hr' => by rw [hr] at hr'; cases hr'
      | some r =>
        by_cases ha : s.available i = true
        · simp only [ha, if_true]
          exact hact s i r hs hr
        · simp only [ha, if_false, Bool.false_eq_true]
          exact visits_refl fun _ _ => rfl)
    (List.nodup_range (n := sim.replicas.length)) h
  refine ⟨hframe, fun j r hr => hin j ?_ r hr⟩
  exact List.mem_range.mpr (List.getElem?_eq_some_iff.mp hr).1

end Slots

variable {σ : Type} [Ed25519] [Sha256] [Bincode LogEntry] [Crc32]

section Proposal

/-- The vote a replica answers a proposal with. -/
def reply (sim : Simulation σ) (block : Block) (id : Nat) : Option Vote :=
  match sim.replicas[id]? with
  | some r =>
      if sim.available id = true ∧ r.acceptsProposal block = true then some (r.voteFor block)
      else none
  | none => none

omit [Bincode LogEntry] [Crc32] in
theorem reply_congr {sim sim' : Simulation σ} (h : sim'.frame = sim.frame) {id : Nat}
    (hr : sim'.replicas[id]? = sim.replicas[id]?) (block : Block) :
    sim'.reply block id = sim.reply block id := by
  rw [reply, reply, hr, available_congr h]

/-- A delivered proposal is validated by its receiver, who answers it. -/
theorem deliverProposal_visits (now : Nat) (sim : Simulation σ) (sender i : Nat) (block : Block) :
    Visits (fun r r' => r' =
        if sim.available i = true then (r.validateAndInsertProposal now block).1 else r) i sim
      (deliverProposal now sim (.proposal sender i block)) ∧
      (deliverProposal now sim (.proposal sender i block)).network.messageQueue =
        sim.network.messageQueue ++ ((sim.reply block i).map (Message.vote i sender)).toList := by
  simp only [deliverProposal, reply]
  cases hr : sim.replicas[i]? with
  | none =>
    refine ⟨visits_refl fun r h => ?_, (List.append_nil _).symm⟩
    rw [hr] at h
    cases h
  | some r =>
    cases ha : sim.available i with
    | false => exact ⟨visits_refl fun _ _ => rfl, (List.append_nil _).symm⟩
    | true =>
      simp only [Bool.not_true, Bool.false_eq_true, if_false, true_and, if_true]
      have hset : Visits (fun r r' => r' = (r.validateAndInsertProposal now block).1) i sim
          (sim.setReplica i (r.validateAndInsertProposal now block).1) := visits_setReplica hr rfl
      rcases r.validateAndInsertProposal_cases now block with ⟨hacc, hv⟩ | ⟨hacc, hv⟩
      · rw [hv] at hset ⊢
        rw [hacc]
        exact ⟨hset, (List.append_nil _).symm⟩
      · rw [hv] at hset ⊢
        rw [hacc]
        have hmark := hset.markResponded i
        exact ⟨⟨hmark.frame, hmark.elsewhere, hmark.here⟩, rfl⟩

/-- Delivered proposals are answered in order. -/
theorem deliverProposals_queue (now : Nat) (sender : Nat) (block : Block) {ids : List Nat}
    (hnodup : ids.Nodup) (sim : Simulation σ) :
    (ids.foldl (fun sim i => deliverProposal now sim (.proposal sender i block))
        sim).network.messageQueue =
      sim.network.messageQueue ++
        ids.filterMap fun i => (sim.reply block i).map (Message.vote i sender) := by
  induction ids generalizing sim with
  | nil => exact (List.append_nil _).symm
  | cons i ids ih =>
    obtain ⟨hi, hnodup⟩ := List.nodup_cons.mp hnodup
    obtain ⟨hvisit, hqueue⟩ := deliverProposal_visits now sim sender i block
    have hlater : ∀ j ∈ ids, (deliverProposal now sim (.proposal sender i block)).reply block j =
        sim.reply block j := fun j hj =>
      reply_congr hvisit.frame (hvisit.elsewhere j fun he => hi (he ▸ hj)) block
    rw [List.foldl_cons, ih hnodup, hqueue, List.append_assoc,
      List.filterMap_congr fun j hj => by rw [hlater j hj]]
    rw [List.filterMap_cons]
    cases (sim.reply block i).map (Message.vote i sender) <;> rfl

/-- After the proposals every available replica but the leader has validated the block, and the
votes for it are pending. -/
theorem proposalPhase_visits (now leaderId : Nat) (block : Block) {sim : Simulation σ}
    (hquiet : sim.network.messageQueue = []) :
    (proposalPhase now leaderId block sim).frame = sim.frame ∧
      (proposalPhase now leaderId block sim).network.messageQueue =
        ((others sim.network.numReplicas leaderId).filterMap fun i =>
          (sim.reply block i).map (Message.vote i leaderId)) ∧
      (∀ j, j ∉ others sim.network.numReplicas leaderId →
        (proposalPhase now leaderId block sim).replicas[j]? = sim.replicas[j]?) ∧
      ∀ j ∈ others sim.network.numReplicas leaderId, ∀ r, sim.replicas[j]? = some r →
        (proposalPhase now leaderId block sim).replicas[j]? = some
          (if sim.available j = true then (r.validateAndInsertProposal now block).1 else r) := by
  have hphase : proposalPhase now leaderId block sim =
      (others sim.network.numReplicas leaderId).foldl
        (fun sim i => deliverProposal now sim (.proposal leaderId i block)) sim := by
    have hempty : ({ sim with network := { sim.network with messageQueue := [] } } : Simulation σ) =
        sim := by
      rw [← hquiet]
    simp only [proposalPhase, Network.broadcastProposal, Network.broadcast_eq, Network.drain,
      hquiet, List.nil_append]
    rw [List.filter_eq_self.mpr fun msg hmsg => by
      obtain ⟨i, -, rfl⟩ := List.mem_map.mp hmsg
      rfl]
    rw [List.foldl_map, hempty]
  have hnodup := nodup_others sim.network.numReplicas leaderId
  obtain ⟨hframe, hout, hin⟩ := foldl_visits
    (fun sim i => deliverProposal now sim (.proposal leaderId i block)) sim.frame
    (G := fun j r r' => r' =
      if sim.available j = true then (r.validateAndInsertProposal now block).1 else r)
    (fun s i hs => available_congr hs i ▸ (deliverProposal_visits now s leaderId i block).1)
    hnodup rfl
  rw [hphase]
  refine ⟨hframe, ?_, hout, fun j hj r hr => ?_⟩
  · rw [deliverProposals_queue now leaderId block hnodup, hquiet, List.nil_append]
  · obtain ⟨r', hr', rfl⟩ := hin j hj r hr
    exact hr'

end Proposal

section Votes

/-- Delivered votes are handled by the leader, one after the other. -/
theorem deliverVotes_visits (now leaderId : Nat) {msgs : List Message}
    (hmsgs : ∀ msg ∈ msgs, ∃ sender vote, msg = .vote sender leaderId vote)
    (acc : Simulation σ × Option QuorumCert) {leader : Replica σ}
    (hr : acc.1.replicas[leaderId]? = some leader) (ha : acc.1.available leaderId = true) :
    Visits (fun r r' => r' = (Replica.handleVotes now (r, acc.2) (msgs.filterMap Message.ballot)).1)
        leaderId acc.1 (msgs.foldl (deliverVote now) acc).1 ∧
      (msgs.foldl (deliverVote now) acc).2 =
        (Replica.handleVotes now (leader, acc.2) (msgs.filterMap Message.ballot)).2 ∧
      (msgs.foldl (deliverVote now) acc).1.network = acc.1.network := by
  induction msgs generalizing acc leader with
  | nil => exact ⟨visits_refl fun _ _ => rfl, rfl, rfl⟩
  | cons msg msgs ih =>
    obtain ⟨⟨sender, vote, rfl⟩, hlater⟩ := List.forall_mem_cons.mp hmsgs
    have hdeliver : deliverVote now acc (.vote sender leaderId vote) =
        ((acc.1.setReplica leaderId (leader.handleVote now vote).1).markResponded leaderId,
          (leader.handleVote now vote).2.or acc.2) := by
      simp only [deliverVote, hr, ha, Bool.not_true, Bool.false_eq_true, if_false]
      cases (leader.handleVote now vote).2 <;> rfl
    have hvisit : Visits (fun r r' => r' = (r.handleVote now vote).1) leaderId acc.1
        (deliverVote now acc (.vote sender leaderId vote)).1 := by
      have hset : Visits (fun r r' => r' = (r.handleVote now vote).1) leaderId acc.1
          (acc.1.setReplica leaderId (leader.handleVote now vote).1) := visits_setReplica hr rfl
      rw [hdeliver]
      exact hset.markResponded leaderId
    obtain ⟨leader', hleader', rfl⟩ := hvisit.here leader hr
    have ha' := (available_congr hvisit.frame leaderId).trans ha
    obtain ⟨hrest, hformed, hnetwork⟩ := ih hlater _ hleader' ha'
    rw [List.foldl_cons]
    have hacc : (deliverVote now acc (.vote sender leaderId vote)).2 =
        (leader.handleVote now vote).2.or acc.2 := by
      rw [hdeliver]
    rw [hacc] at hrest hformed
    refine ⟨⟨hrest.frame.trans hvisit.frame, fun j hj => ?_, fun r hr' => ?_⟩, hformed, ?_⟩
    · rw [hrest.elsewhere j hj, hvisit.elsewhere j hj]
    · rw [hr, Option.some.injEq] at hr'
      subst hr'
      exact hrest.here _ hleader'
    · rw [hnetwork, hdeliver]
      rfl

end Votes

section Certificate

/-- A replica learns of the certificate formed, if there is one. -/
def learn (now : Nat) (formed : Option QuorumCert) (r : Replica σ) : Replica σ :=
  match formed with
  | some qc => (r.applyHighQcFromNetwork now qc).1
  | none => r

omit [Ed25519] [Sha256] in
/-- A delivered certificate is learned by its receiver. -/
theorem deliverQc_visits (now : Nat) (always : Bool) (sim : Simulation σ) (sender i : Nat)
    (qc : QuorumCert) (hash : Hash) :
    Visits (fun r r' => r' = if sim.available i = true then learn now (some qc) r else r) i sim
      (deliverQc now always sim (.quorumCertBroadcast sender i qc hash)) ∧
      (deliverQc now always sim (.quorumCertBroadcast sender i qc hash)).network = sim.network := by
  simp only [deliverQc]
  cases hr : sim.replicas[i]? with
  | none =>
    refine ⟨visits_refl fun r h => ?_, rfl⟩
    rw [hr] at h
    cases h
  | some r =>
    cases ha : sim.available i with
    | false => exact ⟨visits_refl fun _ _ => rfl, rfl⟩
    | true =>
      simp only [Bool.not_true, Bool.false_eq_true, if_false, if_true]
      have hset : Visits (fun r r' => r' = learn now (some qc) r) i sim
          (sim.setReplica i (learn now (some qc) r)) := visits_setReplica hr rfl
      split
      · exact ⟨hset.markResponded i, rfl⟩
      · exact ⟨hset, rfl⟩

omit [Ed25519] [Sha256] in
/-- After the broadcast every available replica but the leader has learned of the certificate. -/
theorem qcPhase_visits (now leaderId : Nat) (always : Bool) (formed : Option QuorumCert)
    (sim : Simulation σ) (hquiet : sim.network.messageQueue = []) :
    (qcPhase now leaderId always formed sim).frame = sim.frame ∧
      (qcPhase now leaderId always formed sim).network.messageQueue = [] ∧
      (∀ j, j ∉ others sim.network.numReplicas leaderId →
        (qcPhase now leaderId always formed sim).replicas[j]? = sim.replicas[j]?) ∧
      ∀ j ∈ others sim.network.numReplicas leaderId, ∀ r, sim.replicas[j]? = some r →
        (qcPhase now leaderId always formed sim).replicas[j]? = some
          (if sim.available j = true then learn now formed r else r) := by
  cases formed with
  | none =>
    refine ⟨rfl, hquiet, fun _ _ => rfl, fun j _ r hr => ?_⟩
    show sim.replicas[j]? = some (if sim.available j = true then r else r)
    rw [ite_self, hr]
  | some qc =>
    have hempty : ({ sim with network := { sim.network with messageQueue := [] } } : Simulation σ) =
        sim := by
      rw [← hquiet]
    have hphase : qcPhase now leaderId always (some qc) sim =
        (others sim.network.numReplicas leaderId).foldl
          (fun sim i => deliverQc now always sim
            (.quorumCertBroadcast leaderId i qc qc.blockHash)) sim := by
      simp only [qcPhase, Network.broadcastQc, Network.broadcast_eq, Network.drain, hquiet,
        List.nil_append]
      rw [List.foldl_map, hempty]
    obtain ⟨hframe, hout, hin⟩ := foldl_visits
      (fun sim i => deliverQc now always sim
        (.quorumCertBroadcast leaderId i qc qc.blockHash)) sim.frame
      (G := fun j r r' => r' = if sim.available j = true then learn now (some qc) r else r)
      (fun s i hs => available_congr hs i ▸
        (deliverQc_visits now always s leaderId i qc qc.blockHash).1)
      (nodup_others sim.network.numReplicas leaderId) rfl
    have hnetwork : ∀ (ids : List Nat) (s : Simulation σ), (ids.foldl
        (fun sim i => deliverQc now always sim
          (.quorumCertBroadcast leaderId i qc qc.blockHash)) s).network = s.network := by
      intro ids
      induction ids with
      | nil => exact fun _ => rfl
      | cons i ids ih =>
        intro s
        rw [List.foldl_cons, ih]
        exact (deliverQc_visits now always s leaderId i qc qc.blockHash).2
    rw [hphase]
    refine ⟨hframe, ?_, hout, fun j hj r hr => ?_⟩
    · rw [hnetwork]
      exact hquiet
    · obtain ⟨r', hr', rfl⟩ := hin j hj r hr
      exact hr'

end Certificate

section Round

/-- The votes a leader gets for a block. -/
def ballots (sim : Simulation σ) (leaderId : Nat) (block : Block) : List Vote :=
  (others sim.network.numReplicas leaderId).filterMap (sim.reply block)

/-- The leader after the votes, with the certificate they form. -/
def collect (now : Nat) (sim : Simulation σ) (leaderId : Nat) (block : Block)
    (leader : Replica σ) : Replica σ × Option QuorumCert :=
  Replica.handleVotes now (leader, none) (sim.ballots leaderId block)

/-- An available replica after the certifying phases. -/
def certified (now : Nat) (sim : Simulation σ) (leaderId : Nat) (block : Block)
    (leader : Replica σ) (id : Nat) (r : Replica σ) : Replica σ :=
  if id = leaderId then (sim.collect now leaderId block leader).1
  else learn now (sim.collect now leaderId block leader).2 (r.validateAndInsertProposal now block).1

/-- The certifying phases, replica by replica. -/
theorem certifyPhases_visits (now : Nat) (always : Bool) (block : Block) {sim : Simulation σ}
    {leaderId : Nat} {leader : Replica σ} (hquiet : sim.network.messageQueue = [])
    (hcount : sim.network.numReplicas = sim.replicas.length)
    (hleader : sim.replicas[leaderId]? = some leader) (ha : sim.available leaderId = true) :
    (certifyPhases now leaderId always block sim).1.frame = sim.frame ∧
      (certifyPhases now leaderId always block sim).1.network.messageQueue = [] ∧
      (certifyPhases now leaderId always block sim).2 = (sim.collect now leaderId block leader).2 ∧
      ∀ j r, sim.replicas[j]? = some r →
        (certifyPhases now leaderId always block sim).1.replicas[j]? = some
          (if sim.available j = true then sim.certified now leaderId block leader j r else r) := by
  have hself : leaderId ∉ others sim.network.numReplicas leaderId :=
    fun h => (mem_others.mp h).2 rfl
  obtain ⟨hframe₁, hqueue₁, hout₁, hin₁⟩ := proposalPhase_visits now leaderId block hquiet
  -- the votes, all for the leader
  generalize hsim₁ : proposalPhase now leaderId block sim = sim₁ at hframe₁ hqueue₁ hout₁ hin₁
  have hmsgs : ∀ msg ∈ sim₁.network.messageQueue, ∃ sender vote,
      msg = .vote sender leaderId vote := by
    intro msg hmsg
    rw [hqueue₁] at hmsg
    obtain ⟨i, -, hi⟩ := List.mem_filterMap.mp hmsg
    obtain ⟨vote, -, rfl⟩ := Option.map_eq_some_iff.mp hi
    exact ⟨i, vote, rfl⟩
  have hballots : sim₁.network.messageQueue.filterMap Message.ballot =
      sim.ballots leaderId block := by
    rw [hqueue₁, List.filterMap_filterMap, ballots]
    refine List.filterMap_congr fun i _ => ?_
    cases sim.reply block i <;> rfl
  have hleader₁ : sim₁.replicas[leaderId]? = some leader := (hout₁ leaderId hself).trans hleader
  obtain ⟨hvisit, hformed, hnetwork⟩ := deliverVotes_visits now leaderId hmsgs
    ({ sim₁ with network := { sim₁.network with messageQueue := [] } }, none)
    hleader₁ ((available_congr hframe₁ leaderId).trans ha)
  rw [hballots] at hvisit hformed
  have hvotes : votePhase now sim₁ = sim₁.network.messageQueue.foldl (deliverVote now)
      ({ sim₁ with network := { sim₁.network with messageQueue := [] } }, none) := rfl
  rw [← hvotes] at hvisit hformed hnetwork
  have hframe₂ : (votePhase now sim₁).1.frame = sim.frame := hvisit.frame.trans hframe₁
  have hnum : (votePhase now sim₁).1.network.numReplicas = sim.network.numReplicas :=
    congrArg Frame.numReplicas hframe₂
  -- the certificate
  obtain ⟨hframe₃, hqueue₃, hout₃, hin₃⟩ := qcPhase_visits now leaderId always
    (votePhase now sim₁).2 (votePhase now sim₁).1 (by rw [hnetwork])
  rw [hnum] at hout₃ hin₃
  have hphases : certifyPhases now leaderId always block sim =
      (qcPhase now leaderId always (votePhase now sim₁).2 (votePhase now sim₁).1,
        (votePhase now sim₁).2) := by
    rw [← hsim₁]
    rfl
  rw [hphases]
  refine ⟨hframe₃.trans hframe₂, hqueue₃, hformed, fun j r hr => ?_⟩
  by_cases hj : j = leaderId
  · subst hj
    obtain ⟨leader', hr', rfl⟩ := hvisit.here leader hleader₁
    rw [ha, if_pos rfl, certified, if_pos rfl]
    exact (hout₃ j hself).trans hr'
  · have hmem : j ∈ others sim.network.numReplicas leaderId := by
      refine mem_others.mpr ⟨?_, hj⟩
      rw [hcount]
      exact (List.getElem?_eq_some_iff.mp hr).1
    have hr₂ : (votePhase now sim₁).1.replicas[j]? = some
        (if sim.available j = true then (r.validateAndInsertProposal now block).1 else r) :=
      (hvisit.elsewhere j hj).trans (hin₁ j hmem r hr)
    rw [hin₃ j hmem _ hr₂, available_congr hframe₂, certified, if_neg hj, hformed]
    cases sim.available j <;> rfl

variable [Bincode Snapshot] [App σ]

omit [Ed25519] in
/-- A snapshot changes the log handle and the number of the next one. -/
theorem takeSnapshot_replica (now : Nat) (r : Replica σ) (dir : DataDir) :
    (r.takeSnapshot now dir).2.1 =
      { r with
        wal := (r.takeSnapshot now dir).2.1.wal
        snapshotCounter := (r.takeSnapshot now dir).2.1.snapshotCounter } := by
  simp only [Replica.takeSnapshot]
  split
  · rfl
  · split <;> rfl

/-- What the end of a round does to a replica: it commits, may take a snapshot, and moves on. -/
def Closes (now : Nat) (r r' : Replica σ) : Prop :=
  ∃ wal counter, r' =
    ({ r.commitAll now with wal := wal, snapshotCounter := counter }).advanceViewWithReason now
      .commit

omit [Ed25519] [Sha256] [Bincode Snapshot] [App σ] in
/-- A view change, replica by replica. -/
theorem advanceViews_visits (now : Nat) (reason : ViewChangeReason) (responds : Bool)
    (sim : Simulation σ) :
    (advanceViews now reason responds sim).frame = sim.frame ∧
      ∀ j r, sim.replicas[j]? = some r →
        ∃ r', (advanceViews now reason responds sim).replicas[j]? = some r' ∧
          if sim.available j = true then r' = r.advanceViewWithReason now reason else r' = r :=
  forEachAvailable_visits (fun (sim : Simulation σ) id replica =>
      let sim := sim.setReplica id (replica.advanceViewWithReason now reason)
      if responds then sim.markResponded id else sim)
    (G := fun _ r r' => r' = r.advanceViewWithReason now reason)
    (fun s i r _ hr => by
      have hset : Visits (fun r r' => r' = r.advanceViewWithReason now reason) i s
          (s.setReplica i (r.advanceViewWithReason now reason)) := visits_setReplica hr rfl
      cases responds with
      | false => exact hset
      | true => exact hset.markResponded i) rfl

/-- The end of a round, replica by replica. -/
theorem close_visits (now : Nat) (sim : Simulation σ) :
    (advanceViews now .commit true (commitPhase now sim)).frame = sim.frame ∧
      ∀ j r, sim.replicas[j]? = some r →
        ∃ r', (advanceViews now .commit true (commitPhase now sim)).replicas[j]? = some r' ∧
          if sim.available j = true then Closes now r r' else r' = r := by
  obtain ⟨hframe₁, hin₁⟩ := forEachAvailable_visits (commitAt now)
    (G := fun _ r r' => ∃ wal counter,
      r' = { r.commitAll now with wal := wal, snapshotCounter := counter })
    (fun s i r hs hr => by
      have hset : ∀ r', (∃ wal counter,
          r' = { r.commitAll now with wal := wal, snapshotCounter := counter }) →
          Visits (fun r r' => ∃ wal counter,
            r' = { r.commitAll now with wal := wal, snapshotCounter := counter }) i s
            (s.setReplica i r') := fun r' h => visits_setReplica hr h
      have hplain := hset (r.commitAll now) ⟨_, _, rfl⟩
      simp only [commitAt]
      cases s.replicaDataDirs[i]? with
      | none => exact hplain.markResponded i
      | some dir =>
        cases hs : s.persistenceEnabled && (r.commitAll now).shouldSnapshot with
        | false => exact hplain.markResponded i
        | true =>
          have hsnap := hset _ ⟨_, _, takeSnapshot_replica now (r.commitAll now) dir⟩
          exact ⟨hsnap.frame, hsnap.elsewhere, hsnap.here⟩)
    (rfl : sim.frame = sim.frame)
  have hframe₁ : (commitPhase now sim).frame = sim.frame := hframe₁
  obtain ⟨hframe₂, hin₂⟩ := advanceViews_visits now .commit true (commitPhase now sim)
  refine ⟨hframe₂.trans hframe₁, fun j r hr => ?_⟩
  obtain ⟨r₁, hr₁, hG₁⟩ := hin₁ j r hr
  obtain ⟨r₂, hr₂, hG₂⟩ := hin₂ j r₁ hr₁
  rw [available_congr hframe₁] at hG₂
  refine ⟨r₂, hr₂, ?_⟩
  cases ha : sim.available j with
  | false =>
    rw [ha] at hG₁ hG₂
    exact hG₂.trans hG₁
  | true =>
    rw [ha] at hG₁ hG₂
    obtain ⟨wal, counter, rfl⟩ := hG₁
    exact ⟨wal, counter, hG₂⟩

/-- Commits send nothing. -/
theorem commitPhase_network (now : Nat) (sim : Simulation σ) :
    (commitPhase now sim).network = sim.network := by
  refine forEachAvailable_preserves (I := fun s => s.network = sim.network)
    (fun s i r hs _ _ => ?_) rfl
  simp only [commitAt]
  split
  · split
    · exact hs
    · exact hs
  · exact hs

omit [Ed25519] [Sha256] [Bincode Snapshot] [App σ] in
/-- View changes send nothing. -/
theorem advanceViews_network (now : Nat) (reason : ViewChangeReason) (responds : Bool)
    (sim : Simulation σ) : (advanceViews now reason responds sim).network = sim.network := by
  refine forEachAvailable_preserves (I := fun s => s.network = sim.network)
    (fun s i r hs _ _ => ?_) rfl
  cases responds with
  | false => exact hs
  | true => exact hs

end Round

end Simulation

end PersistHotStuff
