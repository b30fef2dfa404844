import PersistHotStuff.Simulator.Phases

/-!
# What a round preserves

A round is made of calls and snapshots of available replicas, of responses and
of messages. What these keep, every phase of a round keeps, whatever it says
about the simulation.
-/

namespace PersistHotStuff

open Basis

/-- What delivering one message keeps, delivering all messages keeps. -/
theorem foldl_messages {β : Type} {J : β → Prop} {deliver : β → Message → β} {msgs : List Message}
    (h : ∀ acc, ∀ msg ∈ msgs, J acc → J (deliver acc msg)) {acc : β} (hacc : J acc) :
    J (msgs.foldl deliver acc) := by
  induction msgs generalizing acc with
  | nil => exact hacc
  | cons msg msgs ih =>
    exact ih (fun acc m hm => h acc m (List.mem_cons_of_mem msg hm))
      (h acc msg (List.mem_cons_self ..) hacc)

/-- Every proposal among the messages is for an allowed block. -/
def ProposesOnly (Allowed : Block → Prop) (msgs : List Message) : Prop :=
  ∀ sender receiver block, Message.proposal sender receiver block ∈ msgs → Allowed block

namespace Simulation

variable {σ : Type} [Ed25519] [Sha256] [Bincode LogEntry] [Bincode Snapshot] [Crc32] [App σ]

/-- A property of simulations that every step of a round keeps. -/
structure RoundRule (I : Simulation σ → Prop) : Prop where
  call : ∀ sim i r c, I sim → sim.replicas[i]? = some r → sim.available i = true →
    I (sim.setReplica i (r.step c))
  snapshot : ∀ sim i r dir now, I sim → sim.replicas[i]? = some r → sim.available i = true →
    sim.replicaDataDirs[i]? = some dir →
    I { sim.setReplica i (r.takeSnapshot now dir).2.1 with
      replicaDataDirs := sim.replicaDataDirs.set i (r.takeSnapshot now dir).2.2 }
  respond : ∀ sim i, I sim → I (sim.markResponded i)
  network : ∀ sim net, I sim → net.numReplicas = sim.network.numReplicas →
    I { sim with network := net }

/-- A property of simulations that every step of a round keeps, as long as replicas insert allowed
blocks only. -/
structure RuleFor (Allowed : Block → Prop) (I : Simulation σ → Prop) : Prop where
  call : ∀ sim i r c, I sim → sim.replicas[i]? = some r → sim.available i = true →
    (∀ b ∈ r.inserted c, Allowed b) → I (sim.setReplica i (r.step c))
  snapshot : ∀ sim i r dir now, I sim → sim.replicas[i]? = some r → sim.available i = true →
    sim.replicaDataDirs[i]? = some dir →
    I { sim.setReplica i (r.takeSnapshot now dir).2.1 with
      replicaDataDirs := sim.replicaDataDirs.set i (r.takeSnapshot now dir).2.2 }
  respond : ∀ sim i, I sim → I (sim.markResponded i)
  network : ∀ sim net, I sim → net.numReplicas = sim.network.numReplicas →
    I { sim with network := net }

namespace RuleFor

variable {Allowed : Block → Prop} {I : Simulation σ → Prop} {sim : Simulation σ}

/-- A call that inserts nothing is always allowed. -/
theorem quietCall (h : RuleFor Allowed I) (hI : I sim) {i : Nat} {r : Replica σ} (c : Nat × Call)
    (hr : sim.replicas[i]? = some r) (ha : sim.available i = true) (hc : r.inserted c = none) :
    I (sim.setReplica i (r.step c)) := by
  refine h.call sim i r c hI hr ha fun b hb => ?_
  rw [hc] at hb
  cases hb

theorem deliverProposal (h : RuleFor Allowed I) (hI : I sim) (now : Nat) {msg : Message}
    (hmsg : ProposesOnly Allowed [msg]) : I (deliverProposal now sim msg) := by
  cases msg with
  | proposal sender receiver block =>
    simp only [Simulation.deliverProposal]
    split
    · exact hI
    · rename_i r hr
      cases ha : sim.available receiver with
      | false => exact hI
      | true =>
        rw [if_neg (by simp)]
        have hcall := h.call sim receiver r (now, .validateAndInsertProposal block) hI hr ha <| by
          intro b hb
          simp only [Replica.inserted] at hb
          split at hb
          · cases hb
            exact hmsg sender receiver block (List.mem_singleton_self _)
          · cases hb
        cases hv : r.validateAndInsertProposal now block with
        | mk r' accepted =>
          have hr' : r.step (now, .validateAndInsertProposal block) = r' := congrArg Prod.fst hv
          rw [hr'] at hcall
          cases accepted with
          | false => exact hcall
          | true => exact h.network _ _ (h.respond _ receiver hcall) rfl
  | _ => exact hI

theorem deliverVote (h : RuleFor Allowed I) {acc : Simulation σ × Option QuorumCert} (hI : I acc.1)
    (now : Nat) (msg : Message) : I (deliverVote now acc msg).1 := by
  cases msg with
  | vote sender receiver vote =>
    rcases deliverVote_cases now acc sender receiver vote with heq | ⟨r, hr, ha, heq⟩
    · rw [heq]
      exact hI
    · rw [heq]
      exact h.respond _ receiver (h.quietCall hI (now, .handleVote vote) hr ha rfl)
  | _ => exact hI

theorem deliverQc (h : RuleFor Allowed I) (hI : I sim) (now : Nat) (always : Bool) (msg : Message) :
    I (deliverQc now always sim msg) := by
  cases msg with
  | quorumCertBroadcast sender receiver qc hash =>
    simp only [Simulation.deliverQc]
    split
    · exact hI
    · rename_i r hr
      cases ha : sim.available receiver with
      | false => exact hI
      | true =>
        rw [if_neg (by simp)]
        have hcall := h.quietCall hI (now, .applyHighQcFromNetwork qc) hr ha rfl
        cases hv : r.applyHighQcFromNetwork now qc with
        | mk r' updated =>
          have hr' : r.step (now, .applyHighQcFromNetwork qc) = r' := congrArg Prod.fst hv
          rw [hr'] at hcall
          simp only
          split
          · exact h.respond _ receiver hcall
          · exact hcall
  | _ => exact hI

/-- The phases up to the certificate. -/
theorem certifyPhases (h : RuleFor Allowed I) (hI : I sim) (now leaderId : Nat) (always : Bool)
    {block : Block} (hblock : Allowed block)
    (hqueue : ProposesOnly Allowed sim.network.messageQueue) :
    I (certifyPhases now leaderId always block sim).1 := by
  have hproposal : I (proposalPhase now leaderId block sim) := by
    simp only [proposalPhase, Network.broadcastProposal, Network.broadcast_eq, Network.drain]
    refine foldl_messages (J := I) (fun s msg hmsg hs => h.deliverProposal hs now ?_)
      (h.network _ _ hI rfl)
    intro sender receiver b hb
    rw [List.mem_singleton.mp hb |>.symm] at hmsg
    rcases List.mem_append.mp (List.mem_of_mem_filter hmsg) with hold | hnew
    · exact hqueue sender receiver b hold
    · obtain ⟨id, -, heq⟩ := List.mem_map.mp hnew
      cases heq
      exact hblock
  have hvote : I (votePhase now (proposalPhase now leaderId block sim)).1 := by
    simp only [votePhase, Network.drain]
    exact foldl_messages (J := fun acc : Simulation σ × Option QuorumCert => I acc.1)
      (fun acc msg _ hacc => h.deliverVote hacc now msg) (h.network _ _ hproposal rfl)
  have hphases : (Simulation.certifyPhases now leaderId always block sim).1 =
      qcPhase now leaderId always (votePhase now (proposalPhase now leaderId block sim)).2
        (votePhase now (proposalPhase now leaderId block sim)).1 := rfl
  rw [hphases]
  generalize votePhase now (proposalPhase now leaderId block sim) = voted at hvote
  obtain ⟨s, formed⟩ := voted
  cases formed with
  | none => exact hvote
  | some qc =>
    simp only [qcPhase, Network.broadcastQc, Network.broadcast_eq, Network.drain]
    exact foldl_messages (J := I) (fun s msg _ hs => h.deliverQc hs now always msg)
      (h.network _ _ hvote rfl)

/-- The commits and snapshots after it. -/
theorem commitPhase (h : RuleFor Allowed I) (hI : I sim) (now : Nat) : I (commitPhase now sim) := by
  refine forEachAvailable_preserves (fun s i r hs hr ha => ?_) hI
  have hcommit := h.quietCall hs (now, .commitAll) hr ha rfl
  have hi := (List.getElem?_eq_some_iff.mp hr).1
  have hat : (s.setReplica i (r.commitAll now)).replicas[i]? = some (r.commitAll now) :=
    List.getElem?_set_self hi
  have hsnap := fun dir (hdir : s.replicaDataDirs[i]? = some dir) =>
    h.snapshot (s.setReplica i (r.commitAll now)) i (r.commitAll now) dir now hcommit hat ha hdir
  simp only [setReplica, List.set_set] at hsnap
  simp only [commitAt]
  refine h.respond _ i ?_
  split
  · rename_i dir hdir
    split
    · exact hsnap dir hdir
    · exact hcommit
  · exact hcommit

theorem advanceViews (h : RuleFor Allowed I) (hI : I sim) (now : Nat) (reason : ViewChangeReason)
    (responds : Bool) : I (advanceViews now reason responds sim) := by
  refine forEachAvailable_preserves (fun s i r hs hr ha => ?_) hI
  have hcall := h.quietCall hs (now, .advanceViewWithReason reason) hr ha rfl
  cases responds with
  | false => exact hcall
  | true => exact h.respond _ i hcall

/-- The leader is asked to propose. -/
theorem led (h : RuleFor Allowed I) (hI : I sim) (now : Nat) (how : Hash → ProposeCall)
    {leader : Replica σ} (hr : sim.replicas[sim.currentLeader]? = some leader)
    (ha : sim.available sim.currentLeader = true)
    (hins : ∀ b ∈ leader.inserted
      (now, .propose (how sim.network.nextGlobalHash) leader.currentView), Allowed b) :
    I (sim.led now how leader) :=
  h.call { sim with network := sim.network.generateUniqueHash.2 } sim.currentLeader leader
    (now, .propose (how sim.network.nextGlobalHash) leader.currentView)
    (h.network _ _ hI rfl) hr ha hins

/-- A round that proposes an allowed block, if it proposes one. -/
theorem simAfter (h : RuleFor Allowed I) (hI : I sim) {now : Nat} {how : Hash → ProposeCall}
    {opening : Opening σ} (hopen : Opens now how sim opening)
    (hblock : ∀ s leaderId block, opening = .proposed s leaderId block → Allowed block)
    (hqueue : ProposesOnly Allowed sim.network.messageQueue) (always : Bool) :
    I (sim.simAfter now always opening) := by
  cases hopen with
  | finished => exact hI
  | leaderless => exact hI
  | silent hr ha hins =>
    refine h.led hI now how hr ha fun b hb => ?_
    rw [hins] at hb
    cases hb
  | proposed hr ha hins =>
    have hallowed := hblock _ _ _ rfl
    have hled := h.led hI now how hr ha fun b hb => by
      rw [hins] at hb
      cases hb
      exact hallowed
    have hcertified := h.certifyPhases (h.respond _ sim.currentLeader hled) now sim.currentLeader
      always hallowed hqueue
    exact h.advanceViews (h.commitPhase hcertified now) now .commit true

end RuleFor

/-- A round whose leader is asked to propose uses one hash, and leaves no message behind. -/
theorem simAfter_frame {sim : Simulation σ} (hquiet : sim.network.messageQueue = [])
    (hcount : sim.network.numReplicas = sim.replicas.length) {now : Nat} {how : Hash → ProposeCall}
    {opening : Opening σ} (hopen : Opens now how sim opening) (hfinished : opening ≠ .finished)
    (hleaderless : opening ≠ .leaderless) (always : Bool) :
    (sim.simAfter now always opening).frame =
        { sim.frame with nextGlobalHash := sim.network.nextGlobalHash + 1 } ∧
      (sim.simAfter now always opening).network.messageQueue = [] := by
  have hled : ∀ leader : Replica σ, (sim.led now how leader).frame =
      { sim.frame with nextGlobalHash := sim.network.nextGlobalHash + 1 } := by
    intro leader
    simp only [Simulation.led, frame, setReplica, List.length_set, Network.generateUniqueHash]
  cases hopen with
  | finished => exact absurd rfl hfinished
  | leaderless => exact absurd rfl hleaderless
  | silent _ _ _ => exact ⟨hled _, hquiet⟩
  | @proposed leader block hr ha hins =>
    have hquiet' : ((sim.led now how leader).markResponded
        sim.currentLeader).network.messageQueue = [] := hquiet
    obtain ⟨hframe, hqueue, -, -⟩ := certifyPhases_visits now always block hquiet'
      (hcount.trans (List.length_set ..).symm)
      (List.getElem?_set_self (List.getElem?_eq_some_iff.mp hr).1) ha
    refine ⟨(close_visits now _).1.trans (hframe.trans (hled leader)), ?_⟩
    rw [Simulation.simAfter, advanceViews_network, commitPhase_network]
    exact hqueue

namespace RoundRule

variable {I : Simulation σ → Prop} {sim : Simulation σ}

/-- What every step keeps is kept whatever is inserted. -/
theorem ruleFor (h : RoundRule I) : RuleFor (fun _ => True) I :=
  ⟨fun sim i r c hI hr ha _ => h.call sim i r c hI hr ha, h.snapshot, h.respond, h.network⟩

theorem certifyPhases (h : RoundRule I) (hI : I sim) (now leaderId : Nat) (always : Bool)
    (block : Block) : I (certifyPhases now leaderId always block sim).1 :=
  h.ruleFor.certifyPhases hI now leaderId always trivial fun _ _ _ _ => trivial

theorem commitPhase (h : RoundRule I) (hI : I sim) (now : Nat) : I (commitPhase now sim) :=
  h.ruleFor.commitPhase hI now

theorem advanceViews (h : RoundRule I) (hI : I sim) (now : Nat) (reason : ViewChangeReason)
    (responds : Bool) : I (advanceViews now reason responds sim) :=
  h.ruleFor.advanceViews hI now reason responds

theorem led (h : RoundRule I) (hI : I sim) (now : Nat) (how : Hash → ProposeCall)
    {leader : Replica σ} (hr : sim.replicas[sim.currentLeader]? = some leader)
    (ha : sim.available sim.currentLeader = true) : I (sim.led now how leader) :=
  h.ruleFor.led hI now how hr ha fun _ _ => trivial

end RoundRule

end Simulation

end PersistHotStuff
