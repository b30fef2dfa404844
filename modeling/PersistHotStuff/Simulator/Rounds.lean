import PersistHotStuff.Simulator.Slots

/-!
# Rounds of the simulator

A round is followed phase by phase. The block proposed joins the history, the
votes are for it alone, a certificate they form joins the history, and what is
committed after it starts the certified blocks.
-/

namespace PersistHotStuff

open Basis

/-- No message. -/
def NoMessage (_ : Message) : Prop := False

/-- A proposal of a block. -/
def Proposes (block : Block) : Message → Prop
  | .proposal _ _ b => b = block
  | _ => False

/-- A vote for a hash. -/
def VotesFor (hash : Hash) : Message → Prop
  | .vote _ _ vote => vote.blockHash = hash
  | _ => False

/-- A broadcast of a certificate. -/
def Announces (qc : QuorumCert) : Message → Prop
  | .quorumCertBroadcast _ _ q _ => q = qc
  | _ => False

namespace Network

/-- A broadcast adds its messages and gives out no hash. -/
theorem broadcast_spec (net : Network) (sender : ReplicaId) (msg : ReplicaId → Message) :
    (∀ m ∈ (net.broadcast sender msg).messageQueue,
        m ∈ net.messageQueue ∨ ∃ receiver, m = msg receiver) ∧
      (net.broadcast sender msg).nextGlobalHash = net.nextGlobalHash := by
  simp only [broadcast]
  generalize List.range net.numReplicas = receivers
  induction receivers generalizing net with
  | nil => exact ⟨fun m hm => Or.inl hm, rfl⟩
  | cons receiver receivers ih =>
    rw [List.foldl_cons]
    obtain ⟨hqueue, hnext⟩ := ih (if receiver ≠ sender then net.send (msg receiver) else net)
    refine ⟨fun m hm => ?_, ?_⟩
    · rcases hqueue m hm with hm | hm
      · split at hm
        · rcases List.mem_append.mp hm with hm | hm
          · exact Or.inl hm
          · exact Or.inr ⟨receiver, List.mem_singleton.mp hm⟩
        · exact Or.inl hm
      · exact Or.inr hm
    · rw [hnext]
      split <;> rfl

end Network

/-- Certificates for one hash certify the same. -/
theorem History.certify_congr (h : History) {q q' : QuorumCert} (he : q.blockHash = q'.blockHash) :
    h.certify (some q) = h.certify (some q') := by
  simp only [History.certify, Option.map_some, he]

/-- A later certificate for the same hash certifies no less. -/
theorem History.certify_le (h : History) {hash : Hash} {formed formed' : Option QuorumCert}
    (hf : ∀ q ∈ formed, q.blockHash = hash) (hf' : ∀ q ∈ formed', q.blockHash = hash) :
    (h.certify formed).Le (h.certify (formed'.or formed)) := by
  cases formed with
  | none =>
    have heq : h.certify none = h := by
      rw [History.certify, Option.map_none, Option.toList_none, List.append_nil]
    rw [heq]
    exact h.le_certify _
  | some q =>
    cases formed' with
    | none => exact History.Le.refl _
    | some q' =>
      rw [Option.or_some, h.certify_congr ((hf q rfl).trans (hf' q' rfl).symm)]
      exact History.Le.refl _

namespace Simulation

section Outcomes

variable {σ : Type} [Ed25519] [Sha256] [Bincode LogEntry] [Crc32] [App σ]

/-- A vote is lost or handled by its receiver. -/
theorem deliverVote_cases (now : Nat) (acc : Simulation σ × Option QuorumCert)
    (sender receiver : ReplicaId) (vote : Vote) :
    deliverVote now acc (.vote sender receiver vote) = acc ∨
      ∃ r, acc.1.replicas[receiver]? = some r ∧ acc.1.available receiver = true ∧
        deliverVote now acc (.vote sender receiver vote) =
          ((acc.1.setReplica receiver (r.step (now, .handleVote vote))).markResponded receiver,
            (r.handleVote now vote).2.or acc.2) := by
  simp only [Simulation.deliverVote, Replica.step]
  cases hr : acc.1.replicas[receiver]? with
  | none => exact Or.inl rfl
  | some r =>
    cases ha : acc.1.available receiver with
    | false => exact Or.inl rfl
    | true =>
      refine Or.inr ⟨r, rfl, rfl, ?_⟩
      simp only [Bool.not_true, Bool.false_eq_true, if_false]
      cases (r.handleVote now vote).2 <;> rfl

/-- The simulation after its leader was asked to propose with the next hash. -/
def led (now : Nat) (how : Hash → ProposeCall) (sim : Simulation σ) (leader : Replica σ) :
    Simulation σ :=
  { sim with network := sim.network.generateUniqueHash.2 }.setReplica sim.currentLeader
    (leader.step (now, .propose (how sim.network.nextGlobalHash) leader.currentView))

/-- How a round opens when leaders propose in a given way. -/
inductive Opens (now : Nat) (how : Hash → ProposeCall) (sim : Simulation σ) : Opening σ → Prop
  | finished : Opens now how sim .finished
  | leaderless : Opens now how sim .leaderless
  | silent {leader : Replica σ} : sim.replicas[sim.currentLeader]? = some leader →
      sim.available sim.currentLeader = true →
      leader.inserted (now, .propose (how sim.network.nextGlobalHash) leader.currentView) = none →
      Opens now how sim (.silent (sim.led now how leader))
  | proposed {leader : Replica σ} {block : Block} :
      sim.replicas[sim.currentLeader]? = some leader → sim.available sim.currentLeader = true →
      leader.inserted (now, .propose (how sim.network.nextGlobalHash) leader.currentView) =
        some block →
      Opens now how sim
        (.proposed ((sim.led now how leader).markResponded sim.currentLeader) sim.currentLeader
          block)

theorem openRound_opens (now : Nat) (how : Hash → ProposeCall) (sim : Simulation σ) :
    Opens now how sim
      (openRound (fun leader view hash => leader.proposeBy now view (how hash)) sim) := by
  simp only [openRound]
  split
  · exact Opens.finished
  · cases hr : sim.replicas[sim.currentLeader]? with
    | none => exact Opens.finished
    | some leader =>
      cases ha : sim.available sim.currentLeader with
      | false => exact Opens.leaderless
      | true =>
        simp only [Bool.not_true, Bool.false_eq_true, if_false, Network.generateUniqueHash]
        cases hp : leader.proposeBy now leader.currentView (how sim.network.nextGlobalHash) with
        | mk leader' proposal =>
          have hstep : leader.step (now, .propose (how sim.network.nextGlobalHash)
              leader.currentView) = leader' := congrArg Prod.fst hp
          have hins : leader.inserted (now, .propose (how sim.network.nextGlobalHash)
              leader.currentView) = proposal := congrArg Prod.snd hp
          rw [← hstep]
          cases proposal with
          | none => exact Opens.silent hr ha hins
          | some block => exact Opens.proposed hr ha hins

end Outcomes

variable {σ : Type} [Ed25519] [Sha256] [Bincode LogEntry] [Bincode Snapshot] [Crc32] [App σ]
  {expected : Message → Prop} {nextHash : Hash} {h : History} {sim : Simulation σ}

section Calls

/-- A call of a live replica that adds nothing unknown keeps the simulation sound. -/
theorem Sound.call (hs : Sound expected nextHash h sim) {i : Nat} {r : Replica σ}
    (hr : sim.replicas[i]? = some r) (hi : i ∉ sim.crashedReplicas) {c : Nat × Call}
    (hins : ∀ b ∈ r.inserted c, b ∈ h.blocks)
    (hqc : ∀ q ∈ (r.step c).highQc, q.blockHash ∈ h.certs)
    (hlog : (r.step c).committedLog.map Block.hash <+: h.certs) :
    Sound expected nextHash h (sim.setReplica i (r.step c)) :=
  hs.setReplica hi ((hs.live i r hr hi).call hins hqc hlog)

/-- A call of a live replica that commits nothing and takes no new certificate. -/
theorem Sound.plainCall (hs : Sound expected nextHash h sim) {i : Nat} {r : Replica σ}
    (hr : sim.replicas[i]? = some r) (hi : i ∉ sim.crashedReplicas) {c : Nat × Call}
    (hins : ∀ b ∈ r.inserted c, b ∈ h.blocks) (hqc : (r.step c).highQc = r.highQc)
    (hlog : (r.step c).committedLog = r.committedLog) :
    Sound expected nextHash h (sim.setReplica i (r.step c)) :=
  hs.setReplica hi ((hs.live i r hr hi).plainCall hins hqc hlog)

/-- View changes keep the simulation sound. -/
theorem Sound.advanceViews (hs : Sound expected nextHash h sim) (now : Nat)
    (reason : ViewChangeReason) (responds : Bool) :
    Sound expected nextHash h (advanceViews now reason responds sim) := by
  refine forEachAvailable_preserves (I := Sound expected nextHash h) ?_ hs
  intro sim i r hs hr ha
  have hset := hs.plainCall hr (not_crashed_of_available ha)
    (c := (now, .advanceViewWithReason reason)) (fun b hb => by cases hb) rfl rfl
  cases responds with
  | false => exact hset
  | true => exact hset.markResponded i

end Calls

section Proposal

/-- A delivered proposal of a known block leads to votes for it. -/
theorem Sound.deliverProposal {block : Block} (hs : Sound (VotesFor block.hash) nextHash h sim)
    (hb : block ∈ h.blocks) {msg : Message} (hmsg : Proposes block msg) (now : Nat) :
    Sound (VotesFor block.hash) nextHash h (deliverProposal now sim msg) := by
  cases msg with
  | proposal sender receiver b =>
    have hmsg : b = block := hmsg
    subst hmsg
    simp only [Simulation.deliverProposal]
    split
    · exact hs
    · rename_i r hr
      split
      · exact hs
      · rename_i ha
        have hi := not_crashed_of_available (by simpa using ha)
        have hset : Sound (VotesFor b.hash) nextHash h
            (sim.setReplica receiver (r.step (now, .validateAndInsertProposal b))) := by
          refine hs.plainCall hr hi ?_ (Replica.step_highQc r _)
            (Replica.step_committedLog r (hs.live receiver r hr hi).follows.keyed _)
          intro b' hb'
          simp only [Replica.inserted] at hb'
          split at hb'
          · rw [← Option.some.inj hb']
            exact hb
          · cases hb'
        cases hv : r.validateAndInsertProposal now b with
        | mk r' accepted =>
          have hr' : r.step (now, .validateAndInsertProposal b) = r' := congrArg Prod.fst hv
          rw [hr'] at hset
          cases accepted with
          | false => exact hset
          | true =>
            have hset := hset.markResponded receiver
            refine ⟨hset.live, hset.crashed, fun m hm => ?_, hset.next⟩
            rcases List.mem_append.mp hm with hm | hm
            · exact hset.pending m hm
            · rw [List.mem_singleton.mp hm]
              rfl
  | _ => exact hmsg.elim

/-- After the proposals only votes for the block are pending. -/
theorem Sound.proposalPhase (hs : Sound NoMessage nextHash h sim) {block : Block}
    (hb : block ∈ h.blocks) (now leaderId : Nat) :
    Sound (VotesFor block.hash) nextHash h (proposalPhase now leaderId block sim) := by
  obtain ⟨hqueue, hnext⟩ := sim.network.broadcast_spec leaderId
    fun receiver => .proposal leaderId receiver block
  have hmsgs : ∀ m ∈ (sim.network.broadcastProposal leaderId block).messageQueue,
      Proposes block m := by
    intro m hm
    rcases hqueue m hm with hm | ⟨receiver, rfl⟩
    · exact (hs.pending m hm).elim
    · rfl
  simp only [Simulation.proposalPhase, Network.drain]
  have hstart : Sound (VotesFor block.hash) nextHash h
      { sim with
        network := { sim.network.broadcastProposal leaderId block with messageQueue := [] } } :=
    ⟨hs.live, hs.crashed, fun m hm => (by cases hm), hnext.trans hs.next⟩
  have hall : ∀ m ∈ (sim.network.broadcastProposal leaderId block).messageQueue.filter
      (fun msg => match msg with | .proposal .. => true | _ => false), Proposes block m :=
    fun m hm => hmsgs m (List.mem_filter.mp hm).1
  revert hall
  generalize List.filter _ _ = msgs
  intro hall
  generalize ({ sim with network := _ } : Simulation σ) = start at hstart
  induction msgs generalizing start with
  | nil => exact hstart
  | cons m msgs ih =>
    obtain ⟨hm, hrest⟩ := List.forall_mem_cons.mp hall
    exact ih hrest _ (hstart.deliverProposal hb hm now)

end Proposal

section Votes

/-- A delivered vote for a hash keeps the simulation sound for the history with the certificate
formed. -/
theorem Sound.deliverVote {hash : Hash} {acc : Simulation σ × Option QuorumCert}
    (hs : Sound NoMessage nextHash (h.certify acc.2) acc.1)
    (hacc : ∀ q ∈ acc.2, q.blockHash = hash) {msg : Message} (hmsg : VotesFor hash msg)
    (now : Nat) :
    Sound NoMessage nextHash (h.certify (deliverVote now acc msg).2) (deliverVote now acc msg).1 ∧
      ∀ q ∈ (deliverVote now acc msg).2, q.blockHash = hash := by
  cases msg with
  | vote sender receiver vote =>
    have hmsg : vote.blockHash = hash := hmsg
    rcases deliverVote_cases now acc sender receiver vote with heq | ⟨r, hr, ha, heq⟩
    · rw [heq]
      exact ⟨hs, hacc⟩
    · have hformed : ∀ q ∈ (r.handleVote now vote).2, q.blockHash = hash := fun q hq =>
        (Replica.handleVote_blockHash hq).trans hmsg
      have hlate := hs.mono (h.certify_le hacc hformed)
      have hlive := hlate.live receiver r hr (not_crashed_of_available ha)
      rw [heq]
      constructor
      · refine (hlate.call hr (not_crashed_of_available ha) (c := (now, .handleVote vote))
          (fun b hb => by cases hb) ?_ ?_).markResponded receiver
        · intro q hq
          rw [Replica.step_highQc] at hq
          rcases Option.or_eq_some_iff.mp hq with hq | ⟨-, hq⟩
          · exact h.mem_certify (Option.mem_def.mpr (by rw [hq]; rfl))
          · exact hlive.highQc q hq
        · rw [Replica.step_committedLog r hlive.follows.keyed]
          exact hlive.log
      · intro q hq
        rcases Option.or_eq_some_iff.mp hq with hq | ⟨-, hq⟩
        · exact hformed q hq
        · exact hacc q hq
  | _ => exact hmsg.elim

/-- After the votes nothing is pending, and a certificate formed is for the hash voted for. -/
theorem Sound.votePhase {hash : Hash} (hs : Sound (VotesFor hash) nextHash h sim) (now : Nat) :
    Sound NoMessage nextHash (h.certify (votePhase now sim).2) (votePhase now sim).1 ∧
      ∀ q ∈ (votePhase now sim).2, q.blockHash = hash := by
  simp only [Simulation.votePhase, Network.drain]
  have hstart : Sound NoMessage nextHash (h.certify none)
      { sim with network := { sim.network with messageQueue := [] } } := by
    have hs' := hs.mono (h.le_certify none)
    exact ⟨hs'.live, hs'.crashed, fun m hm => (by cases hm), hs'.next⟩
  have hall := hs.pending
  generalize sim.network.messageQueue = msgs at hall
  have hfold : ∀ acc : Simulation σ × Option QuorumCert,
      Sound NoMessage nextHash (h.certify acc.2) acc.1 → (∀ q ∈ acc.2, q.blockHash = hash) →
      Sound NoMessage nextHash (h.certify (msgs.foldl (Simulation.deliverVote now) acc).2)
          (msgs.foldl (Simulation.deliverVote now) acc).1 ∧
        ∀ q ∈ (msgs.foldl (Simulation.deliverVote now) acc).2, q.blockHash = hash := by
    clear hs hstart
    induction msgs with
    | nil => exact fun acc hs hacc => ⟨hs, hacc⟩
    | cons m msgs ih =>
      intro acc hs hacc
      obtain ⟨hm, hrest⟩ := List.forall_mem_cons.mp hall
      obtain ⟨hs', hacc'⟩ := hs.deliverVote hacc hm now
      exact ih hrest _ hs' hacc'
  exact hfold _ hstart fun q hq => by cases hq

end Votes

section Certificate

/-- A delivered certificate for a certified block keeps the simulation sound. -/
theorem Sound.deliverQc (hs : Sound NoMessage nextHash h sim) {qc : QuorumCert}
    (hqc : qc.blockHash ∈ h.certs) {msg : Message} (hmsg : Announces qc msg) (now : Nat)
    (always : Bool) : Sound NoMessage nextHash h (deliverQc now always sim msg) := by
  cases msg with
  | quorumCertBroadcast sender receiver q hash =>
    have hmsg : q = qc := hmsg
    subst hmsg
    simp only [Simulation.deliverQc]
    split
    · exact hs
    · rename_i r hr
      split
      · exact hs
      · rename_i ha
        have hi := not_crashed_of_available (by simpa using ha)
        have hlive := hs.live receiver r hr hi
        have hset : Sound NoMessage nextHash h
            (sim.setReplica receiver (r.step (now, .applyHighQcFromNetwork q))) := by
          refine hs.call hr hi (fun b hb => by cases hb) ?_ ?_
          · rw [Replica.step_highQc]
            simp only
            split
            · intro q' hq'
              cases hq'
              exact hqc
            · exact hlive.highQc
          · rw [Replica.step_committedLog r hlive.follows.keyed]
            exact hlive.log
        split
        · exact hset.markResponded receiver
        · exact hset
  | _ => exact hmsg.elim

/-- After the broadcast of a certificate for a certified block nothing is pending. -/
theorem Sound.qcPhase (hs : Sound NoMessage nextHash h sim) {formed : Option QuorumCert}
    (hformed : ∀ q ∈ formed, q.blockHash ∈ h.certs) (now leaderId : Nat) (always : Bool) :
    Sound NoMessage nextHash h (qcPhase now leaderId always formed sim) := by
  cases formed with
  | none => exact hs
  | some qc =>
    obtain ⟨hqueue, hnext⟩ := sim.network.broadcast_spec leaderId
      fun receiver => .quorumCertBroadcast leaderId receiver qc qc.blockHash
    have hall : ∀ m ∈ (sim.network.broadcastQc leaderId qc qc.blockHash).messageQueue,
        Announces qc m := by
      intro m hm
      rcases hqueue m hm with hm | ⟨receiver, rfl⟩
      · exact (hs.pending m hm).elim
      · rfl
    have hstart : Sound NoMessage nextHash h
        { sim with
          network := { sim.network.broadcastQc leaderId qc qc.blockHash with
            messageQueue := [] } } :=
      ⟨hs.live, hs.crashed, fun m hm => (by cases hm), hnext.trans hs.next⟩
    simp only [Simulation.qcPhase, Network.drain]
    revert hall
    generalize (sim.network.broadcastQc leaderId qc qc.blockHash).messageQueue = msgs
    intro hall
    generalize ({ sim with network := _ } : Simulation σ) = start at hstart
    induction msgs generalizing start with
    | nil => exact hstart
    | cons m msgs ih =>
      obtain ⟨hm, hrest⟩ := List.forall_mem_cons.mp hall
      exact ih hrest _ (hstart.deliverQc (hformed qc rfl) hm now always)

end Certificate

section Commit

/-- Committing at a live replica leaves it with nothing to commit, and follows the history. -/
theorem Sound.commitAt_spec (hs : Sound NoMessage nextHash h sim) (hok : h.Ok nextHash) {i : Nat}
    {r : Replica σ} (hr : sim.replicas[i]? = some r) (hi : i ∉ sim.crashedReplicas)
    (hfirst : ∀ block ∈ r.ready, r.CertifiedFirst block) (now : Nat) :
    ∃ r' dirs,
      commitAt now sim i r =
        ({ sim.setReplica i r' with replicaDataDirs := dirs } : Simulation σ).markResponded i ∧
      r'.ready = [] ∧ (∀ j, j ≠ i → dirs[j]? = sim.replicaDataDirs[j]?) ∧
      LiveSlot h sim.persistenceEnabled r' dirs[i]? := by
  have hlive := hs.live i r hr hi
  have hkeyed := hlive.follows.keyed
  have hcommit : LiveSlot h sim.persistenceEnabled (r.commitAll now) sim.replicaDataDirs[i]? := by
    refine hlive.call (c := (now, .commitAll)) (fun b hb => by cases hb) ?_ ?_
    · rw [Replica.step_highQc]
      exact hlive.highQc
    · rw [Replica.step_committedLog r hkeyed]
      exact hlive.follows.commit hok hfirst
  have hready := Replica.ready_commitAll now r hkeyed
  simp only [commitAt]
  cases hd : sim.replicaDataDirs[i]? with
  | none =>
    refine ⟨r.commitAll now, sim.replicaDataDirs, rfl, hready, fun _ _ => rfl, ?_⟩
    rwa [hd] at hcommit ⊢
  | some dir =>
    simp only
    split
    · rename_i hsnap
      rw [Bool.and_eq_true] at hsnap
      obtain ⟨d, hd', hnode⟩ := hcommit.disk hsnap.1
      rw [hd] at hd'
      cases hd'
      obtain ⟨wal, dir', heq, hnode'⟩ :=
        hnode.writable.live_takeSnapshot hcommit.follows.known now
      have hlt : i < sim.replicaDataDirs.length := (List.getElem?_eq_some_iff.mp hd).1
      simp only at heq
      rw [heq]
      refine ⟨_, _, rfl, hready, fun j hj => List.getElem?_set_ne (Ne.symm hj), ?_, fun _ => ?_⟩
      · exact ⟨hcommit.follows.keyed, hcommit.follows.known, hcommit.follows.bounds⟩
      · exact ⟨dir', List.getElem?_set_self hlt, hnode'⟩
    · refine ⟨r.commitAll now, sim.replicaDataDirs, rfl, hready, fun _ _ => rfl, ?_⟩
      rwa [hd] at hcommit ⊢

/-- Every available replica commits each ready block after the one it certifies. -/
def ReadyInOrder (sim : Simulation σ) : Prop :=
  ∀ (i : Nat) r, sim.replicas[i]? = some r → sim.available i = true →
    ∀ block ∈ r.ready, r.CertifiedFirst block

instance (sim : Simulation σ) : Decidable sim.ReadyInOrder :=
  decidable_of_iff (∀ p ∈ sim.replicas.zipIdx, sim.available p.2 = true →
      ∀ block ∈ p.1.ready, p.1.CertifiedFirst block)
    ⟨fun h i r hr => h (r, i) (List.mem_zipIdx_iff_getElem?.mpr hr),
      fun h p hp => h p.2 p.1 (List.mem_zipIdx_iff_getElem?.mp hp)⟩

/-- Commits in order follow the history. -/
theorem Sound.commitPhase (hs : Sound NoMessage nextHash h sim) (hok : h.Ok nextHash)
    (horder : sim.ReadyInOrder) (now : Nat) :
    Sound NoMessage nextHash h (commitPhase now sim) := by
  refine (forEachAvailable_preserves
    (I := fun sim : Simulation σ => Sound NoMessage nextHash h sim ∧ sim.ReadyInOrder) ?_
    ⟨hs, horder⟩).1
  rintro sim i r ⟨hs, horder⟩ hr ha
  have hi := not_crashed_of_available ha
  obtain ⟨r', dirs, heq, hready, hdirs, hlive⟩ := hs.commitAt_spec hok hr hi (horder i r hr ha) now
  rw [heq]
  refine ⟨(hs.replace hi hdirs hlive).markResponded i, fun j r'' hr'' ha'' => ?_⟩
  simp only [Simulation.markResponded, Simulation.setReplica, List.getElem?_set] at hr''
  split at hr''
  · split at hr''
    · cases hr''
      exact Replica.certifiedFirst_of_ready_nil hready
    · cases hr''
  · exact horder j r'' hr'' ha''

end Commit

section Opening

/-- Asking the leader to propose gives out a hash and adds the block to the history. -/
theorem Sound.led (hs : Sound NoMessage nextHash h sim) {leader : Replica σ}
    (hr : sim.replicas[sim.currentLeader]? = some leader)
    (ha : sim.available sim.currentLeader = true) {now : Nat} {how : Hash → ProposeCall}
    (hins : ∀ b ∈ leader.inserted (now, .propose (how sim.network.nextGlobalHash)
      leader.currentView), b ∈ h.blocks) :
    Sound NoMessage (nextHash + 1) h (sim.led now how leader) := by
  have hs' : Sound NoMessage (nextHash + 1) h
      ({ sim with network := sim.network.generateUniqueHash.2 } : Simulation σ) :=
    ⟨hs.live, hs.crashed, hs.pending, congrArg (· + 1) hs.next⟩
  have hkeyed := (hs.live _ leader hr (not_crashed_of_available ha)).follows.keyed
  exact hs'.plainCall hr (not_crashed_of_available ha) hins (Replica.step_highQc leader _)
    (Replica.step_committedLog leader hkeyed _)

omit [App σ] in
/-- A block proposed extends the certified block its certificate is for. -/
theorem proposed_block {leader : Replica σ} {dir : Option DataDir} {persistent : Bool}
    (hlive : LiveSlot h persistent leader dir) {now view : Nat} {how : ProposeCall} {block : Block}
    (hins : leader.inserted (now, .propose how view) = some block) :
    ∀ q ∈ block.qc, block.parent = some q.blockHash ∧ q.blockHash ∈ h.certs := by
  simp only [Replica.inserted] at hins
  rcases leader.proposeBy_cases now view how with hp | ⟨-, hash, command, next, queue, hp⟩
  · rw [hp] at hins
    cases hins
  · rw [hp] at hins
    cases hins
    intro q hq
    refine ⟨?_, hlive.highQc q hq⟩
    simp only [Replica.nextBlock, Replica.nextParent] at hq ⊢
    rw [Option.mem_def.mp hq]

end Opening

section Round

/-- What a round with a proposal must meet: a block that gets certified certifies the one certified
last, and what is ready then is committed in order. -/
def RoundRules (h : History) (now : Nat) (always : Bool) : Opening σ → Prop
  | .proposed sim leaderId block =>
      ((certifyPhases now leaderId always block sim).2.isSome = true →
        block.qc.map QuorumCert.blockHash = h.certs.getLast?) ∧
        (certifyPhases now leaderId always block sim).1.ReadyInOrder
  | _ => True

instance (h : History) (now : Nat) (always : Bool) :
    DecidablePred (RoundRules (σ := σ) h now always)
  | .proposed sim leaderId block =>
      inferInstanceAs (Decidable
        (((certifyPhases now leaderId always block sim).2.isSome = true →
            block.qc.map QuorumCert.blockHash = h.certs.getLast?) ∧
          (certifyPhases now leaderId always block sim).1.ReadyInOrder))
  | .finished | .leaderless | .silent _ => .isTrue trivial

/-- The history after a round. -/
def historyAfter (h : History) (now : Nat) (always : Bool) : Opening σ → History
  | .proposed sim leaderId block =>
      (h.propose block).certify (certifyPhases now leaderId always block sim).2
  | _ => h

omit [Bincode Snapshot] [App σ] in
/-- The history of a trace grows. -/
theorem le_historyAfter (h : History) (now : Nat) (always : Bool)
    (opening : Opening σ) :
    h.Le (historyAfter h now always opening) := by
  cases opening with
  | proposed sim leaderId block =>
    have hblock := h.le_propose block
    have hcert := (h.propose block).le_certify
      (certifyPhases now leaderId always block sim).2
    exact ⟨fun b hb => hcert.blocks b (hblock.blocks b hb), hblock.certs.trans hcert.certs⟩
  | _ => exact History.Le.refl h

/-- The simulation after a round, as far as its replicas and its network matter. -/
def simAfter (now : Nat) (always : Bool) (sim : Simulation σ) : Opening σ → Simulation σ
  | .finished => sim
  | .leaderless => sim
  | .silent sim => sim
  | .proposed sim leaderId block =>
      advanceViews now .commit true
        (commitPhase now (certifyPhases now leaderId always block sim).1)

/-- The certifying phases extend the history by the certificate they form. -/
theorem Sound.certifyPhases {block : Block} (hs : Sound NoMessage nextHash (h.propose block) sim)
    (now leaderId : Nat) (always : Bool) :
    Sound NoMessage nextHash
        ((h.propose block).certify (certifyPhases now leaderId always block sim).2)
        (certifyPhases now leaderId always block sim).1 ∧
      ∀ q ∈ (certifyPhases now leaderId always block sim).2, q.blockHash = block.hash := by
  have hb : block ∈ (h.propose block).blocks := List.mem_append_right _ (List.mem_singleton_self _)
  obtain ⟨hvotes, hhash⟩ := (hs.proposalPhase hb now leaderId).votePhase now
  exact ⟨hvotes.qcPhase (fun q hq => (h.propose block).mem_certify hq) now leaderId always, hhash⟩

/-- A round that meets the rules extends the history and follows it to its end. -/
theorem Sound.round (hs : Sound NoMessage nextHash h sim) (hok : h.Ok nextHash) (now : Nat)
    {how : Hash → ProposeCall}
    (hhow : ∀ (r : Replica σ) view hash block,
      (r.proposeBy now view (how hash)).2 = some block → block.hash = hash)
    {opening : Opening σ} (hopen : Opens now how sim opening) (always : Bool)
    (hrules : RoundRules h now always opening) :
    ∃ next, (historyAfter h now always opening).Ok next ∧
      Sound NoMessage next (historyAfter h now always opening)
        (sim.simAfter now always opening) := by
  cases hopen with
  | finished => exact ⟨nextHash, hok, hs⟩
  | leaderless => exact ⟨nextHash, hok, hs⟩
  | @silent leader hr ha hins =>
    refine ⟨nextHash + 1, hok.mono (Nat.le_succ _), hs.led hr ha fun b hb => ?_⟩
    rw [hins] at hb
    cases hb
  | @proposed leader block hr ha hins =>
    have hnew : block.hash = nextHash := (hhow _ _ _ _ hins).trans hs.next
    subst hnew
    have hcert := proposed_block (hs.live _ leader hr (not_crashed_of_available ha)) hins
    have hpok := hok.propose hcert
    have hb : block ∈ (h.propose block).blocks :=
      List.mem_append_right _ (List.mem_singleton_self _)
    have hled : Sound NoMessage (block.hash + 1) (h.propose block) (sim.led now how leader) := by
      refine (hs.mono (h.le_propose block)).led hr ha fun b hb' => ?_
      rw [hins] at hb'
      cases hb'
      exact hb
    obtain ⟨hphases, hhash⟩ :=
      (hled.markResponded sim.currentLeader).certifyPhases now sim.currentLeader always
    -- the hash is new, so it was not certified before
    have hfresh : block.hash ∉ (h.propose block).certs := by
      intro hc
      obtain ⟨b, hb, he⟩ := hok.known _ hc
      exact absurd he (hok.below b hb).ne
    have hcok := hpok.certify hb hfresh hhash hrules.1
    exact ⟨_, hcok, (hphases.commitPhase hcok hrules.2 now).advanceViews now .commit true⟩

/-- What a round leads to before its step is counted, it leads to at its end. -/
theorem runOneRound_closes {I J : Simulation σ → Prop} {now : Nat}
    (hadvance : ∀ s reason responds, I s → I (Simulation.advanceViews now reason responds s))
    (hbump : ∀ s, I s → J (s.bumpStep.processTimeoutCrashes now)) (sim : Simulation σ)
    (hfinished : plainOpening now (sim.roundStart now) = .finished → J (sim.roundStart now))
    (hround : plainOpening now (sim.roundStart now) ≠ .finished →
      I ((sim.roundStart now).simAfter now false (plainOpening now (sim.roundStart now)))) :
    J (sim.runOneRound now).1 := by
  simp only [Simulation.runOneRound]
  cases ho : plainOpening now (sim.roundStart now) with
  | finished => exact hfinished ho
  | leaderless =>
    rw [ho] at hround
    exact hbump _ (hadvance _ _ _ (hround (by simp)))
  | silent sim' =>
    rw [ho] at hround
    exact hbump _ (hadvance _ _ _ (hround (by simp)))
  | proposed sim' leaderId block =>
    rw [ho] at hround
    have hafter := hround (by simp)
    simp only [simAfter] at hafter ⊢
    generalize Simulation.certifyPhases now leaderId false block sim' = certified at hafter ⊢
    exact hbump _ hafter

theorem runOneRoundWithPacemaker_closes {I J : Simulation σ → Prop} {now : Nat}
    (hadvance : ∀ s reason responds, I s → I (Simulation.advanceViews now reason responds s))
    (hbump : ∀ s, I s → J s.bumpStep) (sim : Simulation σ)
    (hfinished : pacemakerOpening now (sim.roundStart now) = .finished → J (sim.roundStart now))
    (hround : pacemakerOpening now (sim.roundStart now) ≠ .finished →
      I ((sim.roundStart now).simAfter now true (pacemakerOpening now (sim.roundStart now)))) :
    J (sim.runOneRoundWithPacemaker now).1 := by
  simp only [Simulation.runOneRoundWithPacemaker]
  cases ho : pacemakerOpening now (sim.roundStart now) with
  | finished => exact hfinished ho
  | leaderless =>
    rw [ho] at hround
    exact hbump _ (hadvance _ _ _ (hround (by simp)))
  | silent sim' =>
    rw [ho] at hround
    exact hbump _ (hadvance _ _ _ (hround (by simp)))
  | proposed sim' leaderId block =>
    rw [ho] at hround
    have hafter := hround (by simp)
    simp only [simAfter] at hafter ⊢
    generalize Simulation.certifyPhases now leaderId true block sim' = certified at hafter ⊢
    exact hbump _ hafter

end Round

end Simulation

end PersistHotStuff
