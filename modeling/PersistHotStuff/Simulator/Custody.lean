import PersistHotStuff.Handlers.Ballots
import PersistHotStuff.Handlers.Branches
import PersistHotStuff.Simulator.FreshHash
import PersistHotStuff.Simulator.Outcome

/-!
# Where a command is

A command leaves the queue of the leader when its block is proposed. From then
on it is on the branch of a high certificate or in a committed log, as long as
a quorum votes for the block and no later certificate abandons the branch.
Nothing puts it back into a queue.
-/

namespace PersistHotStuff

open Basis

namespace Simulation

section Accounts

variable {σ : Type}

/-- The command is on the branch of a high certificate. -/
def Carried (sim : Simulation σ) (cmd : ConsensusCommand) : Prop :=
  ∃ r ∈ sim.replicas, r.Carries cmd

/-- The command is in a committed log. -/
def Committed (sim : Simulation σ) (cmd : ConsensusCommand) : Prop :=
  ∃ r ∈ sim.replicas, ∃ block ∈ r.committedLog, block.command = cmd

/-- A command enqueued at a replica still waits there, or it is carried or committed. -/
def AccountsFor (sim : Simulation σ) (id : Nat) (cmd : ConsensusCommand) : Prop :=
  (∃ r, sim.replicas[id]? = some r ∧ cmd ∈ r.clientQueue) ∨ sim.Carried cmd ∨ sim.Committed cmd

/-- Every replica keeps its seat and loses no command. -/
def RetainsAll (sim sim' : Simulation σ) : Prop :=
  ∀ (i : Nat) r, sim.replicas[i]? = some r →
    ∃ r', sim'.replicas[i]? = some r' ∧ Replica.Retains r r'

variable {sim sim' : Simulation σ} {id : Nat} {cmd : ConsensusCommand}

theorem retainsAll_of_eq (h : sim'.replicas = sim.replicas) : RetainsAll sim sim' :=
  fun _ r hr => ⟨r, h ▸ hr, .refl r⟩

/-- The logs grow. -/
theorem Committed.grow (h : sim.Committed cmd)
    (hgrow : ∀ (i : Nat) r, sim.replicas[i]? = some r →
      ∃ r', sim'.replicas[i]? = some r' ∧ Replica.Grows r r') : sim'.Committed cmd := by
  obtain ⟨r, hr, block, hblock, hcmd⟩ := h
  obtain ⟨i, hi⟩ := List.mem_iff_getElem?.mp hr
  obtain ⟨r', hr', hgrows⟩ := hgrow i r hi
  exact ⟨r', List.mem_of_getElem? hr', block, hgrows.log hblock, hcmd⟩

theorem AccountsFor.retain (h : sim.AccountsFor id cmd) (hkeeps : RetainsAll sim sim') :
    sim'.AccountsFor id cmd := by
  rcases h with ⟨r, hr, hwaits⟩ | ⟨r, hr, hcarries⟩ | hcommitted
  · obtain ⟨r', hr', hretains⟩ := hkeeps id r hr
    exact .inl ⟨r', hr', hretains.queue hwaits⟩
  · obtain ⟨i, hi⟩ := List.mem_iff_getElem?.mp hr
    obtain ⟨r', hr', hretains⟩ := hkeeps i r hi
    exact .inr (.inl ⟨r', List.mem_of_getElem? hr', hcarries.retain hretains⟩)
  · refine .inr (.inr (hcommitted.grow fun i r hr => ?_))
    obtain ⟨r', hr', hretains⟩ := hkeeps i r hr
    exact ⟨r', hr', hretains.toGrows⟩

end Accounts

section Proposal

variable {σ : Type} [Ed25519] [Sha256]

/-- The block the leader proposes next under the pacemaker. -/
def nextBlock (sim : Simulation σ) (leader : Replica σ) : Block :=
  leader.nextBlock leader.currentView sim.network.nextGlobalHash
    (leader.proposedCommand (.proposeNextWithHash sim.network.nextGlobalHash))

/-- The votes for the leader's block that reach it and count are those of a quorum. -/
def Backed (sim : Simulation σ) (leader : Replica σ) (block : Block) : Prop :=
  leader.dynamicQuorumSize ≤ (leader.backers (sim.ballots sim.currentLeader block)).card

instance (sim : Simulation σ) (leader : Replica σ) (block : Block) :
    Decidable (sim.Backed leader block) := inferInstanceAs (Decidable (_ ≤ _))

/-- The command is carried by a replica that keeps its high certificate: it does not take part, or a
certificate for the block does not replace its own. -/
def KeptFrom (sim : Simulation σ) (block : Block) (cmd : ConsensusCommand) : Prop :=
  ∃ (i : Nat) (r : Replica σ), sim.replicas[i]? = some r ∧
    (sim.available i = false ∨ i ≠ sim.currentLeader ∧ r.keepsAgainst block = true) ∧ r.Carries cmd

/-- What keeps the commands when the leader proposes its next block. -/
structure Secured (sim : Simulation σ) (leader : Replica σ) : Prop where
  unused : sim.HashUnused
  /-- A client command is proposed only with a quorum behind it. -/
  backed : leader.clientQueue ≠ [] → sim.Backed leader (sim.nextBlock leader)
  /-- With a quorum behind it the block abandons no branch that matters. -/
  extended : sim.Backed leader (sim.nextBlock leader) → ∀ cmd, sim.Carried cmd →
    (∃ parent ∈ leader.nextParent, leader.OnBranch parent cmd) ∨
      sim.KeptFrom (sim.nextBlock leader) cmd ∨ sim.Committed cmd

/-- A quorum backs a block with a fresh hash, and all replicas have the leader's tree and
certificate. -/
def Concerted (sim : Simulation σ) (leader : Replica σ) : Prop :=
  sim.HashUnused ∧ sim.Backed leader (sim.nextBlock leader) ∧
    ∀ r ∈ sim.replicas, r.highQc = leader.highQc ∧ r.blockTree = leader.blockTree

instance (sim : Simulation σ) (leader : Replica σ) : Decidable (sim.Concerted leader) :=
  have : Decidable sim.HashUnused := inferInstanceAs (Decidable (∀ r ∈ sim.replicas,
    r.blockTree.contains sim.network.generateUniqueHash.1 = false))
  inferInstanceAs (Decidable (_ ∧ _ ∧ _))

/-- Replicas in concert abandon no branch. -/
theorem Concerted.secured {sim : Simulation σ} {leader : Replica σ} (h : sim.Concerted leader) :
    sim.Secured leader := by
  obtain ⟨hunused, hbacked, hsame⟩ := h
  refine ⟨hunused, fun _ => hbacked, fun _ cmd hcarried => .inl ?_⟩
  obtain ⟨r, hr, qc, hqc, hbranch⟩ := hcarried
  obtain ⟨hhigh, htree⟩ := hsame r hr
  rw [Replica.OnBranch, htree] at hbranch
  have hcarries : leader.Carries cmd := ⟨qc, hhigh ▸ hqc, hbranch⟩
  exact hcarries.nextParent

end Proposal

section Votes

/-- A certificate offered is taken if it supersedes the high one. -/
theorem newest_some (high : Option QuorumCert) (qc : QuorumCert) :
    Replica.newest high (some qc) = if supersedes qc high = true then some qc else high := by
  cases high <;> rfl

variable {σ : Type} [Ed25519] [Sha256] {sim sim' : Simulation σ}

/-- The votes for a block depend on the replicas other than the leader. -/
theorem ballots_congr {leaderId : Nat} (hothers : ∀ j, j ≠ leaderId →
      sim'.replicas[j]? = sim.replicas[j]? ∧ sim'.available j = sim.available j)
    (hcount : sim'.network.numReplicas = sim.network.numReplicas) (block : Block) :
    sim'.ballots leaderId block = sim.ballots leaderId block := by
  rw [ballots, ballots, hcount]
  refine List.filterMap_congr fun j hj => ?_
  obtain ⟨hreplica, havailable⟩ := hothers j (mem_others.mp hj).2
  rw [reply, reply, hreplica, havailable]

/-- A vote for a block is for its hash, view and epoch. -/
theorem mem_ballots {leaderId : Nat} {block : Block} {vote : Vote}
    (h : vote ∈ sim.ballots leaderId block) :
    vote.blockHash = block.hash ∧ vote.view = block.view ∧ vote.epoch = block.epoch := by
  obtain ⟨j, -, hreply⟩ := List.mem_filterMap.mp h
  rw [reply] at hreply
  split at hreply
  · split at hreply
    · cases hreply
      exact ⟨rfl, rfl, rfl⟩
    · cases hreply
  · cases hreply

end Votes

section Phases

variable {σ : Type} [Ed25519] [Sha256] [Bincode LogEntry] [Crc32] [App σ] {r r' : Replica σ}
  {block : Block}

/-- A replica that learns of a certificate loses no block and no command of its queue. -/
theorem grows_learn (now : Nat) (formed : Option QuorumCert) (r : Replica σ) :
    Replica.Grows r (learn now formed r) ∧
      (learn now formed r).clientQueue = r.clientQueue := by
  obtain ⟨hkeeps, htree, -, -⟩ := learn_fields now formed r
  refine ⟨⟨fun hash b hb => htree ▸ hb, hkeeps.log ▸ List.Subset.refl _⟩, ?_⟩
  cases formed with
  | none => rfl
  | some qc => exact r.step_clientQueue (c := (now, .applyHighQcFromNetwork qc)) (by simp) (by simp)

omit [App σ] in
/-- A replica that validates a fresh block retains everything. -/
theorem retains_validate (now : Nat) (hnew : r.blockTree.contains block.hash = false) :
    Replica.Retains r (r.validateAndInsertProposal now block).1 := by
  rcases r.validateAndInsertProposal_cases now block with ⟨-, h⟩ | ⟨-, h⟩
  · rw [h]
    exact .refl r
  · rw [h]
    exact ⟨Replica.grows_insert hnew rfl rfl, List.Subset.refl _, rfl⟩

/-- The end of a round loses nothing. -/
theorem Closes.retains {now : Nat} (h : Closes now r r') : Replica.Retains r r' := by
  have hqueue : r'.clientQueue = r.clientQueue := by
    obtain ⟨wal, counter, rfl⟩ := h
    exact r.step_clientQueue (c := (now, .commitAll)) (by simp) (by simp)
  obtain ⟨-, htree, hqc, -, -, -, hlog⟩ := h.fields
  exact ⟨⟨fun hash block hb => htree ▸ hb, hlog ▸ Replica.commitAll_log now r⟩,
    hqueue ▸ List.Subset.refl _, hqc⟩

omit [Ed25519] [Sha256] [App σ] in
/-- A view change loses nothing. -/
theorem retainsAll_advanceViews (now : Nat) (reason : ViewChangeReason) (responds : Bool)
    (sim : Simulation σ) : RetainsAll sim (advanceViews now reason responds sim) := by
  intro i r hr
  obtain ⟨r', hr', hchange⟩ := (advanceViews_visits now reason responds sim).2 i r hr
  refine ⟨r', hr', ?_⟩
  split at hchange
  · rw [hchange]
    exact ⟨⟨fun _ _ => id, List.Subset.refl _⟩, List.Subset.refl _, rfl⟩
  · rw [hchange]
    exact .refl r

end Phases

section Round

variable {σ : Type} [Ed25519] [Sha256] [Bincode LogEntry] [Bincode Snapshot] [Crc32] [App σ]
  {sim : Simulation σ} {leader : Replica σ}

/-- The leader after it has proposed its next block. -/
def proposer (now : Nat) (sim : Simulation σ) (leader : Replica σ) : Replica σ :=
  leader.afterProposal now (sim.nextBlock leader) leader.nextHash leader.clientQueue.dropLast

/-- A round with a proposal, replica by replica. -/
theorem proposed_visits (now : Nat) (always : Bool)
    (hquiet : sim.network.messageQueue = [])
    (hcount : sim.network.numReplicas = sim.replicas.length)
    (hr : sim.replicas[sim.currentLeader]? = some leader)
    (ha : sim.available sim.currentLeader = true)
    (hproposes : leader.proposes now leader.currentView
      (.proposeNextWithHash sim.network.nextGlobalHash) = true) {led : Simulation σ}
    (hled : led = (sim.led now .proposeNextWithHash leader).markResponded sim.currentLeader)
    {voted : Replica σ × Option QuorumCert}
    (hvoted : voted = Replica.handleVotes now (sim.proposer now leader, none)
      (sim.ballots sim.currentLeader (sim.nextBlock leader))) :
    ∀ (j : Nat) r, sim.replicas[j]? = some r → ∃ r',
      (advanceViews now .commit true (commitPhase now (certifyPhases now sim.currentLeader always
        (sim.nextBlock leader) led).1)).replicas[j]? = some r' ∧
        if sim.available j = true then
          Closes now (if j = sim.currentLeader then voted.1
            else learn now voted.2 (r.validateAndInsertProposal now (sim.nextBlock leader)).1) r'
        else r' = r := by
  have hstep : leader.step (now, .propose (.proposeNextWithHash sim.network.nextGlobalHash)
      leader.currentView) = sim.proposer now leader := by
    simp only [Replica.step, Replica.proposeBy_eq, if_pos hproposes]
    rfl
  have hseat : led.replicas[sim.currentLeader]? = some (sim.proposer now leader) := by
    rw [hled, ← hstep]
    exact List.getElem?_set_self (List.getElem?_eq_some_iff.mp hr).1
  have hothers : ∀ j, j ≠ sim.currentLeader → led.replicas[j]? = sim.replicas[j]? := by
    intro j hj
    rw [hled]
    exact List.getElem?_set_ne (Ne.symm hj)
  have havailable : ∀ j, led.available j = sim.available j := fun _ => hled ▸ rfl
  have hquiet' : led.network.messageQueue = [] := hled ▸ hquiet
  have hcount' : led.network.numReplicas = led.replicas.length := by
    rw [hled]
    exact hcount.trans (List.length_set ..).symm
  have hcollect : led.collect now sim.currentLeader (sim.nextBlock leader)
      (sim.proposer now leader) = voted := by
    rw [hvoted, collect]
    congr 1
    exact ballots_congr (fun j hj => ⟨hothers j hj, havailable j⟩) (hled ▸ rfl) _
  clear hled
  obtain ⟨hframe, -, -, hcertified⟩ := certifyPhases_visits now always (sim.nextBlock leader)
    hquiet' hcount' hseat ((havailable _).trans ha)
  obtain ⟨-, hclosed⟩ := close_visits now
    (certifyPhases now sim.currentLeader always (sim.nextBlock leader) led).1
  intro j r hj
  -- the replica right after the proposal
  obtain ⟨s, hs, hsame⟩ : ∃ s, led.replicas[j]? = some s ∧ (j ≠ sim.currentLeader → s = r) := by
    by_cases he : j = sim.currentLeader
    · exact ⟨_, he ▸ hseat, fun hne => absurd he hne⟩
    · exact ⟨r, (hothers j he).trans hj, fun _ => rfl⟩
  obtain ⟨r', hr', hend⟩ := hclosed j _ (hcertified j s hs)
  rw [available_congr hframe, havailable, certified, hcollect] at hend
  refine ⟨r', hr', ?_⟩
  by_cases hj' : j = sim.currentLeader
  · subst hj'
    simp only [ha, if_true] at hend ⊢
    exact hend
  · rw [hsame hj', if_neg hj'] at hend
    rw [if_neg hj']
    cases haj : sim.available j with
    | false =>
      rw [haj] at hend
      exact hend
    | true =>
      rw [haj] at hend
      exact hend

/-- What a round in which the leader's next block is put to the vote does to commands, when the
votes form the given certificate or none. -/
structure PutToVote (sim sim' : Simulation σ) (leader : Replica σ) (formed : Option QuorumCert) :
    Prop where
  pointer : ∀ qc ∈ formed, qc.pointer = ((sim.nextBlock leader).hash,
    (sim.nextBlock leader).view, (sim.nextBlock leader).epoch)
  backed : formed.isSome = true ↔ sim.Backed leader (sim.nextBlock leader)
  leader : ∃ r', sim'.replicas[sim.currentLeader]? = some r' ∧ Replica.Grows leader r' ∧
    leader.clientQueue.dropLast ⊆ r'.clientQueue ∧ r'.highQc = formed.or leader.highQc ∧
    r'.blockTree.get? (sim.nextBlock leader).hash = some (sim.nextBlock leader)
  others : ∀ (j : Nat) r, j ≠ sim.currentLeader → sim.replicas[j]? = some r →
    ∃ r', sim'.replicas[j]? = some r' ∧ Replica.Grows r r' ∧ r.clientQueue ⊆ r'.clientQueue ∧
      ((sim.available j = true → ∀ qc ∈ formed, supersedes qc r.highQc = false) →
        r'.highQc = r.highQc)

theorem putToVote_proposed (now : Nat) (always : Bool)
    (hquiet : sim.network.messageQueue = [])
    (hcount : sim.network.numReplicas = sim.replicas.length)
    (hr : sim.replicas[sim.currentLeader]? = some leader)
    (ha : sim.available sim.currentLeader = true)
    (hproposes : leader.proposes now leader.currentView
      (.proposeNextWithHash sim.network.nextGlobalHash) = true)
    (hunused : sim.HashUnused) (hpools : leader.PoolsKnown) :
    ∃ formed, PutToVote sim (advanceViews now .commit true (commitPhase now
      (certifyPhases now sim.currentLeader always (sim.nextBlock leader)
        ((sim.led now .proposeNextWithHash leader).markResponded sim.currentLeader)).1))
      leader formed := by
  have hvisits := proposed_visits now always hquiet hcount hr ha hproposes rfl rfl
  have hnew : leader.blockTree.contains (sim.nextBlock leader).hash = false :=
    hunused leader (List.mem_of_getElem? hr)
  have hblock : (sim.proposer now leader).blockTree.get? (sim.nextBlock leader).hash =
      some (sim.nextBlock leader) := OrdMap.get?_insert_self ..
  have hproposer : Replica.Grows leader (sim.proposer now leader) :=
    Replica.grows_insert hnew rfl rfl
  have hempty : (sim.proposer now leader).votePool.get? (sim.nextBlock leader).hash = none :=
    hpools.get?_eq_none hnew
  have hcounted : Replica.Counted (sim.proposer now leader) (sim.nextBlock leader).hash
      (sim.nextBlock leader).view (sim.nextBlock leader).epoch
      (sim.ballots sim.currentLeader (sim.nextBlock leader))
      (Replica.handleVotes now (sim.proposer now leader, none)
        (sim.ballots sim.currentLeader (sim.nextBlock leader))) :=
    Replica.handleVotes_counted now hempty ⟨_, hblock, rfl⟩ fun vote hvote => mem_ballots hvote
  generalize Replica.handleVotes now (sim.proposer now leader, none)
    (sim.ballots sim.currentLeader (sim.nextBlock leader)) = voted at hvisits hcounted
  refine ⟨voted.2, hcounted.pointer, hcounted.formed, ?_, fun j r hj hjr => ?_⟩
  · obtain ⟨r', hr', hend⟩ := hvisits _ leader hr
    rw [if_pos ha, if_pos rfl] at hend
    have hretains := hend.retains
    -- the votes change pool, log file and certificate
    have htree : voted.1.blockTree = (sim.proposer now leader).blockTree :=
      (congrArg Replica.blockTree hcounted.frame :)
    have hlog : voted.1.committedLog = (sim.proposer now leader).committedLog :=
      (congrArg Replica.committedLog hcounted.frame :)
    have hqueue : voted.1.clientQueue = leader.clientQueue.dropLast :=
      (congrArg Replica.clientQueue hcounted.frame :)
    have hqc : voted.1.highQc = voted.2.or leader.highQc :=
      (congrArg Replica.highQc hcounted.frame :)
    have hvoted : Replica.Grows (sim.proposer now leader) voted.1 :=
      ⟨fun hash b hb => htree ▸ hb, hlog ▸ List.Subset.refl _⟩
    exact ⟨r', hr', (hproposer.trans hvoted).trans hretains.toGrows, hqueue ▸ hretains.queue,
      hretains.highQc.trans hqc, hretains.tree _ _ (hvoted.tree _ _ hblock)⟩
  · obtain ⟨r', hr', hend⟩ := hvisits j r hjr
    rw [if_neg hj] at hend
    refine ⟨r', hr', ?_⟩
    cases haj : sim.available j with
    | false =>
      rw [haj, if_neg Bool.false_ne_true] at hend
      rw [hend]
      exact ⟨(Replica.Retains.refl r).toGrows, List.Subset.refl _, fun _ => rfl⟩
    | true =>
      rw [haj, if_pos rfl] at hend
      have hfresh : r.blockTree.contains (sim.nextBlock leader).hash = false :=
        hunused r (List.mem_of_getElem? hjr)
      have hvalidated := retains_validate now hfresh
      generalize (r.validateAndInsertProposal now (sim.nextBlock leader)).1 = s at hend hvalidated
      obtain ⟨hgrows, hqueue⟩ := grows_learn now voted.2 s
      have hretains := hend.retains
      refine ⟨(hvalidated.toGrows.trans hgrows).trans hretains.toGrows, ?_, fun hkeeps => ?_⟩
      · exact List.Subset.trans (hqueue ▸ hvalidated.queue) hretains.queue
      · rw [hretains.highQc, (learn_fields now voted.2 s).2.2.2, hvalidated.highQc]
        cases hformed : voted.2 with
        | none => rfl
        | some qc => rw [newest_some, hkeeps rfl qc hformed, if_neg Bool.false_ne_true]

section Custody

omit [Bincode LogEntry] [Bincode Snapshot] [Crc32] [App σ]

variable {sim' : Simulation σ} {formed : Option QuorumCert} {id : Nat} {cmd : ConsensusCommand}

/-- Logs and trees grow in the round. -/
theorem PutToVote.grows (h : PutToVote sim sim' leader formed)
    (hr : sim.replicas[sim.currentLeader]? = some leader) (i : Nat) (r : Replica σ)
    (hi : sim.replicas[i]? = some r) : ∃ r', sim'.replicas[i]? = some r' ∧ Replica.Grows r r' := by
  by_cases he : i = sim.currentLeader
  · subst he
    obtain rfl : leader = r := Option.some.inj (hr.symm.trans hi)
    obtain ⟨r', hr', hgrows, -⟩ := h.leader
    exact ⟨r', hr', hgrows⟩
  · obtain ⟨r', hr', hgrows, -⟩ := h.others i r he hi
    exact ⟨r', hr', hgrows⟩

/-- Without a certificate nothing is lost, if no command was proposed. -/
theorem PutToVote.retainsAll (h : PutToVote sim sim' leader none)
    (hr : sim.replicas[sim.currentLeader]? = some leader) (hidle : leader.clientQueue = []) :
    RetainsAll sim sim' := by
  intro i r hi
  by_cases he : i = sim.currentLeader
  · subst he
    obtain rfl : leader = r := Option.some.inj (hr.symm.trans hi)
    obtain ⟨r', hr', hgrows, -, hqc, -⟩ := h.leader
    exact ⟨r', hr', hgrows, hidle ▸ List.nil_subset _, hqc⟩
  · obtain ⟨r', hr', hgrows, hqueue, hqc⟩ := h.others i r he hi
    exact ⟨r', hr', hgrows, hqueue, hqc fun _ qc hqc => by cases hqc⟩

/-- With a certificate its block is carried, and the branch it extends. -/
theorem PutToVote.carried {qc : QuorumCert} (h : PutToVote sim sim' leader (some qc))
    (cmd : ConsensusCommand) :
    sim'.Carried (sim.nextBlock leader).command ∧
      ∀ parent ∈ leader.nextParent, leader.OnBranch parent cmd → sim'.Carried cmd := by
  obtain ⟨r', hr', hgrows, -, hqc, hblock⟩ := h.leader
  have hhash : qc.blockHash = (sim.nextBlock leader).hash :=
    (Prod.mk.inj (h.pointer qc rfl)).1
  refine ⟨⟨r', List.mem_of_getElem? hr', qc, hqc, ?_⟩, fun parent hparent hbranch =>
    ⟨r', List.mem_of_getElem? hr', qc, hqc, ?_⟩⟩
  · rw [hhash]
    exact Replica.onBranch_self hblock
  · rw [hhash]
    exact (hbranch.grow hgrows).child hblock hparent

/-- The replicas that keep their certificate carry what they carried. -/
theorem PutToVote.kept {qc : QuorumCert} (h : PutToVote sim sim' leader (some qc))
    (ha : sim.available sim.currentLeader = true)
    (hkept : sim.KeptFrom (sim.nextBlock leader) cmd) : sim'.Carried cmd := by
  obtain ⟨i, r, hi, hwhy, hcarries⟩ := hkept
  have he : i ≠ sim.currentLeader := by
    rintro rfl
    rcases hwhy with hout | ⟨hne, -⟩
    · rw [ha] at hout
      cases hout
    · exact hne rfl
  obtain ⟨r', hr', hgrows, hqueue, hqc⟩ := h.others i r he hi
  refine ⟨r', List.mem_of_getElem? hr', hcarries.retain ⟨hgrows, hqueue, hqc fun hin q hq => ?_⟩⟩
  cases hq
  rcases hwhy with hout | ⟨-, hkeeps⟩
  · rw [hin] at hout
    cases hout
  · rw [Replica.keepsAgainst_eq (h.pointer qc rfl), Bool.not_eq_true'] at hkeeps
    exact hkeeps

/-- A secured round keeps account of every command. -/
theorem PutToVote.accountsFor (h : PutToVote sim sim' leader formed)
    (hr : sim.replicas[sim.currentLeader]? = some leader)
    (ha : sim.available sim.currentLeader = true) (hsecured : sim.Secured leader)
    (hbefore : sim.AccountsFor id cmd) : sim'.AccountsFor id cmd := by
  cases formed with
  | none =>
    have hidle : leader.clientQueue = [] := by
      by_contra hne
      exact absurd (h.backed.mpr (hsecured.backed hne)) (by simp)
    exact hbefore.retain (h.retainsAll hr hidle)
  | some qc =>
    obtain ⟨hown, hbranch⟩ := h.carried cmd
    rcases hbefore with ⟨r, hi, hwaits⟩ | hcarried | hcommitted
    · by_cases he : id = sim.currentLeader
      · subst he
        obtain rfl : leader = r := Option.some.inj (hr.symm.trans hi)
        obtain ⟨r', hr', -, hqueue, -⟩ := h.leader
        -- the command is proposed, or it waits on
        rcases List.eq_nil_or_concat leader.clientQueue with hnil | ⟨queue, last, hlast⟩
        · rw [hnil] at hwaits
          cases hwaits
        · have hcommand : (sim.nextBlock leader).command = last := by
            show (leader.clientQueue.getLast?).getD .noOp = last
            rw [hlast, List.concat_eq_append, List.getLast?_concat]
            rfl
          rw [hlast, List.concat_eq_append, List.mem_append, List.mem_singleton] at hwaits
          rw [hlast, List.concat_eq_append, List.dropLast_concat] at hqueue
          rcases hwaits with hwaits | rfl
          · exact .inl ⟨r', hr', hqueue hwaits⟩
          · rw [hcommand] at hown
            exact .inr (.inl hown)
      · obtain ⟨r', hr', -, hqueue, -⟩ := h.others id r he hi
        exact .inl ⟨r', hr', hqueue hwaits⟩
    · rcases hsecured.extended (h.backed.mp rfl) cmd hcarried with
        ⟨parent, hparent, hin⟩ | hkept | hcommitted
      · exact .inr (.inl (hbranch parent hparent hin))
      · exact .inr (.inl (h.kept ha hkept))
      · exact .inr (.inr (hcommitted.grow (h.grows hr)))
    · exact .inr (.inr (hcommitted.grow (h.grows hr)))

end Custody

end Round

end Simulation

end PersistHotStuff
