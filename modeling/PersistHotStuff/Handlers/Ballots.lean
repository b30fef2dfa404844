import PersistHotStuff.Handlers.QuorumFormation

/-!
# Counting any votes

Votes for one block, whoever has signed them. Those that do not count are passed
over, and a certificate has formed as soon as the signers of the others are a
quorum. It is then the high one.
-/

namespace PersistHotStuff

open Basis

namespace Replica

variable {σ : Type} [Ed25519] [Sha256]

/-- Whether a vote for a block of its epoch counts, whoever has voted before. -/
def counts (r : Replica σ) (vote : Vote) : Bool :=
  decide (vote.epoch = r.configEpoch) && r.activeValidators.contains vote.signature.signer &&
    r.keystore.verify vote.signature vote.blockHash vote.view vote.epoch &&
    decide (vote.signature.signer < r.config.n)

/-- The signers of the votes that count. -/
def backers (r : Replica σ) (votes : List Vote) : Finset ReplicaId :=
  ((votes.filter r.counts).map fun vote => vote.signature.signer).toFinset

theorem backers_append (r : Replica σ) (votes : List Vote) (vote : Vote) :
    r.backers (votes ++ [vote]) =
      if r.counts vote = true then insert vote.signature.signer (r.backers votes)
      else r.backers votes := by
  by_cases hc : r.counts vote = true
  · ext id
    simp [backers, List.filter_append, hc]
  · simp [backers, List.filter_append, hc]

/-- A vote for a known block passes if it counts and its signer is not in the pool. -/
theorem votePasses_iff {r : Replica σ} {vote : Vote}
    (hknown : ∃ block, r.blockTree.get? vote.blockHash = some block ∧ block.epoch = vote.epoch) :
    r.VotePasses vote ↔ r.counts vote = true ∧
      vote.signature.signer ∉ (r.pooled vote.blockHash).map Signature.signer := by
  simp only [counts, Bool.and_eq_true, decide_eq_true_eq, List.mem_map, not_exists, not_and]
  exact ⟨fun h => ⟨⟨⟨⟨h.epoch, h.active⟩, h.verified⟩, h.inRange⟩, h.first⟩,
    fun ⟨⟨⟨⟨h1, h2⟩, h3⟩, h4⟩, h5⟩ => ⟨h1, h2, h3, h4, hknown, h5⟩⟩

/-- The state after votes for one block, and the certificate formed last. -/
structure Counted (r : Replica σ) (hash view epoch : Nat) (votes : List Vote)
    (acc : Replica σ × Option QuorumCert) : Prop where
  frame : acc.1 = { r with
    votePool := acc.1.votePool, wal := acc.1.wal, highQc := acc.2.or r.highQc }
  distinct : ((acc.1.pooled hash).map Signature.signer).Nodup
  signers : ((acc.1.pooled hash).map Signature.signer).toFinset = r.backers votes
  pointer : ∀ qc ∈ acc.2, qc.pointer = (hash, view, epoch)
  formed : acc.2.isSome = true ↔ r.dynamicQuorumSize ≤ (r.backers votes).card

variable [Bincode LogEntry] [Crc32] {r : Replica σ} {hash view epoch : Nat}

/-- One more vote. -/
theorem Counted.handleVote {votes : List Vote} {acc : Replica σ × Option QuorumCert}
    (h : Counted r hash view epoch votes acc)
    (hknown : ∃ block, r.blockTree.get? hash = some block ∧ block.epoch = epoch) {vote : Vote}
    (hhash : vote.blockHash = hash) (hview : vote.view = view) (hepoch : vote.epoch = epoch)
    (now : Nat) :
    Counted r hash view epoch (votes ++ [vote])
      ((acc.1.handleVote now vote).1, (acc.1.handleVote now vote).2.or acc.2) := by
  obtain ⟨s, formed⟩ := acc
  subst hhash hview hepoch
  obtain ⟨hframe, hdistinct, hsigners, hpointer, hformed⟩ := h
  simp only at hframe hdistinct hsigners hpointer hformed ⊢
  have hcounts : s.counts vote = r.counts vote := by
    rw [hframe]
    rfl
  have hpasses : s.VotePasses vote ↔ r.counts vote = true ∧
      vote.signature.signer ∉ r.backers votes := by
    rw [votePasses_iff (by rw [hframe]; exact hknown), hcounts, ← hsigners, List.mem_toFinset]
  by_cases hpass : s.VotePasses vote
  · obtain ⟨hcount, hnew⟩ := hpasses.mp hpass
    have hpooled : (s.handleVote now vote).1.pooled vote.blockHash =
        s.pooled vote.blockHash ++ [vote.signature] := pooled_handleVote hpass
    have hmore : r.backers (votes ++ [vote]) = insert vote.signature.signer (r.backers votes) := by
      rw [backers_append, if_pos hcount]
    have hsigners' : (((s.pooled vote.blockHash) ++ [vote.signature]).map
        Signature.signer).toFinset = r.backers (votes ++ [vote]) := by
      rw [hmore, ← hsigners]
      ext id
      simp
    have hdistinct' : (((s.pooled vote.blockHash) ++ [vote.signature]).map
        Signature.signer).Nodup := by
      rw [List.map_append, List.nodup_append]
      refine ⟨hdistinct, List.nodup_singleton _, fun i hi j hj => ?_⟩
      rw [List.mem_singleton.mp hj]
      rintro rfl
      exact hnew (hsigners ▸ List.mem_toFinset.mpr hi)
    -- the pool has one signature of every backer
    have hlength : (s.votedQc vote).signatures.length = (r.backers (votes ++ [vote])).card := by
      rw [← hsigners', List.toFinset_card_of_nodup hdistinct', List.length_map]
      rfl
    have hquorum : s.dynamicQuorumSize = r.dynamicQuorumSize := by
      rw [hframe]
      rfl
    rw [← hpooled] at hsigners' hdistinct'
    rw [handleVote_of_passes hpass, hlength, hquorum] at hsigners' hdistinct' ⊢
    by_cases hmany : r.dynamicQuorumSize ≤ (r.backers (votes ++ [vote])).card
    · rw [if_pos hmany] at hsigners' hdistinct' ⊢
      refine ⟨?_, hdistinct', hsigners', fun qc hqc => ?_, iff_of_true rfl hmany⟩
      · conv_lhs => rw [hframe]
        rfl
      · cases hqc
        rfl
    · -- below a quorum no certificate was formed before either
      have hnone : formed = none := by
        rw [← Option.not_isSome_iff_eq_none, hformed]
        refine fun hbefore => hmany (hbefore.trans ?_)
        rw [hmore]
        exact Finset.card_le_card (Finset.subset_insert ..)
      subst hnone
      rw [if_neg hmany] at hsigners' hdistinct' ⊢
      refine ⟨?_, hdistinct', hsigners', hpointer, iff_of_false (by simp) hmany⟩
      conv_lhs => rw [hframe]
      rfl
  · -- the signer has voted before, or the vote does not count
    have hsame : r.backers (votes ++ [vote]) = r.backers votes := by
      rw [backers_append]
      split
      · next hcount =>
        exact Finset.insert_eq_of_mem (not_not.mp fun hnew => hpass (hpasses.mpr ⟨hcount, hnew⟩))
      · rfl
    rw [handleVote_of_not_passes hpass]
    exact ⟨hframe, hdistinct, hsame ▸ hsigners, hpointer, hsame ▸ hformed⟩

/-- Votes for one block, none of which is in the pool yet. -/
theorem handleVotes_counted (now : Nat) (hempty : r.votePool.get? hash = none)
    (hknown : ∃ block, r.blockTree.get? hash = some block ∧ block.epoch = epoch)
    {votes : List Vote}
    (hvotes : ∀ vote ∈ votes, vote.blockHash = hash ∧ vote.view = view ∧ vote.epoch = epoch) :
    Counted r hash view epoch votes (handleVotes now (r, none) votes) := by
  induction votes using List.reverseRecOn with
  | nil =>
    have hnone : r.pooled hash = [] := by rw [pooled, hempty, Option.getD_none]
    refine ⟨rfl, ?_, ?_, fun qc hqc => (by cases hqc), iff_of_false (by simp [handleVotes]) ?_⟩
    · show ((r.pooled hash).map Signature.signer).Nodup
      rw [hnone]
      exact List.nodup_nil
    · show ((r.pooled hash).map Signature.signer).toFinset = _
      rw [hnone]
      rfl
    · exact Nat.not_le.mpr (Nat.succ_pos _)
  | append_singleton votes vote ih =>
    obtain ⟨hhash, hview, hepoch⟩ :=
      hvotes vote (List.mem_append_right _ (List.mem_singleton_self _))
    have hsplit : handleVotes now (r, none) (votes ++ [vote]) =
        (((handleVotes now (r, none) votes).1.handleVote now vote).1,
          ((handleVotes now (r, none) votes).1.handleVote now vote).2.or
            (handleVotes now (r, none) votes).2) := List.foldl_append ..
    rw [hsplit]
    exact (ih fun v hv => hvotes v (List.mem_append_left _ hv)).handleVote hknown hhash hview hepoch
      now

end Replica

namespace Replica

section Pool

variable {σ : Type}

/-- Votes are pooled for blocks of the tree only. -/
def PoolsKnown (r : Replica σ) : Prop :=
  ∀ hash, r.votePool.contains hash = true → r.blockTree.contains hash = true

theorem poolsKnown_of_empty {r : Replica σ} (h : r.votePool = OrdMap.empty) : r.PoolsKnown := by
  intro hash hin
  rw [h] at hin
  cases hin

/-- There are no votes for a block that is not in the tree. -/
theorem PoolsKnown.get?_eq_none {r : Replica σ} (h : r.PoolsKnown) {hash : Hash}
    (hnew : r.blockTree.contains hash = false) : r.votePool.get? hash = none := by
  cases hget : r.votePool.get? hash with
  | none => rfl
  | some sigs =>
    rw [h hash (OrdMap.contains_iff.mpr ⟨sigs, hget⟩)] at hnew
    cases hnew

variable [Ed25519] [Sha256] [Bincode LogEntry] [Crc32] [App σ]

/-- Calls pool no vote for an unknown block. -/
theorem PoolsKnown.step {r : Replica σ} (h : r.PoolsKnown) (c : Nat × Call) :
    (r.step c).PoolsKnown := by
  by_cases hc : c.2 = .commitAll
  · have hstep : r.step c = r.commitAll c.1 := by simp only [Replica.step, hc]
    rw [hstep]
    refine commitAll_preserves (I := PoolsKnown) c.1 r (fun s block hs hash hin => ?_) h
    rw [executeAndCommit_blockTree]
    rw [executeAndCommit_eq] at hin
    -- a change of the membership empties the pool
    cases he : s.membership.effective block.command with
    | false =>
      rw [he] at hin
      exact hs hash hin
    | true =>
      rw [he] at hin
      cases hin
  · intro hash hin
    refine step_contains ?_ c
    rcases r.step_votePool hc with hpool | hpool | ⟨vote, -, hpass, hpool⟩
    · rw [hpool] at hin
      exact h hash hin
    · rw [hpool] at hin
      cases hin
    · rw [hpool, OrdMap.contains_insert, Bool.or_eq_true, decide_eq_true_eq] at hin
      rcases hin with rfl | hin
      · obtain ⟨block, hblock, -⟩ := hpass.known
        exact OrdMap.contains_iff.mpr ⟨block, hblock⟩
      · exact h hash hin

end Pool

end Replica

end PersistHotStuff
