import PersistHotStuff.Handlers.Spec

/-!
# Counting votes

A replica that handles votes of different signers for one block counts every
vote that passes its checks. From a quorum on each further vote forms a larger
certificate, so the one formed last carries them all.
-/

namespace PersistHotStuff

open Basis

/-- A certificate whose signatures all verify has as many signers as signatures. -/
theorem KeyStore.verifyQc_of_verified [Ed25519] [Sha256] {ks : KeyStore} {qc : QuorumCert}
    (hverify : ∀ sig ∈ qc.signatures, ks.verify sig qc.blockHash qc.view qc.epoch = true)
    (hdistinct : (qc.signatures.map Signature.signer).Nodup) {quorum : Nat}
    (hquorum : quorum ≤ qc.signatures.length) : ks.verifyQc qc quorum = true := by
  have hall : qc.signatures.filter (fun sig => ks.verify sig qc.blockHash qc.view qc.epoch) =
      qc.signatures := List.filter_eq_self.mpr hverify
  rw [verifyQc, validSigners, hall, List.toFinset_card_of_nodup hdistinct, List.length_map]
  exact decide_eq_true hquorum

namespace Replica

variable {σ : Type} [Ed25519] [Sha256]

/-- Why a vote is counted, whoever has voted before. -/
structure Countable (r : Replica σ) (vote : Vote) : Prop where
  epoch : vote.epoch = r.configEpoch
  active : r.activeValidators.contains vote.signature.signer = true
  verified : r.keystore.verify vote.signature vote.blockHash vote.view vote.epoch = true
  inRange : vote.signature.signer < r.config.n
  known : ∃ block, r.blockTree.get? vote.blockHash = some block ∧ block.epoch = vote.epoch

/-- The certificate that signatures form, if they are a quorum. -/
def quorumQc (r : Replica σ) (hash view epoch : Nat) (signatures : List Signature) :
    Option QuorumCert :=
  if r.dynamicQuorumSize ≤ signatures.length then
    some { blockHash := hash, view := view, epoch := epoch, signatures := signatures }
  else none

/-- The signatures in the pool for a block. -/
def pooled (r : Replica σ) (hash : Hash) : List Signature := (r.votePool.get? hash).getD []

variable [Bincode LogEntry] [Crc32]

/-- A vote that is not counted changes nothing. -/
theorem handleVote_of_not_passes {now : Nat} {r : Replica σ} {vote : Vote}
    (h : ¬ r.VotePasses vote) : r.handleVote now vote = (r, none) := by
  rcases r.handleVote_cases now vote with hv | ⟨hpass, -⟩
  · exact hv
  · exact absurd hpass h

/-- A counted vote adds its signature to the pool of its block. -/
theorem pooled_handleVote {now : Nat} {r : Replica σ} {vote : Vote} (hpass : r.VotePasses vote) :
    (r.handleVote now vote).1.pooled vote.blockHash =
      r.pooled vote.blockHash ++ [vote.signature] := by
  have hpool : (r.handleVote now vote).1.votePool =
      r.votePool.insert vote.blockHash (r.votedQc vote).signatures := by
    rw [handleVote_of_passes hpass]
    split <;> rfl
  rw [pooled, hpool, OrdMap.get?_insert_self]
  rfl

/-- A vote leaves the pools of the other blocks alone. -/
theorem pooled_handleVote_of_ne (r : Replica σ) (now : Nat) {vote : Vote} {hash : Hash}
    (hne : hash ≠ vote.blockHash) : (r.handleVote now vote).1.pooled hash = r.pooled hash := by
  by_cases hpass : r.VotePasses vote
  · have hpool : (r.handleVote now vote).1.votePool =
        r.votePool.insert vote.blockHash (r.votedQc vote).signatures := by
      rw [handleVote_of_passes hpass]
      split <;> rfl
    rw [pooled, hpool, OrdMap.get?_insert_of_ne _ _ hne]
    rfl
  · rw [handleVote_of_not_passes hpass]

/-- A returned certificate is the one its vote completes. -/
theorem handleVote_some {now : Nat} {r : Replica σ} {vote : Vote} {qc : QuorumCert}
    (h : (r.handleVote now vote).2 = some qc) :
    r.VotePasses vote ∧ r.dynamicQuorumSize ≤ qc.signatures.length ∧ qc = r.votedQc vote ∧
      (r.handleVote now vote).1.highQc = some qc := by
  rcases r.handleVote_cases now vote with hv | ⟨hpass, ⟨-, hv⟩ | ⟨hquorum, hv⟩⟩
  · rw [hv] at h
    cases h
  · rw [hv] at h
    cases h
  · rw [hv] at h ⊢
    cases h
    exact ⟨hpass, hquorum, rfl, rfl⟩

/-- Handle one vote after the other; the certificate formed last is kept. -/
def handleVotes (now : Nat) (acc : Replica σ × Option QuorumCert) (votes : List Vote) :
    Replica σ × Option QuorumCert :=
  votes.foldl (fun acc vote =>
    ((acc.1.handleVote now vote).1, (acc.1.handleVote now vote).2.or acc.2)) acc

/-- Countable votes of different signers for one block are all counted. -/
theorem handleVotes_eq (now : Nat) {r : Replica σ} {hash view epoch : Nat}
    (hempty : r.votePool.get? hash = none) {votes : List Vote}
    (hvotes : ∀ vote ∈ votes, vote.blockHash = hash ∧ vote.view = view ∧ vote.epoch = epoch ∧
      r.Countable vote)
    (hdistinct : (votes.map fun vote => vote.signature.signer).Nodup) :
    (handleVotes now (r, none) votes).2 =
        r.quorumQc hash view epoch (votes.map Vote.signature) ∧
      (((handleVotes now (r, none) votes).1.votePool.get? hash).getD [] =
        votes.map Vote.signature) ∧
      (handleVotes now (r, none) votes).1 =
        { r with
          votePool := (handleVotes now (r, none) votes).1.votePool
          wal := (handleVotes now (r, none) votes).1.wal
          highQc := (r.quorumQc hash view epoch (votes.map Vote.signature)).or r.highQc } := by
  induction votes using List.reverseRecOn with
  | nil =>
    have hnone : r.quorumQc hash view epoch ([].map Vote.signature) = none :=
      if_neg (Nat.not_le.mpr (Nat.succ_pos _))
    rw [hnone]
    exact ⟨rfl, by rw [handleVotes, List.foldl_nil, hempty]; rfl, rfl⟩
  | append_singleton votes vote ih =>
    rw [List.map_append, List.nodup_append] at hdistinct
    obtain ⟨hdistinct, -, hnew⟩ := hdistinct
    obtain ⟨hformed, hpool, hrest⟩ :=
      ih (fun v hv => hvotes v (List.mem_append_left _ hv)) hdistinct
    obtain ⟨hhash, hview, hepoch, hcount⟩ :=
      hvotes vote (List.mem_append_right _ (List.mem_singleton_self _))
    have hsplit : handleVotes now (r, none) (votes ++ [vote]) =
        (((handleVotes now (r, none) votes).1.handleVote now vote).1,
          ((handleVotes now (r, none) votes).1.handleVote now vote).2.or
            (handleVotes now (r, none) votes).2) := List.foldl_append ..
    rw [hsplit, hformed]
    generalize (handleVotes now (r, none) votes).1 = s at hpool hrest
    have hpasses : s.VotePasses vote := by
      rw [hrest]
      refine ⟨hcount.epoch, hcount.active, hcount.verified, hcount.inRange, hcount.known, ?_⟩
      rw [hhash, hpool]
      intro sig hsig
      obtain ⟨v, hv, rfl⟩ := List.mem_map.mp hsig
      exact hnew _ (List.mem_map.mpr ⟨v, hv, rfl⟩) _ (List.mem_singleton_self _)
    have hqc : s.votedQc vote =
        ⟨hash, view, epoch, (votes ++ [vote]).map Vote.signature⟩ := by
      rw [votedQc, hhash, hview, hepoch, hpool, List.map_append]
      rfl
    have hquorum : s.dynamicQuorumSize = r.dynamicQuorumSize := by
      rw [hrest]
      rfl
    have hpooled : ((s.poolVote vote).votePool.get? hash).getD [] =
        (votes ++ [vote]).map Vote.signature := by
      rw [poolVote, hqc, hhash, OrdMap.get?_insert_self]
      rfl
    rw [handleVote_of_passes hpasses, hqc, hquorum, quorumQc, quorumQc]
    by_cases hq : r.dynamicQuorumSize ≤ ((votes ++ [vote]).map Vote.signature).length
    · rw [if_pos hq, if_pos hq]
      refine ⟨rfl, hpooled, ?_⟩
      conv_lhs => rw [hrest]
      rfl
    · -- below a quorum no certificate was formed before either
      have hq' : ¬ r.dynamicQuorumSize ≤ (votes.map Vote.signature).length := by
        rw [List.map_append, List.length_append] at hq
        omega
      rw [quorumQc, if_neg hq'] at hrest
      rw [if_neg hq, if_neg hq, if_neg hq']
      refine ⟨rfl, hpooled, ?_⟩
      conv_lhs => rw [hrest]
      rfl

end Replica

end PersistHotStuff
