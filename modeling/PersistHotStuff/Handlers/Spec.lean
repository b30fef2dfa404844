import PersistHotStuff.Handlers.CommitScan
import PersistHotStuff.Source.Pacemaker

/-!
# What the handlers do

One lemma per handler lists its outcomes. Later modules split on these outcomes
and never unfold a handler again.
-/

namespace PersistHotStuff

open Basis

/-- The ways a replica proposes. -/
inductive ProposeCall
  | propose
  | proposeCommand (command : ConsensusCommand)
  | proposeWithHash (uniqueHash : Hash)
  | proposeNext
  | proposeNextWithHash (uniqueHash : Hash)
  deriving DecidableEq, Repr

namespace Replica

variable {σ : Type}

/-- Propose in one of the five ways. -/
def proposeBy (now : Nat) (r : Replica σ) (view : Nat) : ProposeCall → Replica σ × Option Block
  | .propose => r.propose now view
  | .proposeCommand command => r.proposeCommand now view command
  | .proposeWithHash uniqueHash => r.proposeWithHash now view uniqueHash
  | .proposeNext => r.proposeNext now view
  | .proposeNextWithHash uniqueHash => r.proposeNextWithHash now view uniqueHash

/-- The block every way of proposing builds, up to its hash and command. -/
def nextBlock (r : Replica σ) (view : Nat) (hash : Hash) (command : ConsensusCommand) : Block where
  hash := hash
  parent := r.nextParent
  view := view
  epoch := r.configEpoch
  proposer := r.config.id
  qc := r.highQc
  command := command

/-- A successful proposal changes the tree, the hash counter, the queue and the proposal time. -/
def afterProposal (now : Nat) (r : Replica σ) (block : Block) (nextHash : Hash)
    (clientQueue : List ConsensusCommand) : Replica σ :=
  { r with
    blockTree := r.blockTree.insert block.hash block
    nextHash := nextHash
    clientQueue := clientQueue
    lastProposedTime := now }

/-- Whether a proposing call makes a proposal. -/
def proposes (now : Nat) (r : Replica σ) (view : Nat) (how : ProposeCall) : Bool :=
  r.isLeader view &&
    match how with
    | .proposeNext | .proposeNextWithHash _ =>
        !r.clientQueue.isEmpty || r.shouldProposeDummy now
    | _ => true

/-- The hash a proposal gets. -/
def proposedHash (r : Replica σ) : ProposeCall → Hash
  | .proposeWithHash uniqueHash | .proposeNextWithHash uniqueHash => uniqueHash
  | _ => r.nextHash

/-- The command a proposal carries. -/
def proposedCommand (r : Replica σ) : ProposeCall → ConsensusCommand
  | .proposeCommand command => command
  | .proposeNext | .proposeNextWithHash _ => (r.clientQueue.getLast?).getD .noOp
  | _ => .noOp

/-- The local hash counter after a proposal. -/
def nextHashAfter (r : Replica σ) : ProposeCall → Hash
  | .proposeWithHash _ | .proposeNextWithHash _ => r.nextHash
  | _ => wrappingAdd r.nextHash 1

/-- The queue after a proposal. -/
def queueAfter (r : Replica σ) : ProposeCall → List ConsensusCommand
  | .proposeNext | .proposeNextWithHash _ => r.clientQueue.dropLast
  | _ => r.clientQueue

/-- A queue with a last command is not empty. -/
theorem isEmpty_of_getLast? {l : List ConsensusCommand} {cmd : ConsensusCommand}
    (h : l.getLast? = some cmd) : l.isEmpty = false := by
  cases l with
  | nil => cases h
  | cons c l => rfl

/-- What a proposing call does. -/
theorem proposeBy_eq (now : Nat) (r : Replica σ) (view : Nat) (how : ProposeCall) :
    r.proposeBy now view how =
      if r.proposes now view how then
        (r.afterProposal now (r.nextBlock view (r.proposedHash how) (r.proposedCommand how))
            (r.nextHashAfter how) (r.queueAfter how),
          some (r.nextBlock view (r.proposedHash how) (r.proposedCommand how)))
      else (r, none) := by
  cases hl : r.isLeader view with
  | false =>
    have hno : r.proposes now view how = false := by simp only [proposes, hl, Bool.false_and]
    rw [hno]
    cases how <;>
      simp [proposeBy, propose, proposeCommand, proposeWithHash, proposeNext, proposeNextWithHash,
        hl]
  | true =>
    have hplain : ∀ how, (∀ hash, how ≠ .proposeNextWithHash hash) → how ≠ .proposeNext →
        r.proposes now view how = true := by
      intro how hhash hnext
      cases how with
      | proposeNext => exact absurd rfl hnext
      | proposeNextWithHash hash => exact absurd rfl (hhash hash)
      | _ => simp only [proposes, hl, Bool.and_self]
    -- an empty queue stays as it is
    have hempty : r.clientQueue.getLast? = none →
        r.clientQueue.isEmpty = true ∧ r.clientQueue.dropLast = r.clientQueue := by
      intro hq
      rw [List.getLast?_eq_none_iff.mp hq]
      exact ⟨rfl, rfl⟩
    cases how with
    | propose =>
      rw [if_pos (hplain _ (by simp) (by simp)), proposeBy, propose, if_pos hl]
      rfl
    | proposeCommand command =>
      rw [if_pos (hplain _ (by simp) (by simp)), proposeBy, proposeCommand, if_pos hl]
      rfl
    | proposeWithHash uniqueHash =>
      rw [if_pos (hplain _ (by simp) (by simp)), proposeBy, proposeWithHash, if_pos hl]
      rfl
    | proposeNext =>
      simp only [proposes, proposeBy, proposeNext, hl, Bool.not_true, Bool.false_eq_true, if_false,
        Bool.true_and, proposedCommand, proposedHash, nextHashAfter, queueAfter]
      cases hq : r.clientQueue.getLast? with
      | some cmd =>
        have hl' : ({ r with clientQueue := r.clientQueue.dropLast } : Replica σ).isLeader view =
          true := hl
        simp only [proposeCommand, hl', if_true, isEmpty_of_getLast? hq, Bool.not_false,
          Bool.true_or]
        rfl
      | none =>
        rw [(hempty hq).1, (hempty hq).2]
        cases hd : r.shouldProposeDummy now with
        | false => rfl
        | true =>
          simp only [propose, hl, Bool.or_true, if_true]
          rfl
    | proposeNextWithHash uniqueHash =>
      simp only [proposes, proposeBy, proposeNextWithHash, hl, Bool.not_true, Bool.false_eq_true,
        if_false, Bool.true_and, proposedCommand, proposedHash, nextHashAfter, queueAfter]
      cases hq : r.clientQueue.getLast? with
      | some cmd =>
        simp only [isEmpty_of_getLast? hq, Bool.not_false, Bool.true_or, if_true]
        rfl
      | none =>
        rw [(hempty hq).1, (hempty hq).2]
        cases hd : r.shouldProposeDummy now with
        | false => rfl
        | true =>
          simp only [proposeWithHash, hl, Bool.or_true, if_true]
          rfl

/-- A proposing call does nothing or inserts the next block, as leader of the view. -/
theorem proposeBy_cases (now : Nat) (r : Replica σ) (view : Nat) (how : ProposeCall) :
    r.proposeBy now view how = (r, none) ∨
      r.isLeader view = true ∧ ∃ hash command nextHash clientQueue,
        r.proposeBy now view how =
          (r.afterProposal now (r.nextBlock view hash command) nextHash clientQueue,
            some (r.nextBlock view hash command)) := by
  rw [proposeBy_eq]
  by_cases hp : r.proposes now view how = true
  · have hl : r.isLeader view = true := by
      simp only [proposes, Bool.and_eq_true] at hp
      exact hp.1
    rw [if_pos hp]
    exact Or.inr ⟨hl, _, _, _, _, rfl⟩
  · exact Or.inl (if_neg hp)

/-- A proposal gets its hash from the network or from the local counter. -/
theorem proposeBy_hash {now : Nat} {r : Replica σ} {view : Nat} {how : ProposeCall} {block : Block}
    (h : (r.proposeBy now view how).2 = some block) : block.hash = r.proposedHash how := by
  rw [proposeBy_eq] at h
  split at h
  · cases h
    rfl
  · cases h

section Votes

variable [Ed25519] [Sha256]

/-- Why a vote is counted. -/
structure VotePasses (r : Replica σ) (vote : Vote) : Prop where
  epoch : vote.epoch = r.configEpoch
  active : r.activeValidators.contains vote.signature.signer = true
  verified : r.keystore.verify vote.signature vote.blockHash vote.view vote.epoch = true
  inRange : vote.signature.signer < r.config.n
  known : ∃ block, r.blockTree.get? vote.blockHash = some block ∧ block.epoch = vote.epoch
  /-- The signer has no other vote for the block in the pool. -/
  first : ∀ sig ∈ (r.votePool.get? vote.blockHash).getD [], sig.signer ≠ vote.signature.signer

/-- The certificate a counted vote may complete. -/
def votedQc (r : Replica σ) (vote : Vote) : QuorumCert where
  blockHash := vote.blockHash
  view := vote.view
  epoch := vote.epoch
  signatures := (r.votePool.get? vote.blockHash).getD [] ++ [vote.signature]

/-- A counted vote joins the pool. -/
def poolVote (r : Replica σ) (vote : Vote) : Replica σ :=
  { r with votePool := r.votePool.insert vote.blockHash (r.votedQc vote).signatures }

end Votes

section Validation

variable [Ed25519] [Sha256]

/-- What an accepted proposal has passed. -/
theorem acceptsProposal_iff (r : Replica σ) (block : Block) :
    r.acceptsProposal block = true ↔
      block.proposer = r.dynamicLeaderForView block.view ∧ block.epoch = r.configEpoch ∧
        (∀ parent ∈ block.parent, r.blockTree.contains parent = true) ∧
        ∀ qc ∈ block.qc, qc.epoch = r.configEpoch ∧
          r.keystore.verifyQc qc r.dynamicQuorumSize = true ∧
          r.blockTree.contains qc.blockHash = true := by
  unfold acceptsProposal
  by_cases hp : block.proposer = r.dynamicLeaderForView block.view
  · by_cases he : block.epoch = r.configEpoch
    · cases block.parent with
      | none =>
        cases block.qc with
        | none => simp [hp, he]
        | some qc => simp [hp, he]
      | some parent =>
        cases hk : r.blockTree.contains parent with
        | false => simp [hp, he, hk]
        | true =>
          cases block.qc with
          | none => simp [hp, he, hk]
          | some qc => simp [hp, he, hk]
    · simp [hp, he]
  · simp [hp]

end Validation

section Logged

variable [Bincode LogEntry] [Crc32]

/-- A network certificate is ignored or becomes the high one and is logged. -/
theorem applyHighQcFromNetwork_cases (now : Nat) (r : Replica σ) (qc : QuorumCert) :
    r.applyHighQcFromNetwork now qc = (r, false) ∨
      (∀ current, r.highQc = some current → newerQc qc current = true) ∧
      r.applyHighQcFromNetwork now qc =
        ({ r with highQc := some qc }.record (.highQcUpdated qc.blockHash qc.view qc.epoch now),
          true) := by
  unfold applyHighQcFromNetwork
  cases hq : r.highQc with
  | none => exact Or.inr ⟨by simp, rfl⟩
  | some current =>
    cases hn : newerQc qc current with
    | false => simp [hn]
    | true =>
      refine Or.inr ⟨?_, by simp [hn]⟩
      intro c hc
      cases hc
      exact hn

/-- A formed certificate becomes the high one and is logged twice. -/
def adoptFormedQc (now : Nat) (r : Replica σ) (qc : QuorumCert) : Replica σ :=
  ({ r with highQc := some qc }.record
    (.qcFormed qc.blockHash qc.view qc.epoch qc.signatures.length now)).record
    (.highQcUpdated qc.blockHash qc.view qc.epoch now)

variable [Ed25519] [Sha256]

/-- A vote is dropped, joins the pool, or joins it and completes a certificate. -/
theorem handleVote_cases (now : Nat) (r : Replica σ) (vote : Vote) :
    r.handleVote now vote = (r, none) ∨
      r.VotePasses vote ∧
        ((r.votedQc vote).signatures.length < r.dynamicQuorumSize ∧
            r.handleVote now vote = (r.poolVote vote, none) ∨
          r.dynamicQuorumSize ≤ (r.votedQc vote).signatures.length ∧
            r.handleVote now vote =
              ((r.poolVote vote).adoptFormedQc now (r.votedQc vote), some (r.votedQc vote))) := by
  unfold handleVote
  by_cases he : vote.epoch = r.configEpoch
  · rw [if_neg (not_not.mpr he)]
    by_cases ha : r.activeValidators.contains vote.signature.signer = true
    · rw [if_neg (by simp [ha])]
      by_cases hv : r.keystore.verify vote.signature vote.blockHash vote.view vote.epoch = true
      · rw [if_neg (by simp [hv])]
        by_cases hn : r.config.n ≤ vote.signature.signer
        · exact Or.inl (if_pos hn)
        · rw [if_neg hn]
          cases hb : r.blockTree.get? vote.blockHash with
          | none => exact Or.inl rfl
          | some block =>
            by_cases hbe : block.epoch = vote.epoch
            · simp only [hbe, ne_eq, not_true_eq_false, if_false]
              split
              · exact Or.inl rfl
              · rename_i hany
                refine Or.inr ⟨⟨he, ha, hv, not_le.mp hn, ⟨block, hb, hbe⟩, ?_⟩, ?_⟩
                · intro sig hsig hs
                  exact hany (List.any_eq_true.mpr ⟨sig, hsig, by simpa using hs⟩)
                · simp only [tryFormQc, OrdMap.get?_insert_self]
                  split
                  · rename_i hq
                    exact Or.inr ⟨hq, rfl⟩
                  · rename_i hq
                    exact Or.inl ⟨not_le.mp hq, rfl⟩
            · exact Or.inl (if_pos hbe)
      · exact Or.inl (if_pos (by simpa using hv))
    · exact Or.inl (if_pos (by simpa using ha))
  · exact Or.inl (if_pos he)

/-- A counted vote joins the pool, and completes a certificate with the votes of a quorum. -/
theorem handleVote_of_passes {now : Nat} {r : Replica σ} {vote : Vote} (h : r.VotePasses vote) :
    r.handleVote now vote =
      if r.dynamicQuorumSize ≤ (r.votedQc vote).signatures.length then
        ((r.poolVote vote).adoptFormedQc now (r.votedQc vote), some (r.votedQc vote))
      else (r.poolVote vote, none) := by
  obtain ⟨block, hblock, hepoch⟩ := h.known
  have hfirst : ¬ ((r.votePool.get? vote.blockHash).getD []).any
      (fun s => s.signer == vote.signature.signer) = true := by
    intro hany
    obtain ⟨sig, hsig, hs⟩ := List.any_eq_true.mp hany
    exact h.first sig hsig (by simpa using hs)
  unfold handleVote
  rw [if_neg (not_not.mpr h.epoch), if_neg (by simp [h.active]), if_neg (by simp [h.verified]),
    if_neg (not_le.mpr h.inRange)]
  simp only [hblock]
  rw [if_neg (not_not.mpr hepoch), if_neg hfirst]
  simp only [tryFormQc, OrdMap.get?_insert_self]
  rfl

/-- A certificate a vote completes is for the block voted for. -/
theorem handleVote_blockHash {now : Nat} {r : Replica σ} {vote : Vote} {qc : QuorumCert}
    (h : (r.handleVote now vote).2 = some qc) : qc.blockHash = vote.blockHash := by
  rcases r.handleVote_cases now vote with hv | ⟨-, ⟨-, hv⟩ | ⟨-, hv⟩⟩
  · rw [hv] at h
    cases h
  · rw [hv] at h
    cases h
  · rw [hv] at h
    cases h
    rfl

/-- A proposal is refused or logged and inserted. -/
theorem validateAndInsertProposal_cases (now : Nat) (r : Replica σ) (block : Block) :
    r.acceptsProposal block = false ∧ r.validateAndInsertProposal now block = (r, false) ∨
      r.acceptsProposal block = true ∧
        r.validateAndInsertProposal now block =
          ({ r.record (LogEntry.fromBlock now block) with
              blockTree := r.blockTree.insert block.hash block
              viewStartTime := now }, true) := by
  unfold validateAndInsertProposal
  cases ha : r.acceptsProposal block with
  | false => exact Or.inl ⟨rfl, rfl⟩
  | true => exact Or.inr ⟨rfl, rfl⟩

end Logged

end Replica

end PersistHotStuff
