import PersistHotStuff.Handlers.VoteCount
import PersistHotStuff.Handlers.Call
import PersistHotStuff.Source.Sample

/-!
# When a quorum forms

Correctly signed votes for one block, in any order and with repetitions. The
pool collects each signer once, provided its id passes the check against the
number of replicas, and a certificate forms when the signers in the pool are a
quorum.
-/

namespace PersistHotStuff

open Basis

/-- Who cast the votes of a list. -/
def voters (votes : List (Nat × Vote)) : Finset ReplicaId :=
  (votes.map fun v => v.2.signature.signer).toFinset

theorem mem_voters {votes : List (Nat × Vote)} {id : ReplicaId} :
    id ∈ voters votes ↔ ∃ v ∈ votes, v.2.signature.signer = id := by
  simp [voters]

theorem voters_append (votes : List (Nat × Vote)) (v : Nat × Vote) :
    voters (votes ++ [v]) = insert v.2.signature.signer (voters votes) := by
  ext id
  simp [voters]

theorem voters_nil : voters [] = ∅ := rfl

namespace Replica

section Votes

variable {σ : Type} [Ed25519] [Sha256]

/-- A vote of an active validator for a block, its view and the current epoch, signed with the
registered key. -/
structure SignedFor (r : Replica σ) (hash : Hash) (block : Block) (vote : Vote) : Prop where
  blockHash : vote.blockHash = hash
  view : vote.view = block.view
  epoch : vote.epoch = r.configEpoch
  active : r.activeValidators.contains vote.signature.signer = true
  verified : r.keystore.verify vote.signature vote.blockHash vote.view vote.epoch = true

variable [Bincode LogEntry] [Crc32]

/-- The state after votes, each with the time of its arrival. -/
def afterVotes (r : Replica σ) (votes : List (Nat × Vote)) : Replica σ :=
  votes.foldl (fun r v => (r.handleVote v.1 v.2).1) r

theorem afterVotes_append (r : Replica σ) (votes : List (Nat × Vote)) (v : Nat × Vote) :
    r.afterVotes (votes ++ [v]) = ((r.afterVotes votes).handleVote v.1 v.2).1 :=
  List.foldl_append ..

/-- The vote is the first for which a certificate is returned. -/
def FormsFirst (r : Replica σ) (before : List (Nat × Vote)) (v : Nat × Vote) : Prop :=
  (∀ pre u post, before = pre ++ u :: post → ((r.afterVotes pre).handleVote u.1 u.2).2 = none) ∧
    ((r.afterVotes before).handleVote v.1 v.2).2.isSome = true

/-- The vote makes the number of distinct signers reach the quorum. -/
def ReachesQuorum (r : Replica σ) (before : List (Nat × Vote)) (v : Nat × Vote) : Prop :=
  (voters before).card < r.dynamicQuorumSize ∧
    r.dynamicQuorumSize ≤ (voters (before ++ [v])).card

/-- Once the vote is handled, its signer is in the pool. -/
def Counts (r : Replica σ) (hash : Hash) (before : List (Nat × Vote)) (v : Nat × Vote) : Prop :=
  ∃ sig ∈ (r.afterVotes (before ++ [v])).pooled hash, sig.signer = v.2.signature.signer

/-- Every vote is counted, and the first certificate is returned at the vote that completes a
quorum. -/
def FormsAtQuorum (r : Replica σ) (hash : Hash) (votes : List (Nat × Vote)) : Prop :=
  ∀ before v after, votes = before ++ v :: after →
    (r.FormsFirst before v ↔ r.ReachesQuorum before v) ∧ r.Counts hash before v

/-- The state after votes for one block: the pool holds one signature of every voter with an id in
range. -/
structure Tallied (r : Replica σ) (hash : Hash) (votes : List (Nat × Vote)) (s : Replica σ) :
    Prop where
  frame : s = { r with votePool := s.votePool, highQc := s.highQc, wal := s.wal }
  distinct : ((s.pooled hash).map Signature.signer).Nodup
  signers : ∀ id, id ∈ (s.pooled hash).map Signature.signer ↔ id ∈ voters votes ∧ id < r.config.n

/-- The voters with an id in range. -/
def inRange (r : Replica σ) (votes : List (Nat × Vote)) : Finset ReplicaId :=
  (voters votes).filter (· < r.config.n)

omit [Ed25519] [Sha256] [Bincode LogEntry] [Crc32] in
theorem Tallied.length {r s : Replica σ} {hash : Hash} {votes : List (Nat × Vote)}
    (h : Tallied r hash votes s) : (s.pooled hash).length = (r.inRange votes).card := by
  have hset : ((s.pooled hash).map Signature.signer).toFinset = r.inRange votes := by
    ext id
    rw [List.mem_toFinset, h.signers, inRange, Finset.mem_filter]
  rw [← hset, List.toFinset_card_of_nodup h.distinct, List.length_map]

omit [Bincode LogEntry] [Crc32] in
/-- A correctly signed vote passes the checks when its signer is new and in range. -/
theorem Tallied.passes_iff {r s : Replica σ} {hash : Hash} {votes : List (Nat × Vote)}
    (h : Tallied r hash votes s) {block : Block} (hblock : r.blockTree.get? hash = some block)
    (hepoch : block.epoch = r.configEpoch) {vote : Vote} (hvote : r.SignedFor hash block vote) :
    s.VotePasses vote ↔
      vote.signature.signer ∉ voters votes ∧ vote.signature.signer < r.config.n := by
  have hn : s.config.n = r.config.n := by rw [h.frame]
  constructor
  · intro hpass
    have hlt : vote.signature.signer < r.config.n := hn ▸ hpass.inRange
    refine ⟨fun hmem => ?_, hlt⟩
    obtain ⟨sig, hsig, hs⟩ := List.mem_map.mp ((h.signers _).mpr ⟨hmem, hlt⟩)
    have hfirst := hpass.first
    rw [hvote.blockHash] at hfirst
    exact hfirst sig hsig hs
  · rintro ⟨hnew, hlt⟩
    have hfirst : ∀ sig ∈ s.pooled hash, sig.signer ≠ vote.signature.signer := by
      intro sig hsig hs
      exact hnew ((h.signers _).mp (List.mem_map.mpr ⟨sig, hsig, hs⟩)).1
    refine ⟨?_, ?_, ?_, hn ▸ hlt, ?_, ?_⟩
    · rw [h.frame]
      exact hvote.epoch
    · rw [h.frame]
      exact hvote.active
    · rw [h.frame]
      exact hvote.verified
    · rw [h.frame, hvote.blockHash]
      exact ⟨block, hblock, hepoch.trans hvote.epoch.symm⟩
    · rw [hvote.blockHash]
      exact hfirst

/-- A counted vote keeps the frame. -/
theorem Tallied.frame_handleVote {r s : Replica σ} {hash : Hash} {votes : List (Nat × Vote)}
    (h : Tallied r hash votes s) {now : Nat} {vote : Vote} (hpass : s.VotePasses vote) :
    (s.handleVote now vote).1 =
      { r with
        votePool := (s.handleVote now vote).1.votePool
        highQc := (s.handleVote now vote).1.highQc
        wal := (s.handleVote now vote).1.wal } := by
  have hs := h.frame
  rw [handleVote_of_passes hpass]
  split
  · rw [hs]
    rfl
  · rw [hs]
    rfl

/-- A vote that is counted joins the tally. -/
theorem Tallied.counted {r s : Replica σ} {hash : Hash} {votes : List (Nat × Vote)}
    (h : Tallied r hash votes s) {v : Nat × Vote} (hhash : v.2.blockHash = hash)
    (hpass : s.VotePasses v.2) (hnew : v.2.signature.signer ∉ voters votes)
    (hlt : v.2.signature.signer < r.config.n) :
    Tallied r hash (votes ++ [v]) (s.handleVote v.1 v.2).1 := by
  have hpooled : (s.handleVote v.1 v.2).1.pooled hash = s.pooled hash ++ [v.2.signature] :=
    hhash ▸ pooled_handleVote hpass
  refine ⟨h.frame_handleVote hpass, ?_, fun id => ?_⟩
  · rw [hpooled, List.map_append, List.nodup_append]
    refine ⟨h.distinct, List.nodup_singleton _, fun i hi j hj => ?_⟩
    rw [List.mem_singleton.mp hj]
    rintro rfl
    exact hnew ((h.signers _).mp hi).1
  · rw [hpooled, List.map_append, List.mem_append, h.signers, voters_append, Finset.mem_insert]
    simp only [List.map_cons, List.map_nil, List.mem_singleton]
    constructor
    · rintro (⟨hid, hidn⟩ | rfl)
      · exact ⟨Or.inr hid, hidn⟩
      · exact ⟨Or.inl rfl, hlt⟩
    · rintro ⟨rfl | hid, hidn⟩
      · exact Or.inr rfl
      · exact Or.inl ⟨hid, hidn⟩

omit [Ed25519] [Sha256] [Bincode LogEntry] [Crc32] in
/-- A vote of a known or foreign signer leaves the tally as it is. -/
theorem Tallied.passedOver {r s : Replica σ} {hash : Hash} {votes : List (Nat × Vote)}
    (h : Tallied r hash votes s) {v : Nat × Vote}
    (hout : ¬ (v.2.signature.signer ∉ voters votes ∧ v.2.signature.signer < r.config.n)) :
    Tallied r hash (votes ++ [v]) s := by
  refine ⟨h.frame, h.distinct, fun id => ?_⟩
  rw [h.signers, voters_append, Finset.mem_insert]
  refine and_congr_left fun hidn => ⟨Or.inr, ?_⟩
  rintro (rfl | hid)
  · by_contra hnew
    exact hout ⟨hnew, hidn⟩
  · exact hid

/-- One more vote: the tally goes on, and a certificate is returned exactly when the signer is new
and in range and the signers in the pool are a quorum. -/
theorem Tallied.handleVote {r s : Replica σ} {hash : Hash} {votes : List (Nat × Vote)}
    (h : Tallied r hash votes s) {block : Block} (hblock : r.blockTree.get? hash = some block)
    (hepoch : block.epoch = r.configEpoch) {v : Nat × Vote} (hvote : r.SignedFor hash block v.2) :
    Tallied r hash (votes ++ [v]) (s.handleVote v.1 v.2).1 ∧
      ((s.handleVote v.1 v.2).2.isSome = true ↔
        (v.2.signature.signer ∉ voters votes ∧ v.2.signature.signer < r.config.n) ∧
          r.dynamicQuorumSize ≤ (r.inRange (votes ++ [v])).card) := by
  have hiff := h.passes_iff hblock hepoch hvote
  by_cases hpass : s.VotePasses v.2
  · obtain ⟨hnew, hlt⟩ := hiff.mp hpass
    have htally := h.counted hvote.blockHash hpass hnew hlt
    have hpooled : (s.votedQc v.2).signatures.length =
        ((s.handleVote v.1 v.2).1.pooled hash).length := by
      rw [← hvote.blockHash, pooled_handleVote hpass]
      rfl
    have hquorum : s.dynamicQuorumSize = r.dynamicQuorumSize := by
      rw [h.frame]
      rfl
    refine ⟨htally, ?_⟩
    rw [← htally.length, ← hpooled, handleVote_of_passes hpass, hquorum]
    constructor
    · intro hsome
      refine ⟨⟨hnew, hlt⟩, ?_⟩
      by_contra hfew
      rw [if_neg hfew] at hsome
      cases hsome
    · rintro ⟨-, hmany⟩
      rw [if_pos hmany]
      rfl
  · have hout : ¬ (v.2.signature.signer ∉ voters votes ∧ v.2.signature.signer < r.config.n) :=
      fun hboth => hpass (hiff.mpr hboth)
    rw [handleVote_of_not_passes hpass]
    exact ⟨h.passedOver hout, iff_of_false (fun hs => by cases hs) fun hboth => hout hboth.1⟩

/-- Correctly signed votes are tallied. -/
theorem tallied_afterVotes {r : Replica σ} {hash : Hash} {block : Block}
    (hpool : r.votePool = OrdMap.empty) (hblock : r.blockTree.get? hash = some block)
    (hepoch : block.epoch = r.configEpoch) {votes : List (Nat × Vote)}
    (hvotes : ∀ v ∈ votes, r.SignedFor hash block v.2) :
    Tallied r hash votes (r.afterVotes votes) := by
  induction votes using List.reverseRecOn with
  | nil =>
    have hnone : (r.afterVotes []).pooled hash = [] := by
      rw [pooled, afterVotes, List.foldl_nil, hpool]
      rfl
    refine ⟨rfl, ?_, fun id => ?_⟩
    · rw [hnone]
      exact List.nodup_nil
    · rw [hnone, voters_nil]
      simp
  | append_singleton votes v ih =>
    rw [afterVotes_append]
    exact ((ih fun u hu => hvotes u (List.mem_append_left _ hu)).handleVote hblock hepoch
      (hvotes v (List.mem_append_right _ (List.mem_singleton_self v)))).1

/-- Correctly signed votes for a block by voters whose ids are in range. -/
def InRangeVotes (r : Replica σ) (hash : Hash) (block : Block) (votes : List (Nat × Vote)) : Prop :=
  ∀ v ∈ votes, r.SignedFor hash block v.2 ∧ v.2.signature.signer < r.config.n

omit [Bincode LogEntry] [Crc32] in
theorem InRangeVotes.inRange_eq {r : Replica σ} {hash : Hash} {block : Block}
    {votes : List (Nat × Vote)} (h : r.InRangeVotes hash block votes) :
    r.inRange votes = voters votes := by
  rw [inRange, Finset.filter_eq_self]
  intro id hid
  obtain ⟨v, hv, rfl⟩ := mem_voters.mp hid
  exact (h v hv).2

section Complete

variable {r : Replica σ} {hash : Hash} {block : Block} (hpool : r.votePool = OrdMap.empty)
  (hblock : r.blockTree.get? hash = some block) (hepoch : block.epoch = r.configEpoch)

include hpool hblock hepoch

/-- With all ids in range a certificate is returned for each new signer from a quorum on. -/
theorem returned_iff {before : List (Nat × Vote)} {v : Nat × Vote}
    (h : r.InRangeVotes hash block (before ++ [v])) :
    ((r.afterVotes before).handleVote v.1 v.2).2.isSome = true ↔
      v.2.signature.signer ∉ voters before ∧
        r.dynamicQuorumSize ≤ (voters (before ++ [v])).card := by
  have hv := h v (List.mem_append_right _ (List.mem_singleton_self v))
  have htally : Tallied r hash before (r.afterVotes before) :=
    tallied_afterVotes hpool hblock hepoch fun u hu => (h u (List.mem_append_left _ hu)).1
  rw [(htally.handleVote hblock hepoch hv.1).2, h.inRange_eq]
  exact ⟨fun hall => ⟨hall.1.1, hall.2⟩, fun hall => ⟨⟨hall.1, hv.2⟩, hall.2⟩⟩

/-- No certificate has been returned exactly as long as the signers are fewer than a quorum. -/
theorem none_returned_iff {before : List (Nat × Vote)} (h : r.InRangeVotes hash block before) :
    (∀ pre u post, before = pre ++ u :: post →
        ((r.afterVotes pre).handleVote u.1 u.2).2 = none) ↔
      (voters before).card < r.dynamicQuorumSize := by
  induction before using List.reverseRecOn with
  | nil =>
    refine iff_of_true (fun pre u post hsplit => ?_) ?_
    · exact absurd (congrArg List.length hsplit) (by simp)
    · rw [voters_nil, Finset.card_empty]
      exact Nat.succ_pos _
  | append_singleton before v ih =>
    have hbefore : r.InRangeVotes hash block before := fun u hu => h u (List.mem_append_left _ hu)
    have hone := returned_iff hpool hblock hepoch h
    have hcard : (voters before).card ≤ (voters (before ++ [v])).card := by
      rw [voters_append]
      exact Finset.card_le_card (Finset.subset_insert ..)
    constructor
    · intro hnone
      have hlast := hnone before v [] rfl
      have hfew := (ih hbefore).mp fun pre u post hsplit =>
        hnone pre u (post ++ [v]) (by rw [hsplit, List.append_assoc, List.cons_append])
      rw [hlast] at hone
      by_cases hnew : v.2.signature.signer ∈ voters before
      · rwa [voters_append, Finset.insert_eq_of_mem hnew]
      · exact not_le.mp fun hmany => by cases hone.mpr ⟨hnew, hmany⟩
    · intro hfew pre u post hsplit
      rcases List.eq_nil_or_concat post with rfl | ⟨post, w, rfl⟩
      · -- the last vote
        obtain ⟨rfl, hu⟩ := List.append_inj' hsplit rfl
        cases hu
        rw [← Option.not_isSome_iff_eq_none, hone]
        exact fun hall => absurd hall.2 (not_le.mpr hfew)
      · rw [List.concat_eq_append, ← List.cons_append, ← List.append_assoc] at hsplit
        obtain ⟨hpre, -⟩ := List.append_inj' hsplit rfl
        exact (ih hbefore).mpr (hcard.trans_lt hfew) pre u post hpre

/-- With all ids in range the first certificate is returned at the vote that completes a quorum. -/
theorem formsFirst_iff {before : List (Nat × Vote)} {v : Nat × Vote}
    (h : r.InRangeVotes hash block (before ++ [v])) :
    r.FormsFirst before v ↔ r.ReachesQuorum before v := by
  have hbefore : r.InRangeVotes hash block before := fun u hu => h u (List.mem_append_left _ hu)
  rw [FormsFirst, ReachesQuorum, none_returned_iff hpool hblock hepoch hbefore,
    returned_iff hpool hblock hepoch h]
  refine and_congr_right fun hfew => and_iff_right_of_imp fun hmany hold => ?_
  rw [voters_append, Finset.insert_eq_of_mem hold] at hmany
  exact absurd hmany (not_le.mpr hfew)

/-- Starting from an empty pool, every correctly signed vote for a block of the current epoch is
counted, and the first certificate is returned at the vote that completes a quorum of signers,
exactly when the ids of all voters are below the number of replicas in the configuration. -/
theorem formsAtQuorum_iff {votes : List (Nat × Vote)}
    (hvotes : ∀ v ∈ votes, r.SignedFor hash block v.2) :
    r.FormsAtQuorum hash votes ↔ ∀ v ∈ votes, v.2.signature.signer < r.config.n := by
  have hcast : ∀ {before v after}, votes = before ++ v :: after →
      ∀ u ∈ before ++ [v], u ∈ votes := by
    intro before v after hsplit u hu
    rw [hsplit, ← List.singleton_append, ← List.append_assoc]
    exact List.mem_append_left _ hu
  have htally : ∀ {before v after}, votes = before ++ v :: after →
      Tallied r hash (before ++ [v]) (r.afterVotes (before ++ [v])) := fun hsplit =>
    tallied_afterVotes hpool hblock hepoch fun u hu => hvotes u (hcast hsplit u hu)
  constructor
  · intro hforms v hv
    obtain ⟨before, after, hsplit⟩ := List.append_of_mem hv
    obtain ⟨sig, hsig, hs⟩ := (hforms before v after hsplit).2
    exact (((htally hsplit).signers _).mp (List.mem_map.mpr ⟨sig, hsig, hs⟩)).2
  · intro hrange before v after hsplit
    refine ⟨formsFirst_iff hpool hblock hepoch fun u hu =>
      ⟨hvotes u (hcast hsplit u hu), hrange u (hcast hsplit u hu)⟩, ?_⟩
    have hv := hcast hsplit v (List.mem_append_right _ (List.mem_singleton_self v))
    have hvoter : v.2.signature.signer ∈ voters (before ++ [v]) := by
      rw [voters_append]
      exact Finset.mem_insert_self ..
    obtain ⟨sig, hsig, hs⟩ :=
      List.mem_map.mp (((htally hsplit).signers _).mpr ⟨hvoter, hrange v hv⟩)
    exact ⟨sig, hsig, hs⟩

end Complete

end Votes

section Samples

open Sample

/-- Three validators commit a join of replica 3 or, with a gap, of replica 7, and the leader of
view 4 proposes. -/
def joined (id : ReplicaId) : Replica NoOpApp :=
  run step (party 3 0)
    [(1, .propose (.proposeCommand (.joinValidator id (signingKey id))) 0),
      (2, .handleVote (vote 0 1 0 0)),
      (3, .validateAndInsertProposal (block 2 1 1 1 (some (qc [0] 1 0 0)))),
      (4, .validateAndInsertProposal (block 3 2 2 2 (some (qc [1] 2 1 0)))),
      (5, .commitAll),
      (6, .propose (.proposeWithHash 4) 4)]

/-- The block proposed after the join. -/
def afterJoin : Block := { block 4 1 4 0 (some (qc [0] 1 0 0)) with epoch := 1 }

/-- Votes of replicas 0 and 1, one of them twice, and of a third replica. -/
def lateQuorum (id : ReplicaId) : List (Nat × Vote) :=
  [(7, vote 1 4 4 1), (8, vote 0 4 4 1), (9, vote 1 4 4 1), (10, vote id 4 4 1)]

/-- The votes of the joined replica's list are correctly signed. -/
theorem signedFor_lateQuorum {id : ReplicaId} (h : id = 3 ∨ id = 7) :
    ∀ v ∈ lateQuorum id, (joined id).SignedFor 4 afterJoin v.2 := by
  rcases h with rfl | rfl
  all_goals
    intro v hv
    simp only [lateQuorum, List.mem_cons, List.not_mem_nil, or_false] at hv
    rcases hv with rfl | rfl | rfl | rfl <;>
      exact ⟨rfl, rfl, by decide +kernel, by decide +kernel, by decide +kernel⟩

/-- With contiguous ids the third signer completes the quorum. -/
theorem formsAtQuorum_joined : (joined 3).FormsAtQuorum 4 (lateQuorum 3) := by
  have hblock : (joined 3).blockTree.get? 4 = some afterJoin := by decide +kernel
  exact (formsAtQuorum_iff (by decide +kernel) hblock (by decide +kernel)
    (signedFor_lateQuorum (Or.inl rfl))).mpr (by decide +kernel)

/-- A joined validator with id 7 is active, but its correctly signed vote is refused, so the votes
of a quorum form no certificate. -/
theorem joined_vote_refused :
    (joined 7).votePool = OrdMap.empty ∧ (joined 7).blockTree.get? 4 = some afterJoin ∧
      afterJoin.epoch = (joined 7).configEpoch ∧
      (∀ v ∈ lateQuorum 7, (joined 7).SignedFor 4 afterJoin v.2) ∧
      ¬ (joined 7).FormsAtQuorum 4 (lateQuorum 7) := by
  refine ⟨by decide +kernel, by decide +kernel, by decide +kernel,
    signedFor_lateQuorum (Or.inr rfl), fun h => ?_⟩
  have hsplit : lateQuorum 7 = (lateQuorum 7).take 3 ++ (10, vote 7 4 4 1) :: [] := rfl
  have hreaches : (joined 7).ReachesQuorum ((lateQuorum 7).take 3) (10, vote 7 4 4 1) := by
    unfold ReachesQuorum
    decide +kernel
  have hnone : (((joined 7).afterVotes ((lateQuorum 7).take 3)).handleVote 10
      (vote 7 4 4 1)).2.isSome = false := by decide +kernel
  have hsome := ((h _ _ _ hsplit).1.mpr hreaches).2
  rw [hnone] at hsome
  cases hsome

end Samples

end Replica

end PersistHotStuff
