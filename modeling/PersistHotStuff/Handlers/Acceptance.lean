import PersistHotStuff.Handlers.Call
import PersistHotStuff.Handlers.VoteCount
import PersistHotStuff.Source.Sample

/-!
# Acceptance of honest proposals

A leader embeds its high certificate whatever its epoch and whichever views its
votes are for; a follower refuses a certificate of another epoch than its own
and counts the signatures for the view of the certificate only. Among the votes
the certificate was formed from, those for its view have to be a quorum, and no
membership command may have taken effect since.
-/

namespace PersistHotStuff

open Basis

/-- Of votes by different signers as many count for a certificate as have a signature that is valid
for it. -/
theorem KeyStore.card_validSigners [Ed25519] [Sha256] {ks : KeyStore} {qc : QuorumCert}
    {votes : List Vote} (hsignatures : qc.signatures = votes.map Vote.signature)
    (hdistinct : (votes.map fun vote => vote.signature.signer).Nodup) :
    (ks.validSigners qc).card =
      votes.countP fun vote => ks.verify vote.signature qc.blockHash qc.view qc.epoch := by
  have hsub : ((votes.filter fun vote =>
      ks.verify vote.signature qc.blockHash qc.view qc.epoch).map
        fun vote => vote.signature.signer).Nodup := hdistinct.sublist (List.filter_sublist.map _)
  rw [validSigners, hsignatures, List.filter_map, List.map_map, List.countP_eq_length_filter]
  exact (List.toFinset_card_of_nodup hsub).trans (List.length_map ..)

namespace Replica

variable {σ : Type}

/-- Only the first membership command of a history can take effect. -/
def EpochBound (e : Nat) (r : Replica σ) : Prop :=
  r.configEpoch = e ∨ r.configEpoch = e + 1 ∧ r.activeValidators.length % 3 = 1

theorem EpochBound.congr {e : Nat} {r s : Replica σ} (h : EpochBound e r)
    (hm : s.membership = r.membership) : EpochBound e s := by
  have hv : s.activeValidators = r.activeValidators := congrArg Membership.activeValidators hm
  have hepoch : s.configEpoch = r.configEpoch := congrArg Membership.configEpoch hm
  rwa [EpochBound, hepoch, hv]

section Poll

variable [Ed25519] [Sha256] [Bincode LogEntry] [Crc32] [App σ]

/-- One more call of a replica, with the votes that the pool holds for a block: the same ones if the
pool is the same, one more if a vote has joined it, none if it has been emptied. -/
def pollStep (hash : Hash) (s : Replica σ × List Vote) (c : Nat × Call) : Replica σ × List Vote :=
  (s.1.step c,
    if (s.1.step c).pooled hash = s.1.pooled hash then s.2
    else match c.2 with
      | .handleVote vote => s.2 ++ [vote]
      | _ => [])

/-- The votes for a block that were counted since the pool was last emptied, in a run from an empty
pool. -/
def counted (hash : Hash) (r : Replica σ) (calls : List (Nat × Call)) : List Vote :=
  (run (pollStep hash) (r, []) calls).2

theorem run_pollStep_fst (hash : Hash) (s : Replica σ × List Vote) (calls : List (Nat × Call)) :
    (run (pollStep hash) s calls).1 = run step s.1 calls := by
  induction calls generalizing s with
  | nil => rfl
  | cons c calls ih => exact ih _

/-- The pool holds the signatures of the listed votes, which are by different signers and valid,
each for its own view, in the current epoch and under the current keys. -/
structure Polled (hash : Hash) (s : Replica σ × List Vote) : Prop where
  pooled : s.1.pooled hash = s.2.map Vote.signature
  distinct : (s.2.map fun vote => vote.signature.signer).Nodup
  verified : ∀ vote ∈ s.2,
    s.1.keystore.verify vote.signature hash vote.view s.1.configEpoch = true

omit [Bincode LogEntry] [Crc32] [App σ] in
theorem polled_of_empty {hash : Hash} {r : Replica σ} (h : r.pooled hash = []) :
    Polled hash (r, []) :=
  ⟨h, List.nodup_nil, fun vote hvote => (by cases hvote)⟩

omit [Bincode LogEntry] [Crc32] [App σ] in
/-- The votes are those of the pool and valid under the membership. -/
theorem Polled.congr {hash : Hash} {r s : Replica σ} {votes : List Vote}
    (h : Polled hash (r, votes)) (hpool : s.pooled hash = r.pooled hash)
    (hm : s.membership = r.membership) : Polled hash (s, votes) := by
  have hkeys : s.keystore.publicKeys = r.keystore.publicKeys := congrArg Membership.publicKeys hm
  have hepoch : s.configEpoch = r.configEpoch := congrArg Membership.configEpoch hm
  refine ⟨hpool.trans h.pooled, h.distinct, fun vote hvote => ?_⟩
  rw [KeyStore.verify_congr hkeys, hepoch]
  exact h.verified vote hvote

omit [Bincode LogEntry] [Crc32] [App σ] in
/-- A vote that passes the checks joins the others. -/
theorem Polled.append {r s : Replica σ} {votes : List Vote} {vote : Vote}
    (h : Polled vote.blockHash (r, votes)) (hpass : r.VotePasses vote)
    (hpool : s.pooled vote.blockHash = r.pooled vote.blockHash ++ [vote.signature])
    (hm : s.membership = r.membership) : Polled vote.blockHash (s, votes ++ [vote]) := by
  have hkeys : s.keystore.publicKeys = r.keystore.publicKeys := congrArg Membership.publicKeys hm
  have hepoch : s.configEpoch = r.configEpoch := congrArg Membership.configEpoch hm
  have hpooled : r.pooled vote.blockHash = votes.map Vote.signature := h.pooled
  have hfirst : ∀ sig ∈ r.pooled vote.blockHash, sig.signer ≠ vote.signature.signer := hpass.first
  refine ⟨by rw [hpool, hpooled, List.map_append]; rfl, ?_, fun v hv => ?_⟩
  · rw [List.map_append, List.nodup_append]
    refine ⟨h.distinct, List.nodup_singleton _, fun i hi j hj => ?_⟩
    obtain ⟨v, hv, rfl⟩ := List.mem_map.mp hi
    rw [List.mem_singleton.mp hj]
    exact hfirst v.signature (hpooled ▸ List.mem_map_of_mem hv)
  · rw [KeyStore.verify_congr hkeys, hepoch]
    rcases List.mem_append.mp hv with hv | hv
    · exact h.verified v hv
    · rw [List.mem_singleton.mp hv, ← hpass.epoch]
      exact hpass.verified

/-- Calls other than votes leave pool and membership alone, or empty the pool. -/
theorem step_pool_of_not_vote (r : Replica σ) {c : Nat × Call}
    (hc : ∀ vote, c.2 ≠ .handleVote vote) :
    (r.step c).votePool = r.votePool ∧ (r.step c).membership = r.membership ∨
      (r.step c).votePool = OrdMap.empty := by
  by_cases hcommit : c.2 = .commitAll
  · have hstep : r.step c = r.commitAll c.1 := by simp only [step, hcommit]
    rw [hstep]
    refine commitAll_preserves (I := fun s => s.votePool = r.votePool ∧
      s.membership = r.membership ∨ s.votePool = OrdMap.empty) c.1 r (fun s block hs => ?_)
      (Or.inl ⟨rfl, rfl⟩)
    have hpool : (s.executeAndCommit c.1 block).votePool =
        if s.membership.effective block.command then OrdMap.empty else s.votePool := by
      rw [executeAndCommit_eq]
      rfl
    rw [hpool, executeAndCommit_membership]
    cases heff : s.membership.effective block.command with
    | true => exact Or.inr rfl
    | false =>
      rw [Membership.apply_of_not_effective heff]
      exact hs
  · rcases r.step_votePool hcommit with h | h | ⟨vote, hvote, -⟩
    · exact Or.inl ⟨h, step_membership r hcommit⟩
    · exact Or.inr h
    · exact absurd hvote (hc vote)

/-- Every call keeps account of the votes in the pool. -/
theorem Polled.step {hash : Hash} {s : Replica σ × List Vote} (h : Polled hash s)
    (c : Nat × Call) : Polled hash (pollStep hash s c) := by
  obtain ⟨r, votes⟩ := s
  obtain ⟨now, call⟩ := c
  by_cases hvote : ∃ vote, call = .handleVote vote
  · obtain ⟨vote, rfl⟩ := hvote
    have hm : (r.step (now, .handleVote vote)).membership = r.membership :=
      step_membership r (by simp)
    simp only [pollStep]
    by_cases hpass : r.VotePasses vote
    · by_cases hhash : vote.blockHash = hash
      · subst hhash
        have hpool : (r.step (now, .handleVote vote)).pooled vote.blockHash =
            r.pooled vote.blockHash ++ [vote.signature] := pooled_handleVote hpass
        rw [if_neg (by rw [hpool]; simp)]
        exact h.append hpass hpool hm
      · have hpool : (r.step (now, .handleVote vote)).pooled hash = r.pooled hash :=
          pooled_handleVote_of_ne r now (Ne.symm hhash)
        rw [if_pos hpool]
        exact h.congr hpool hm
    · have hsame : r.step (now, .handleVote vote) = r :=
        congrArg Prod.fst (handleVote_of_not_passes hpass)
      rw [hsame, if_pos rfl]
      exact h
  · have hc : ∀ vote, call ≠ .handleVote vote := fun vote heq => hvote ⟨vote, heq⟩
    simp only [pollStep]
    rcases r.step_pool_of_not_vote (c := (now, call)) hc with ⟨hpool, hm⟩ | hpool
    · have hsame : (r.step (now, call)).pooled hash = r.pooled hash := by
        rw [Replica.pooled, hpool, Replica.pooled]
      rw [if_pos hsame]
      exact h.congr hsame hm
    · have hnone : (r.step (now, call)).pooled hash = [] := by
        rw [Replica.pooled, hpool]
        rfl
      split
      · next hsame =>
        -- there was nothing to empty
        have hnil : votes = [] := List.map_eq_nil_iff.mp (h.pooled.symm.trans (hsame ▸ hnone))
        rw [hnil]
        exact polled_of_empty hnone
      · cases call with
        | handleVote vote => exact absurd rfl (hc vote)
        | _ => exact polled_of_empty hnone

/-- A certificate was formed by `handleVote` in the course of a run, from the votes counted up to
then. -/
def FormedFrom (r : Replica σ) (calls : List (Nat × Call)) (qc : QuorumCert) (votes : List Vote) :
    Prop :=
  ∃ pre now vote post, calls = pre ++ (now, .handleVote vote) :: post ∧
    ((run step r pre).handleVote now vote).2 = some qc ∧
    votes = counted qc.blockHash r (pre ++ [(now, .handleVote vote)])

end Poll

section Certificate

variable [Ed25519] [Sha256]

/-- A certificate of the current or an earlier epoch for a known block, made of the signatures of
votes by different signers. In its own epoch each of them is valid for the view of its vote. -/
structure MadeOf (qc : QuorumCert) (votes : List Vote) (r : Replica σ) : Prop where
  known : r.blockTree.contains qc.blockHash = true
  signatures : qc.signatures = votes.map Vote.signature
  distinct : (votes.map fun vote => vote.signature.signer).Nodup
  epoch_le : qc.epoch ≤ r.configEpoch
  verified : qc.epoch = r.configEpoch → ∀ vote ∈ votes,
    r.keystore.verify vote.signature qc.blockHash vote.view qc.epoch = true

/-- A certificate is of the current epoch, and among its votes those for its view are a quorum. -/
def Backed (r : Replica σ) (qc : QuorumCert) (votes : List Vote) : Prop :=
  qc.epoch = r.configEpoch ∧ r.dynamicQuorumSize ≤ votes.countP fun vote => vote.view == qc.view

/-- No signature of a vote for another view passes for the view of the certificate. -/
def ForOneView (ks : KeyStore) (qc : QuorumCert) (votes : List Vote) : Prop :=
  ∀ vote ∈ votes, ks.verify vote.signature qc.blockHash qc.view qc.epoch = true →
    vote.view = qc.view

/-- What the votes of a certificate are worth reads the tree and the membership only, and survives
growth of the tree. -/
theorem MadeOf.congr {r s : Replica σ} {qc : QuorumCert} {votes : List Vote}
    (h : MadeOf qc votes r)
    (htree : ∀ hash, r.blockTree.contains hash = true → s.blockTree.contains hash = true)
    (hm : s.membership = r.membership) : MadeOf qc votes s := by
  have hkeys : s.keystore.publicKeys = r.keystore.publicKeys := congrArg Membership.publicKeys hm
  have hepoch : s.configEpoch = r.configEpoch := congrArg Membership.configEpoch hm
  refine ⟨htree _ h.known, h.signatures, h.distinct, hepoch ▸ h.epoch_le, fun he vote hvote => ?_⟩
  rw [KeyStore.verify_congr hkeys]
  exact h.verified (he.trans hepoch) vote hvote

/-- Votes for the view of their certificate make it verify. -/
theorem MadeOf.verifyQc {r : Replica σ} {qc : QuorumCert} {votes : List Vote}
    (h : MadeOf qc votes r) (hbacked : r.Backed qc votes) :
    r.keystore.verifyQc qc r.dynamicQuorumSize = true := by
  obtain ⟨hepoch, hquorum⟩ := hbacked
  rw [KeyStore.verifyQc, KeyStore.card_validSigners h.signatures h.distinct, decide_eq_true_eq]
  refine hquorum.trans (List.countP_mono_left fun vote hvote hview => ?_)
  rw [← beq_iff_eq.mp hview]
  exact h.verified hepoch vote hvote

/-- A certificate that verifies has a quorum of votes for its view, unless a signature passes for
two views. -/
theorem MadeOf.quorum {r : Replica σ} {qc : QuorumCert} {votes : List Vote}
    (h : MadeOf qc votes r) (hone : ForOneView r.keystore qc votes)
    (hverify : r.keystore.verifyQc qc r.dynamicQuorumSize = true) :
    r.dynamicQuorumSize ≤ votes.countP fun vote => vote.view == qc.view := by
  rw [KeyStore.verifyQc, KeyStore.card_validSigners h.signatures h.distinct,
    decide_eq_true_eq] at hverify
  refine hverify.trans (List.countP_mono_left fun vote hvote hvalid => ?_)
  exact beq_iff_eq.mpr (hone vote hvote hvalid)

end Certificate

section Run

variable [Ed25519] [Bincode LogEntry] [Crc32] [App σ]

/-- A commit moves the epoch at most once in a history. -/
theorem EpochBound.executeAndCommit {e : Nat} (he : e < u64Max) {r : Replica σ}
    (h : EpochBound e r) (now : Nat) (block : Block) :
    EpochBound e (r.executeAndCommit now block) := by
  cases heff : r.membership.effective block.command with
  | false =>
    refine h.congr ?_
    rw [executeAndCommit_membership, Membership.apply_of_not_effective heff]
  | true =>
    obtain ⟨hmod, -, hmod'⟩ := Membership.length_apply heff
    have hm := executeAndCommit_membership now r block
    have hepoch : (r.executeAndCommit now block).configEpoch = saturatingAdd r.configEpoch 1 :=
      (congrArg Membership.configEpoch hm).trans (Membership.apply_configEpoch heff)
    have hval : (r.executeAndCommit now block).activeValidators =
        (r.membership.apply block.command).activeValidators :=
      congrArg Membership.activeValidators hm
    rcases h with h | ⟨-, hlen⟩
    · refine Or.inr ⟨?_, hval ▸ hmod'⟩
      rw [hepoch, h, saturatingAdd]
      omega
    · exact absurd hlen hmod

variable [Sha256]

/-- A commit keeps what a certificate is made of: an effective one leaves its epoch behind. -/
theorem MadeOf.executeAndCommit {e : Nat} (he : e < u64Max) {r : Replica σ} {qc : QuorumCert}
    {votes : List Vote} (h : MadeOf qc votes r) (hbound : EpochBound e r) (now : Nat)
    (block : Block) : MadeOf qc votes (r.executeAndCommit now block) := by
  have htree : ∀ hash, r.blockTree.contains hash = true →
      (r.executeAndCommit now block).blockTree.contains hash = true := fun hash hc => by
    rwa [executeAndCommit_blockTree]
  cases heff : r.membership.effective block.command with
  | false =>
    refine h.congr htree ?_
    rw [executeAndCommit_membership, Membership.apply_of_not_effective heff]
  | true =>
    have hepoch : (r.executeAndCommit now block).configEpoch = saturatingAdd r.configEpoch 1 :=
      (congrArg Membership.configEpoch (executeAndCommit_membership now r block)).trans
        (Membership.apply_configEpoch heff)
    have hlt : qc.epoch < (r.executeAndCommit now block).configEpoch := by
      have hle := h.epoch_le
      rcases hbound with hb | ⟨-, hlen⟩
      · rw [hepoch, saturatingAdd]
        omega
      · exact absurd hlen (Membership.length_apply heff).1
    exact ⟨htree _ h.known, h.signatures, h.distinct, hlt.le, fun heq => absurd heq hlt.ne⟩

/-- Calls keep the epoch bound and what certificates are made of. -/
theorem epochBound_step {e : Nat} (he : e < u64Max) {r : Replica σ} (hbound : EpochBound e r)
    (c : Nat × Call) :
    EpochBound e (r.step c) ∧
      ∀ qc votes, MadeOf qc votes r → MadeOf qc votes (r.step c) := by
  by_cases hc : c.2 = .commitAll
  · have hstep : r.step c = r.commitAll c.1 := by
      simp only [step, hc]
    rw [hstep]
    refine ⟨?_, fun qc votes hqc => ?_⟩
    · exact commitAll_preserves c.1 r (fun s b h => h.executeAndCommit he c.1 b) hbound
    · exact (commitAll_preserves (I := fun s => MadeOf qc votes s ∧ EpochBound e s) c.1 r
        (fun s b h => ⟨h.1.executeAndCommit he h.2 c.1 b, h.2.executeAndCommit he c.1 b⟩)
        ⟨hqc, hbound⟩).1
  · have hm := step_membership r hc
    exact ⟨hbound.congr hm, fun qc votes hqc => hqc.congr (fun hash hin => step_contains hin c) hm⟩

/-- Runs keep the epoch bound and what certificates are made of. -/
theorem epochBound_run {e : Nat} (he : e < u64Max) {r : Replica σ} (hbound : EpochBound e r)
    (calls : List (Nat × Call)) :
    EpochBound e (run step r calls) ∧
      ∀ qc votes, MadeOf qc votes r → MadeOf qc votes (run step r calls) := by
  refine run_preserves (I := fun s => EpochBound e s ∧
    ∀ qc votes, MadeOf qc votes r → MadeOf qc votes s) (fun s c hs => ?_) ⟨hbound, fun _ _ h => h⟩
    calls
  obtain ⟨hnext, hkeep⟩ := epochBound_step he hs.1 c
  exact ⟨hnext, fun qc votes hqc => hkeep qc votes (hs.2 qc votes hqc)⟩

/-- A certificate is made of the votes that are in the pool when it is formed. -/
theorem madeOf_of_formed {r : Replica σ} {votes : List Vote} {now : Nat} {vote : Vote}
    {qc : QuorumCert} (hpolled : Polled qc.blockHash (r, votes))
    (hformed : (r.handleVote now vote).2 = some qc) :
    MadeOf qc (pollStep qc.blockHash (r, votes) (now, .handleVote vote)).2
      (r.step (now, .handleVote vote)) := by
  have hnext := hpolled.step (now, .handleVote vote)
  have hm : (r.step (now, .handleVote vote)).membership = r.membership :=
    step_membership r (by simp)
  obtain ⟨hpass, -, rfl, -⟩ := handleVote_some hformed
  have hepoch : (r.votedQc vote).epoch = (r.step (now, .handleVote vote)).configEpoch :=
    hpass.epoch.trans (congrArg Membership.configEpoch hm).symm
  have hpool : (r.step (now, .handleVote vote)).pooled vote.blockHash =
      (r.votedQc vote).signatures := pooled_handleVote hpass
  obtain ⟨block, hblock, -⟩ := hpass.known
  refine ⟨step_contains (OrdMap.contains_iff.mpr ⟨block, hblock⟩) _,
    hpool.symm.trans hnext.pooled, hnext.distinct, hepoch.le, fun _ v hv => ?_⟩
  rw [hepoch]
  exact hnext.verified v hv

/-- What a certificate was formed from it is made of to the end of the run. -/
theorem FormedFrom.madeOf {r : Replica σ} (hpool : r.votePool = OrdMap.empty)
    (hepoch : r.configEpoch < u64Max) {calls : List (Nat × Call)} {qc : QuorumCert}
    {votes : List Vote} (h : FormedFrom r calls qc votes) :
    MadeOf qc votes (run step r calls) := by
  obtain ⟨pre, now, vote, post, rfl, hformed, rfl⟩ := h
  have hempty : r.pooled qc.blockHash = [] := by
    rw [pooled, hpool]
    rfl
  have hpolled : Polled qc.blockHash (Basis.run (pollStep qc.blockHash) (r, []) pre) :=
    run_preserves (fun s c hs => hs.step c) (polled_of_empty hempty) pre
  obtain ⟨hbound, -⟩ := epochBound_run hepoch (Or.inl rfl) pre
  rw [counted, run_append, run_cons, run_nil]
  rw [run_append, run_cons]
  have hfst := run_pollStep_fst qc.blockHash (r, []) pre
  generalize Basis.run (pollStep qc.blockHash) (r, []) pre = s at hpolled hfst
  obtain ⟨s, votes⟩ := s
  obtain rfl : s = Basis.run step r pre := hfst
  obtain ⟨hbound', -⟩ := epochBound_step hepoch hbound (now, .handleVote vote)
  exact (epochBound_run hepoch hbound' post).2 qc _ (madeOf_of_formed hpolled hformed)

/-- Two replicas with the same committed history. -/
structure SameHistory (l f : Replica σ) : Prop where
  blockTree : f.blockTree = l.blockTree
  committedLog : f.committedLog = l.committedLog
  activeValidators : f.activeValidators = l.activeValidators
  configEpoch : f.configEpoch = l.configEpoch
  publicKeys : f.keystore.publicKeys = l.keystore.publicKeys

/-- Membership commands never empty the validator set. -/
theorem validators_nonempty_run {r : Replica σ} (h : r.activeValidators.isEmpty = false)
    (calls : List (Nat × Call)) : (run step r calls).activeValidators.isEmpty = false := by
  have hcongr : ∀ {s t : Replica σ}, t.membership = s.membership →
      s.activeValidators.isEmpty = false → t.activeValidators.isEmpty = false := by
    intro s t hm hs
    rwa [show t.activeValidators = s.activeValidators from congrArg Membership.activeValidators hm]
  refine run_preserves (I := fun s : Replica σ => s.activeValidators.isEmpty = false) ?_ h calls
  intro s c hs
  by_cases hc : c.2 = .commitAll
  · simp only [step, hc]
    refine commitAll_preserves (I := fun t : Replica σ => t.activeValidators.isEmpty = false) c.1 s
      (fun t b ht => ?_) hs
    cases heff : t.membership.effective b.command with
    | false =>
      refine hcongr ?_ ht
      rw [executeAndCommit_membership, Membership.apply_of_not_effective heff]
    | true =>
      have hlen := (Membership.length_apply heff).2.1
      rw [show (t.executeAndCommit c.1 b).activeValidators =
        (t.membership.apply b.command).activeValidators from
        congrArg Membership.activeValidators (executeAndCommit_membership c.1 t b)]
      rw [OrdMap.isEmpty, List.isEmpty_eq_false_iff, ← List.length_pos_iff]
      exact Nat.lt_of_lt_of_le (by decide) hlen
  · exact hcongr (step_membership s hc) hs

/-- A follower with the same history accepts a leader's proposal if the embedded certificate is of
the current epoch and a quorum of its votes are for its view, and, unless a signature passes for two
views, only then. -/
theorem proposal_accepted_iff {l f : Replica σ} (hpool : l.votePool = OrdMap.empty)
    (hepoch : l.configEpoch < u64Max) (hvalidators : l.activeValidators.isEmpty = false)
    {calls : List (Nat × Call)} (hsame : SameHistory (run step l calls) f) {qc : QuorumCert}
    {votes : List Vote} (hformed : FormedFrom l calls qc votes)
    (hhigh : (run step l calls).highQc = some qc) {now view : Nat} {how : ProposeCall}
    {block : Block} (hblock : ((run step l calls).proposeBy now view how).2 = some block) :
    ((run step l calls).Backed qc votes → f.acceptsProposal block = true) ∧
      (ForOneView (run step l calls).keystore qc votes → f.acceptsProposal block = true →
        (run step l calls).Backed qc votes) := by
  have hmade := hformed.madeOf hpool hepoch
  have hnonempty := validators_nonempty_run hvalidators calls
  generalize run step l calls = l at *
  rcases l.proposeBy_cases now view how with h | ⟨hleader, hash, command, nextHash, queue, h⟩
  · rw [h] at hblock
    cases hblock
  · rw [h] at hblock
    cases hblock
    rw [acceptsProposal_iff]
    simp only [nextBlock, nextParent, hhigh, Option.mem_def, Option.some.injEq, forall_eq']
    rw [KeyStore.verifyQc_congr hsame.publicKeys, dynamicQuorumSize_congr hsame.activeValidators]
    constructor
    · intro hbacked
      refine ⟨?_, hsame.configEpoch.symm, ?_, hbacked.1.trans hsame.configEpoch.symm, ?_, ?_⟩
      · rw [dynamicLeaderForView_congr hsame.activeValidators hnonempty]
        exact (beq_iff_eq.mp hleader).symm
      · rw [hsame.blockTree]
        exact hmade.known
      · exact hmade.verifyQc hbacked
      · rw [hsame.blockTree]
        exact hmade.known
    · rintro hone ⟨-, -, -, he, hverify, -⟩
      exact ⟨he.trans hsame.configEpoch, hmade.quorum hone hverify⟩

end Run

section Samples

open Sample

/-- The leader of view 0 proposes and collects four votes, the third one for another view. -/
def steadyCalls : List (Nat × Call) :=
  [(1, .propose .propose 0),
    (2, .handleVote (vote 0 1 0 0)),
    (3, .handleVote (vote 1 1 0 0)),
    (4, .handleVote (vote 3 1 7 0)),
    (5, .handleVote (vote 2 1 0 0))]

/-- The votes behind its certificates. -/
def steadyVotes : List Vote := [vote 0 1 0 0, vote 1 1 0 0, vote 3 1 7 0, vote 2 1 0 0]

/-- The certificate that votes form, for the view of the last one. -/
def votedFor (view : Nat) (votes : List Vote) : QuorumCert :=
  { qc [] 1 view 0 with signatures := votes.map Vote.signature }

/-- A follower that has seen the leader's first block. -/
def steadyFollower : Replica NoOpApp :=
  run step (party 4 3) [(1, .validateAndInsertProposal (block 1 0 0 0 none))]

/-- The first certificate is for the view of the stray vote and its proposal refused; the second one
has a quorum besides, and its proposal is accepted. -/
theorem proposal_accepted_steady :
    steadyFollower.acceptsProposal
        (block 2 1 4 0 (some (votedFor 7 (steadyVotes.take 3)))) = false ∧
      steadyFollower.acceptsProposal (block 2 1 4 0 (some (votedFor 0 steadyVotes))) = true := by
  have hsame : SameHistory (run step (party 4 0) steadyCalls) steadyFollower := by
    constructor <;> decide +kernel
  have hsame' : SameHistory (run step (party 4 0) (steadyCalls.take 4)) steadyFollower := by
    constructor <;> decide +kernel
  have hformed : FormedFrom (party 4 0) steadyCalls (votedFor 0 steadyVotes) steadyVotes :=
    ⟨steadyCalls.take 4, 5, vote 2 1 0 0, [], rfl, by decide +kernel, by decide +kernel⟩
  have hformed' : FormedFrom (party 4 0) (steadyCalls.take 4)
      (votedFor 7 (steadyVotes.take 3)) (steadyVotes.take 3) :=
    ⟨steadyCalls.take 3, 4, vote 3 1 7 0, [], rfl, by decide +kernel, by decide +kernel⟩
  have hblock : ((run step (party 4 0) steadyCalls).proposeBy 6 4 .propose).2 =
      some (block 2 1 4 0 (some (votedFor 0 steadyVotes))) := by decide +kernel
  have hblock' : ((run step (party 4 0) (steadyCalls.take 4)).proposeBy 6 4 .propose).2 =
      some (block 2 1 4 0 (some (votedFor 7 (steadyVotes.take 3)))) := by decide +kernel
  constructor
  · have hone : ForOneView (keyStore 4 0) (votedFor 7 (steadyVotes.take 3))
        (steadyVotes.take 3) := by
      unfold ForOneView
      decide +kernel
    refine Bool.eq_false_iff.mpr fun haccept => ?_
    have hbacked := (proposal_accepted_iff rfl (by decide) rfl hsame' hformed' (by decide +kernel)
      hblock').2 hone haccept
    exact absurd hbacked.2 (by decide +kernel)
  · exact (proposal_accepted_iff rfl (by decide) rfl hsame hformed (by decide +kernel) hblock).1
      ⟨by decide +kernel, by decide +kernel⟩

/-- The block by which the leader of view 0 asks a fourth validator in. -/
def joinBlock : Block :=
  { block 1 0 0 0 none with command := .joinValidator 3 (signingKey 3) }

/-- Of three validators, the leader of view 0 gets its join committed by the next two leaders. -/
def joinLeaderCalls : List (Nat × Call) :=
  [(1, .propose (.proposeCommand (.joinValidator 3 (signingKey 3))) 0),
    (2, .handleVote (vote 0 1 0 0)),
    (3, .validateAndInsertProposal (block 2 1 1 1 (some (qc [0] 1 0 0)))),
    (4, .validateAndInsertProposal (block 3 2 2 2 (some (qc [1] 2 1 0)))),
    (5, .commitAll)]

/-- The leader of view 1 in the same history. -/
def joinFollower : Replica NoOpApp :=
  run step (party 3 1)
    [(1, .validateAndInsertProposal joinBlock),
      (2, .applyHighQcFromNetwork (qc [0] 1 0 0)),
      (3, .propose (.proposeWithHash 2) 1),
      (4, .validateAndInsertProposal (block 3 2 2 2 (some (qc [1] 2 1 0)))),
      (5, .commitAll)]

/-- The first proposal after the join has committed on both carries the certificate of the old
epoch and is refused. -/
theorem proposal_refused_after_join :
    SameHistory (run step (party 3 0) joinLeaderCalls) joinFollower ∧
      FormedFrom (party 3 0) joinLeaderCalls (qc [0] 1 0 0) [vote 0 1 0 0] ∧
      (run step (party 3 0) joinLeaderCalls).highQc = some (qc [0] 1 0 0) ∧
      ∃ block,
        ((run step (party 3 0) joinLeaderCalls).proposeBy 6 4 (.proposeWithHash 4)).2 =
          some block ∧
        joinFollower.acceptsProposal block = false := by
  refine ⟨?_, ⟨joinLeaderCalls.take 1, 2, vote 0 1 0 0, joinLeaderCalls.drop 2, rfl,
    by decide +kernel, by decide +kernel⟩, by decide +kernel, ?_⟩
  · constructor <;> decide +kernel
  · exact ⟨{ block 4 1 4 0 (some (qc [0] 1 0 0)) with epoch := 1 }, by decide +kernel,
      by decide +kernel⟩

end Samples

end Replica

end PersistHotStuff
