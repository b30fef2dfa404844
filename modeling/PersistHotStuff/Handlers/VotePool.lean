import PersistHotStuff.Handlers.ActiveKeys
import PersistHotStuff.Handlers.VoteCount

/-!
# The vote pool

The pool is keyed by block hash alone, while a signature is for a view of the
voter's choice. What every pooled signature has in common is the block, the
epoch and the current validators and keys; whether all of them are for the view
of the block is up to the voters.
-/

namespace PersistHotStuff

open Basis

/-- Any view goes with a block. -/
def anyView (_ : Block) (_ : Nat) : Prop := True

/-- The view of the block itself. -/
def ownView (block : Block) (view : Nat) : Prop := view = block.view

namespace Replica

section Pool

variable {σ : Type} [Ed25519] [Sha256]

/-- Signatures for a block of the current epoch, by different active validators, each valid under
the registered key of its signer for a view that goes with the block. -/
structure SoundFor (admits : Block → Nat → Prop) (r : Replica σ) (hash : Hash) (block : Block)
    (sigs : List Signature) : Prop where
  epoch : block.epoch = r.configEpoch
  distinct : (sigs.map Signature.signer).Nodup
  active : ∀ sig ∈ sigs, r.activeValidators.contains sig.signer = true
  verified : ∀ sig ∈ sigs, ∃ view, admits block view ∧
    r.keystore.verify sig hash view r.configEpoch = true

/-- Every entry of the pool is for a block of the tree and sound for it. -/
def PoolInvariant (admits : Block → Nat → Prop) (r : Replica σ) : Prop :=
  ∀ hash sigs, r.votePool.get? hash = some sigs →
    ∃ block, r.blockTree.get? hash = some block ∧ SoundFor admits r hash block sigs

/-- The views that counted votes name, and those that come with a replaced block, go with the
blocks of the tree. -/
def Admitted (admits : Block → Nat → Prop) (r : Replica σ) (d : Nat × Delivery) : Prop :=
  match d.2 with
  | .call (.handleVote vote) =>
      r.VotePasses vote → ∀ block ∈ r.blockTree.get? vote.blockHash, admits block vote.view
  | .call c =>
      ∀ block ∈ r.inserted (d.1, c), r.votePool.contains block.hash = true →
        ∀ old ∈ r.blockTree.get? block.hash, ∀ view, admits old view → admits block view
  | .execute _ => True

theorem poolInvariant_of_empty {admits : Block → Nat → Prop} {r : Replica σ}
    (h : r.votePool = OrdMap.empty) : PoolInvariant admits r := by
  intro hash sigs hget
  rw [h] at hget
  cases hget

/-- Soundness reads the block's epoch and the membership. -/
theorem SoundFor.congr {admits : Block → Nat → Prop} {r s : Replica σ} {hash : Hash}
    {block block' : Block} {sigs : List Signature} (h : SoundFor admits r hash block sigs)
    (hm : s.membership = r.membership) (hepoch : block'.epoch = r.configEpoch)
    (hview : ∀ view, admits block view → admits block' view) :
    SoundFor admits s hash block' sigs := by
  have hkeys : s.keystore.publicKeys = r.keystore.publicKeys := congrArg Membership.publicKeys hm
  have hactive : s.activeValidators = r.activeValidators :=
    congrArg Membership.activeValidators hm
  have hcurrent : s.configEpoch = r.configEpoch := congrArg Membership.configEpoch hm
  refine ⟨hepoch.trans hcurrent.symm, h.distinct, hactive ▸ h.active, fun sig hsig => ?_⟩
  obtain ⟨view, hadmits, hverify⟩ := h.verified sig hsig
  refine ⟨view, hview view hadmits, ?_⟩
  rw [KeyStore.verify_congr hkeys, hcurrent]
  exact hverify

/-- A counted vote keeps the signatures for its block sound. -/
theorem PoolInvariant.votedQc {admits : Block → Nat → Prop} {r : Replica σ}
    (h : PoolInvariant admits r) {vote : Vote} (hpass : r.VotePasses vote) {block : Block}
    (hblock : r.blockTree.get? vote.blockHash = some block) (hview : admits block vote.view) :
    SoundFor admits r vote.blockHash block (r.votedQc vote).signatures := by
  have hepoch : block.epoch = r.configEpoch := by
    obtain ⟨known, hknown, hvoted⟩ := hpass.known
    rw [hblock] at hknown
    cases hknown
    exact hvoted.trans hpass.epoch
  have hverify :
      r.keystore.verify vote.signature vote.blockHash vote.view r.configEpoch = true := by
    rw [← hpass.epoch]
    exact hpass.verified
  have hold :
      SoundFor admits r vote.blockHash block ((r.votePool.get? vote.blockHash).getD []) := by
    cases hget : r.votePool.get? vote.blockHash with
    | none =>
      exact ⟨hepoch, List.nodup_nil, fun sig hs => (by cases hs), fun sig hs => (by cases hs)⟩
    | some sigs =>
      obtain ⟨pooled, hpooled, hsound⟩ := h vote.blockHash sigs hget
      rw [hblock] at hpooled
      cases hpooled
      exact hsound
  have hfirst := hpass.first
  simp only [Replica.votedQc]
  generalize (r.votePool.get? vote.blockHash).getD [] = sigs at hold hfirst ⊢
  refine ⟨hepoch, ?_, ?_, ?_⟩
  · rw [List.map_append, List.nodup_append]
    refine ⟨hold.distinct, List.nodup_singleton _, ?_⟩
    intro i hi j hj
    obtain ⟨sig, hsig, rfl⟩ := List.mem_map.mp hi
    rw [List.mem_singleton.mp hj]
    exact hfirst sig hsig
  · intro sig hsig
    rcases List.mem_append.mp hsig with hsig | hsig
    · exact hold.active sig hsig
    · rw [List.mem_singleton.mp hsig]
      exact hpass.active
  · intro sig hsig
    rcases List.mem_append.mp hsig with hsig | hsig
    · exact hold.verified sig hsig
    · rw [List.mem_singleton.mp hsig]
      exact ⟨vote.view, hview, hverify⟩

/-- The blocks put into the tree are of the current epoch. -/
theorem inserted_epoch {r : Replica σ} {c : Nat × Call} {block : Block}
    (h : r.inserted c = some block) : block.epoch = r.configEpoch := by
  obtain ⟨now, call⟩ := c
  cases call with
  | propose how view =>
    simp only [inserted] at h
    rcases r.proposeBy_cases now view how with hp | ⟨-, hash, command, nextHash, queue, hp⟩
    · rw [hp] at h
      cases h
    · rw [hp] at h
      cases h
      rfl
  | validateAndInsertProposal proposed =>
    simp only [inserted] at h
    split at h
    · rename_i ha
      cases h
      exact ((r.acceptsProposal_iff _).mp ha).2.1
    · cases h
  | _ => cases h

end Pool

section Run

variable {σ : Type} [Ed25519] [Sha256] [Bincode LogEntry] [Crc32] [App σ]

/-- A commit keeps the pool as it is, or changes the membership and empties it. -/
theorem PoolInvariant.executeAndCommit {admits : Block → Nat → Prop} {r : Replica σ}
    (h : PoolInvariant admits r) (now : Nat) (block : Block) :
    PoolInvariant admits (r.executeAndCommit now block) := by
  cases heff : r.membership.effective block.command with
  | false =>
    have hpool : (r.executeAndCommit now block).votePool = r.votePool := by
      rw [executeAndCommit_eq, heff]
      rfl
    have hm : (r.executeAndCommit now block).membership = r.membership := by
      rw [executeAndCommit_membership, Membership.apply_of_not_effective heff]
    intro hash sigs hget
    rw [hpool] at hget
    obtain ⟨b, hb, hsound⟩ := h hash sigs hget
    refine ⟨b, ?_, hsound.congr hm hsound.epoch fun _ => id⟩
    rwa [executeAndCommit_blockTree]
  | true =>
    refine poolInvariant_of_empty ?_
    rw [executeAndCommit_eq, heff]
    rfl

/-- A call that leaves the pool alone keeps the invariant, if a block it replaces has the same
views. -/
theorem PoolInvariant.of_inserted {admits : Block → Nat → Prop} {r : Replica σ}
    (h : PoolInvariant admits r) {c : Nat × Call} (hc : c.2 ≠ .commitAll)
    (hpool : (r.step c).votePool = r.votePool)
    (hviews : ∀ block ∈ r.inserted c, r.votePool.contains block.hash = true →
      ∀ old ∈ r.blockTree.get? block.hash, ∀ view, admits old view → admits block view) :
    PoolInvariant admits (r.step c) := by
  intro hash sigs hget
  rw [hpool] at hget
  obtain ⟨old, hold, hsound⟩ := h hash sigs hget
  have hm := step_membership r hc
  rw [step_blockTree]
  cases hins : r.inserted c with
  | none => exact ⟨old, hold, hsound.congr hm hsound.epoch fun _ => id⟩
  | some block =>
    rw [insertInto, OrdMap.get?_insert]
    by_cases hhash : hash = block.hash
    · rw [if_pos hhash]
      subst hhash
      have hpooled : r.votePool.contains block.hash = true := OrdMap.contains_iff.mpr ⟨sigs, hget⟩
      exact ⟨block, rfl,
        hsound.congr hm (inserted_epoch hins) (hviews block hins hpooled old hold)⟩
    · rw [if_neg hhash]
      exact ⟨old, hold, hsound.congr hm hsound.epoch fun _ => id⟩

/-- One delivery keeps the invariant. -/
theorem PoolInvariant.deliver {admits : Block → Nat → Prop} {r : Replica σ}
    (h : PoolInvariant admits r) {d : Nat × Delivery} (hd : Admitted admits r d) :
    PoolInvariant admits (r.deliver d) := by
  obtain ⟨now, delivery⟩ := d
  cases delivery with
  | execute block => exact h.executeAndCommit now block
  | call c =>
    by_cases hc : c = .commitAll
    · subst hc
      exact commitAll_preserves now r (fun s block hs => hs.executeAndCommit now block) h
    · rcases r.step_votePool (c := (now, c)) hc with hsame | hempty | ⟨vote, hvote, hpass, hpool⟩
      · refine h.of_inserted hc hsame ?_
        cases c with
        | handleVote vote => exact fun block hb => by cases hb
        | _ => exact hd
      · exact poolInvariant_of_empty hempty
      · cases hvote
        obtain ⟨block, hblock, -⟩ := hpass.known
        have hnew := h.votedQc hpass hblock (hd hpass block hblock)
        have hm := step_membership r (c := (now, .handleVote vote)) hc
        have htree : (r.step (now, .handleVote vote)).blockTree = r.blockTree := r.step_blockTree _
        intro hash sigs hget
        change (r.step (now, .handleVote vote)).votePool.get? hash = some sigs at hget
        change ∃ b, (r.step (now, .handleVote vote)).blockTree.get? hash = some b ∧
          SoundFor admits (r.step (now, .handleVote vote)) hash b sigs
        rw [hpool, OrdMap.get?_insert] at hget
        rw [htree]
        by_cases hhash : hash = vote.blockHash
        · rw [if_pos hhash] at hget
          cases hget
          subst hhash
          exact ⟨block, hblock, hnew.congr hm hnew.epoch fun _ => id⟩
        · rw [if_neg hhash] at hget
          obtain ⟨b, hb, hsound⟩ := h hash sigs hget
          exact ⟨b, hb, hsound.congr hm hsound.epoch fun _ => id⟩

/-- What a delivery makes the replica return: a certificate of a quorum, for the view of its
block, which becomes the high certificate. -/
def ReturnsValidQc (r : Replica σ) (d : Nat × Delivery) : Prop :=
  ∀ vote qc, d.2 = .call (.handleVote vote) → (r.handleVote d.1 vote).2 = some qc →
    r.keystore.verifyQc qc r.dynamicQuorumSize = true ∧
      (∃ block, r.blockTree.get? qc.blockHash = some block ∧ qc.view = block.view) ∧
      (r.deliver d).highQc = some qc

/-- The signatures of a returned certificate are by different active validators and for the current
epoch. -/
def ReturnsUnmixedQc (r : Replica σ) (d : Nat × Delivery) : Prop :=
  ∀ vote qc, d.2 = .call (.handleVote vote) → (r.handleVote d.1 vote).2 = some qc →
    qc.epoch = r.configEpoch ∧ ∃ block, r.blockTree.get? qc.blockHash = some block ∧
      SoundFor anyView r qc.blockHash block qc.signatures

/-- Counted votes name the view of their block, and no proposal replaces a block that is voted for
by one of another view. -/
def ViewTrue (r : Replica σ) (d : Nat × Delivery) : Prop :=
  match d.2 with
  | .call (.handleVote vote) =>
      r.VotePasses vote → ∀ block ∈ r.blockTree.get? vote.blockHash, vote.view = block.view
  | .call c =>
      ∀ block ∈ r.inserted (d.1, c), r.votePool.contains block.hash = true →
        ∀ old ∈ r.blockTree.get? block.hash, old.view = block.view
  | .execute _ => True

omit [Bincode LogEntry] [Crc32] [App σ] in
theorem ViewTrue.admitted {r : Replica σ} {d : Nat × Delivery} (h : ViewTrue r d) :
    Admitted ownView r d := by
  obtain ⟨now, delivery⟩ := d
  cases delivery with
  | execute block => trivial
  | call c =>
    cases c with
    | handleVote vote => exact h
    | _ => exact fun block hb hpool old hold view hview => hview.trans (h block hb hpool old hold)

omit [Bincode LogEntry] [Crc32] [App σ] in
theorem admitted_anyView (r : Replica σ) (d : Nat × Delivery) : Admitted anyView r d := by
  obtain ⟨now, delivery⟩ := d
  cases delivery with
  | execute block => trivial
  | call c =>
    cases c with
    | handleVote vote => exact fun _ _ _ => trivial
    | _ => exact fun _ _ _ _ _ _ _ => trivial

/-- In a pool of signatures for the views of their blocks every completed certificate is valid. -/
theorem PoolInvariant.returnsValidQc {r : Replica σ} (h : PoolInvariant ownView r)
    {d : Nat × Delivery} (hd : ViewTrue r d) : ReturnsValidQc r d := by
  intro vote qc hvote hqc
  obtain ⟨hpass, hquorum, rfl, hhigh⟩ := handleVote_some hqc
  obtain ⟨now, delivery⟩ := d
  cases hvote
  obtain ⟨block, hblock, -⟩ := hpass.known
  have hview : vote.view = block.view := hd hpass block hblock
  have hsound := h.votedQc hpass hblock hview
  refine ⟨?_, ⟨block, hblock, hview⟩, hhigh⟩
  refine KeyStore.verifyQc_of_verified (fun sig hsig => ?_) hsound.distinct hquorum
  obtain ⟨view, hown, hverify⟩ := hsound.verified sig hsig
  have hown' : view = vote.view := hown.trans hview.symm
  have hepoch : (r.votedQc vote).epoch = r.configEpoch := hpass.epoch
  rw [hepoch]
  rw [hown'] at hverify
  exact hverify

omit [App σ] in
/-- Whatever the pool holds, a completed certificate does not mix epochs or validator sets. -/
theorem PoolInvariant.returnsUnmixedQc {r : Replica σ} (h : PoolInvariant anyView r)
    (d : Nat × Delivery) : ReturnsUnmixedQc r d := by
  intro vote qc _ hqc
  obtain ⟨hpass, -, rfl, -⟩ := handleVote_some hqc
  obtain ⟨block, hblock, -⟩ := hpass.known
  exact ⟨hpass.epoch, block, hblock, h.votedQc hpass hblock trivial⟩

/-- As long as counted votes name the view of their block and voted blocks keep their view, every
returned certificate is valid and for the view of its block. -/
theorem returnsValidQc_of_viewTrue {r : Replica σ} (hpool : r.votePool = OrdMap.empty)
    {ds : List (Nat × Delivery)} (h : Along deliver ViewTrue r ds) :
    Along deliver ReturnsValidQc r ds := by
  have hinv : PoolInvariant ownView r := poolInvariant_of_empty hpool
  refine (along_congr (I := PoolInvariant ownView)
    (C := fun s d => ViewTrue s d ∧ ReturnsValidQc s d)
    (D := ViewTrue) ?_ (fun s d hs hd => hs.deliver hd.admitted) hinv).mpr h |>.mono
    fun _ _ hboth => hboth.2
  exact fun s d hs => ⟨And.left, fun hd => ⟨hd, hs.returnsValidQc hd⟩⟩

/-- Whatever is delivered to a replica whose pool was empty: every pool entry is for a block of the
tree in the current epoch, its signers are different active validators, and each signature is valid
under the registered key for some view; so no returned certificate mixes epochs or validator
sets. -/
theorem poolInvariant_run {r : Replica σ} (hpool : r.votePool = OrdMap.empty)
    (ds : List (Nat × Delivery)) :
    Throughout deliver (PoolInvariant anyView) r ds ∧ Along deliver ReturnsUnmixedQc r ds := by
  have hinv : PoolInvariant anyView r := poolInvariant_of_empty hpool
  have hstep : ∀ (s : Replica σ) d, PoolInvariant anyView s → Admitted anyView s d →
      PoolInvariant anyView (s.deliver d) := fun s d hs hd => hs.deliver hd
  have hall : Along deliver (Admitted anyView) r ds := along_of_forall admitted_anyView r ds
  refine ⟨throughout_of_step hstep hinv hall, ?_⟩
  refine (along_congr (I := PoolInvariant anyView) (D := Admitted anyView) ?_ hstep hinv).mpr hall
  exact fun s d hs => iff_of_true (hs.returnsUnmixedQc d) (admitted_anyView s d)

end Run

section Samples

open Sample

/-- Leader 0 has its proposal of view 0 and the votes of replicas 1 and 2 for it. -/
def twoVotes : List (Nat × Delivery) :=
  [(1, .call (.propose .propose 0)), (2, .call (.handleVote (vote 1 1 0 0))),
    (3, .call (.handleVote (vote 2 1 0 0)))]

/-- A third vote for the view of the block completes a valid certificate. -/
theorem returnsValidQc_three :
    Along deliver ReturnsValidQc (party 4 0)
      (twoVotes ++ [(4, .call (.handleVote (vote 3 1 0 0)))]) := by
  refine returnsValidQc_of_viewTrue rfl ⟨?_, ?_, ?_, ?_, trivial⟩
  · intro block hb hpool
    cases hpool
  all_goals
    intro _ block hb
    cases hb
    rfl

/-- A third vote for view 9 completes a certificate of view 9 that does not verify and becomes the
high one. -/
theorem stray_view_invalidates :
    (party 4 0).votePool = OrdMap.empty ∧
      ¬ Along deliver ReturnsValidQc (party 4 0)
        (twoVotes ++ [(4, .call (.handleVote (vote 3 1 9 0)))]) := by
  refine ⟨rfl, fun h => ?_⟩
  have hqc : ((run deliver (party 4 0) twoVotes).handleVote 4 (vote 3 1 9 0)).2 =
      some { qc [1, 2] 1 0 0 with
        view := 9, signatures := (qc [1, 2] 1 0 0).signatures ++ [(vote 3 1 9 0).signature] } := by
    decide +kernel
  obtain ⟨hverify, -, -⟩ := (along_append.mp h).2.1 _ _ rfl hqc
  revert hverify
  decide +kernel

/-- Of three validators, leader 0 has two votes for its join command when the command commits; the
joined validator votes for the next block. -/
def joinDeliveries : List (Nat × Delivery) :=
  [(1, .call (.propose (.proposeCommand (.joinValidator 3 (signingKey 3))) 0)),
    (2, .call (.handleVote (vote 0 1 0 0))), (3, .call (.handleVote (vote 1 1 0 0))),
    (4, .execute { block 1 0 0 0 none with command := .joinValidator 3 (signingKey 3) }),
    (5, .call (.propose .propose 4)), (6, .call (.handleVote (vote 3 2 4 1)))]

theorem poolInvariant_joining :
    Throughout deliver (PoolInvariant anyView) (party 3 0) joinDeliveries ∧
      Along deliver ReturnsUnmixedQc (party 3 0) joinDeliveries ∧
      (run deliver (party 3 0) joinDeliveries).votePool.keys = [2] :=
  ⟨(poolInvariant_run rfl joinDeliveries).1, (poolInvariant_run rfl joinDeliveries).2,
    by decide +kernel⟩

end Samples

end Replica

end PersistHotStuff
