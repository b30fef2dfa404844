import PersistHotStuff.Handlers.Tree
import PersistHotStuff.Source.Recovery

/-!
# The high certificate

Certificates from the network are compared with the high one but not verified,
those formed from votes are not compared, and replay compares one kind of
record by view only and the other not at all. So the high certificate may come
from anyone, and it may fall back.
-/

namespace PersistHotStuff

open Basis

/-- Whether a certificate replaces what is known so far. -/
def supersedes (qc : QuorumCert) : Option QuorumCert → Bool
  | some current => Replica.newerQc qc current
  | none => true

/-- The newest of a certificate and a list, the earlier of equals. -/
def newest (high : Option QuorumCert) (qcs : List QuorumCert) : Option QuorumCert :=
  qcs.foldl (fun high qc => if supersedes qc high then some qc else high) high

/-- Certificates from the network, each with the time of its arrival. -/
def arrivals (msgs : List (Nat × QuorumCert)) : List (Nat × Call) :=
  msgs.map fun m => (m.1, .applyHighQcFromNetwork m.2)

/-- A high certificate stays: it is there and no older than it was. -/
def KeepsHighQc (before after : Option QuorumCert) : Prop :=
  ∀ q ∈ before, ∃ q' ∈ after, Replica.newerQc q q' = false

theorem Replica.newerQc_irrefl (q : QuorumCert) : Replica.newerQc q q = false := by
  simp [Replica.newerQc]

theorem keepsHighQc_refl (high : Option QuorumCert) : KeepsHighQc high high :=
  fun q hq => ⟨q, hq, Replica.newerQc_irrefl q⟩

/-- Setting the high certificate keeps it exactly when the new one is not older. -/
theorem keepsHighQc_some {before : Option QuorumCert} {q : QuorumCert} :
    KeepsHighQc before (some q) ↔ ∀ high ∈ before, Replica.newerQc high q = false := by
  simp [KeepsHighQc]

/-- What is newer is not older. -/
theorem Replica.newerQc_asymm {a b : QuorumCert} (h : newerQc a b = true) :
    newerQc b a = false := by
  simp only [newerQc, decide_eq_true_eq, decide_eq_false_iff_not] at h ⊢
  omega

namespace Replica

section Network

variable {σ : Type} [Bincode LogEntry] [Crc32]

/-- A certificate from the network is adopted exactly when it supersedes the high one. -/
theorem applyHighQcFromNetwork_eq (now : Nat) (r : Replica σ) (qc : QuorumCert) :
    r.applyHighQcFromNetwork now qc =
      if supersedes qc r.highQc then
        ({ r with highQc := some qc }.record (.highQcUpdated qc.blockHash qc.view qc.epoch now),
          true)
      else (r, false) := by
  unfold applyHighQcFromNetwork supersedes
  cases r.highQc <;> rfl

variable [Ed25519] [Sha256] [App σ]

/-- After certificates from the network the newest is the high one; apart from the log nothing else
changes. -/
theorem run_arrivals (r : Replica σ) (msgs : List (Nat × QuorumCert)) :
    ∃ wal, run step r (arrivals msgs) =
      { r with highQc := newest r.highQc (msgs.map Prod.snd), wal := wal } := by
  induction msgs generalizing r with
  | nil => exact ⟨r.wal, rfl⟩
  | cons m msgs ih =>
    obtain ⟨wal, hrest⟩ := ih (r.step (m.1, .applyHighQcFromNetwork m.2))
    refine ⟨wal, ?_⟩
    have hone : ∃ wal', r.step (m.1, .applyHighQcFromNetwork m.2) =
        { r with
          highQc := if supersedes m.2 r.highQc then some m.2 else r.highQc
          wal := wal' } := by
      simp only [step, applyHighQcFromNetwork_eq]
      cases supersedes m.2 r.highQc with
      | false => exact ⟨r.wal, rfl⟩
      | true => exact ⟨_, rfl⟩
    obtain ⟨wal', hone⟩ := hone
    rw [arrivals, List.map_cons, run_cons]
    rw [arrivals] at hrest
    rw [hrest, hone]
    rfl

end Network

section Steering

variable {σ : Type} [Ed25519] [Sha256]

/-- The certificate has a quorum of valid signatures and names a block of the tree. -/
def Verified (r : Replica σ) (qc : QuorumCert) : Prop :=
  r.keystore.verifyQc qc r.dynamicQuorumSize = true ∧ r.blockTree.contains qc.blockHash = true

/-- The parent of a block is in the tree, and it is genesis, the latest block, or certified in the
current epoch by the block's certificate. -/
def WellBased (r : Replica σ) (block : Block) : Prop :=
  ∃ parent ∈ block.parent, r.blockTree.contains parent = true ∧
    (parent = genesisBlock.hash ∨ r.latestBlockHash = some parent ∨
      ∃ q ∈ block.qc, q.blockHash = parent ∧ q.epoch = r.configEpoch ∧
        r.keystore.verifyQc q r.dynamicQuorumSize = true)

/-- What a proposal may be based on: a certificate for such a block, or the latest block without
one. -/
def GoodBase (r : Replica σ) : Option QuorumCert → Prop
  | some q =>
      r.blockTree.contains q.blockHash = true ∧
        (q.blockHash = genesisBlock.hash ∨ r.latestBlockHash = some q.blockHash ∨
          q.epoch = r.configEpoch ∧ r.keystore.verifyQc q r.dynamicQuorumSize = true)
  | none => ∃ latest ∈ r.latestBlockHash, r.blockTree.contains latest = true

/-- The next block is well based exactly when the high certificate is a good base. -/
theorem wellBased_nextBlock (r : Replica σ) (view : Nat) (hash : Hash)
    (command : ConsensusCommand) :
    r.WellBased (r.nextBlock view hash command) ↔ r.GoodBase r.highQc := by
  simp only [WellBased, nextBlock, nextParent]
  cases r.highQc with
  | none =>
    constructor
    · rintro ⟨parent, hparent, hknown, -⟩
      exact ⟨parent, hparent, hknown⟩
    · rintro ⟨latest, hlatest, hknown⟩
      exact ⟨latest, hlatest, hknown, Or.inr (Or.inl hlatest)⟩
  | some q =>
    simp only [GoodBase, Option.mem_def, Option.some.injEq, exists_eq_left', true_and]

variable [Bincode LogEntry] [Crc32] [App σ]

/-- Whatever certificates arrive: every one that is adopted has a quorum and names a known block,
and the next proposal is well based, exactly when every one that is newer than all before it has a
quorum and names a known block, and the newest is a good base. -/
theorem arrivals_steer_iff (r : Replica σ) (msgs : List (Nat × QuorumCert)) (now view : Nat)
    (how : ProposeCall) :
    ((∀ before m after, msgs = before ++ m :: after →
          ((run step r (arrivals before)).applyHighQcFromNetwork m.1 m.2).2 = true →
          r.Verified m.2) ∧
        ∀ block, ((run step r (arrivals msgs)).proposeBy now view how).2 = some block →
          (run step r (arrivals msgs)).WellBased block) ↔
      (∀ before m after, msgs = before ++ m :: after →
          supersedes m.2 (newest r.highQc (before.map Prod.snd)) = true → r.Verified m.2) ∧
        (r.proposes now view how = true → r.GoodBase (newest r.highQc (msgs.map Prod.snd))) := by
  refine and_congr ?_ ?_
  · refine forall₄_congr fun before m after _ => ?_
    obtain ⟨wal, hrun⟩ := run_arrivals r before
    rw [hrun, applyHighQcFromNetwork_eq]
    cases supersedes m.2 (newest r.highQc (before.map Prod.snd)) <;> simp
  · obtain ⟨wal, hrun⟩ := run_arrivals r msgs
    rw [hrun, proposeBy_snd]
    have hproposes : ({ r with
          highQc := newest r.highQc (msgs.map Prod.snd), wal := wal } : Replica σ).proposes now view
        how = r.proposes now view how := rfl
    rw [hproposes]
    cases r.proposes now view how with
    | false => simp
    | true =>
      simp only [if_true, Option.some.injEq, forall_eq', true_implies]
      exact wellBased_nextBlock _ view _ _

end Steering

section Regress

variable {σ : Type} [Ed25519] [Sha256]

/-- A vote that completes a certificate completes one that is not older than the high one. -/
def FormsNoOlder (r : Replica σ) : Call → Prop
  | .handleVote vote =>
      r.VotePasses vote → r.dynamicQuorumSize ≤ (r.votedQc vote).signatures.length →
        ∀ high ∈ r.highQc, newerQc high (r.votedQc vote) = false
  | _ => True

variable [Bincode LogEntry] [Crc32] [App σ]

/-- A call keeps the high certificate exactly when it completes no older one. -/
theorem keepsHighQc_step_iff (r : Replica σ) (c : Nat × Call) :
    KeepsHighQc r.highQc (r.step c).highQc ↔ r.FormsNoOlder c.2 := by
  obtain ⟨now, call⟩ := c
  rw [step_highQc]
  cases call with
  | handleVote vote =>
    simp only [FormsNoOlder]
    rcases r.handleVote_cases now vote with h | ⟨hpass, ⟨hfew, h⟩ | ⟨hmany, h⟩⟩
    · rw [h]
      refine iff_of_true (keepsHighQc_refl _) fun hpass hmany => ?_
      rw [handleVote_of_passes hpass, if_pos hmany] at h
      cases congrArg Prod.snd h
    · rw [h]
      exact iff_of_true (keepsHighQc_refl _) fun _ hmany => absurd hmany (not_le.mpr hfew)
    · rw [h]
      simp only [Option.some_or, keepsHighQc_some]
      exact ⟨fun h _ _ => h, fun h => h hpass hmany⟩
  | applyHighQcFromNetwork qc =>
    refine iff_of_true ?_ trivial
    simp only [applyHighQcFromNetwork_eq]
    cases hs : supersedes qc r.highQc with
    | false => exact keepsHighQc_refl _
    | true =>
      simp only [if_true, keepsHighQc_some]
      intro high hhigh
      rw [Option.mem_def.mp hhigh] at hs
      exact newerQc_asymm hs
  | _ => exact iff_of_true (keepsHighQc_refl _) trivial

end Regress

end Replica

/-- A record that sets the high certificate sets one that is not older. -/
def WritesNoOlder (st : Recovered) : LogEntry → Prop
  | .qcFormed _ view epoch _ _ => ∀ high ∈ st.highQc, high.view < view → high.epoch ≤ epoch
  | .highQcUpdated blockHash view epoch _ =>
      ∀ high ∈ st.highQc, Replica.newerQc high { blockHash, view, epoch, signatures := [] } = false
  | _ => True

/-- Replay of a record keeps the high certificate exactly when it writes no older one. -/
theorem keepsHighQc_replay_iff {entry : LogEntry} {st st' : Recovered}
    (h : replayEntry entry st = .ok st') :
    KeepsHighQc st.highQc st'.highQc ↔ WritesNoOlder st entry := by
  cases entry with
  | qcFormed blockHash view epoch signerCount timestamp =>
    cases h
    simp only [WritesNoOlder]
    cases hq : st.highQc with
    | none => exact iff_of_true (fun q hq => by cases hq) fun high hh => by cases hh
    | some high =>
      simp only [Option.mem_def, Option.some.injEq, forall_eq']
      by_cases hlt : high.view < view
      · simp only [hlt, decide_true, if_true, keepsHighQc_some, Option.mem_def, Option.some.injEq,
          forall_eq', true_implies, Replica.newerQc, decide_eq_false_iff_not]
        omega
      · simp only [hlt, decide_false, Bool.false_eq_true, if_false, false_implies, iff_true]
        exact keepsHighQc_refl _
  | highQcUpdated blockHash view epoch timestamp =>
    cases h
    exact keepsHighQc_some
  | blockCommitted hash parent view epoch proposer command commitIndex timestamp =>
    simp only [replayEntry] at h
    split at h
    · cases h
    · cases h
      exact iff_of_true (keepsHighQc_refl _) trivial
  | _ =>
    cases h
    exact iff_of_true (keepsHighQc_refl _) trivial

/-- The high certificate is kept by a call exactly when no vote completes an older one, and by the
replay of a record exactly when it writes no older one. -/
theorem keepsHighQc_iff {σ : Type} [Ed25519] [Sha256] [Bincode LogEntry] [Crc32] [App σ] :
    (∀ (r : Replica σ) (c : Nat × Call),
        KeepsHighQc r.highQc (r.step c).highQc ↔ r.FormsNoOlder c.2) ∧
      ∀ entry st st', replayEntry entry st = .ok st' →
        (KeepsHighQc st.highQc st'.highQc ↔ WritesNoOlder st entry) :=
  ⟨Replica.keepsHighQc_step_iff, fun _ _ _ => keepsHighQc_replay_iff⟩

section Samples

open Sample Replica

/-- A certificate anyone can make, for a block no one has. -/
def forgedQc : QuorumCert := qc [] 99 0 0

/-- The next leader adopts a forged certificate and extends a block it does not have. -/
theorem forged_qc_steers :
    (party 4 1).highQc = none ∧
      ¬ ∀ block, ((run step (party 4 1) (arrivals [(1, forgedQc)])).proposeBy 2 1 .propose).2 =
          some block →
        (run step (party 4 1) (arrivals [(1, forgedQc)])).WellBased block := by
  refine ⟨rfl, fun h => ?_⟩
  have hparent : ((run step (party 4 1) (arrivals [(1, forgedQc)])).proposeBy 2 1 .propose).2.map
      Block.parent = some (some 99) := by decide +kernel
  obtain ⟨block, hblock, hbp⟩ := Option.map_eq_some_iff.mp hparent
  obtain ⟨parent, hp, hknown, -⟩ := h block hblock
  rw [hbp] at hp
  cases hp
  have hunknown :
      (run step (party 4 1) (arrivals [(1, forgedQc)])).blockTree.contains 99 = false := by
    decide +kernel
  rw [hunknown] at hknown
  cases hknown

/-- Leader 0 has the votes of replicas 1 and 2 for block 1 when it learns of a certificate of
view 5. -/
def lateVotes : List (Nat × Call) :=
  [(1, .propose .propose 0), (2, .handleVote (vote 1 1 0 0)), (3, .handleVote (vote 2 1 0 0)),
    (4, .applyHighQcFromNetwork (qc [1, 2, 3] 1 5 0))]

/-- The vote of replica 3 then completes a certificate of view 0. -/
theorem late_vote_regresses :
    ¬ KeepsHighQc (run step (party 4 0) lateVotes).highQc
      ((run step (party 4 0) lateVotes).step (5, .handleVote (vote 3 1 0 0))).highQc := by
  intro h
  have hbefore : (run step (party 4 0) lateVotes).highQc = some (qc [1, 2, 3] 1 5 0) := by
    decide +kernel
  have hafter : ((run step (party 4 0) lateVotes).step (5, .handleVote (vote 3 1 0 0))).highQc =
      some (qc [1, 2, 3] 1 0 0) := by decide +kernel
  rw [hbefore, hafter, keepsHighQc_some] at h
  exact absurd (h _ rfl) (by decide)

/-- Replay of a certificate of a later view keeps the high one. -/
theorem keepsHighQc_later :
    KeepsHighQc (some (qc [] 1 0 0)) (some (qc [] 2 1 0)) := by
  have hreplay : replayEntry (.qcFormed 2 1 0 3 7)
      ⟨genesisTree, [], none, some (qc [] 1 0 0), 0, 1, 0⟩ =
      .ok ⟨genesisTree, [], none, some (qc [] 2 1 0), 0, 1, 0⟩ := rfl
  refine ((keepsHighQc_iff (σ := NoOpApp)).2 _ _ _ hreplay).mpr ?_
  intro high hhigh _
  cases hhigh
  exact le_rfl

end Samples

end PersistHotStuff
