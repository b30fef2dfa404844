import PersistHotStuff.Basis.Quorum
import PersistHotStuff.Basis.Run
import PersistHotStuff.Handlers.CommitScan
import PersistHotStuff.Source.Sample

/-!
# Reconfiguration

What a run of executed blocks makes of the validator set. A change is admitted
only when the new size is one more than a multiple of three, and it moves the
size by one; the new size is therefore final, and a run contains at most one
command that takes effect.
-/

namespace PersistHotStuff

open Basis

namespace Membership

variable [Ed25519]

/-- The counts that go with an effective command are those of the set it leads to. -/
theorem counts_apply {m : Membership} {command : ConsensusCommand}
    (h : m.effective command = true) :
    (m.apply command).n = (m.apply command).activeValidators.length ∧
      (m.apply command).f = faults (m.apply command).activeValidators.length := by
  simp only [apply, h, if_true]
  cases command with
  | noOp => cases h
  | clientTx payload => cases h
  | joinValidator replicaId publicKey => exact ⟨rfl, rfl⟩
  | removeValidator replicaId => exact ⟨rfl, rfl⟩

/-- Why a command does not take effect: the replica already is, or is not, a validator, the
resulting size is not allowed, the bytes are no key, or the command is not about membership. -/
def Declined (m : Membership) : ConsensusCommand → Prop
  | .joinValidator replicaId publicKey =>
      m.activeValidators.contains replicaId = true ∨
        Replica.canApplyNewValidatorCount (m.activeValidators.length + 1) = false ∨
        publicKey.length ≠ 32 ∨ Ed25519.isKey publicKey = false
  | .removeValidator replicaId =>
      m.activeValidators.contains replicaId = false ∨
        Replica.canApplyNewValidatorCount (m.activeValidators.length - 1) = false
  | _ => True

/-- A command has no effect exactly for one of these reasons. -/
theorem not_effective_iff (m : Membership) (command : ConsensusCommand) :
    m.effective command = false ↔ m.Declined command := by
  cases command with
  | noOp => simp [effective, Declined]
  | clientTx payload => simp [effective, Declined]
  | joinValidator replicaId publicKey =>
    simp only [effective, Declined, Bool.and_eq_false_iff, Bool.not_eq_false',
      decide_eq_false_iff_not, or_assoc, ne_eq]
  | removeValidator replicaId =>
    simp only [effective, Declined, Bool.and_eq_false_iff]

end Membership

namespace Replica

variable {σ : Type}

/-- The active validators as a set. -/
def voters (r : Replica σ) : Finset ReplicaId := r.activeValidators.keys.toFinset

theorem card_voters (r : Replica σ) : r.voters.card = r.activeValidators.length := by
  rw [voters, List.toFinset_card_of_nodup, OrdMap.length_keys]
  exact r.activeValidators.keys_pairwise.imp fun hlt => hlt.ne

theorem dynamicF_eq (r : Replica σ) : r.dynamicF = (r.voters.card - 1) / 3 := by
  rw [dynamicF, dynamicN, card_voters]
  split
  · next h => rw [h]
  · rfl

theorem mem_voters {r : Replica σ} {id : ReplicaId} :
    id ∈ r.voters ↔ r.activeValidators.contains id = true := by
  rw [voters, List.mem_toFinset, OrdMap.mem_keys]

/-- A validator set of a valid size, whose quorums share a correct validator. -/
structure ValidSet (r : Replica σ) : Prop where
  size : r.activeValidators.length = 3 * r.dynamicF + 1
  least : 4 ≤ r.activeValidators.length
  quorums : ∀ A B : Finset ReplicaId, A ⊆ r.voters → B ⊆ r.voters →
    r.dynamicQuorumSize ≤ A.card → r.dynamicQuorumSize ≤ B.card → r.dynamicF + 1 ≤ (A ∩ B).card

/-- A set that is one more than a multiple of three large is valid. -/
theorem validSet_of_mod {r : Replica σ} (hleast : 4 ≤ r.activeValidators.length)
    (hmod : r.activeValidators.length % 3 = 1) : ValidSet r := by
  have hf := r.dynamicF_eq
  rw [card_voters] at hf
  have hsize : r.activeValidators.length = 3 * r.dynamicF + 1 := by omega
  refine ⟨hsize, hleast, fun A B hA hB ha hb => ?_⟩
  have hshared := card_add_card_le hA hB
  rw [card_voters, hsize] at hshared
  rw [dynamicQuorumSize] at ha hb
  omega

variable [Ed25519] [Bincode LogEntry] [Crc32] [App σ]

/-- Execute one block after another, each at its own time. -/
def executeAll (r : Replica σ) (blocks : List (Nat × Block)) : Replica σ :=
  run (fun s b => s.executeAndCommit b.1 b.2) r blocks

/-- Whether executing a block changes the validator set. -/
def takesEffect (r : Replica σ) (b : Nat × Block) : Bool :=
  decide ((r.executeAndCommit b.1 b.2).activeValidators ≠ r.activeValidators)

/-- The commands of a run that take effect. -/
def effects (r : Replica σ) (blocks : List (Nat × Block)) : List ConsensusCommand :=
  outputs (fun s b => s.executeAndCommit b.1 b.2)
    (fun s b => if s.takesEffect b then [b.2.command] else []) r blocks

/-- A command changes the validator set exactly when it is effective. -/
theorem takesEffect_eq (r : Replica σ) (b : Nat × Block) :
    r.takesEffect b = r.membership.effective b.2.command := by
  have hset : (r.executeAndCommit b.1 b.2).activeValidators =
      (r.membership.apply b.2.command).activeValidators :=
    congrArg Membership.activeValidators (executeAndCommit_membership b.1 r b.2)
  rw [takesEffect, hset]
  cases heff : r.membership.effective b.2.command with
  | false => rw [Membership.apply_of_not_effective heff]; simp [membership]
  | true =>
    obtain ⟨hold, -, hnew⟩ := Membership.length_apply heff
    rw [decide_eq_true_eq]
    intro heq
    rw [heq] at hnew
    exact hold hnew

/-- A run of blocks folds their commands over the membership. -/
theorem membership_executeAll (r : Replica σ) (blocks : List (Nat × Block)) :
    (r.executeAll blocks).membership = r.membership.fold (blocks.map fun b => b.2.command) := by
  induction blocks generalizing r with
  | nil => rfl
  | cons b blocks ih =>
    rw [executeAll, run_cons, ← executeAll, ih, executeAndCommit_membership]
    rfl

theorem effects_cons (r : Replica σ) (b : Nat × Block) (blocks : List (Nat × Block)) :
    r.effects (b :: blocks) =
      (if r.membership.effective b.2.command then [b.2.command] else []) ++
        (r.executeAndCommit b.1 b.2).effects blocks := by
  rw [← takesEffect_eq]
  rfl

/-- From a valid size nothing takes effect any more. -/
theorem executeAll_of_mod {r : Replica σ} (h : r.activeValidators.length % 3 = 1)
    (blocks : List (Nat × Block)) :
    r.effects blocks = [] ∧ (r.executeAll blocks).membership = r.membership := by
  induction blocks generalizing r with
  | nil => exact ⟨rfl, rfl⟩
  | cons b blocks ih =>
    have heff : r.membership.effective b.2.command = false :=
      Membership.not_effective_of_mod (m := r.membership) h _
    have hm : (r.executeAndCommit b.1 b.2).membership = r.membership := by
      rw [executeAndCommit_membership, Membership.apply_of_not_effective heff]
    have hlen : (r.executeAndCommit b.1 b.2).activeValidators.length % 3 = 1 := by
      rw [show (r.executeAndCommit b.1 b.2).activeValidators = r.activeValidators from
        congrArg Membership.activeValidators hm]
      exact h
    obtain ⟨hnone, hrest⟩ := ih hlen
    refine ⟨?_, hrest.trans hm⟩
    rw [effects_cons, heff, hnone]
    rfl

/-- In a run nothing takes effect, or one command does. -/
theorem executeAll_cases (r : Replica σ) (blocks : List (Nat × Block)) :
    (r.effects blocks = [] ∧ (r.executeAll blocks).membership = r.membership) ∨
      ∃ command, r.effects blocks = [command] ∧ r.membership.effective command = true ∧
        (r.executeAll blocks).membership = r.membership.apply command := by
  induction blocks generalizing r with
  | nil => exact .inl ⟨rfl, rfl⟩
  | cons b blocks ih =>
    have hstep := executeAndCommit_membership b.1 r b.2
    cases heff : r.membership.effective b.2.command with
    | false =>
      rw [Membership.apply_of_not_effective heff] at hstep
      have hrun : r.executeAll (b :: blocks) = (r.executeAndCommit b.1 b.2).executeAll blocks := rfl
      rw [effects_cons, heff, hrun, ← hstep]
      exact ih _
    | true =>
      -- the first command that takes effect leads to a valid size
      obtain ⟨-, -, hmod⟩ := Membership.length_apply heff
      rw [← hstep] at hmod
      obtain ⟨hnone, hrest⟩ := executeAll_of_mod hmod blocks
      refine .inr ⟨b.2.command, ?_, heff, hrest.trans hstep⟩
      rw [effects_cons, heff, hnone]
      rfl

/-- What a block without effect on the membership leaves alone. -/
structure SameMembership (r s : Replica σ) : Prop where
  activeValidators : s.activeValidators = r.activeValidators
  configEpoch : s.configEpoch = r.configEpoch
  config : s.config = r.config
  keystore : s.keystore = r.keystore
  votePool : s.votePool = r.votePool

/-- A block whose command is declined changes nothing of the membership. -/
theorem sameMembership_of_not_effective {r : Replica σ} {b : Nat × Block}
    (h : r.membership.effective b.2.command = false) :
    SameMembership r (r.executeAndCommit b.1 b.2) := by
  have heq := executeAndCommit_eq b.1 r b.2
  rw [Membership.apply_of_not_effective h, h] at heq
  constructor <;> rw [heq] <;> rfl

/-- After any run of executed blocks the counts are those of the validator set and the epoch has
counted the commands that took effect; if one did, the set is valid; and a command takes no effect
for one of four reasons, and then changes nothing. -/
theorem reconfigurations_valid (r : Replica σ) (hn : r.config.n = r.activeValidators.length)
    (hf : r.config.f = r.dynamicF) (he : r.configEpoch < u64Max) (blocks : List (Nat × Block)) :
    (r.effects blocks ≠ [] → ValidSet (r.executeAll blocks)) ∧
      (r.executeAll blocks).config.n = (r.executeAll blocks).activeValidators.length ∧
      (r.executeAll blocks).config.f = (r.executeAll blocks).dynamicF ∧
      (r.executeAll blocks).configEpoch = r.configEpoch + (r.effects blocks).length ∧
      ∀ (s : Replica σ) (b : Nat × Block),
        (s.takesEffect b = false ↔ s.membership.Declined b.2.command) ∧
        (s.takesEffect b = false → SameMembership s (s.executeAndCommit b.1 b.2)) := by
  have hdeclined : ∀ (s : Replica σ) (b : Nat × Block),
      (s.takesEffect b = false ↔ s.membership.Declined b.2.command) ∧
      (s.takesEffect b = false → SameMembership s (s.executeAndCommit b.1 b.2)) := by
    intro s b
    rw [takesEffect_eq]
    exact ⟨Membership.not_effective_iff .., sameMembership_of_not_effective⟩
  rcases executeAll_cases r blocks with ⟨hnone, hm⟩ | ⟨command, hone, heff, hm⟩
  · have hset : (r.executeAll blocks).activeValidators = r.activeValidators :=
      congrArg Membership.activeValidators hm
    refine ⟨fun h => absurd hnone h, ?_, ?_, ?_, hdeclined⟩
    · exact ((congrArg Membership.n hm).trans hn).trans (by rw [hset])
    · exact ((congrArg Membership.f hm).trans hf).trans
        (by rw [dynamicF, dynamicF, dynamicN, dynamicN, hset])
    · rw [hnone]
      exact congrArg Membership.configEpoch hm
  · obtain ⟨-, hleast, hmod⟩ := Membership.length_apply heff
    obtain ⟨hcount, hfaults⟩ := Membership.counts_apply heff
    have hepoch := Membership.apply_configEpoch heff
    rw [← hm] at hleast hmod hcount hfaults hepoch
    refine ⟨fun _ => validSet_of_mod hleast hmod, hcount, hfaults, ?_, hdeclined⟩
    rw [hone]
    refine hepoch.trans ?_
    exact Nat.min_eq_left he

/-- An effective command adds one voter or takes one away. -/
theorem voters_of_effective {r : Replica σ} {b : Nat × Block}
    (h : r.membership.effective b.2.command = true) :
    (∃ id, id ∉ r.voters ∧ (r.executeAndCommit b.1 b.2).voters = insert id r.voters) ∨
      ∃ id, id ∈ r.voters ∧ (r.executeAndCommit b.1 b.2).voters = r.voters.erase id := by
  have hset : (r.executeAndCommit b.1 b.2).activeValidators =
      (r.membership.change b.2.command).activeValidators := by
    have hm := executeAndCommit_membership b.1 r b.2
    rw [Membership.apply, if_pos h] at hm
    exact congrArg Membership.activeValidators hm
  cases hc : b.2.command with
  | noOp => rw [hc] at h; cases h
  | clientTx payload => rw [hc] at h; cases h
  | joinValidator replicaId publicKey =>
    rw [hc, Membership.effective, Bool.and_eq_true, Bool.and_eq_true, Bool.and_eq_true,
      Bool.not_eq_true'] at h
    refine .inl ⟨replicaId, ?_, ?_⟩
    · rw [mem_voters, show r.activeValidators.contains replicaId = false from h.1.1.1]
      exact Bool.false_ne_true
    · ext id
      rw [Finset.mem_insert, mem_voters, mem_voters, hset, hc]
      simp [Membership.change, Membership.advance, membership]
  | removeValidator replicaId =>
    rw [hc, Membership.effective, Bool.and_eq_true] at h
    refine .inr ⟨replicaId, mem_voters.mpr h.1, ?_⟩
    ext id
    rw [Finset.mem_erase, mem_voters, mem_voters, hset, hc]
    by_cases hid : id = replicaId <;>
      simp [Membership.change, Membership.advance, OrdMap.contains, OrdMap.get?_erase, membership,
        hid]

/-- Every command that takes effect leaves room for a quorum before it and a quorum after it that
share no more validators than may be faulty. -/
theorem exists_quorums_of_takesEffect (r : Replica σ) (b : Nat × Block)
    (h : r.takesEffect b = true) :
    ∃ A B : Finset ReplicaId, A ⊆ r.voters ∧ A.card = r.dynamicQuorumSize ∧
      B ⊆ (r.executeAndCommit b.1 b.2).voters ∧
      B.card = (r.executeAndCommit b.1 b.2).dynamicQuorumSize ∧
      ¬ (r.executeAndCommit b.1 b.2).dynamicF < (A ∩ B).card := by
  rw [takesEffect_eq] at h
  obtain ⟨-, hleast, hmod⟩ := Membership.length_apply h
  rw [← executeAndCommit_membership b.1 r b.2] at hleast hmod
  have hvoters := voters_of_effective h
  generalize r.executeAndCommit b.1 b.2 = s at hvoters hleast hmod ⊢
  have hcard : s.voters.card = s.membership.activeValidators.length := s.card_voters
  have hfr := r.dynamicF_eq
  have hfs := s.dynamicF_eq
  have hchosen : ∀ A ⊆ r.voters, ∀ B ⊆ s.voters, A.card = r.dynamicQuorumSize →
      B.card = s.dynamicQuorumSize → (A ∩ B).card ≤ s.dynamicF →
      ∃ A B : Finset ReplicaId, A ⊆ r.voters ∧ A.card = r.dynamicQuorumSize ∧ B ⊆ s.voters ∧
        B.card = s.dynamicQuorumSize ∧ ¬ s.dynamicF < (A ∩ B).card :=
    fun A hA B hB ha hb hle => ⟨A, B, hA, ha, hB, hb, hle.not_gt⟩
  simp only [dynamicQuorumSize] at hchosen ⊢
  rcases hvoters with ⟨id, hid, hs⟩ | ⟨id, hid, hs⟩
  · -- `3f` validators and their quorums of `2f - 1` become `3f + 1` with quorums of `2f + 1`
    have hsub : r.voters ⊆ s.voters := hs ▸ Finset.subset_insert id r.voters
    have hsucc : s.voters.card = r.voters.card + 1 := by rw [hs, Finset.card_insert_of_notMem hid]
    obtain ⟨A, hA, B, hB, ha, hb, hshared⟩ :=
      exists_card_inter r.voters s.voters (a := 2 * r.dynamicF + 1) (b := 2 * s.dynamicF + 1)
        (by rw [Finset.sdiff_eq_empty_iff_subset.mpr hsub, Finset.card_empty]; omega)
        (by omega) (by omega) (by rw [Finset.union_eq_right.mpr hsub]; omega)
    rw [Finset.union_eq_right.mpr hsub] at hshared
    exact hchosen A hA B hB ha hb (by omega)
  · -- `3f + 2` validators become `3f + 1`, with quorums of `2f + 1` in both
    have hsub : s.voters ⊆ r.voters := hs ▸ Finset.erase_subset id r.voters
    have hpred : s.voters.card = r.voters.card - 1 := by rw [hs, Finset.card_erase_of_mem hid]
    obtain ⟨A, hA, B, hB, ha, hb, hshared⟩ :=
      exists_card_inter r.voters s.voters (a := 2 * r.dynamicF + 1) (b := 2 * s.dynamicF + 1)
        (by rw [hs, Finset.sdiff_erase_self hid, Finset.card_singleton]; omega)
        (by omega) (by omega) (by rw [Finset.union_eq_left.mpr hsub]; omega)
    rw [Finset.union_eq_left.mpr hsub] at hshared
    exact hchosen A hA B hB ha hb (by omega)

/-- A replica with `3f + 1` validators executes no blocks that bring it to the next valid size. -/
theorem no_next_valid_size (r : Replica σ) (f : Nat)
    (hsize : r.activeValidators.length = 3 * f + 1) :
    ¬ ∃ blocks, (r.executeAll blocks).activeValidators.length = 3 * (f + 1) + 1 := by
  rintro ⟨blocks, hnext⟩
  have hmod : r.activeValidators.length % 3 = 1 := by omega
  have hset : (r.executeAll blocks).activeValidators = r.activeValidators :=
    congrArg Membership.activeValidators (executeAll_of_mod hmod blocks).2
  rw [hset, hsize] at hnext
  omega

end Replica

section Samples

open Sample

/-- A block that asks for a fourth validator. -/
def joinFourth : Nat × Block :=
  (1, { block 1 0 1 1 none with command := .joinValidator 3 (signingKey 3) })

/-- A block that asks for the fifth validator to leave. -/
def removeFifth : Nat × Block :=
  (1, { block 1 0 1 1 none with command := .removeValidator 4 })

/-- Three validators become four, after which a fifth is declined. -/
theorem reconfigurations_valid_three :
    (party 3 0).effects [joinFourth, removeFifth] = [joinFourth.2.command] ∧
      Replica.ValidSet ((party 3 0).executeAll [joinFourth, removeFifth]) := by
  have hone : (party 3 0).effects [joinFourth, removeFifth] = [joinFourth.2.command] := by decide
  refine ⟨hone, (Replica.reconfigurations_valid (party 3 0) rfl rfl (by decide) _).1 ?_⟩
  rw [hone]
  exact List.cons_ne_nil _ _

/-- A fifth validator leaves. -/
theorem exists_quorums_removeFifth :
    ∃ A B : Finset ReplicaId, A ⊆ (party 5 0).voters ∧ A.card = (party 5 0).dynamicQuorumSize ∧
      B ⊆ ((party 5 0).executeAndCommit 1 removeFifth.2).voters ∧
      B.card = ((party 5 0).executeAndCommit 1 removeFifth.2).dynamicQuorumSize ∧
      ¬ ((party 5 0).executeAndCommit 1 removeFifth.2).dynamicF < (A ∩ B).card :=
  Replica.exists_quorums_of_takesEffect (party 5 0) removeFifth (by decide)

/-- When a fourth validator joins, one old validator is a quorum before the change and the three
others are one after it. -/
theorem disjoint_quorums_joinFourth :
    (party 3 0).takesEffect joinFourth = true ∧
      ({0} : Finset ReplicaId) ⊆ (party 3 0).voters ∧
      ({0} : Finset ReplicaId).card = (party 3 0).dynamicQuorumSize ∧
      ({1, 2, 3} : Finset ReplicaId) ⊆ ((party 3 0).executeAndCommit 1 joinFourth.2).voters ∧
      ({1, 2, 3} : Finset ReplicaId).card =
        ((party 3 0).executeAndCommit 1 joinFourth.2).dynamicQuorumSize ∧
      ¬ ((party 3 0).executeAndCommit 1 joinFourth.2).dynamicF <
        (({0} : Finset ReplicaId) ∩ {1, 2, 3}).card := by
  decide

/-- Seven validators stay seven. -/
theorem no_next_valid_size_seven :
    ¬ ∃ blocks, ((party 7 0).executeAll blocks).activeValidators.length = 3 * (2 + 1) + 1 :=
  Replica.no_next_valid_size (party 7 0) 2 (by decide)

/-- Four validators never become seven, although three more replicas have keys. -/
theorem four_validators_stay_four :
    (party 4 0).activeValidators.length = 4 ∧
      (∀ id ∈ [4, 5, 6], (party 4 0).activeValidators.contains id = false ∧
        (signingKey id).length = 32 ∧ Ed25519.isKey (signingKey id) = true) ∧
      ¬ ∃ blocks, ((party 4 0).executeAll blocks).activeValidators.length = 7 := by
  refine ⟨by decide, by decide, ?_⟩
  rintro ⟨blocks, hseven⟩
  have hset : ((party 4 0).executeAll blocks).activeValidators = (party 4 0).activeValidators :=
    congrArg Membership.activeValidators
      (Replica.executeAll_of_mod (r := party 4 0) (by decide) blocks).2
  rw [hset] at hseven
  revert hseven
  decide

end Samples

end PersistHotStuff
