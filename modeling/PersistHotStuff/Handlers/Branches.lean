import PersistHotStuff.Handlers.CommitScan
import PersistHotStuff.Handlers.HighQc

/-!
# Commands on a branch

A command is carried by a replica while a block with it is on the branch of the
high certificate. A replica whose tree and log only grow keeps its branches, and
a new block continues the branch of its parent.
-/

namespace PersistHotStuff

open Basis

namespace Replica

section Branches

variable {σ : Type}

/-- A block with the command is on the branch of a hash: the block named by it or an ancestor. -/
def OnBranch (r : Replica σ) (tip : Hash) (cmd : ConsensusCommand) : Prop :=
  ∃ hash, Relation.ReflTransGen (Link (parentLinks r.blockTree)) tip hash ∧
    ∃ block, r.blockTree.get? hash = some block ∧ block.command = cmd

/-- The command is on the branch of the high certificate. -/
def Carries (r : Replica σ) (cmd : ConsensusCommand) : Prop :=
  ∃ qc ∈ r.highQc, r.OnBranch qc.blockHash cmd

/-- Whether a certificate for the block would not replace the high one. -/
def keepsAgainst (r : Replica σ) (block : Block) : Bool :=
  !supersedes { blockHash := block.hash, view := block.view, epoch := block.epoch,
                signatures := [] } r.highQc

/-- A replica loses no block, neither from its tree nor from its log. -/
structure Grows (r r' : Replica σ) : Prop where
  tree : ∀ hash block, r.blockTree.get? hash = some block → r'.blockTree.get? hash = some block
  log : r.committedLog ⊆ r'.committedLog

/-- A replica loses no command. -/
structure Retains (r r' : Replica σ) : Prop extends Grows r r' where
  queue : r.clientQueue ⊆ r'.clientQueue
  highQc : r'.highQc = r.highQc

variable {r r' r'' : Replica σ} {tip : Hash} {cmd : ConsensusCommand}

theorem Grows.trans (h : Grows r r') (h' : Grows r' r'') : Grows r r'' :=
  ⟨fun hash block hb => h'.tree hash block (h.tree hash block hb),
    List.Subset.trans h.log h'.log⟩

theorem Retains.refl (r : Replica σ) : Retains r r :=
  ⟨⟨fun _ _ => id, List.Subset.refl _⟩, List.Subset.refl _, rfl⟩

/-- Branches stay when the tree grows. -/
theorem OnBranch.grow (h : r.OnBranch tip cmd) (hgrows : Grows r r') : r'.OnBranch tip cmd := by
  obtain ⟨hash, hclimb, block, hblock, hcmd⟩ := h
  refine ⟨hash, Relation.ReflTransGen.mono (fun k p hlink => ?_) _ _ hclimb, block,
    hgrows.tree hash block hblock, hcmd⟩
  rw [Link, parentLinks, Option.map_eq_some_iff] at hlink ⊢
  obtain ⟨b, hb, hparent⟩ := hlink
  exact ⟨b, hgrows.tree k b hb, hparent⟩

/-- The branch of a block starts with its own command. -/
theorem onBranch_self {block : Block} (hblock : r.blockTree.get? tip = some block) :
    r.OnBranch tip block.command :=
  ⟨tip, .refl, block, hblock, rfl⟩

/-- The branch of a block continues that of its parent. -/
theorem OnBranch.child {parent : Hash} (h : r.OnBranch parent cmd) {block : Block}
    (hblock : r.blockTree.get? tip = some block) (hparent : block.parent = some parent) :
    r.OnBranch tip cmd := by
  obtain ⟨hash, hclimb, hfound⟩ := h
  refine ⟨hash, .head ?_ hclimb, hfound⟩
  rw [Link, parentLinks, hblock, Option.map_some, hparent]

theorem Carries.retain (h : r.Carries cmd) (hkeeps : Retains r r') : r'.Carries cmd := by
  obtain ⟨qc, hqc, hbranch⟩ := h
  exact ⟨qc, hkeeps.highQc ▸ hqc, hbranch.grow hkeeps.toGrows⟩

/-- What the high certificate of a leader carries is on the branch of its next block's parent. -/
theorem Carries.nextParent (h : r.Carries cmd) :
    ∃ parent ∈ r.nextParent, r.OnBranch parent cmd := by
  obtain ⟨qc, hqc, hbranch⟩ := h
  refine ⟨qc.blockHash, ?_, hbranch⟩
  rw [Replica.nextParent, Option.mem_def.mp hqc]
  rfl

/-- A fresh block takes the place of no other. -/
theorem grows_insert {block : Block} (hnew : r.blockTree.contains block.hash = false)
    (htree : r'.blockTree = r.blockTree.insert block.hash block)
    (hlog : r'.committedLog = r.committedLog) : Grows r r' := by
  refine ⟨fun hash b hb => ?_, hlog ▸ List.Subset.refl _⟩
  rw [htree, OrdMap.get?_insert, if_neg ?_]
  · exact hb
  · rintro rfl
    rw [OrdMap.contains_iff.mpr ⟨b, hb⟩] at hnew
    cases hnew

/-- A certificate replaces the high one or not, whoever has signed it. -/
theorem keepsAgainst_eq {block : Block} {qc : QuorumCert}
    (hqc : qc.pointer = (block.hash, block.view, block.epoch)) :
    r.keepsAgainst block = !supersedes qc r.highQc := by
  obtain ⟨hash, view, epoch, signatures⟩ := qc
  cases hqc
  rw [keepsAgainst]
  cases r.highQc <;> rfl

end Branches

section Calls

variable {σ : Type} [Ed25519] [Sha256] [Bincode LogEntry] [Crc32] [App σ]

/-- Only proposals and new commands change the queue. -/
theorem step_clientQueue (r : Replica σ) {c : Nat × Call}
    (hpropose : ∀ how view, c.2 ≠ .propose how view)
    (henqueue : ∀ cmd, c.2 ≠ .enqueueCommand cmd) :
    (r.step c).clientQueue = r.clientQueue := by
  obtain ⟨now, call⟩ := c
  cases call with
  | propose how view => exact absurd rfl (hpropose how view)
  | enqueueCommand cmd => exact absurd rfl (henqueue cmd)
  | validateAndInsertProposal block =>
    simp only [step]
    rcases r.validateAndInsertProposal_cases now block with ⟨-, h⟩ | ⟨-, h⟩
    · rw [h]
    · rw [h]
      rfl
  | handleVote vote =>
    simp only [step]
    rcases r.handleVote_cases now vote with h | ⟨-, ⟨-, h⟩ | ⟨-, h⟩⟩
    · rw [h]
    · rw [h]
      rfl
    · rw [h]
      rfl
  | applyHighQcFromNetwork qc =>
    simp only [step]
    rcases r.applyHighQcFromNetwork_cases now qc with h | ⟨-, h⟩
    · rw [h]
    · rw [h]
      rfl
  | commitAll =>
    refine commitAll_field now r clientQueue fun s block => ?_
    rw [executeAndCommit_eq]
    rfl
  | _ => rfl

omit [Sha256] in
/-- A commit scan drops nothing from the log. -/
theorem commitAll_log (now : Nat) (r : Replica σ) :
    r.committedLog ⊆ (r.commitAll now).committedLog := by
  refine commitAll_preserves (I := fun s : Replica σ => r.committedLog ⊆ s.committedLog) now r
    (fun s block hs => ?_) (List.Subset.refl _)
  rw [executeAndCommit_committedLog]
  exact List.subset_append_of_subset_left _ hs

end Calls

end Replica

end PersistHotStuff
