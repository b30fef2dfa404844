import PersistHotStuff.Basis.Run
import PersistHotStuff.Handlers.Spec

/-!
# Calls on a replica

The handlers of one replica as the inputs of a state machine. Every call carries
the time its handler reads.
-/

namespace PersistHotStuff

open Basis

/-- The tree a replica starts with. -/
def genesisTree : OrdMap Hash Block := OrdMap.empty.insert 0 genesisBlock

/-- A tree with genesis alone is keyed. -/
theorem treeKeyed_genesis : TreeKeyed genesisTree := by
  refine TreeKeyed.insert ?_ genesisBlock
  intro hash block h
  cases h

/-- A call of one of the replica's handlers. -/
inductive Call
  | propose (how : ProposeCall) (view : Nat)
  | validateAndInsertProposal (block : Block)
  | handleVote (vote : Vote)
  | applyHighQcFromNetwork (qc : QuorumCert)
  | advanceViewWithReason (reason : ViewChangeReason)
  | commitAll
  | enqueueCommand (cmd : ConsensusCommand)
  | enableDummyProposals (timeoutMs : Nat)
  | disableDummyProposals
  deriving DecidableEq, Repr

/-- The tree after at most one insertion. -/
def insertInto (tree : OrdMap Hash Block) : Option Block → OrdMap Hash Block
  | none => tree
  | some block => tree.insert block.hash block

theorem TreeKeyed.insertInto {tree : OrdMap Hash Block} (h : TreeKeyed tree)
    (block : Option Block) : TreeKeyed (insertInto tree block) := by
  cases block with
  | none => exact h
  | some block => exact h.insert block

/-- A tree gains what is inserted and loses nothing, if the new hash names no other block. -/
theorem mem_insertInto {tree : OrdMap Hash Block} (hkeyed : TreeKeyed tree) {new : Option Block}
    (hnew : ∀ x ∈ new, ∀ y ∈ tree.values, y.hash = x.hash → y = x) {block : Block} :
    block ∈ (insertInto tree new).values ↔ block ∈ tree.values ∨ block ∈ new := by
  cases new with
  | none => simp [insertInto]
  | some x =>
    simp only [insertInto, Option.mem_def, Option.some.injEq]
    constructor
    · intro hb
      obtain ⟨key, hget⟩ := OrdMap.mem_values.mp hb
      rw [OrdMap.get?_insert] at hget
      split at hget
      · exact Or.inr (Option.some.inj hget)
      · exact Or.inl (OrdMap.mem_values.mpr ⟨key, hget⟩)
    · rintro (hb | rfl)
      · refine OrdMap.mem_values.mpr ⟨block.hash, ?_⟩
        rw [OrdMap.get?_insert]
        split
        · rename_i he
          rw [hnew x rfl block hb he]
        · exact hkeyed.get? hb
      · exact OrdMap.mem_values.mpr ⟨x.hash, OrdMap.get?_insert_self ..⟩

namespace Replica

variable {σ : Type} [Ed25519] [Sha256] [Bincode LogEntry] [Crc32] [App σ]

/-- The state after a call at a time. -/
def step (r : Replica σ) (c : Nat × Call) : Replica σ :=
  match c.2 with
  | .propose how view => (r.proposeBy c.1 view how).1
  | .validateAndInsertProposal block => (r.validateAndInsertProposal c.1 block).1
  | .handleVote vote => (r.handleVote c.1 vote).1
  | .applyHighQcFromNetwork qc => (r.applyHighQcFromNetwork c.1 qc).1
  | .advanceViewWithReason reason => r.advanceViewWithReason c.1 reason
  | .commitAll => r.commitAll c.1
  | .enqueueCommand cmd => r.enqueueCommand cmd
  | .enableDummyProposals timeoutMs => r.enableDummyProposals timeoutMs
  | .disableDummyProposals => r.disableDummyProposals

/-- The block a call puts into the tree. -/
def inserted (r : Replica σ) (c : Nat × Call) : Option Block :=
  match c.2 with
  | .propose how view => (r.proposeBy c.1 view how).2
  | .validateAndInsertProposal block => if r.acceptsProposal block then some block else none
  | _ => none

/-- The inserted hash is new to the tree. -/
def InsertsFresh (r : Replica σ) (c : Nat × Call) : Prop :=
  ∀ block ∈ r.inserted c, r.blockTree.contains block.hash = false

instance (r : Replica σ) (c : Nat × Call) : Decidable (r.InsertsFresh c) :=
  inferInstanceAs (Decidable (∀ block ∈ r.inserted c, r.blockTree.contains block.hash = false))

/-- A call changes the tree by the block it inserts. -/
theorem step_blockTree (r : Replica σ) (c : Nat × Call) :
    (r.step c).blockTree = insertInto r.blockTree (r.inserted c) := by
  obtain ⟨now, call⟩ := c
  cases call with
  | propose how view =>
    simp only [step, inserted]
    rcases r.proposeBy_cases now view how with h | ⟨-, hash, command, nextHash, queue, h⟩
    · rw [h]; rfl
    · rw [h]; rfl
  | validateAndInsertProposal block =>
    simp only [step, inserted]
    rcases r.validateAndInsertProposal_cases now block with ⟨ha, h⟩ | ⟨ha, h⟩
    · rw [h, ha]; rfl
    · rw [h, ha]; rfl
  | handleVote vote =>
    simp only [step, inserted]
    rcases r.handleVote_cases now vote with h | ⟨-, ⟨-, h⟩ | ⟨-, h⟩⟩
    all_goals rw [h]; rfl
  | applyHighQcFromNetwork qc =>
    simp only [step, inserted]
    rcases r.applyHighQcFromNetwork_cases now qc with h | ⟨-, h⟩
    all_goals rw [h]; rfl
  | advanceViewWithReason reason => rfl
  | commitAll => exact commitAll_blockTree now r
  | enqueueCommand cmd => rfl
  | enableDummyProposals timeoutMs => rfl
  | disableDummyProposals => rfl

/-- No call takes a block out of the tree. -/
theorem step_contains {r : Replica σ} {hash : Hash} (h : r.blockTree.contains hash = true)
    (c : Nat × Call) : (r.step c).blockTree.contains hash = true := by
  rw [step_blockTree]
  cases r.inserted c with
  | none => exact h
  | some block => rw [insertInto, OrdMap.contains_insert, h, Bool.or_true]

/-- A filled tree stays filled. -/
theorem step_filled {r : Replica σ} (h : r.blockTree.isEmpty = false) (c : Nat × Call) :
    (r.step c).blockTree.isEmpty = false := by
  rw [step_blockTree]
  cases r.inserted c with
  | none => exact h
  | some block => exact OrdMap.isEmpty_insert ..

/-- What depends only on the configuration, the committed log, the validators, the keys, the
snapshots and the application is left alone by every call but a commit. -/
theorem step_frame {β : Type} (f : Replica σ → β)
    (hf : ∀ (r : Replica σ) view tree qc pool nextHash start wal queue enabled last timeout,
      f { r with
        currentView := view, blockTree := tree, highQc := qc, votePool := pool
        nextHash := nextHash, viewStartTime := start, wal := wal, clientQueue := queue
        dummyProposalEnabled := enabled, lastProposedTime := last,
        dummyTimeoutMs := timeout } = f r)
    (r : Replica σ) {c : Nat × Call} (hc : c.2 ≠ .commitAll) : f (r.step c) = f r := by
  obtain ⟨now, call⟩ := c
  cases call with
  | propose how view =>
    simp only [step]
    rcases r.proposeBy_cases now view how with h | ⟨-, hash, command, nextHash, queue, h⟩
    · rw [h]
    · rw [h]
      exact hf r ..
  | validateAndInsertProposal block =>
    simp only [step]
    rcases r.validateAndInsertProposal_cases now block with ⟨-, h⟩ | ⟨-, h⟩
    · rw [h]
    · rw [h]
      exact hf r ..
  | handleVote vote =>
    simp only [step]
    rcases r.handleVote_cases now vote with h | ⟨-, ⟨-, h⟩ | ⟨-, h⟩⟩
    · rw [h]
    · rw [h]
      exact hf r ..
    · rw [h]
      exact hf r ..
  | applyHighQcFromNetwork qc =>
    simp only [step]
    rcases r.applyHighQcFromNetwork_cases now qc with h | ⟨-, h⟩
    · rw [h]
    · rw [h]
      exact hf r ..
  | commitAll => exact absurd rfl hc
  | _ => exact hf r ..

/-- Only `commitAll` changes the log. -/
theorem step_committedLog (r : Replica σ) (h : TreeKeyed r.blockTree) (c : Nat × Call) :
    (r.step c).committedLog =
      match c.2 with
      | .commitAll => r.committedLog ++ r.ready
      | _ => r.committedLog := by
  obtain ⟨now, call⟩ := c
  cases call with
  | commitAll => exact commitAll_committedLog now r h
  | _ => exact step_frame committedLog (by intros; rfl) r (by simp)

/-- A call sets the high certificate to one it forms or adopts. -/
theorem step_highQc (r : Replica σ) (c : Nat × Call) :
    (r.step c).highQc =
      match c.2 with
      | .handleVote vote => (r.handleVote c.1 vote).2.or r.highQc
      | .applyHighQcFromNetwork qc =>
          if (r.applyHighQcFromNetwork c.1 qc).2 then some qc else r.highQc
      | _ => r.highQc := by
  obtain ⟨now, call⟩ := c
  cases call with
  | propose how view =>
    simp only [step]
    rcases r.proposeBy_cases now view how with h | ⟨-, hash, command, nextHash, queue, h⟩
    · rw [h]
    · rw [h]; rfl
  | validateAndInsertProposal block =>
    simp only [step]
    rcases r.validateAndInsertProposal_cases now block with ⟨-, h⟩ | ⟨-, h⟩
    · rw [h]
    · rw [h]; rfl
  | handleVote vote =>
    simp only [step]
    rcases r.handleVote_cases now vote with h | ⟨-, ⟨-, h⟩ | ⟨-, h⟩⟩
    all_goals rw [h]; rfl
  | applyHighQcFromNetwork qc =>
    simp only [step]
    rcases r.applyHighQcFromNetwork_cases now qc with h | ⟨-, h⟩
    all_goals rw [h]; rfl
  | commitAll => exact commitAll_highQc now r
  | _ => rfl

/-- Only a commit changes the membership. -/
theorem step_membership (r : Replica σ) {c : Nat × Call} (hc : c.2 ≠ .commitAll) :
    (r.step c).membership = r.membership :=
  step_frame membership (by intros; rfl) r hc

/-- What every membership command keeps of the membership, every call keeps. -/
theorem step_membership_preserves {P : Membership → Prop}
    (hP : ∀ m command, P m → P (m.apply command)) {r : Replica σ} (h : P r.membership)
    (c : Nat × Call) : P (r.step c).membership := by
  by_cases hc : c.2 = .commitAll
  · have hstep : r.step c = r.commitAll c.1 := by
      simp only [step, hc]
    rw [hstep]
    refine commitAll_preserves (I := fun s : Replica σ => P s.membership) c.1 r ?_ h
    intro s block hs
    rw [executeAndCommit_membership]
    exact hP _ _ hs
  · rwa [step_membership r hc]

/-- No call changes the number of the next snapshot. -/
theorem step_snapshotCounter (r : Replica σ) (c : Nat × Call) :
    (r.step c).snapshotCounter = r.snapshotCounter := by
  obtain ⟨now, call⟩ := c
  cases call with
  | commitAll =>
    refine commitAll_field now r snapshotCounter fun s block => ?_
    rw [executeAndCommit_eq]
    rfl
  | _ => exact step_frame snapshotCounter (by intros; rfl) r (by simp)

/-- A call other than a commit keeps the vote pool, empties it, or adds a counted vote. -/
theorem step_votePool (r : Replica σ) {c : Nat × Call} (hc : c.2 ≠ .commitAll) :
    (r.step c).votePool = r.votePool ∨ (r.step c).votePool = OrdMap.empty ∨
      ∃ vote, c.2 = .handleVote vote ∧ r.VotePasses vote ∧
        (r.step c).votePool = r.votePool.insert vote.blockHash (r.votedQc vote).signatures := by
  obtain ⟨now, call⟩ := c
  cases call with
  | propose how view =>
    left
    simp only [step]
    rcases r.proposeBy_cases now view how with h | ⟨-, hash, command, nextHash, queue, h⟩
    · rw [h]
    · rw [h]; rfl
  | validateAndInsertProposal block =>
    left
    simp only [step]
    rcases r.validateAndInsertProposal_cases now block with ⟨-, h⟩ | ⟨-, h⟩
    · rw [h]
    · rw [h]; rfl
  | handleVote vote =>
    simp only [step]
    rcases r.handleVote_cases now vote with h | ⟨hpass, ⟨-, h⟩ | ⟨-, h⟩⟩
    · exact Or.inl (by rw [h])
    · exact Or.inr (Or.inr ⟨vote, rfl, hpass, by rw [h]; rfl⟩)
    · exact Or.inr (Or.inr ⟨vote, rfl, hpass, by rw [h]; rfl⟩)
  | applyHighQcFromNetwork qc =>
    left
    simp only [step]
    rcases r.applyHighQcFromNetwork_cases now qc with h | ⟨-, h⟩
    · rw [h]
    · rw [h]; rfl
  | advanceViewWithReason reason => exact Or.inr (Or.inl rfl)
  | commitAll => exact absurd rfl hc
  | _ => exact Or.inl rfl

/-- Calls keep every block under its own hash. -/
theorem treeKeyed_step {r : Replica σ} (h : TreeKeyed r.blockTree) (c : Nat × Call) :
    TreeKeyed (r.step c).blockTree := by
  rw [step_blockTree]
  exact h.insertInto _

/-- Runs from genesis keep every block under its own hash. -/
theorem treeKeyed_run {r : Replica σ} (hgenesis : r.blockTree = genesisTree)
    (calls : List (Nat × Call)) : TreeKeyed (run step r calls).blockTree :=
  run_preserves (I := fun r : Replica σ => TreeKeyed r.blockTree) (fun _ c h => treeKeyed_step h c)
    (hgenesis ▸ treeKeyed_genesis) calls

end Replica

end PersistHotStuff
