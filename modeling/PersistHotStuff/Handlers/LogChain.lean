import PersistHotStuff.Basis.Chain
import PersistHotStuff.Handlers.Call
import PersistHotStuff.Source.Sample

/-!
# The committed log as a chain

The scan judges every block by its children alone, so what it commits continues
the log as a chain only in states whose ready blocks form a path that starts at
the last committed block.
-/

namespace PersistHotStuff

open Basis

/-- Each committed block is the parent of the next one. -/
def ChainLog (log : List Block) : Prop := Chained Block.hash Block.parent log

instance : DecidablePred ChainLog := fun log =>
  inferInstanceAs (Decidable (log.IsChain fun a b => b.parent = some a.hash))

namespace Replica

variable {σ : Type}

/-- The ready blocks of a state continue its log. -/
structure ReadyContinues (r : Replica σ) : Prop where
  /-- The least ready block extends the last committed one. -/
  first : ∀ b ∈ r.ready, (∀ c ∈ r.ready, b.hash ≤ c.hash) →
    ∀ x ∈ r.committedLog.getLast?, b.parent = some x.hash
  /-- Every other ready block extends a ready block of lower hash, and no two the same one. -/
  path : IsPath Block.hash Block.parent r.ready

theorem readyContinues_iff {r : Replica σ} :
    r.ReadyContinues ↔
      (∀ b ∈ r.ready, (∀ c ∈ r.ready, b.hash ≤ c.hash) →
        ∀ x ∈ r.committedLog.getLast?, b.parent = some x.hash) ∧
      IsPath Block.hash Block.parent r.ready :=
  ⟨fun h => ⟨h.first, h.path⟩, fun h => ⟨h.1, h.2⟩⟩

instance (r : Replica σ) : Decidable r.ReadyContinues := decidable_of_iff' _ readyContinues_iff

/-- Committing the ready blocks keeps the log a chain exactly when they continue it. -/
theorem chainLog_append_ready {r : Replica σ} (hkeyed : TreeKeyed r.blockTree)
    (hlog : ChainLog r.committedLog) :
    ChainLog (r.committedLog ++ r.ready) ↔ r.ReadyContinues := by
  have hsorted := ready_pairwise hkeyed
  rw [ChainLog, chained_append, chained_iff_isPath hsorted]
  constructor
  · rintro ⟨-, hpath, hjoin⟩
    refine ⟨?_, hpath⟩
    intro b hb hleast x hx
    cases hr : r.ready with
    | nil => rw [hr] at hb; cases hb
    | cons c rest =>
      rw [hr] at hb hleast hsorted hjoin
      rcases List.mem_cons.mp hb with rfl | hrest
      · exact hjoin x hx b rfl
      · have hlt := (List.pairwise_cons.mp hsorted).1 b hrest
        exact absurd hlt (hleast c (List.mem_cons_self ..)).not_gt
  · rintro ⟨hfirst, hpath⟩
    refine ⟨hlog, hpath, ?_⟩
    intro x hx b hb
    cases hr : r.ready with
    | nil => rw [hr] at hb; cases hb
    | cons c rest =>
      rw [hr] at hb hfirst hsorted
      cases hb
      refine hfirst b (List.mem_cons_self ..) ?_ x hx
      intro d hd
      rcases List.mem_cons.mp hd with rfl | hrest
      · exact le_rfl
      · exact ((List.pairwise_cons.mp hsorted).1 d hrest).le

section Step

variable [Ed25519] [Sha256] [Bincode LogEntry] [Crc32] [App σ]

/-- One call keeps the log a chain exactly when it is not a commit of blocks that do not
continue it. -/
theorem chainLog_step {r : Replica σ} (hkeyed : TreeKeyed r.blockTree)
    (hlog : ChainLog r.committedLog) (c : Nat × Call) :
    ChainLog (r.step c).committedLog ↔ (c.2 = .commitAll → r.ReadyContinues) := by
  rw [step_committedLog r hkeyed c]
  obtain ⟨now, call⟩ := c
  cases call with
  | commitAll => simpa using chainLog_append_ready hkeyed hlog
  | propose how view => simpa using hlog
  | validateAndInsertProposal block => simpa using hlog
  | handleVote vote => simpa using hlog
  | applyHighQcFromNetwork qc => simpa using hlog
  | advanceViewWithReason reason => simpa using hlog
  | enqueueCommand cmd => simpa using hlog
  | enableDummyProposals timeoutMs => simpa using hlog
  | disableDummyProposals => simpa using hlog

/-- Along a run from genesis the log stays a chain exactly when every commit finds ready blocks
that continue it. -/
theorem committedLog_chain_iff {r : Replica σ} (hgenesis : r.blockTree = genesisTree)
    (hlog : r.committedLog = []) (calls : List (Nat × Call)) :
    Throughout step (fun r => ChainLog r.committedLog) r calls ↔
      Along step (fun r c => c.2 = .commitAll → r.ReadyContinues) r calls := by
  refine throughout_iff_along (D := fun _ _ => True)
    (I := fun r : Replica σ => TreeKeyed r.blockTree) (fun r c h _ => treeKeyed_step h c)
    (fun r c hkeyed hchain => chainLog_step hkeyed hchain c) ?_ ?_
    (along_of_forall (fun _ _ => trivial) r calls)
  · rw [hgenesis]
    exact treeKeyed_genesis
  · rw [hlog]
    exact List.isChain_nil

end Step

section Samples

open Sample

/-- Four proposals in a row and a commit. -/
def straightCalls : List (Nat × Call) :=
  [(1, .validateAndInsertProposal (block 1 0 0 0 none)),
    (2, .validateAndInsertProposal (block 2 1 1 1 (some (qc [0, 1, 2] 1 0 0)))),
    (3, .validateAndInsertProposal (block 3 2 2 2 (some (qc [0, 1, 2] 2 1 0)))),
    (4, .validateAndInsertProposal (block 4 3 4 0 (some (qc [0, 1, 2] 3 2 0)))),
    (5, .commitAll)]

theorem committedLog_chain_straight :
    Throughout step (fun r => ChainLog r.committedLog) (party 4 3) straightCalls :=
  (committedLog_chain_iff rfl rfl straightCalls).mpr (by decide +kernel)

/-- A leader that missed the certificates of blocks 2 and 3 forks off block 1; both branches
grow before the replica commits. -/
def forkCalls : List (Nat × Call) :=
  [(1, .validateAndInsertProposal (block 1 0 0 0 none)),
    (2, .validateAndInsertProposal (block 2 1 1 1 (some (qc [0, 1, 2] 1 0 0)))),
    (3, .validateAndInsertProposal (block 3 2 2 2 (some (qc [0, 1, 2] 2 1 0)))),
    (4, .validateAndInsertProposal (block 4 1 4 0 (some (qc [0, 1, 2] 1 0 0)))),
    (5, .validateAndInsertProposal (block 5 4 5 1 (some (qc [0, 1, 2] 4 4 0)))),
    (6, .validateAndInsertProposal (block 6 5 6 2 (some (qc [0, 1, 2] 5 5 0)))),
    (7, .validateAndInsertProposal (block 7 3 8 0 (some (qc [0, 1, 2] 3 2 0)))),
    (8, .commitAll)]

/-- On two certified branches the committed log is no chain: block 4 is committed after block 2,
though both extend block 1. -/
theorem committedLog_forks :
    (party 4 3).blockTree = genesisTree ∧ (party 4 3).committedLog = [] ∧
      Along step InsertsFresh (party 4 3) forkCalls ∧
      ¬ Throughout step (fun r => ChainLog r.committedLog) (party 4 3) forkCalls := by
  refine ⟨rfl, rfl, by decide +kernel, ?_⟩
  intro h
  have hlast := h forkCalls (List.prefix_refl _)
  revert hlast
  decide +kernel

end Samples

end Replica

end PersistHotStuff
