import PersistHotStuff.Handlers.Call
import PersistHotStuff.Source.Sample

/-!
# Certification of committed blocks

Validation checks that a certificate is valid for some known block, the commit
scan checks that a certificate is present. The two bind certificates to parents
only when the accepted proposals do.
-/

namespace PersistHotStuff

open Basis

/-- Whether a call offers a proposal or commits. -/
def Call.offersOrCommits : Call → Bool
  | .validateAndInsertProposal _ => true
  | .commitAll => true
  | _ => false

/-- A run offers proposals and commits, and does nothing else. -/
def OffersAndCommits (calls : List (Nat × Call)) : Prop :=
  ∀ c ∈ calls, c.2.offersOrCommits = true

instance : DecidablePred OffersAndCommits := fun calls =>
  inferInstanceAs (Decidable (∀ c ∈ calls, c.2.offersOrCommits = true))

namespace Replica

variable {σ : Type}

section Run

variable [Ed25519] [Sha256] [Bincode LogEntry] [Crc32] [App σ]

/-- A block was accepted at some point of a run, and its certificate verified there against the
quorum of that state. -/
def VerifiedAtInsertion (r : Replica σ) (calls : List (Nat × Call)) (block : Block) : Prop :=
  ∃ pre now post, calls = pre ++ (now, .validateAndInsertProposal block) :: post ∧
    (run step r pre).acceptsProposal block = true ∧
    ∀ qc ∈ block.qc, (run step r pre).keystore.verifyQc qc (run step r pre).dynamicQuorumSize = true

/-- A block is the child of another in the tree, its certificate names the other, and it was
verified at insertion. -/
def CertifyingChild (r : Replica σ) (calls : List (Nat × Call)) (hash : Hash) (child : Block) :
    Prop :=
  child ∈ (run step r calls).blockTree.values ∧ child.parent = some hash ∧
    child.qc.map QuorumCert.blockHash = some hash ∧ VerifiedAtInsertion r calls child

/-- Whatever a commit of the run appends has a certifying child with a certifying child. -/
def CommitsCertified (r : Replica σ) (calls : List (Nat × Call)) : Prop :=
  ∀ pre now post, calls = pre ++ (now, .commitAll) :: post →
    ∀ b0 ∈ (run step r (pre ++ [(now, .commitAll)])).committedLog.drop
        (run step r pre).committedLog.length,
      ∃ b1 b2, CertifyingChild r pre b0.hash b1 ∧ CertifyingChild r pre b1.hash b2

/-- An accepted proposal certifies the block it extends. -/
def CertifiesParent (r : Replica σ) (c : Nat × Call) : Prop :=
  ∀ block, c.2 = .validateAndInsertProposal block → r.acceptsProposal block = true →
    ∀ parent ∈ block.parent, ∀ qc ∈ block.qc, qc.blockHash = parent

theorem VerifiedAtInsertion.append {r : Replica σ} {calls : List (Nat × Call)} {block : Block}
    (h : VerifiedAtInsertion r calls block) (more : List (Nat × Call)) :
    VerifiedAtInsertion r (calls ++ more) block := by
  obtain ⟨pre, now, post, rfl, hacc, hqc⟩ := h
  exact ⟨pre, now, post ++ more, by simp, hacc, hqc⟩

/-- Every block of the tree is genesis or was accepted, and accepted blocks certify their
parents. -/
theorem tree_verified {r : Replica σ} (hgenesis : r.blockTree = genesisTree)
    (calls : List (Nat × Call)) (hcalls : OffersAndCommits calls)
    (hmatch : Along step CertifiesParent r calls) :
    ∀ block ∈ (run step r calls).blockTree.values, block = genesisBlock ∨
      VerifiedAtInsertion r calls block ∧
        ∀ parent ∈ block.parent, ∀ qc ∈ block.qc, qc.blockHash = parent := by
  induction calls using List.reverseRecOn with
  | nil =>
    intro block hb
    rw [run_nil, hgenesis] at hb
    exact Or.inl (List.mem_singleton.mp hb)
  | append_singleton calls c ih =>
    have hcalls' : OffersAndCommits calls := fun d hd => hcalls d (List.mem_append_left _ hd)
    obtain ⟨halong, hlast, -⟩ := along_append.mp hmatch
    have hold : ∀ block ∈ (run step r calls).blockTree.values, block = genesisBlock ∨
        VerifiedAtInsertion r (calls ++ [c]) block ∧
          ∀ parent ∈ block.parent, ∀ qc ∈ block.qc, qc.blockHash = parent := fun block hb =>
      (ih hcalls' halong block hb).imp_right fun h => ⟨h.1.append [c], h.2⟩
    intro block hb
    rw [run_append, run_cons, run_nil, step_blockTree] at hb
    obtain ⟨now, call⟩ := c
    have hcall := hcalls (now, call) (by simp)
    cases call with
    | validateAndInsertProposal offered =>
      cases hacc : (run step r calls).acceptsProposal offered with
      | false =>
        simp only [inserted, hacc, Bool.false_eq_true, if_false, insertInto] at hb
        exact hold block hb
      | true =>
        simp only [inserted, hacc, if_true, insertInto] at hb
        obtain ⟨k, hk⟩ := OrdMap.mem_values.mp hb
        rw [OrdMap.get?_insert] at hk
        split at hk
        · cases hk
          have hqc := ((acceptsProposal_iff _ _).mp hacc).2.2.2
          exact Or.inr ⟨⟨calls, now, [], rfl, hacc, fun qc h => (hqc qc h).2.1⟩,
            hlast block rfl hacc⟩
        · exact hold block (OrdMap.mem_values.mpr ⟨k, hk⟩)
    | commitAll => exact hold block hb
    | _ => cases hcall

/-- Along runs whose accepted proposals certify their parents, only certified blocks commit. -/
theorem commits_certified {r : Replica σ} (hgenesis : r.blockTree = genesisTree)
    {calls : List (Nat × Call)} (hcalls : OffersAndCommits calls)
    (hmatch : Along step CertifiesParent r calls) : CommitsCertified r calls := by
  rintro pre now post rfl b0 hb0
  have hkeyed := treeKeyed_run hgenesis pre
  have hpre : OffersAndCommits pre := fun d hd => hcalls d (List.mem_append_left _ hd)
  have htree := tree_verified hgenesis pre hpre (along_append.mp hmatch).1
  have happ : (run step r (pre ++ [(now, .commitAll)])).committedLog =
      (run step r pre).committedLog ++ (run step r pre).ready := by
    rw [run_append, run_cons, run_nil, step_committedLog _ hkeyed]
  rw [happ, List.drop_left] at hb0
  obtain ⟨-, -, h3⟩ := mem_ready.mp hb0
  obtain ⟨b1, b2, h1, hq1, h2, hq2⟩ := threeChain_iff.mp h3
  have hchild : ∀ {hash child}, firstChild (run step r pre).blockTree hash = some child →
      child.qc.isSome = true → CertifyingChild r pre hash child := by
    intro hash child hfirst hsome
    obtain ⟨hin, hparent, -⟩ := (firstChild_eq_some hkeyed).mp hfirst
    obtain ⟨qc, hqc⟩ := Option.isSome_iff_exists.mp hsome
    rcases htree child hin with rfl | ⟨hver, hm⟩
    · cases hqc
    · refine ⟨hin, hparent, ?_, hver⟩
      rw [hqc, Option.map_some, hm hash hparent qc hqc]
  exact ⟨b1, b2, hchild h1 hq1, hchild h2 hq2⟩

end Run

section Samples

open Sample

theorem commits_certified_straight :
    CommitsCertified (party 4 3)
      [(1, .validateAndInsertProposal (block 1 0 0 0 none)),
        (2, .validateAndInsertProposal (block 2 1 1 1 (some (qc [0, 1, 2] 1 0 0)))),
        (3, .validateAndInsertProposal (block 3 2 2 2 (some (qc [0, 1, 2] 2 1 0)))),
        (4, .commitAll)] := by
  refine commits_certified rfl (by decide) ?_
  · refine ⟨?_, ?_, ?_, ?_, trivial⟩ <;> rintro block ⟨⟩ - parent ⟨⟩ qc ⟨⟩
    all_goals rfl

/-- The leader of views 1, 5 and 9 builds three blocks on the one certificate it has seen. -/
def reusedQcCalls : List (Nat × Call) :=
  [(1, .validateAndInsertProposal (block 1 0 0 0 none)),
    (2, .validateAndInsertProposal (block 2 1 1 1 (some (qc [0, 1, 2] 1 0 0)))),
    (3, .validateAndInsertProposal (block 3 2 5 1 (some (qc [0, 1, 2] 1 0 0)))),
    (4, .validateAndInsertProposal (block 4 3 9 1 (some (qc [0, 1, 2] 1 0 0)))),
    (5, .commitAll)]

/-- One leader makes a replica commit its uncertified block 2. -/
theorem commits_uncertified :
    (party 4 3).blockTree = genesisTree ∧ OffersAndCommits reusedQcCalls ∧
      ¬ CommitsCertified (party 4 3) reusedQcCalls := by
  refine ⟨rfl, by decide, ?_⟩
  · intro h
    obtain ⟨b1, b2, ⟨hin, hparent, hqc, -⟩, -⟩ := h (reusedQcCalls.take 4) 5 [] rfl
      (block 2 1 1 1 (some (qc [0, 1, 2] 1 0 0))) (by decide +kernel)
    revert hin hparent hqc
    have hnone : ∀ b ∈ (run step (party 4 3) (reusedQcCalls.take 4)).blockTree.values,
        b.parent = some 2 → b.qc.map QuorumCert.blockHash ≠ some 2 := by decide +kernel
    exact fun hin hparent hqc => hnone b1 hin hparent hqc

end Samples

end Replica

end PersistHotStuff
