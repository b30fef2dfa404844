import PersistHotStuff.Basis.TwoChain
import PersistHotStuff.Handlers.CommitScan

/-!
# The order of commits

The scan goes by hash. Whether a committed block follows the block its
certificate is for depends on the hashes and on what else is ready.
-/

namespace PersistHotStuff

open Basis

namespace Replica

variable {σ : Type}

/-- The block a ready block certifies is committed before it: already, or as a ready block of lower
hash. -/
def CertifiedFirst (r : Replica σ) (block : Block) : Prop :=
  ∀ q ∈ block.qc, r.isCommitted q.blockHash = true ∨
    ∃ b ∈ r.ready, b.hash = q.blockHash ∧ b.hash < block.hash

instance (r : Replica σ) : DecidablePred r.CertifiedFirst := fun block =>
  inferInstanceAs (Decidable (∀ q ∈ block.qc, r.isCommitted q.blockHash = true ∨
    ∃ b ∈ r.ready, b.hash = q.blockHash ∧ b.hash < block.hash))

/-- Ready blocks that come after what they certify keep the log grounded. -/
theorem grounded_ready {r : Replica σ} (hkeyed : TreeKeyed r.blockTree) {just : Hash → Option Hash}
    (hlog : Grounded just (r.committedLog.map Block.hash))
    (hjust : ∀ block ∈ r.ready, just block.hash = block.qc.map QuorumCert.blockHash)
    (hfirst : ∀ block ∈ r.ready, r.CertifiedFirst block) :
    Grounded just ((r.committedLog ++ r.ready).map Block.hash) := by
  rw [List.map_append]
  refine hlog.append fun m₁ hash m₂ heq => ?_
  obtain ⟨bs₁, rest, hready, rfl, hrest⟩ := List.map_eq_append_iff.mp heq
  obtain ⟨block, bs₂, rfl, rfl, rfl⟩ := List.map_eq_cons_iff.mp hrest
  have hin : block ∈ r.ready := by
    rw [hready]
    exact List.mem_append_right _ (List.mem_cons_self ..)
  have hsorted := ready_pairwise hkeyed
  rw [hready, List.pairwise_append] at hsorted
  obtain ⟨-, hsorted₂, hbefore⟩ := hsorted
  have hafter := (List.pairwise_cons.mp hsorted₂).1
  constructor
  · intro hmem
    rcases List.mem_append.mp hmem with hmem | hmem
    · obtain ⟨b, hb, he⟩ := List.mem_map.mp hmem
      have hfresh := (mem_ready.mp hin).2.1
      rw [isCommitted_iff.mpr ⟨b, hb, he⟩] at hfresh
      cases hfresh
    · obtain ⟨b, hb, he⟩ := List.mem_map.mp hmem
      exact absurd he (hbefore b hb block (List.mem_cons_self ..)).ne
  · intro p hp
    rw [hjust block hin, Option.map_eq_some_iff] at hp
    obtain ⟨q, hq, rfl⟩ := hp
    rcases hfirst block hin q hq with hc | ⟨b, hb, he, hlt⟩
    · obtain ⟨b, hb, he⟩ := isCommitted_iff.mp hc
      exact List.mem_append_left _ (List.mem_map.mpr ⟨b, hb, he⟩)
    · -- the certified block has a lower hash, so it stands before this one
      refine List.mem_append_right _ (List.mem_map.mpr ⟨b, ?_, he⟩)
      rw [hready] at hb
      rcases List.mem_append.mp hb with hb | hb
      · exact hb
      · rcases List.mem_cons.mp hb with rfl | hb
        · exact absurd hlt (lt_irrefl _)
        · exact absurd (hafter b hb) hlt.asymm

/-- Once everything is committed, nothing is out of order. -/
theorem certifiedFirst_of_ready_nil {r : Replica σ} (h : r.ready = []) :
    ∀ block ∈ r.ready, r.CertifiedFirst block := by
  intro block hb
  rw [h] at hb
  cases hb

end Replica

end PersistHotStuff
