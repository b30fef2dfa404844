import Mathlib.Data.Finset.Card

/-!
# Quorum intersection

Two sets of voters that together outnumber all voters by more than the faulty
ones have a correct voter in common; and no two share more than their sizes force
unless they are chosen to.
-/

namespace Basis

variable {α : Type*} [DecidableEq α]

/-- Two sets of voters share at least what their sizes exceed all voters by. -/
theorem card_add_card_le {voters a b : Finset α} (ha : a ⊆ voters) (hb : b ⊆ voters) :
    a.card + b.card ≤ voters.card + (a ∩ b).card := by
  have hunion : (a ∪ b).card ≤ voters.card := Finset.card_le_card (Finset.union_subset ha hb)
  have hsum : (a ∪ b).card + (a ∩ b).card = a.card + b.card := Finset.card_union_add_card_inter a b
  omega

/-- Two large sets of voters share a voter that is not faulty. -/
theorem exists_common_correct {voters faulty a b : Finset α} (ha : a ⊆ voters) (hb : b ⊆ voters)
    (hcard : voters.card + faulty.card < a.card + b.card) : ∃ i ∈ a, i ∈ b ∧ i ∉ faulty := by
  have hshared := card_add_card_le ha hb
  have hmore : faulty.card < (a ∩ b).card := by omega
  obtain ⟨i, hi, hf⟩ := Finset.exists_mem_notMem_of_card_lt_card hmore
  exact ⟨i, (Finset.mem_inter.mp hi).1, (Finset.mem_inter.mp hi).2, hf⟩

/-- Of two sets of voters, subsets of given sizes need share no more than these sizes exceed all
voters by. -/
theorem exists_card_inter (old new : Finset α) {a b : Nat} (hold : (old \ new).card ≤ a)
    (ha : a ≤ old.card) (hb : b ≤ new.card) (hall : (old ∪ new).card ≤ a + b) :
    ∃ A ⊆ old, ∃ B ⊆ new, A.card = a ∧ B.card = b ∧
      (A ∩ B).card + (old ∪ new).card = a + b := by
  -- the first subset takes every voter the second may not, the second all that the first left
  obtain ⟨A, hleft, hA, hcardA⟩ :=
    Finset.exists_subsuperset_card_eq (Finset.sdiff_subset : old \ new ⊆ old) hold ha
  have hcover : A ∪ new = old ∪ new := by
    ext i
    have hin : i ∈ old → i ∉ new → i ∈ A := fun h h' => hleft (Finset.mem_sdiff.mpr ⟨h, h'⟩)
    have hout : i ∈ A → i ∈ old := fun h => hA h
    simp only [Finset.mem_union]
    tauto
  have hrest : (new \ A).card ≤ b := by
    have hsum : A.card + (new \ A).card = (A ∪ new).card := by
      rw [Finset.card_union, ← Finset.card_sdiff_add_card_inter new A, Finset.inter_comm A new]
      omega
    rw [hcover] at hsum
    omega
  obtain ⟨B, hright, hB, hcardB⟩ :=
    Finset.exists_subsuperset_card_eq (Finset.sdiff_subset : new \ A ⊆ new) hrest hb
  have hAB : A ∪ B = old ∪ new := by
    rw [← hcover]
    refine Finset.Subset.antisymm (Finset.union_subset_union_right hB) ?_
    intro i hi
    rcases Finset.mem_union.mp hi with h | h
    · exact Finset.mem_union_left B h
    · by_cases hiA : i ∈ A
      · exact Finset.mem_union_left B hiA
      · exact Finset.mem_union_right A (hright (Finset.mem_sdiff.mpr ⟨h, hiA⟩))
  refine ⟨A, hA, B, hB, hcardA, hcardB, ?_⟩
  have hsum := Finset.card_union_add_card_inter A B
  rw [hAB] at hsum
  omega

end Basis
