import PersistHotStuff.Handlers.Call
import PersistHotStuff.Source.Sample

/-!
# The commit search against the three-chain rule

The rule asks for some certified child with some certified child. The search
looks at one child at each level, the one with the least key: what it finds
satisfies the rule, but a sibling without a certificate hides the chains behind
it. Whatever has been committed, the search misses nothing exactly if every
three-chain of the tree comes with one of foremost children.
-/

namespace PersistHotStuff

open Basis

/-- The three-chain rule: some certified block extends `b0` and some certified block extends it. -/
def Has3Chain (tree : OrdMap Hash Block) (b0 : Block) : Prop :=
  ∃ b1 ∈ tree.values, ∃ b2 ∈ tree.values, b1.parent = some b0.hash ∧ b1.qc.isSome = true ∧
    b2.parent = some b1.hash ∧ b2.qc.isSome = true

instance (tree : OrdMap Hash Block) : DecidablePred (Has3Chain tree) := fun b0 =>
  inferInstanceAs (Decidable (∃ b1 ∈ tree.values, ∃ b2 ∈ tree.values, b1.parent = some b0.hash ∧
    b1.qc.isSome = true ∧ b2.parent = some b1.hash ∧ b2.qc.isSome = true))

/-- The child of a block with the least key: no sibling stands before it. -/
def Foremost (tree : OrdMap Hash Block) (hash : Hash) (child : Block) : Prop :=
  ∃ key, tree.get? key = some child ∧ child.parent = some hash ∧
    ∀ key' sibling, tree.get? key' = some sibling → sibling.parent = some hash → key ≤ key'

/-- A three-chain of foremost children. -/
def FrontChain (tree : OrdMap Hash Block) (b0 : Block) : Prop :=
  ∃ b1 b2, Foremost tree b0.hash b1 ∧ b1.qc.isSome = true ∧
    Foremost tree b1.hash b2 ∧ b2.qc.isSome = true

/-- The block the scan looks at is the foremost child. -/
theorem firstChild_eq_some_iff {tree : OrdMap Hash Block} {hash : Hash} {child : Block} :
    firstChild tree hash = some child ↔ Foremost tree hash child := by
  rw [firstChild, OrdMap.find?_values_eq_some, beq_iff_eq]
  constructor
  · rintro ⟨hparent, key, hkey, hleast⟩
    refine ⟨key, hkey, hparent, fun key' sibling hkey' hsibling => not_lt.mp fun hlt => ?_⟩
    have hpassed := hleast key' sibling hkey' hlt
    rw [hsibling, beq_self_eq_true] at hpassed
    cases hpassed
  · rintro ⟨key, hkey, hparent, hleast⟩
    refine ⟨hparent, key, hkey, fun key' sibling hkey' hlt => ?_⟩
    rw [beq_eq_false_iff_ne]
    exact fun hsibling => absurd (hleast key' sibling hkey' hsibling) (not_le.mpr hlt)

/-- The scan's test is for chains of foremost children. -/
theorem threeChain_iff_frontChain {tree : OrdMap Hash Block} {b0 : Block} :
    threeChain tree b0 = true ↔ FrontChain tree b0 := by
  simp only [threeChain_iff, firstChild_eq_some_iff, FrontChain]

/-- No two blocks of the tree extend the same block. -/
def Unforked (tree : OrdMap Hash Block) : Prop :=
  ∀ a ∈ tree.values, ∀ b ∈ tree.values, a.parent = b.parent → a.parent ≠ none → a = b

/-- The block the scan looks at is a child of the tree. -/
theorem firstChild_mem {tree : OrdMap Hash Block} {hash : Hash} {child : Block}
    (h : firstChild tree hash = some child) :
    child ∈ tree.values ∧ child.parent = some hash :=
  ⟨List.mem_of_find?_eq_some h, by simpa using List.find?_some h⟩

/-- In a tree without forks the scan looks at the only child. -/
theorem Unforked.firstChild_eq {tree : OrdMap Hash Block} (h : Unforked tree) {child : Block}
    (hin : child ∈ tree.values) {hash : Hash} (hparent : child.parent = some hash) :
    firstChild tree hash = some child := by
  cases hfirst : firstChild tree hash with
  | none =>
    have hnone := List.find?_eq_none.mp hfirst child hin
    rw [hparent] at hnone
    exact absurd (beq_self_eq_true _) hnone
  | some first =>
    obtain ⟨hfin, hfp⟩ := firstChild_mem hfirst
    rw [h first hfin child hin (hfp.trans hparent.symm) (by rw [hfp]; exact Option.some_ne_none _)]

/-- A chain through the blocks the scan looks at is a chain. -/
theorem has3Chain_of_threeChain {tree : OrdMap Hash Block} {b0 : Block}
    (h : threeChain tree b0 = true) : Has3Chain tree b0 := by
  obtain ⟨b1, b2, h1, hq1, h2, hq2⟩ := threeChain_iff.mp h
  obtain ⟨hin1, hp1⟩ := firstChild_mem h1
  obtain ⟨hin2, hp2⟩ := firstChild_mem h2
  exact ⟨b1, hin1, b2, hin2, hp1, hq1, hp2, hq2⟩

/-- Without forks the scan's test is the rule. -/
theorem Unforked.threeChain_iff_has3Chain {tree : OrdMap Hash Block} (h : Unforked tree)
    {b0 : Block} : threeChain tree b0 = true ↔ Has3Chain tree b0 := by
  refine ⟨has3Chain_of_threeChain, ?_⟩
  rintro ⟨b1, hin1, b2, hin2, hp1, hq1, hp2, hq2⟩
  exact threeChain_iff.mpr ⟨b1, b2, h.firstChild_eq hin1 hp1, hq1, h.firstChild_eq hin2 hp2, hq2⟩

namespace Replica

variable {σ : Type}

/-- The search agrees with the rule: what it finds may be committed, and when it finds nothing,
nothing may. -/
structure SearchAgrees (r : Replica σ) : Prop where
  sound : ∀ b, r.findCommittedBlock = some b →
    b ∈ r.blockTree.values ∧ (∀ c ∈ r.committedLog, c.hash ≠ b.hash) ∧ Has3Chain r.blockTree b
  complete : r.findCommittedBlock = none →
    ∀ b ∈ r.blockTree.values, (∀ c ∈ r.committedLog, c.hash ≠ b.hash) → ¬ Has3Chain r.blockTree b

theorem not_isCommitted_iff {r : Replica σ} {hash : Hash} :
    r.isCommitted hash = false ↔ ∀ c ∈ r.committedLog, c.hash ≠ hash := by
  rw [← Bool.not_eq_true, isCommitted_iff]
  push Not
  exact Iff.rfl

/-- What the search finds is in the tree, not in the log, and passes the scan's test. -/
theorem findCommittedBlock_sound {r : Replica σ} {b : Block} (h : r.findCommittedBlock = some b) :
    b ∈ r.blockTree.values ∧ (∀ c ∈ r.committedLog, c.hash ≠ b.hash) ∧
      Has3Chain r.blockTree b := by
  rw [findCommittedBlock_eq] at h
  obtain ⟨hin, hfree, hchain⟩ := mem_ready.mp (List.mem_of_mem_head? h)
  exact ⟨hin, not_isCommitted_iff.mp hfree, has3Chain_of_threeChain hchain⟩

/-- The search finds nothing exactly when no block outside the log passes its test. -/
theorem findCommittedBlock_eq_none {r : Replica σ} :
    r.findCommittedBlock = none ↔
      ∀ b ∈ r.blockTree.values, (∀ c ∈ r.committedLog, c.hash ≠ b.hash) →
        threeChain r.blockTree b = false := by
  rw [findCommittedBlock_eq, List.head?_eq_none_iff, List.eq_nil_iff_forall_not_mem]
  refine forall_congr' fun b => ?_
  rw [mem_ready, not_isCommitted_iff, ← Bool.not_eq_true]
  tauto

/-- From a log on, whatever it grows to, the search agrees with the rule exactly when every block
outside the log that the rule admits has a three-chain of foremost children. -/
theorem searchAgrees_iff (r : Replica σ) :
    (∀ log, r.committedLog <+: log → SearchAgrees { r with committedLog := log }) ↔
      ∀ b ∈ r.blockTree.values, (∀ c ∈ r.committedLog, c.hash ≠ b.hash) →
        Has3Chain r.blockTree b → FrontChain r.blockTree b := by
  constructor
  · intro h b hin hfree hchain
    -- commit every block but this one
    have hagrees := h (r.committedLog ++ r.blockTree.values.filter fun c => c.hash ≠ b.hash)
      (List.prefix_append ..)
    have houtside : ∀ c ∈ r.committedLog ++ r.blockTree.values.filter fun c => c.hash ≠ b.hash,
        c.hash ≠ b.hash := by
      intro c hc
      rcases List.mem_append.mp hc with hc | hc
      · exact hfree c hc
      · exact of_decide_eq_true (List.mem_filter.mp hc).2
    generalize hlog : r.committedLog ++ r.blockTree.values.filter (fun c => c.hash ≠ b.hash) =
      log at hagrees houtside
    cases hfind : findCommittedBlock { r with committedLog := log } with
    | none => exact absurd hchain (hagrees.complete hfind b hin houtside)
    | some found =>
      rw [findCommittedBlock_eq] at hfind
      obtain ⟨hfound, hnew, htest⟩ := mem_ready.mp (List.mem_of_mem_head? hfind)
      have hhash : found.hash = b.hash := by
        by_contra hne
        refine not_isCommitted_iff.mp hnew found ?_ rfl
        rw [← hlog]
        exact List.mem_append_right _ (List.mem_filter.mpr ⟨hfound, decide_eq_true hne⟩)
      obtain ⟨b1, b2, h1, hq1, h2, hq2⟩ := threeChain_iff_frontChain.mp htest
      exact ⟨b1, b2, hhash ▸ h1, hq1, h2, hq2⟩
  · intro h log hlog
    refine ⟨fun b hb => findCommittedBlock_sound hb, fun hnone b hin hfree hchain => ?_⟩
    have hfront := h b hin (fun c hc => hfree c (hlog.subset hc)) hchain
    have hfalse := findCommittedBlock_eq_none.mp hnone b hin hfree
    rw [threeChain_iff_frontChain.mpr hfront] at hfalse
    cases hfalse

/-- Without forks the search agrees with the rule. -/
theorem searchAgrees_of_unforked {r : Replica σ} (h : Unforked r.blockTree) : r.SearchAgrees := by
  refine ⟨fun b hb => findCommittedBlock_sound hb, fun hnone b hin hfree => ?_⟩
  rw [← h.threeChain_iff_has3Chain, findCommittedBlock_eq_none.mp hnone b hin hfree]
  exact Bool.false_ne_true

end Replica

section Samples

open Sample

/-- Three accepted proposals: a leader without a certificate is passed over by the next one. -/
def abandonedSibling : List (Nat × Call) :=
  [(1, .validateAndInsertProposal (block 1 0 1 1 none)),
    (2, .validateAndInsertProposal (block 2 0 2 2 (some (qc [0, 1, 2] 0 0 0)))),
    (3, .validateAndInsertProposal (block 3 2 3 3 (some (qc [0, 1, 2] 2 2 0))))]

/-- The abandoned sibling hides the three-chain above genesis. -/
theorem abandonedSibling_hides_chain :
    ¬ (run Replica.step (party 4 0) abandonedSibling).SearchAgrees := by
  have hnone : (run Replica.step (party 4 0) abandonedSibling).findCommittedBlock = none := by
    decide
  have hin : genesisBlock ∈ (run Replica.step (party 4 0) abandonedSibling).blockTree.values := by
    decide
  have hchain : Has3Chain (run Replica.step (party 4 0) abandonedSibling).blockTree
      genesisBlock := by
    decide
  have hempty : (run Replica.step (party 4 0) abandonedSibling).committedLog = [] := by decide
  intro h
  refine h.complete hnone genesisBlock hin (fun c hc => ?_) hchain
  rw [hempty] at hc
  cases hc

end Samples

end PersistHotStuff
