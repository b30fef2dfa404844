import PersistHotStuff.Simulator.Line

/-!
# The tree of a run without faults

One block for each view, each the child of the one before: a line whose hashes
leave no gaps. Every block but the first two has a certificate, so after `k`
blocks the scan has committed all but the last two.
-/

namespace PersistHotStuff

open Basis

/-- The block of view `i` in a run of `n` replicas. -/
def steadyBlock (n i : Nat) (qc : Option QuorumCert) : Block where
  hash := i + 1
  parent := some i
  view := i
  epoch := 0
  proposer := i % n
  qc := qc
  command := .noOp

/-- A tree with genesis and the blocks of the first `k` views. -/
structure SteadyTree (n k : Nat) (tree : OrdMap Hash Block) : Prop where
  known : ∀ hash, tree.contains hash = true ↔ hash ≤ k
  genesis : tree.get? 0 = some genesisBlock
  /-- All but the block of view 0 carry a certificate. -/
  chained : ∀ i, i < k → ∃ qc, tree.get? (i + 1) = some (steadyBlock n i qc) ∧
    (qc.isSome = true ↔ 0 < i)

/-- Lists that increase and have the same elements are the same. -/
theorem eq_of_increasing {l m : List Nat} (hl : l.Pairwise (· < ·)) (hm : m.Pairwise (· < ·))
    (h : ∀ x, x ∈ l ↔ x ∈ m) : l = m := by
  have : Std.Asymm (fun a b : Nat => a < b) := ⟨fun _ _ hab hba => lt_asymm hab hba⟩
  exact hl.eq_of_mem_iff hm fun x => h x

namespace SteadyTree

variable {n k : Nat} {tree : OrdMap Hash Block}

theorem genesisTree (n : Nat) : SteadyTree n 0 PersistHotStuff.genesisTree where
  known hash := by
    rw [PersistHotStuff.genesisTree, OrdMap.contains_insert]
    simp
  genesis := rfl
  chained i hi := absurd hi (Nat.not_lt_zero i)

/-- The hashes are `0, .., k`. -/
theorem keys_eq (h : SteadyTree n k tree) : tree.keys = List.range (k + 1) := by
  refine eq_of_increasing tree.keys_pairwise List.pairwise_lt_range fun hash => ?_
  rw [OrdMap.mem_keys, h.known, List.mem_range, Nat.lt_succ_iff]

/-- A lookup finds genesis or the block of a view. -/
theorem get?_cases (h : SteadyTree n k tree) {hash : Hash} {block : Block}
    (hget : tree.get? hash = some block) :
    hash = 0 ∧ block = genesisBlock ∨
      ∃ i qc, i < k ∧ hash = i + 1 ∧ block = steadyBlock n i qc ∧ (qc.isSome = true ↔ 0 < i) := by
  have hle := (h.known hash).mp (OrdMap.contains_iff.mpr ⟨block, hget⟩)
  cases hash with
  | zero =>
    rw [h.genesis, Option.some.injEq] at hget
    exact Or.inl ⟨rfl, hget.symm⟩
  | succ i =>
    obtain ⟨qc, hblock, hqc⟩ := h.chained i hle
    rw [hblock, Option.some.injEq] at hget
    exact Or.inr ⟨i, qc, hle, rfl, hget.symm, hqc⟩

theorem keyed (h : SteadyTree n k tree) : TreeKeyed tree := by
  intro hash block hget
  rcases h.get?_cases hget with ⟨rfl, rfl⟩ | ⟨i, qc, -, rfl, rfl, -⟩
  · rfl
  · rfl

/-- Every block carries a no-op. -/
theorem command_eq (h : SteadyTree n k tree) {block : Block} (hb : block ∈ tree.values) :
    block.command = .noOp := by
  obtain ⟨hash, hget⟩ := OrdMap.mem_values.mp hb
  rcases h.get?_cases hget with ⟨-, rfl⟩ | ⟨i, qc, -, -, rfl, -⟩
  · rfl
  · rfl

/-- The block of the next view extends the tree. -/
theorem insert (h : SteadyTree n k tree) {qc : Option QuorumCert} (hqc : qc.isSome = true ↔ 0 < k) :
    SteadyTree n (k + 1) (tree.insert (k + 1) (steadyBlock n k qc)) := by
  refine ⟨fun hash => ?_, ?_, fun i hi => ?_⟩
  · rw [OrdMap.contains_insert, Bool.or_eq_true, decide_eq_true_eq, h.known, or_comm]
    exact Nat.le_add_one_iff.symm
  · rw [OrdMap.get?_insert_of_ne _ _ (Nat.succ_ne_zero k).symm]
    exact h.genesis
  · by_cases he : i = k
    · subst he
      exact ⟨qc, OrdMap.get?_insert_self .., hqc⟩
    · rw [OrdMap.get?_insert_of_ne _ _ fun heq => he (Nat.succ.inj heq)]
      exact h.chained i (by omega)

/-- The blocks are listed by their hashes. -/
theorem values_hash (h : SteadyTree n k tree) :
    tree.values.map Block.hash = List.range (k + 1) := by
  refine eq_of_increasing (List.pairwise_map.mpr h.keyed.values_pairwise) List.pairwise_lt_range
    fun hash => ?_
  rw [List.mem_range, Nat.lt_succ_iff, ← h.known, OrdMap.contains_iff, List.mem_map]
  constructor
  · rintro ⟨block, hin, rfl⟩
    exact ⟨block, h.keyed.get? hin⟩
  · rintro ⟨block, hget⟩
    exact ⟨block, OrdMap.mem_values.mpr ⟨hash, hget⟩, h.keyed hash block hget⟩

theorem length_values (h : SteadyTree n k tree) : tree.values.length = k + 1 := by
  have hlen := congrArg List.length h.values_hash
  rwa [List.length_map, List.length_range] at hlen

/-- The block in a place is the one with that hash. -/
theorem get?_of_place (h : SteadyTree n k tree) {i : Nat} {block : Block}
    (hi : tree.values[i]? = some block) : tree.get? i = some block := by
  have hhash := congrArg (fun l => l[i]?) h.values_hash
  have hlt : i < k + 1 := h.length_values ▸ (List.getElem?_eq_some_iff.mp hi).1
  simp only [List.getElem?_map, hi, Option.map_some, List.getElem?_range hlt,
    Option.some.injEq] at hhash
  rw [← hhash]
  exact h.keyed.get? (List.mem_of_getElem? hi)

/-- The blocks are a line. -/
theorem line (h : SteadyTree n k tree) : Line tree.values := by
  refine ⟨?_, h.keyed.values_pairwise, fun i a b ha hb => ?_, fun i b hb => ?_⟩
  · have hpos : 0 < tree.values.length := h.length_values ▸ Nat.succ_pos k
    have hroot := List.getElem?_eq_getElem hpos
    rw [hroot, ← h.get?_of_place hroot]
    exact h.genesis
  · rcases h.get?_cases (h.get?_of_place hb) with ⟨hzero, -⟩ | ⟨j, qc, -, hj, rfl, -⟩
    · cases hzero
    · rw [h.keyed i a (h.get?_of_place ha), Nat.succ.inj hj]
      rfl
  · rcases h.get?_cases (h.get?_of_place hb) with ⟨rfl, rfl⟩ | ⟨j, qc, -, rfl, rfl, hqc⟩
    · exact iff_of_false Bool.false_ne_true (by omega)
    · exact hqc.trans Nat.succ_lt_succ_iff.symm

/-- The tree is that of the line. -/
theorem eq_lineTree (h : SteadyTree n k tree) : tree = lineTree tree.values := by
  refine OrdMap.ext_get? fun hash => Option.ext fun block => ?_
  rw [h.line.get?_eq_some]
  constructor
  · exact fun hget => ⟨OrdMap.mem_values.mpr ⟨hash, hget⟩, h.keyed hash block hget⟩
  · rintro ⟨hin, rfl⟩
    exact h.keyed.get? hin

/-- The hashes of the first blocks after genesis. -/
theorem hash_tail_take (h : SteadyTree n k tree) {m : Nat} (hm : m ≤ k + 1) :
    (tree.values.take m).tail.map Block.hash = List.range' 1 (m - 1) := by
  rw [List.map_tail, List.map_take, h.values_hash, List.take_range, Nat.min_eq_left hm,
    List.range_eq_range', List.tail_range']

end SteadyTree

/-- A replica with such a tree that has committed all but the last three blocks commits one more. -/
theorem SteadyTree.log_ready {σ : Type} {n k : Nat} {r : Replica σ}
    (h : SteadyTree n k r.blockTree)
    (hlog : r.committedLog.map Block.hash = List.range' 1 (k - 3)) :
    (r.committedLog ++ r.ready).map Block.hash = List.range' 1 (k - 2) := by
  have htaken : (r.blockTree.values.take (k - 2)).tail.map Block.hash = List.range' 1 (k - 3) :=
    h.hash_tail_take (by omega)
  have hready := h.line.ready_eq h.eq_lineTree (hlog.trans htaken.symm)
  rw [List.map_append, hlog, ← htaken, ← List.map_append, hready, h.length_values,
    tail_take_append_drop _ (by omega), h.hash_tail_take (by omega)]
  rfl

end PersistHotStuff
