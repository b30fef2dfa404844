import PersistHotStuff.Cluster.Roster

/-!
# Blocks in a line

Blocks proposed one after another, genesis first and each the child of the one
before. Their hashes increase but may leave gaps. In a tree with these blocks
alone the scan commits all but genesis and the last two, in their order.
-/

namespace PersistHotStuff

open Basis

/-- Genesis and the blocks proposed after it, each the child of the one before. -/
structure Line (blocks : List Block) : Prop where
  root : blocks[0]? = some genesisBlock
  increasing : blocks.Pairwise fun a b => a.hash < b.hash
  linked : ∀ i a b, blocks[i]? = some a → blocks[i + 1]? = some b → b.parent = some a.hash
  /-- All but genesis and the first block after it carry a certificate. -/
  certified : ∀ i b, blocks[i]? = some b → (b.qc.isSome = true ↔ 1 < i)

/-- The tree of the blocks of a line. -/
def lineTree (blocks : List Block) : OrdMap Hash Block :=
  OrdMap.ofList (blocks.map fun b => (b.hash, b))

/-- What is committed of a line: all but genesis and the last two blocks. -/
def settled (blocks : List Block) : List Block := (blocks.take (blocks.length - 2)).tail

/-- The last block of a line, if it is not genesis. -/
def tip (blocks : List Block) : Option Block := blocks.tail.getLast?

theorem lineTree_append (blocks : List Block) (block : Block) :
    lineTree (blocks ++ [block]) = (lineTree blocks).insert block.hash block := by
  rw [lineTree, List.map_append, OrdMap.ofList, List.foldl_append]
  rfl

theorem tip_append {blocks : List Block} (h : blocks ≠ []) (block : Block) :
    tip (blocks ++ [block]) = some block := by
  rw [tip, List.tail_append_of_ne_nil h, List.getLast?_concat]

/-- All of a line but genesis is settled once two more blocks stand behind it. -/
theorem settled_append {blocks more : List Block} (h : blocks ≠ []) (hmore : 2 ≤ more.length) :
    settled (blocks ++ more) = blocks.tail ++ more.take (more.length - 2) := by
  have hlen : (blocks ++ more).length - 2 = blocks.length + (more.length - 2) := by
    rw [List.length_append]
    omega
  rw [settled, hlen, List.take_length_add_append, List.tail_append_of_ne_nil h]

namespace Line

variable {blocks : List Block}

theorem genesis : Line [genesisBlock] where
  root := rfl
  increasing := List.pairwise_singleton ..
  linked i a b _ hb := by cases hb
  certified i b hb := by
    obtain ⟨hi, rfl⟩ := List.getElem?_eq_some_iff.mp hb
    obtain rfl : i = 0 := by simpa using hi
    exact iff_of_false Bool.false_ne_true (by omega)

theorem ne_nil (h : Line blocks) : blocks ≠ [] := by
  rintro rfl
  cases h.root

theorem length_pos (h : Line blocks) : 0 < blocks.length := List.length_pos_iff.mpr h.ne_nil

/-- Genesis and what comes after it. -/
theorem eq_cons (h : Line blocks) : blocks = genesisBlock :: blocks.tail := by
  have hroot := h.root
  rw [← List.head?_eq_getElem?] at hroot
  exact (List.cons_head?_tail hroot).symm

theorem nodup (h : Line blocks) : ((blocks.map fun b => (b.hash, b)).map Prod.fst).Nodup := by
  rw [List.map_map]
  exact List.pairwise_map.mpr (h.increasing.imp fun hlt => hlt.ne)

/-- Two blocks of one hash stand in one place. -/
theorem index_unique (h : Line blocks) {i j : Nat} {a b : Block} (ha : blocks[i]? = some a)
    (hb : blocks[j]? = some b) (he : a.hash = b.hash) : i = j := by
  obtain ⟨hi, rfl⟩ := List.getElem?_eq_some_iff.mp ha
  obtain ⟨hj, rfl⟩ := List.getElem?_eq_some_iff.mp hb
  have hincreasing := List.pairwise_iff_getElem.mp h.increasing
  rcases lt_trichotomy i j with hlt | heq | hlt
  · exact absurd he (hincreasing i j hi hj hlt).ne
  · exact heq
  · exact absurd he.symm (hincreasing j i hj hi hlt).ne

theorem get?_eq_some (h : Line blocks) {hash : Hash} {block : Block} :
    (lineTree blocks).get? hash = some block ↔ block ∈ blocks ∧ block.hash = hash := by
  rw [lineTree, OrdMap.get?_ofList h.nodup, List.mem_map]
  constructor
  · rintro ⟨b, hb, he⟩
    obtain ⟨rfl, rfl⟩ := Prod.mk.inj he
    exact ⟨hb, rfl⟩
  · rintro ⟨hb, rfl⟩
    exact ⟨block, hb, rfl⟩

theorem mem_values (h : Line blocks) {block : Block} :
    block ∈ (lineTree blocks).values ↔ block ∈ blocks := by
  rw [OrdMap.mem_values]
  simp only [h.get?_eq_some, exists_eq_right']

theorem keyed (h : Line blocks) : TreeKeyed (lineTree blocks) :=
  fun _ _ hget => (h.get?_eq_some.mp hget).2

/-- The first child of a block is the next one. -/
theorem firstChild_eq (h : Line blocks) {i : Nat} {a b : Block} (ha : blocks[i]? = some a) :
    firstChild (lineTree blocks) a.hash = some b ↔ blocks[i + 1]? = some b := by
  -- only the next block names it as its parent
  have hnext : ∀ c ∈ blocks, c.parent = some a.hash → blocks[i + 1]? = some c := by
    intro c hc hparent
    obtain ⟨j, hj⟩ := List.mem_iff_getElem?.mp hc
    cases j with
    | zero =>
      rw [h.root, Option.some.injEq] at hj
      subst hj
      cases hparent
    | succ j =>
      have hlt : j < blocks.length := Nat.lt_of_succ_lt (List.getElem?_eq_some_iff.mp hj).1
      have hprev := List.getElem?_eq_getElem hlt
      have hlink := h.linked j _ c hprev hj
      rw [hparent, Option.some.injEq] at hlink
      rw [h.index_unique ha hprev hlink]
      exact hj
  rw [firstChild_eq_some h.keyed]
  simp only [h.mem_values]
  constructor
  · rintro ⟨hb, hparent, -⟩
    exact hnext b hb hparent
  · intro hb
    refine ⟨List.mem_of_getElem? hb, h.linked i a b ha hb, fun c hc hparent => ?_⟩
    have hsame := hnext c hc hparent
    rw [hb, Option.some.injEq] at hsame
    exact hsame ▸ le_rfl

/-- A block ends up committed when it is neither genesis nor one of the last two. -/
theorem threeChain_eq (h : Line blocks) {i : Nat} {a : Block} (ha : blocks[i]? = some a) :
    threeChain (lineTree blocks) a = true ↔ 0 < i ∧ i + 2 < blocks.length := by
  rw [threeChain_iff]
  constructor
  · rintro ⟨b, c, hb, hqc, hc, -⟩
    have hb := (h.firstChild_eq ha).mp hb
    have hc := (h.firstChild_eq hb).mp hc
    have hpos := (h.certified _ b hb).mp hqc
    exact ⟨by omega, (List.getElem?_eq_some_iff.mp hc).1⟩
  · rintro ⟨hpos, hlt⟩
    have hb := List.getElem?_eq_getElem (Nat.lt_of_succ_lt hlt)
    have hc := List.getElem?_eq_getElem hlt
    exact ⟨_, _, (h.firstChild_eq ha).mpr hb, (h.certified _ _ hb).mpr (by omega),
      (h.firstChild_eq hb).mpr hc, (h.certified _ _ hc).mpr (by omega)⟩

/-- A block with a greater hash whose parent is the last block, certified unless that is genesis,
goes to the end of the line. -/
theorem append (h : Line blocks) {block : Block} (hfresh : ∀ b ∈ blocks, b.hash < block.hash)
    (hparent : block.parent = blocks.getLast?.map Block.hash)
    (hqc : block.qc.isSome = (tip blocks).isSome) : Line (blocks ++ [block]) := by
  refine ⟨?_, ?_, fun i a b ha hb => ?_, fun i b hb => ?_⟩
  · rw [List.getElem?_append_left h.length_pos, h.root]
  · refine List.pairwise_append.mpr ⟨h.increasing, List.pairwise_singleton .., ?_⟩
    intro a ha b hb
    rw [List.mem_singleton.mp hb]
    exact hfresh a ha
  · by_cases hi : i + 1 < blocks.length
    · rw [List.getElem?_append_left hi] at hb
      rw [List.getElem?_append_left (Nat.lt_of_succ_lt hi)] at ha
      exact h.linked i a b ha hb
    · -- the new block and the last one before it
      have hlt := (List.getElem?_eq_some_iff.mp hb).1
      rw [List.length_append, List.length_singleton] at hlt
      have hend : i + 1 = blocks.length := by omega
      rw [hend, List.getElem?_concat_length, Option.some.injEq] at hb
      rw [List.getElem?_append_left (by omega), show i = blocks.length - 1 by omega,
        ← List.getLast?_eq_getElem?] at ha
      rw [← hb, hparent, ha]
      rfl
  · by_cases hi : i < blocks.length
    · rw [List.getElem?_append_left hi] at hb
      exact h.certified i b hb
    · have hlt := (List.getElem?_eq_some_iff.mp hb).1
      rw [List.length_append, List.length_singleton] at hlt
      have hend : i = blocks.length := by omega
      rw [hend, List.getElem?_concat_length, Option.some.injEq] at hb
      rw [← hb, hqc, tip, List.getLast?_isSome, ← List.length_pos_iff, List.length_tail]
      omega

end Line

/-- A longer start of a list is a shorter one and what comes after it, also without the head. -/
theorem tail_take_append_drop {α : Type} (l : List α) {m n : Nat} (hm : m ≤ n) :
    (l.take m).tail ++ (l.take n).drop (max m 1) = (l.take n).tail := by
  have hsplit : (l.take n).take m = l.take m := by rw [List.take_take, Nat.min_eq_left hm]
  rw [← hsplit]
  generalize l.take n = l
  cases m with
  | zero => rw [List.take_zero, List.tail_nil, List.nil_append, Nat.max_eq_right (by omega),
      List.drop_one]
  | succ m =>
    cases l with
    | nil => rw [List.take_nil, List.drop_nil, List.append_nil]
    | cons a l =>
      rw [List.take_succ_cons, List.tail_cons, Nat.max_eq_left (by omega), List.drop_succ_cons,
        List.take_append_drop, List.tail_cons]

/-- What is ready in a replica whose tree is a line: the settled blocks that are not committed. -/
theorem Line.ready_eq {σ : Type} {blocks : List Block} (h : Line blocks) {r : Replica σ}
    (htree : r.blockTree = lineTree blocks) {m : Nat}
    (hlog : r.committedLog.map Block.hash = (blocks.take m).tail.map Block.hash) :
    r.ready = (blocks.take (blocks.length - 2)).drop (max m 1) := by
  have hcommitted : ∀ (i : Nat) a, blocks[i]? = some a →
      (r.isCommitted a.hash = true ↔ 0 < i ∧ i < m) := by
    intro i a ha
    rw [Replica.isCommitted_iff, ← List.mem_map, hlog, List.mem_map, ← List.drop_one]
    constructor
    · rintro ⟨b, hb, he⟩
      obtain ⟨j, hj⟩ := List.mem_iff_getElem?.mp hb
      rw [List.getElem?_drop, List.getElem?_take, Option.ite_none_right_eq_some] at hj
      obtain rfl := h.index_unique hj.2 ha he
      exact ⟨by omega, hj.1⟩
    · rintro ⟨hpos, hlt⟩
      refine ⟨a, List.mem_iff_getElem?.mpr ⟨i - 1, ?_⟩, rfl⟩
      rw [List.getElem?_drop, show 1 + (i - 1) = i by omega, List.getElem?_take_of_lt hlt]
      exact ha
  have : Std.Asymm fun a b : Block => a.hash < b.hash := ⟨fun _ _ hab hba => lt_asymm hab hba⟩
  refine (Replica.ready_pairwise (htree ▸ h.keyed)).eq_of_mem_iff ?_ fun a => ?_
  · exact (h.increasing.sublist (List.take_sublist ..)).sublist (List.drop_sublist ..)
  · rw [Replica.mem_ready, htree, h.mem_values]
    constructor
    · rintro ⟨ha, hnot, hchain⟩
      obtain ⟨i, hi⟩ := List.mem_iff_getElem?.mp ha
      obtain ⟨hpos, hlt⟩ := (h.threeChain_eq hi).mp hchain
      have hge : ¬ (0 < i ∧ i < m) := by
        rw [← hcommitted i a hi, hnot]
        exact Bool.false_ne_true
      refine List.mem_iff_getElem?.mpr ⟨i - max m 1, ?_⟩
      rw [List.getElem?_drop, show max m 1 + (i - max m 1) = i by omega,
        List.getElem?_take_of_lt (by omega)]
      exact hi
    · intro ha
      obtain ⟨j, hj⟩ := List.mem_iff_getElem?.mp ha
      rw [List.getElem?_drop, List.getElem?_take, Option.ite_none_right_eq_some] at hj
      refine ⟨List.mem_of_getElem? hj.2, ?_, (h.threeChain_eq hj.2).mpr ⟨by omega, by omega⟩⟩
      rw [← Bool.not_eq_true, hcommitted _ a hj.2]
      omega

/-- A replica whose tree is a line and that has committed a part of what is settled commits the
rest. -/
theorem Line.log_ready {σ : Type} {blocks : List Block} (h : Line blocks) {r : Replica σ}
    (htree : r.blockTree = lineTree blocks) {m : Nat} (hm : m ≤ blocks.length - 2)
    (hlog : r.committedLog = (blocks.take m).tail) :
    r.committedLog ++ r.ready = settled blocks := by
  rw [h.ready_eq htree (congrArg _ hlog), hlog, settled, tail_take_append_drop blocks hm]

end PersistHotStuff
