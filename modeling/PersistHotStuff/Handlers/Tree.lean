import PersistHotStuff.Basis.Forest
import PersistHotStuff.Handlers.Call
import PersistHotStuff.Source.Sample

/-!
# The block tree

Every call inserts at most one block, and which one is decided by the state
before it. Nothing keeps the hash of that block from naming another block
already, nor its parent from being unknown or one of its descendants.
-/

namespace PersistHotStuff

open Basis

namespace Replica

section Offers

variable {σ : Type}

/-- A proposing call that proposes makes the next block, with its hash and command. -/
theorem proposeBy_snd (now : Nat) (r : Replica σ) (view : Nat) (how : ProposeCall) :
    (r.proposeBy now view how).2 =
      if r.proposes now view how then
        some (r.nextBlock view (r.proposedHash how) (r.proposedCommand how))
      else none := by
  rw [proposeBy_eq]
  split <;> rfl

variable [Ed25519] [Sha256]

/-- The block a call offers to the tree: the proposal it makes or accepts. -/
def offered (r : Replica σ) (c : Nat × Call) : Option Block :=
  match c.2 with
  | .propose how view =>
      if r.proposes c.1 view how then
        some (r.nextBlock view (r.proposedHash how) (r.proposedCommand how))
      else none
  | .validateAndInsertProposal block => if r.acceptsProposal block then some block else none
  | _ => none

/-- What is offered is what is inserted. -/
theorem inserted_eq_offered (r : Replica σ) (c : Nat × Call) : r.inserted c = r.offered c := by
  obtain ⟨now, call⟩ := c
  cases call with
  | propose how view => exact r.proposeBy_snd now view how
  | _ => rfl

variable [Bincode LogEntry] [Crc32] [App σ]

/-- A call keeps every block of the tree exactly when no other block has the hash it offers. -/
theorem keeps_blocks_iff (r : Replica σ) (c : Nat × Call) :
    (∀ hash block, r.blockTree.get? hash = some block →
        (r.step c).blockTree.get? hash = some block) ↔
      ∀ block ∈ r.offered c, ∀ old ∈ r.blockTree.get? block.hash, old = block := by
  rw [step_blockTree, inserted_eq_offered]
  cases r.offered c with
  | none => exact iff_of_true (fun _ _ h => h) fun _ h => by cases h
  | some new =>
    simp only [insertInto, Option.mem_def, Option.some.injEq, forall_eq']
    constructor
    · intro h old hold
      have hkept := h new.hash old hold
      rw [OrdMap.get?_insert_self] at hkept
      exact (Option.some.inj hkept).symm
    · intro h hash block hblock
      rw [OrdMap.get?_insert]
      split
      · rename_i he
        rw [he] at hblock
        rw [h block hblock]
      · exact hblock

end Offers

end Replica

/-- The parent links of a tree. -/
def parentLinks (tree : OrdMap Hash Block) (hash : Hash) : Option (Option Hash) :=
  (tree.get? hash).map Block.parent

/-- Every block has no parent or one in the tree, reaches a block without parent in at most as many
steps as there are blocks, and is not its own ancestor. -/
structure TreeForest (tree : OrdMap Hash Block) : Prop where
  parents : ∀ block ∈ tree.values, ∀ parent ∈ block.parent, tree.contains parent = true
  rooted : ∀ block ∈ tree.values, reachesRoot (parentLinks tree) tree.length block.hash = true
  acyclic : ∀ hash, ¬ Relation.TransGen (Link (parentLinks tree)) hash hash

theorem parentLinks_ne_none {tree : OrdMap Hash Block} {hash : Hash} :
    parentLinks tree hash ≠ none ↔ tree.contains hash = true := by
  rw [parentLinks, OrdMap.contains, ne_eq, Option.map_eq_none_iff, Option.isSome_iff_ne_none]

/-- Inserting a block links its hash anew. -/
theorem parentLinks_insert (tree : OrdMap Hash Block) (block : Block) :
    parentLinks (tree.insert block.hash block) =
      Function.update (parentLinks tree) block.hash (some block.parent) := by
  funext hash
  rw [parentLinks, OrdMap.get?_insert]
  split
  · rename_i he
    rw [he, Function.update_self]
    rfl
  · rename_i he
    rw [Function.update_of_ne he]
    rfl

/-- The climbs of a forest are no longer than it has blocks. -/
theorem height_lt_length {tree : OrdMap Hash Block} {hash : Hash} {m : Nat}
    (h : HasHeight (parentLinks tree) hash m) : m < tree.length := by
  have hkeys : ∀ k, parentLinks tree k ≠ none → k ∈ tree.keys.toFinset := fun k hk =>
    List.mem_toFinset.mpr (OrdMap.mem_keys.mpr (parentLinks_ne_none.mp hk))
  exact (h.lt_card hkeys).trans_le ((List.toFinset_card_le _).trans (OrdMap.length_keys tree).le)

/-- A keyed tree is a forest exactly when its links are. -/
theorem treeForest_iff {tree : OrdMap Hash Block} (hkeyed : TreeKeyed tree) :
    TreeForest tree ↔ Forest (parentLinks tree) := by
  constructor
  · intro h hash hpresent
    obtain ⟨block, hblock⟩ := OrdMap.contains_iff.mp (parentLinks_ne_none.mp hpresent)
    have hrooted := h.rooted block (OrdMap.mem_values.mpr ⟨hash, hblock⟩)
    rw [hkeyed hash block hblock] at hrooted
    obtain ⟨n, -, hn⟩ := reachesRoot_iff.mp hrooted
    exact ⟨n, hn⟩
  · intro h
    have hlink : ∀ block ∈ tree.values, parentLinks tree block.hash = some block.parent := by
      intro block hblock
      rw [parentLinks, hkeyed.get? hblock]
      rfl
    refine ⟨fun block hblock parent hp => ?_, fun block hblock => ?_, h.acyclic⟩
    · rw [Option.mem_def] at hp
      have hparent := h.parent_present ((hlink block hblock).trans (congrArg some hp))
      exact parentLinks_ne_none.mp hparent
    · have hpresent : parentLinks tree block.hash ≠ none := by
        rw [hlink block hblock]
        exact Option.some_ne_none _
      obtain ⟨m, hm⟩ := h _ hpresent
      exact reachesRoot_iff.mpr ⟨m, (height_lt_length hm).le, hm⟩

/-- The block has no parent, or one that is in the tree and does not climb to the block's hash. -/
def FitsForest (tree : OrdMap Hash Block) (block : Block) : Prop :=
  ∀ parent ∈ block.parent, tree.contains parent = true ∧
    climbsTo (parentLinks tree) block.hash tree.length parent = false

instance (tree : OrdMap Hash Block) : DecidablePred (FitsForest tree) := fun block =>
  inferInstanceAs (Decidable (∀ parent ∈ block.parent, tree.contains parent = true ∧
    climbsTo (parentLinks tree) block.hash tree.length parent = false))

/-- A forest stays one exactly when the block inserted fits. -/
theorem forest_insert_iff {tree : OrdMap Hash Block} (h : Forest (parentLinks tree))
    (block : Block) :
    Forest (parentLinks (tree.insert block.hash block)) ↔ FitsForest tree block := by
  rw [parentLinks_insert, forest_update_iff h, FitsForest]
  refine forall₂_congr fun parent _ => ?_
  rw [parentLinks_ne_none]
  refine and_congr_right fun hpresent => ?_
  obtain ⟨m, hm⟩ := h parent (parentLinks_ne_none.mpr hpresent)
  rw [← Bool.not_eq_true, hm.climbsTo_iff (height_lt_length hm).le]

/-- A tree with genesis alone is a forest. -/
theorem treeForest_genesis : TreeForest genesisTree := by
  rw [treeForest_iff treeKeyed_genesis]
  intro hash hpresent
  refine ⟨0, HasHeight.root ?_⟩
  rw [genesisTree, show (0 : Hash) = genesisBlock.hash from rfl, parentLinks_insert] at hpresent ⊢
  by_cases he : hash = genesisBlock.hash
  · rw [he, Function.update_self]
    rfl
  · rw [Function.update_of_ne he] at hpresent
    exact absurd rfl hpresent

namespace Replica

section Forests

variable {σ : Type} [Ed25519] [Sha256] [Bincode LogEntry] [Crc32] [App σ]

/-- Whatever a call offers fits into the tree. -/
def OffersFit (r : Replica σ) (c : Nat × Call) : Prop :=
  ∀ block ∈ r.offered c, FitsForest r.blockTree block

instance (r : Replica σ) : DecidablePred r.OffersFit := fun c =>
  inferInstanceAs (Decidable (∀ block ∈ r.offered c, FitsForest r.blockTree block))

/-- A call keeps the forest exactly when what it offers fits. -/
theorem treeForest_step_iff {r : Replica σ} (hkeyed : TreeKeyed r.blockTree)
    (h : TreeForest r.blockTree) (c : Nat × Call) :
    TreeForest (r.step c).blockTree ↔ r.OffersFit c := by
  rw [treeForest_iff (treeKeyed_step hkeyed c), step_blockTree, inserted_eq_offered, OffersFit]
  have hforest := (treeForest_iff hkeyed).mp h
  cases r.offered c with
  | none => exact iff_of_true hforest fun _ hb => by cases hb
  | some block =>
    simp only [insertInto, Option.mem_def, Option.some.injEq, forall_eq']
    exact forest_insert_iff hforest block

/-- From genesis on, the tree is a forest throughout a run exactly when every block offered fits the
tree of its time. -/
theorem treeForest_throughout_iff {r : Replica σ} (hgenesis : r.blockTree = genesisTree)
    (calls : List (Nat × Call)) :
    Throughout step (fun r => TreeForest r.blockTree) r calls ↔ Along step OffersFit r calls := by
  refine throughout_iff_along (D := fun _ _ => True)
    (I := fun r : Replica σ => TreeKeyed r.blockTree)
    (fun r c h _ => treeKeyed_step h c) (fun r c hkeyed h => treeForest_step_iff hkeyed h c)
    (hgenesis ▸ treeKeyed_genesis) (hgenesis ▸ treeForest_genesis) ?_
  exact along_of_forall (fun _ _ => trivial) r calls

end Forests

section Samples

open Sample

/-- Replica 1 accepts the first block of leader 0. -/
def acceptFirst : Nat × Call := (1, .validateAndInsertProposal (block 1 0 0 0 none))

/-- Two blocks of one chain, the second with a certificate for the first, and a commit scan. -/
def growingChain : List (Nat × Call) :=
  [acceptFirst, (2, .validateAndInsertProposal (block 2 1 1 1 (some (qc [0, 2, 3] 1 0 0)))),
    (3, .commitAll)]

theorem treeForest_growing :
    Throughout step (fun r => TreeForest r.blockTree) (party 4 3) growingChain :=
  (treeForest_throughout_iff rfl growingChain).mpr (by decide +kernel)

/-- The next leader gives its block the hash of the block it accepted. -/
theorem own_proposal_replaces :
    ¬ ∀ hash block, ((party 4 1).step acceptFirst).blockTree.get? hash = some block →
      (((party 4 1).step acceptFirst).step (2, .propose .propose 1)).blockTree.get? hash =
        some block := by
  intro h
  have hkept := h 1 (block 1 0 0 0 none) (by decide +kernel)
  have hreplaced : (((party 4 1).step acceptFirst).step (2, .propose .propose 1)).blockTree.get? 1 ≠
      some (block 1 0 0 0 none) := by decide +kernel
  exact hreplaced hkept

/-- That block is its own parent. -/
theorem own_proposal_loops :
    (party 4 1).blockTree = genesisTree ∧
      ¬ Throughout step (fun r => TreeForest r.blockTree) (party 4 1)
        [acceptFirst, (2, .propose .propose 1)] := by
  refine ⟨by decide +kernel, fun h => ?_⟩
  have hforest := h _ (List.prefix_refl _)
  have hloop : Link (parentLinks (run step (party 4 1)
      [acceptFirst, (2, .propose .propose 1)]).blockTree) 1 1 := by
    rw [Link]
    decide +kernel
  exact hforest.acyclic 1 (Relation.TransGen.single hloop)

end Samples

end Replica

end PersistHotStuff
