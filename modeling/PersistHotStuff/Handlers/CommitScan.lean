import PersistHotStuff.Handlers.Membership

/-!
# The commit scan

`commitAll` repeats a search in hash order until it fails. The search reads the
tree and the set of committed hashes only, so the whole loop commits, in hash
order, exactly the blocks that are ready when it starts.
-/

namespace PersistHotStuff

open Basis

/-- Every block sits in the tree under its own hash. -/
def TreeKeyed (tree : OrdMap Hash Block) : Prop :=
  ∀ hash block, tree.get? hash = some block → block.hash = hash

theorem treeKeyed_iff {tree : OrdMap Hash Block} :
    TreeKeyed tree ↔ ∀ p ∈ tree.entries, p.2.hash = p.1 :=
  ⟨fun h p hp => h p.1 p.2 (OrdMap.get?_eq_some.mpr hp),
    fun h hash block hb => h (hash, block) (OrdMap.get?_eq_some.mp hb)⟩

instance : DecidablePred TreeKeyed := fun _ => decidable_of_iff' _ treeKeyed_iff

/-- Inserting a block under its own hash keeps the keys. -/
theorem TreeKeyed.insert {tree : OrdMap Hash Block} (h : TreeKeyed tree) (block : Block) :
    TreeKeyed (tree.insert block.hash block) := by
  intro hash b hb
  rw [OrdMap.get?_insert] at hb
  split at hb
  · rename_i he
    rw [← Option.some.inj hb, he]
  · exact h hash b hb

/-- A block of the tree is found under its own hash. -/
theorem TreeKeyed.get? {tree : OrdMap Hash Block} (h : TreeKeyed tree) {block : Block}
    (hb : block ∈ tree.values) : tree.get? block.hash = some block := by
  obtain ⟨k, hk⟩ := OrdMap.mem_values.mp hb
  rwa [h k block hk]

/-- The blocks of the tree are listed by increasing hash. -/
theorem TreeKeyed.values_pairwise {tree : OrdMap Hash Block} (h : TreeKeyed tree) :
    tree.values.Pairwise fun a b => a.hash < b.hash := by
  have hk := treeKeyed_iff.mp h
  refine List.pairwise_map.mpr (List.Pairwise.imp_of_mem ?_ tree.sorted)
  intro p q hp hq hlt
  rw [hk p hp, hk q hq]
  exact hlt

/-- The first child is a child, and no child has a lower hash. -/
theorem firstChild_eq_some {tree : OrdMap Hash Block} (h : TreeKeyed tree) {hash : Hash}
    {child : Block} :
    firstChild tree hash = some child ↔
      child ∈ tree.values ∧ child.parent = some hash ∧
        ∀ b ∈ tree.values, b.parent = some hash → child.hash ≤ b.hash := by
  rw [firstChild, OrdMap.find?_values_eq_some, beq_iff_eq]
  constructor
  · rintro ⟨hp, k, hk, hleast⟩
    refine ⟨OrdMap.mem_values.mpr ⟨k, hk⟩, hp, ?_⟩
    intro b hb hbp
    by_contra hlt
    have := hleast b.hash b (h.get? hb) (by rw [← h k child hk]; exact not_le.mp hlt)
    simp [hbp] at this
  · rintro ⟨hin, hp, hleast⟩
    refine ⟨hp, child.hash, h.get? hin, ?_⟩
    intro k b hb hlt
    by_contra hbp
    have hle := hleast b (OrdMap.mem_values.mpr ⟨k, hb⟩) (by simpa using hbp)
    rw [h k b hb] at hle
    exact absurd hlt hle.not_gt

/-- A block is in a three-chain when its first child and that child's first child have
certificates. -/
theorem threeChain_iff {tree : OrdMap Hash Block} {b0 : Block} :
    threeChain tree b0 = true ↔
      ∃ b1 b2, firstChild tree b0.hash = some b1 ∧ b1.qc.isSome = true ∧
        firstChild tree b1.hash = some b2 ∧ b2.qc.isSome = true := by
  unfold threeChain
  cases h1 : firstChild tree b0.hash with
  | none => simp
  | some b1 =>
    cases h2 : firstChild tree b1.hash with
    | none => simp [h2]
    | some b2 => simp [h2]

namespace Replica

variable {σ : Type}

/-- The blocks the scan would commit, in the order of the scan. -/
def ready (r : Replica σ) : List Block :=
  r.blockTree.values.filter fun b => !r.isCommitted b.hash && threeChain r.blockTree b

theorem mem_ready {r : Replica σ} {block : Block} :
    block ∈ r.ready ↔ block ∈ r.blockTree.values ∧ r.isCommitted block.hash = false ∧
      threeChain r.blockTree block = true := by
  simp [ready, List.mem_filter]

/-- The scan finds the first ready block. -/
theorem findCommittedBlock_eq (r : Replica σ) : r.findCommittedBlock = r.ready.head? :=
  (List.head?_filter ..).symm

/-- Ready blocks are listed by increasing hash. -/
theorem ready_pairwise {r : Replica σ} (h : TreeKeyed r.blockTree) :
    r.ready.Pairwise fun a b => a.hash < b.hash := h.values_pairwise.filter _

theorem isCommitted_iff {r : Replica σ} {hash : Hash} :
    r.isCommitted hash = true ↔ ∃ b ∈ r.committedLog, b.hash = hash := by
  simp [isCommitted]

/-- Forwarding to the application touches nothing else. -/
theorem applyToApp_eq [App σ] (r : Replica σ) (block : Block) :
    r.applyToApp block = { r with app := (r.applyToApp block).app } := by
  unfold applyToApp
  cases r.app <;> rfl

section Commit

variable [Ed25519] [Bincode LogEntry] [Crc32] [App σ] (now : Nat) (r : Replica σ) (block : Block)

/-- Committing a block, field by field. -/
theorem executeAndCommit_eq :
    r.executeAndCommit now block =
      { r.withMembership (r.membership.apply block.command)
          (if r.membership.effective block.command then OrdMap.empty else r.votePool) with
        committedLog := r.committedLog ++ [block]
        committedUpTo := some block.hash
        wal := r.wal.map fun w =>
          (w.append (LogEntry.fromCommittedBlock now block r.committedLog.length)).2
        app := (r.executeAndCommit now block).app
        viewStartTime := now } := by
  simp only [executeAndCommit, record, onCommit]
  rw [applyMembershipCommand_eq, applyToApp_eq]
  rfl

@[simp] theorem executeAndCommit_blockTree :
    (r.executeAndCommit now block).blockTree = r.blockTree := by
  rw [executeAndCommit_eq]; rfl

@[simp] theorem executeAndCommit_committedLog :
    (r.executeAndCommit now block).committedLog = r.committedLog ++ [block] := by
  rw [executeAndCommit_eq]

@[simp] theorem executeAndCommit_committedUpTo :
    (r.executeAndCommit now block).committedUpTo = some block.hash := by
  rw [executeAndCommit_eq]

@[simp] theorem executeAndCommit_highQc : (r.executeAndCommit now block).highQc = r.highQc := by
  rw [executeAndCommit_eq]; rfl

@[simp] theorem executeAndCommit_currentView :
    (r.executeAndCommit now block).currentView = r.currentView := by
  rw [executeAndCommit_eq]; rfl

@[simp] theorem executeAndCommit_membership :
    (r.executeAndCommit now block).membership = r.membership.apply block.command := by
  rw [executeAndCommit_eq]; rfl

@[simp] theorem executeAndCommit_wal :
    (r.executeAndCommit now block).wal = r.wal.map fun w =>
      (w.append (LogEntry.fromCommittedBlock now block r.committedLog.length)).2 := by
  rw [executeAndCommit_eq]

/-- Committing the first ready block leaves the others ready. -/
theorem ready_executeAndCommit (h : TreeKeyed r.blockTree) {rest : List Block}
    (hready : r.ready = block :: rest) : (r.executeAndCommit now block).ready = rest := by
  have hpw := ready_pairwise h
  rw [hready, List.pairwise_cons] at hpw
  have hsplit : (r.executeAndCommit now block).ready =
      r.ready.filter fun b => b.hash != block.hash := by
    simp only [ready, executeAndCommit_blockTree, isCommitted, executeAndCommit_committedLog,
      List.any_append, List.any_cons, List.any_nil, Bool.or_false, List.filter_filter]
    refine List.filter_congr fun b _ => ?_
    rw [Bool.not_or, Bool.and_assoc, Bool.and_left_comm, BEq.comm, bne]
  rw [hsplit, hready, List.filter_cons_of_neg (by simp), List.filter_eq_self]
  intro b hb
  simpa using (hpw.1 b hb).ne'

/-- The loop commits the ready blocks, as many as its bound allows. -/
theorem commitLoop_eq_foldl (h : TreeKeyed r.blockTree) {fuel : Nat}
    (hfuel : r.ready.length ≤ fuel) :
    commitLoop now fuel r = r.ready.foldl (executeAndCommit now) r := by
  induction fuel generalizing r with
  | zero =>
    rw [List.length_eq_zero_iff.mp (Nat.le_zero.mp hfuel)]
    rfl
  | succ fuel ih =>
    cases hr : r.ready with
    | nil => simp [commitLoop, tryCommitOnce, findCommittedBlock_eq, hr]
    | cons block rest =>
      have hrest := ready_executeAndCommit now r block h hr
      have hlen : (r.executeAndCommit now block).ready.length ≤ fuel := by
        rw [hrest]
        rw [hr, List.length_cons] at hfuel
        omega
      have hkeyed : TreeKeyed (r.executeAndCommit now block).blockTree := by
        rwa [executeAndCommit_blockTree]
      simp only [commitLoop, tryCommitOnce, findCommittedBlock_eq, hr, List.head?_cons]
      rw [ih _ hkeyed hlen, hrest, List.foldl_cons]

/-- `commitAll` commits exactly the ready blocks, in hash order. -/
theorem commitAll_eq_foldl (h : TreeKeyed r.blockTree) :
    r.commitAll now = r.ready.foldl (executeAndCommit now) r := by
  refine commitLoop_eq_foldl now r h ?_
  rw [← OrdMap.length_values]
  exact List.length_filter_le ..

/-- What every commit preserves, the whole loop preserves. -/
theorem commitAll_preserves {I : Replica σ → Prop}
    (hI : ∀ r block, I r → I (executeAndCommit now r block)) (h : I r) : I (r.commitAll now) := by
  have hloop : ∀ fuel r, I r → I (commitLoop now fuel r) := by
    intro fuel
    induction fuel with
    | zero => exact fun _ h => h
    | succ fuel ih =>
      intro r hr
      simp only [commitLoop, tryCommitOnce]
      cases r.findCommittedBlock with
      | none => exact hr
      | some block => exact ih _ (hI r block hr)
  exact hloop _ r h

/-- What no commit changes, the whole loop leaves unchanged. -/
theorem commitAll_field {β : Type} (f : Replica σ → β)
    (hf : ∀ r block, f (executeAndCommit now r block) = f r) : f (r.commitAll now) = f r :=
  commitAll_preserves now r (fun r block h => (hf r block).trans h) rfl

@[simp] theorem commitAll_blockTree : (r.commitAll now).blockTree = r.blockTree :=
  commitAll_field now r blockTree (executeAndCommit_blockTree now)

@[simp] theorem commitAll_highQc : (r.commitAll now).highQc = r.highQc :=
  commitAll_field now r highQc (executeAndCommit_highQc now)

@[simp] theorem commitAll_currentView : (r.commitAll now).currentView = r.currentView :=
  commitAll_field now r currentView (executeAndCommit_currentView now)

/-- The log grows by the ready blocks. -/
theorem commitAll_committedLog (h : TreeKeyed r.blockTree) :
    (r.commitAll now).committedLog = r.committedLog ++ r.ready := by
  rw [commitAll_eq_foldl now r h]
  generalize r.ready = bs
  induction bs generalizing r with
  | nil => simp
  | cons b bs ih =>
    rw [List.foldl_cons, ih _ (by rwa [executeAndCommit_blockTree]), executeAndCommit_committedLog,
      List.append_assoc]
    rfl

/-- The membership folds over the commands of the ready blocks. -/
theorem commitAll_membership (h : TreeKeyed r.blockTree) :
    (r.commitAll now).membership = r.membership.fold (r.ready.map Block.command) := by
  rw [commitAll_eq_foldl now r h]
  generalize r.ready = bs
  induction bs generalizing r with
  | nil => rfl
  | cons b bs ih =>
    rw [List.foldl_cons, ih _ (by rwa [executeAndCommit_blockTree]), executeAndCommit_membership]
    rfl

/-- Once `commitAll` returns, the scan finds nothing more. -/
theorem ready_commitAll (h : TreeKeyed r.blockTree) : (r.commitAll now).ready = [] := by
  rw [List.eq_nil_iff_forall_not_mem]
  intro b hb
  obtain ⟨hin, hc, h3⟩ := mem_ready.mp hb
  rw [commitAll_blockTree] at hin h3
  have hall : ∀ b' ∈ r.committedLog ++ r.ready, b'.hash ≠ b.hash := by
    intro b' hb' he
    rw [← commitAll_committedLog now r h] at hb'
    rw [isCommitted_iff.mpr ⟨b', hb', he⟩] at hc
    cases hc
  have hnc : r.isCommitted b.hash = false := by
    rw [← Bool.not_eq_true, isCommitted_iff]
    rintro ⟨b', hb', he⟩
    exact hall b' (List.mem_append_left _ hb') he
  exact hall b (List.mem_append_right _ (mem_ready.mpr ⟨hin, hnc, h3⟩)) rfl

end Commit

end Replica

end PersistHotStuff
