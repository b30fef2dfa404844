import PersistHotStuff.Basis.TwoChain
import PersistHotStuff.Cluster.Cluster

/-!
# Coherent validators

Committed blocks are bottoms of two-chains: a child in the next view certifies
them and is certified itself. When the trees of the correct validators name the
same blocks, what they signed is compatible and their certificates have quorums
behind them, the rules of two-chains hold and the logs agree.
-/

namespace PersistHotStuff

open Basis

/-- A block is justified from no earlier view than another. -/
def Block.Supersedes (b a : Block) : Prop := ∀ q ∈ a.qc, ∃ q' ∈ b.qc, q.view ≤ q'.view

/-- Two blocks that one validator may both sign, in either order. -/
def Block.Compatible (a b : Block) : Prop :=
  (a.view = b.view → a.hash = b.hash) ∧ (a.view < b.view → b.Supersedes a) ∧
    (b.view < a.view → a.Supersedes b)

instance (b a : Block) : Decidable (b.Supersedes a) :=
  inferInstanceAs (Decidable (∀ q ∈ a.qc, ∃ q' ∈ b.qc, q.view ≤ q'.view))

instance (a b : Block) : Decidable (a.Compatible b) :=
  inferInstanceAs (Decidable ((a.view = b.view → a.hash = b.hash) ∧
    (a.view < b.view → b.Supersedes a) ∧ (b.view < a.view → a.Supersedes b)))

theorem Block.Compatible.symm {a b : Block} (h : a.Compatible b) : b.Compatible a :=
  ⟨fun he => (h.1 he.symm).symm, h.2.2, h.2.1⟩

theorem Block.Compatible.refl (a : Block) : a.Compatible a :=
  ⟨fun _ => rfl, fun h => absurd h (lt_irrefl _), fun h => absurd h (lt_irrefl _)⟩

/-- The block certified by the block with a hash. -/
def justification (tree : OrdMap Hash Block) (hash : Hash) : Option Hash :=
  (tree.get? hash).bind fun b => b.qc.map QuorumCert.blockHash

namespace Cluster

variable {σ : Type}

/-- The block tree of a validator. -/
def tree (c : Cluster σ) (i : ReplicaId) : OrdMap Hash Block := (c.nodes i).replica.blockTree

/-- The committed log of a validator. -/
def log (c : Cluster σ) (i : ReplicaId) : List Block := (c.nodes i).replica.committedLog

/-- No two correct validators have committed different blocks at one index. -/
def LogsAgree (k : Committee) (c : Cluster σ) : Prop :=
  ∀ i j, k.Correct i → k.Correct j → ∀ (m : Nat) (x y : Block), (c.log i)[m]? = some x →
    (c.log j)[m]? = some y → x.hash = y.hash

/-- A quorum stands behind a hash in a view: its correct members have accepted such a block. -/
def Backed (k : Committee) (c : Cluster σ) (hash : Hash) (view : Nat) : Prop :=
  ∃ signers ⊆ Finset.range k.n, 2 * k.f + 1 ≤ signers.card ∧
    ∀ i ∈ signers, k.Correct i → ∃ block, (i, block) ∈ c.accepted ∧ block.hash = hash ∧
      block.view = view

/-- A quorum that stands behind a block keeps doing so. -/
theorem Backed.mono {k : Committee} {c c' : Cluster σ} {hash : Hash} {view : Nat}
    (h : Backed k c hash view) (hsub : ∀ p ∈ c.accepted, p ∈ c'.accepted) :
    Backed k c' hash view := by
  obtain ⟨signers, hrange, hcard, hsigned⟩ := h
  refine ⟨signers, hrange, hcard, fun i hi hcorrect => ?_⟩
  obtain ⟨block, hin, hblock⟩ := hsigned i hi hcorrect
  exact ⟨block, hsub _ hin, hblock⟩

/-- Behind any two backed blocks stands a common correct validator. -/
theorem Backed.common {k : Committee} {c : Cluster σ} {hash hash' : Hash} {view view' : Nat}
    (h : Backed k c hash view) (h' : Backed k c hash' view') :
    ∃ i x y, k.Correct i ∧ (i, x) ∈ c.accepted ∧ (i, y) ∈ c.accepted ∧ x.hash = hash ∧
      x.view = view ∧ y.hash = hash' ∧ y.view = view' := by
  obtain ⟨a, hsub, hlarge, hsigned⟩ := h
  obtain ⟨b, hsub', hlarge', hsigned'⟩ := h'
  obtain ⟨i, hi, hia, hib⟩ := k.exists_correct hsub hsub' hlarge hlarge'
  obtain ⟨x, hx, hxh, hxv⟩ := hsigned i hia hi
  obtain ⟨y, hy, hyh, hyv⟩ := hsigned' i hib hi
  exact ⟨i, x, y, hi, hx, hy, hxh, hxv, hyh, hyv⟩

/-- The first correct validator's block with a hash. -/
def blockAt (k : Committee) (c : Cluster σ) (hash : Hash) : Option Block :=
  ((List.range k.n).filter fun i => k.Correct i).findSome? fun i => (c.tree i).get? hash

/-- A committed block has a child in the next view that certifies it and is backed. -/
def Settled (k : Committee) (c : Cluster σ) (i : ReplicaId) (block : Block) : Prop :=
  block ∈ (c.tree i).values ∧ ∃ child ∈ (c.tree i).values, ∃ q ∈ child.qc,
    q.blockHash = block.hash ∧ child.view = block.view + 1 ∧ Backed k c child.hash child.view

/-- What correct validators keep as long as they are disciplined. -/
structure Coherent (k : Committee) (c : Cluster σ) : Prop where
  keyed : ∀ i, k.Correct i → TreeKeyed (c.tree i)
  /-- A hash names the same block everywhere. -/
  bound : ∀ i j, k.Correct i → k.Correct j → ∀ x ∈ (c.tree i).values, ∀ y ∈ (c.tree j).values,
    x.hash = y.hash → x = y
  /-- Accepted blocks stay in the tree. -/
  kept : ∀ p ∈ c.accepted, k.Correct p.1 → p.2 ∈ (c.tree p.1).values
  /-- Certificates are for the parent, from an earlier view, and have a quorum behind them. -/
  certified : ∀ i, k.Correct i → ∀ block ∈ (c.tree i).values, ∀ q ∈ block.qc,
    block.parent = some q.blockHash ∧ q.view < block.view ∧ Backed k c q.blockHash q.view
  compatible : ∀ p ∈ c.accepted, ∀ p' ∈ c.accepted, p.1 = p'.1 → k.Correct p.1 →
    p.2.Compatible p'.2
  grounded : ∀ i, k.Correct i →
    Grounded (justification (c.tree i)) ((c.log i).map Block.hash)
  settled : ∀ i, k.Correct i → ∀ block ∈ c.log i, Settled k c i block

namespace Coherent

variable {k : Committee} {c : Cluster σ}

/-- A hash is resolved by every correct tree that has it. -/
theorem blockAt_eq (h : Coherent k c) {i : ReplicaId} (hi : k.Correct i) {block : Block}
    (hb : block ∈ (c.tree i).values) : blockAt k c block.hash = some block := by
  have hget := (h.keyed i hi).get? hb
  have hmem : ∀ {j}, j ∈ (List.range k.n).filter (fun i => k.Correct i) ↔ k.Correct j := by
    intro j
    simp only [List.mem_filter, List.mem_range, decide_eq_true_eq]
    exact ⟨fun hj => hj.2, fun hj => ⟨hj.1, hj⟩⟩
  cases hat : blockAt k c block.hash with
  | none =>
    have hnone := List.findSome?_eq_none_iff.mp hat i (hmem.mpr hi)
    rw [hget] at hnone
    cases hnone
  | some other =>
    obtain ⟨j, hj, hother⟩ := List.exists_of_findSome?_eq_some hat
    have hj' := hmem.mp hj
    have hin : other ∈ (c.tree j).values := OrdMap.mem_values.mpr ⟨_, hother⟩
    rw [h.bound i j hi hj' block hb other hin (h.keyed j hj' _ _ hother).symm]

/-- What is resolved is in some correct tree. -/
theorem mem_of_blockAt (h : Coherent k c) {hash : Hash} {block : Block}
    (hat : blockAt k c hash = some block) :
    ∃ i, k.Correct i ∧ block ∈ (c.tree i).values ∧ block.hash = hash := by
  obtain ⟨i, hi, hget⟩ := List.exists_of_findSome?_eq_some hat
  have hi' : k.Correct i := of_decide_eq_true (List.mem_filter.mp hi).2
  exact ⟨i, hi', OrdMap.mem_values.mpr ⟨_, hget⟩, h.keyed i hi' _ _ hget⟩

/-- A backed hash is resolved to a block of that view. -/
theorem blockAt_of_backed (h : Coherent k c) {hash : Hash} {view : Nat}
    (hb : Backed k c hash view) : ∃ block, blockAt k c hash = some block ∧ block.view = view := by
  obtain ⟨i, x, -, hi, hx, -, rfl, rfl, -, -⟩ := hb.common hb
  exact ⟨x, h.blockAt_eq hi (h.kept _ hx hi), rfl⟩

/-- The justification of a hash, as any correct tree that has it tells. -/
def justAt (k : Committee) (c : Cluster σ) (hash : Hash) : Option Hash :=
  (blockAt k c hash).bind fun b => b.qc.map QuorumCert.blockHash

/-- The view of a hash. -/
def viewAt (k : Committee) (c : Cluster σ) (hash : Hash) : Nat :=
  ((blockAt k c hash).map Block.view).getD 0

/-- A quorum stands behind the block with a hash. -/
def CertifiedAt (k : Committee) (c : Cluster σ) (hash : Hash) : Prop :=
  ∃ block, blockAt k c hash = some block ∧ Backed k c hash block.view

theorem justAt_eq_some {hash just : Hash} :
    justAt k c hash = some just ↔
      ∃ block, blockAt k c hash = some block ∧ ∃ q ∈ block.qc, q.blockHash = just := by
  simp only [justAt, Option.bind_eq_some_iff, Option.map_eq_some_iff, Option.mem_def]

theorem viewAt_eq {hash : Hash} {block : Block} (hat : blockAt k c hash = some block) :
    viewAt k c hash = block.view := by
  rw [viewAt, hat]
  rfl

/-- Disciplined validators certify by the rules. -/
theorem certRules (h : Coherent k c) :
    CertRules (justAt k c) (viewAt k c) (CertifiedAt k c) where
  unique a b := by
    rintro ⟨x, hx, hxb⟩ ⟨y, hy, hyb⟩ hview
    obtain ⟨i, x', y', hi, hin, hin', rfl, hxv, rfl, hyv⟩ := hxb.common hyb
    rw [viewAt_eq hx, viewAt_eq hy] at hview
    exact (h.compatible _ hin _ hin' rfl hi).1 (by rw [hxv, hyv, hview])
  descends a b := by
    rintro ⟨y, hy, hyb⟩ hjust
    obtain ⟨y', hy', q, hq, rfl⟩ := justAt_eq_some.mp hjust
    rw [hy'] at hy
    cases hy
    obtain ⟨i, hi, hin, rfl⟩ := h.mem_of_blockAt hy'
    obtain ⟨-, hlt, hbacked⟩ := h.certified i hi _ hin q hq
    obtain ⟨x, hx, hxv⟩ := h.blockAt_of_backed hbacked
    refine ⟨⟨x, hx, hxv ▸ hbacked⟩, ?_⟩
    rw [viewAt_eq hx, viewAt_eq hy', hxv]
    exact hlt
  locks a b d := by
    rintro ⟨y, hy, hyb⟩ hjust hnext ⟨z, hz, hzb⟩ hlt
    obtain ⟨y', hy', q, hq, rfl⟩ := justAt_eq_some.mp hjust
    rw [hy'] at hy
    cases hy
    obtain ⟨j, hj, hinj, rfl⟩ := h.mem_of_blockAt hy'
    obtain ⟨l, hl, hinl, rfl⟩ := h.mem_of_blockAt hz
    -- a correct validator signed both, and what it signed is what the trees hold
    obtain ⟨i, y'', z'', hi, hiny, hinz, hyh, -, hzh, -⟩ := hyb.common hzb
    have heqy := h.bound i j hi hj _ (h.kept _ hiny hi) _ hinj hyh
    have heqz := h.bound i l hi hl _ (h.kept _ hinz hi) _ hinl hzh
    subst heqy heqz
    rw [viewAt_eq hy', viewAt_eq hz] at hlt
    obtain ⟨q', hq', hle⟩ := (h.compatible _ hiny _ hinz rfl hi).2.1 hlt q hq
    refine ⟨q'.blockHash, justAt_eq_some.mpr ⟨_, hz, q', hq', rfl⟩, ?_⟩
    obtain ⟨-, -, hbacked⟩ := h.certified j hj _ hinj q hq
    obtain ⟨x, hx, hxv⟩ := h.blockAt_of_backed hbacked
    obtain ⟨-, -, hbacked'⟩ := h.certified l hl _ hinl q' hq'
    obtain ⟨x', hx', hxv'⟩ := h.blockAt_of_backed hbacked'
    rw [viewAt_eq hx, viewAt_eq hx', hxv, hxv']
    exact hle

/-- A committed block is the bottom of a two-chain. -/
theorem bottom_of_settled (h : Coherent k c) {i : ReplicaId} (hi : k.Correct i) {block : Block}
    (hs : Settled k c i block) :
    TwoChainBottom (justAt k c) (viewAt k c) (CertifiedAt k c) block.hash := by
  obtain ⟨hin, child, hchild, q, hq, hname, hview, hbacked⟩ := hs
  have hat := h.blockAt_eq hi hin
  have hatc := h.blockAt_eq hi hchild
  refine ⟨child.hash, ⟨child, hatc, hbacked⟩, justAt_eq_some.mpr ⟨child, hatc, q, hq, hname⟩, ?_⟩
  rw [viewAt_eq hat, viewAt_eq hatc]
  exact hview

/-- The log of a correct validator is a path of certified blocks from a root. -/
theorem rooted (h : Coherent k c) {i : ReplicaId} (hi : k.Correct i) :
    Rooted (justAt k c) ((c.log i).map Block.hash) ∧ ∀ hash ∈ (c.log i).map Block.hash,
      TwoChainBottom (justAt k c) (viewAt k c) (CertifiedAt k c) hash := by
  have hbottom : ∀ hash ∈ (c.log i).map Block.hash,
      TwoChainBottom (justAt k c) (viewAt k c) (CertifiedAt k c) hash := by
    intro hash hin
    obtain ⟨block, hb, rfl⟩ := List.mem_map.mp hin
    exact h.bottom_of_settled hi (h.settled i hi block hb)
  refine ⟨Grounded.rooted h.certRules ((h.grounded i hi).congr fun hash hin => ?_) hbottom, hbottom⟩
  obtain ⟨block, hb, rfl⟩ := List.mem_map.mp hin
  have hblock := (h.settled i hi block hb).1
  rw [justAt, justification, h.blockAt_eq hi hblock, (h.keyed i hi).get? hblock]

/-- Coherent validators have committed the same. -/
theorem logsAgree (h : Coherent k c) : LogsAgree k c := by
  intro i j hi hj m x y hx hy
  obtain ⟨hrooted, hbottom⟩ := h.rooted hi
  obtain ⟨hrooted', hbottom'⟩ := h.rooted hj
  refine rooted_agree h.certRules hrooted hrooted' hbottom hbottom' m ?_ ?_
  · rw [List.getElem?_map, hx]
    rfl
  · rw [List.getElem?_map, hy]
    rfl

end Coherent

section Genesis

variable [Sha256] [Bincode Snapshot]

/-- Where the validators start: nothing accepted, nothing committed, genesis alone in the trees. -/
structure Genesis (k : Committee) (c : Cluster σ) : Prop where
  accepted : c.accepted = []
  roster : OnRoster k c
  tree : ∀ i, k.Correct i → c.tree i = genesisTree
  log : ∀ i, k.Correct i → c.log i = []

/-- Validators are coherent at genesis. -/
theorem Genesis.coherent {k : Committee} {c : Cluster σ} (h : Genesis k c) : Coherent k c := by
  have hvalues : ∀ {i}, k.Correct i → ∀ {block}, block ∈ (c.tree i).values →
      block = genesisBlock := by
    intro i hi block hb
    rw [h.tree i hi] at hb
    exact List.mem_singleton.mp hb
  constructor
  case keyed =>
    intro i hi
    rw [h.tree i hi]
    exact treeKeyed_genesis
  case bound =>
    intro i j hi hj x hx y hy _
    rw [hvalues hi hx, hvalues hj hy]
  case kept =>
    intro p hp
    rw [h.accepted] at hp
    cases hp
  case certified =>
    intro i hi block hb q hq
    rw [hvalues hi hb] at hq
    cases hq
  case compatible =>
    intro p hp
    rw [h.accepted] at hp
    cases hp
  case grounded =>
    intro i hi
    rw [h.log i hi]
    exact Grounded.nil
  case settled =>
    intro i hi block hb
    rw [h.log i hi] at hb
    cases hb

end Genesis

end Cluster

end PersistHotStuff
