import PersistHotStuff.Durability.Pointers
import PersistHotStuff.Handlers.CommitOrder

/-!
# The history of a simulation

What has happened so far, as no single replica knows it: all blocks proposed and
the blocks certified, in order. When every certified block certifies the one
certified before it, whatever a replica commits after what it certifies is the
next certified block.
-/

namespace PersistHotStuff

open Basis

/-- What every form of storage keeps of a block: its hash, its parent and the certified hash. -/
def Block.outline (block : Block) : Hash × Option Hash × Option Hash :=
  (block.hash, block.parent, block.qc.map QuorumCert.blockHash)

/-- Every block of a tree is one of the given blocks, as far as storage keeps it. -/
def KnownTree (blocks : List Block) (tree : OrdMap Hash Block) : Prop :=
  ∀ b ∈ tree.values, ∃ b₀ ∈ blocks, b₀.outline = b.outline

theorem KnownTree.mono {blocks more : List Block} {tree : OrdMap Hash Block}
    (h : KnownTree blocks tree) (hsub : ∀ b ∈ blocks, b ∈ more) : KnownTree more tree := by
  intro b hb
  obtain ⟨b₀, hb₀, he⟩ := h b hb
  exact ⟨b₀, hsub b₀ hb₀, he⟩

/-- A tree stays known when a known block is inserted. -/
theorem KnownTree.insert {blocks : List Block} {tree : OrdMap Hash Block}
    (h : KnownTree blocks tree) {block : Block} (hash : Hash)
    (hb : ∃ b₀ ∈ blocks, b₀.outline = block.outline) :
    KnownTree blocks (tree.insert hash block) := by
  intro b hin
  obtain ⟨key, hget⟩ := OrdMap.mem_values.mp hin
  rw [OrdMap.get?_insert] at hget
  split at hget
  · rw [← Option.some.inj hget]
    exact hb
  · exact h b (OrdMap.mem_values.mpr ⟨key, hget⟩)

/-- The blocks proposed and the hashes certified, oldest first. -/
structure History where
  blocks : List Block
  certs : List Hash
  deriving DecidableEq

namespace History

/-- Before the first round. -/
def genesis : History := ⟨[genesisBlock], []⟩

/-- One more block is proposed. -/
def propose (h : History) (block : Block) : History := { h with blocks := h.blocks ++ [block] }

/-- The outcome of a vote: maybe one more block is certified. -/
def certify (h : History) (formed : Option QuorumCert) : History :=
  { h with certs := h.certs ++ (formed.map QuorumCert.blockHash).toList }

/-- The block certified by the block with a hash. -/
def just (h : History) (hash : Hash) : Option Hash :=
  (h.blocks.find? fun b => b.hash == hash).bind fun b => b.qc.map QuorumCert.blockHash

/-- A history in which every certified block certifies the one certified before it. `nextHash` is
the next hash the network gives out. -/
structure Ok (h : History) (nextHash : Hash) : Prop where
  distinct : h.blocks.Pairwise fun a b => a.hash ≠ b.hash
  below : ∀ b ∈ h.blocks, b.hash < nextHash
  /-- A certificate in a block is for its parent, which is certified. -/
  certified : ∀ b ∈ h.blocks, ∀ q ∈ b.qc, b.parent = some q.blockHash ∧ q.blockHash ∈ h.certs
  known : ∀ hash ∈ h.certs, ∃ b ∈ h.blocks, b.hash = hash
  nodup : h.certs.Nodup
  rooted : Rooted h.just h.certs

/-- Pointers within a history: the committed hashes start the certified ones, the high certificate
is for one of them. -/
structure Bounds (h : History) (p : Pointers) : Prop where
  committed : p.committed <+: h.certs
  highQc : ∀ q ∈ p.highQc, q.1 ∈ h.certs

/-- A replica that knows nothing beyond a history. -/
structure Follows {σ : Type} (h : History) (r : Replica σ) : Prop where
  keyed : TreeKeyed r.blockTree
  known : KnownTree h.blocks r.blockTree
  bounds : h.Bounds r.pointers

theorem ok_genesis : genesis.Ok 1 where
  distinct := List.pairwise_singleton ..
  below b hb := by
    rw [List.mem_singleton.mp hb]
    decide
  certified b hb q hq := by
    rw [List.mem_singleton.mp hb] at hq
    cases hq
  known _ hc := by cases hc
  nodup := List.nodup_nil
  rooted := ⟨fun _ hb => (by cases hb), List.isChain_nil⟩

/-- The justification of a proposed block is what it certifies. -/
theorem just_eq {h : History} (hdistinct : h.blocks.Pairwise fun a b => a.hash ≠ b.hash)
    {block : Block} (hb : block ∈ h.blocks) :
    h.just block.hash = block.qc.map QuorumCert.blockHash := by
  have hfind : h.blocks.find? (fun b => b.hash == block.hash) = some block := by
    obtain ⟨before, after, heq⟩ := List.append_of_mem hb
    rw [heq] at hdistinct ⊢
    refine List.find?_eq_some_iff_append.mpr ⟨by simp, before, after, rfl, fun b hb => ?_⟩
    simpa using (List.pairwise_append.mp hdistinct).2.2 b hb block (List.mem_cons_self ..)
  rw [just, hfind]
  rfl

/-- Hashes may be given out without being used. -/
theorem Ok.mono {h : History} {nextHash nextHash' : Hash} (hok : h.Ok nextHash)
    (hle : nextHash ≤ nextHash') : h.Ok nextHash' :=
  { hok with below := fun b hb => (hok.below b hb).trans_le hle }

/-- A new block with the next hash that certifies its parent keeps a history in order. -/
theorem Ok.propose {h : History} {block : Block} (hok : h.Ok block.hash)
    (hcert : ∀ q ∈ block.qc, block.parent = some q.blockHash ∧ q.blockHash ∈ h.certs) :
    (h.propose block).Ok (block.hash + 1) := by
  have hdistinct : (h.propose block).blocks.Pairwise fun a b => a.hash ≠ b.hash := by
    refine List.pairwise_append.mpr ⟨hok.distinct, List.pairwise_singleton .., ?_⟩
    intro a ha b hb
    rw [List.mem_singleton.mp hb]
    exact (hok.below a ha).ne
  constructor
  case distinct => exact hdistinct
  case below =>
    intro b hb
    rcases List.mem_append.mp hb with hb | hb
    · exact Nat.lt_succ_of_lt (hok.below b hb)
    · rw [List.mem_singleton.mp hb]
      exact Nat.lt_succ_self _
  case certified =>
    intro b hb
    rcases List.mem_append.mp hb with hb | hb
    · exact hok.certified b hb
    · rw [List.mem_singleton.mp hb]
      exact hcert
  case known =>
    intro hash hc
    obtain ⟨b, hb, he⟩ := hok.known hash hc
    exact ⟨b, List.mem_append_left _ hb, he⟩
  case nodup => exact hok.nodup
  case rooted =>
    refine hok.rooted.congr fun hash hc => ?_
    obtain ⟨b, hb, rfl⟩ := hok.known hash hc
    rw [just_eq hok.distinct hb, just_eq hdistinct (List.mem_append_left _ hb)]

/-- Certifying a new block that certifies the last certified one keeps a history in order. -/
theorem Ok.certify {h : History} {nextHash : Hash} (hok : h.Ok nextHash) {block : Block}
    (hb : block ∈ h.blocks) (hnew : block.hash ∉ h.certs) {formed : Option QuorumCert}
    (hformed : ∀ q ∈ formed, q.blockHash = block.hash)
    (hlast : formed.isSome = true → block.qc.map QuorumCert.blockHash = h.certs.getLast?) :
    (h.certify formed).Ok nextHash := by
  cases formed with
  | none =>
    have heq : h.certify none = h := by
      rw [History.certify, Option.map_none, Option.toList_none, List.append_nil]
    rwa [heq]
  | some qc =>
    have hcerts : (h.certify (some qc)).certs = h.certs ++ [block.hash] := by
      rw [History.certify, Option.map_some, Option.toList_some, hformed qc rfl]
    constructor
    case distinct => exact hok.distinct
    case below => exact hok.below
    case certified =>
      intro b hb q hq
      obtain ⟨hparent, hc⟩ := hok.certified b hb q hq
      exact ⟨hparent, List.mem_append_left _ hc⟩
    case known =>
      intro hash hc
      rw [hcerts] at hc
      rcases List.mem_append.mp hc with hc | hc
      · exact hok.known hash hc
      · exact ⟨block, hb, (List.mem_singleton.mp hc).symm⟩
    case nodup =>
      rw [hcerts]
      exact List.nodup_append.mpr ⟨hok.nodup, List.nodup_singleton _, fun a ha b hb he => by
        rw [he, List.mem_singleton.mp hb] at ha
        exact hnew ha⟩
    case rooted =>
      rw [hcerts]
      exact hok.rooted.snoc ((just_eq hok.distinct hb).trans (hlast rfl))

/-- A history grows. -/
structure Le (h h' : History) : Prop where
  blocks : ∀ b ∈ h.blocks, b ∈ h'.blocks
  certs : h.certs <+: h'.certs

theorem Le.refl (h : History) : h.Le h := ⟨fun _ hb => hb, List.prefix_refl _⟩

theorem le_propose (h : History) (block : Block) : h.Le (h.propose block) :=
  ⟨fun _ hb => List.mem_append_left _ hb, List.prefix_refl _⟩

theorem le_certify (h : History) (formed : Option QuorumCert) : h.Le (h.certify formed) :=
  ⟨fun _ hb => hb, List.prefix_append ..⟩

/-- A certificate formed is for a certified block. -/
theorem mem_certify (h : History) {formed : Option QuorumCert} {q : QuorumCert}
    (hq : q ∈ formed) : q.blockHash ∈ (h.certify formed).certs := by
  cases hq
  exact List.mem_append_right _ (List.mem_singleton_self _)

theorem Bounds.mono {h h' : History} {p : Pointers} (hp : h.Bounds p) (hle : h.Le h') :
    h'.Bounds p :=
  ⟨hp.committed.trans hle.certs, fun q hq => hle.certs.subset (hp.highQc q hq)⟩

theorem Follows.mono {σ : Type} {h h' : History} {r : Replica σ} (hr : h.Follows r)
    (hle : h.Le h') : h'.Follows r :=
  ⟨hr.keyed, hr.known.mono hle.blocks, hr.bounds.mono hle⟩

/-- A replica that follows a history and commits everything after what it certifies commits the next
certified blocks. -/
theorem Follows.commit {σ : Type} {h : History} {nextHash : Hash} (hok : h.Ok nextHash)
    {r : Replica σ} (hr : h.Follows r) (hfirst : ∀ block ∈ r.ready, r.CertifiedFirst block) :
    (r.committedLog ++ r.ready).map Block.hash <+: h.certs := by
  have hprefix : r.committedLog.map Block.hash <+: h.certs := hr.bounds.committed
  have hlog : Grounded h.just (r.committedLog.map Block.hash) :=
    (hok.rooted.grounded hok.nodup).initial hprefix
  have hjust : ∀ block ∈ r.ready, h.just block.hash = block.qc.map QuorumCert.blockHash := by
    intro block hb
    obtain ⟨b₀, hb₀, he⟩ := hr.known block (Replica.mem_ready.mp hb).1
    simp only [Block.outline, Prod.mk.injEq] at he
    obtain ⟨hhash, -, hqc⟩ := he
    rw [← hhash, just_eq hok.distinct hb₀, hqc]
  refine (Replica.grounded_ready hr.keyed hlog hjust hfirst).isPrefix hok.rooted hok.nodup ?_
  intro hash hin
  obtain ⟨block, hb, rfl⟩ := List.mem_map.mp hin
  rcases List.mem_append.mp hb with hb | hb
  · exact hprefix.subset (List.mem_map.mpr ⟨block, hb, rfl⟩)
  · -- its first child certifies it
    obtain ⟨b₁, -, h₁, hq₁, -, -⟩ := threeChain_iff.mp (Replica.mem_ready.mp hb).2.2
    obtain ⟨hin₁, hparent, -⟩ := (firstChild_eq_some hr.keyed).mp h₁
    obtain ⟨q, hq⟩ := Option.isSome_iff_exists.mp hq₁
    obtain ⟨b₀, hb₀, he⟩ := hr.known b₁ hin₁
    simp only [Block.outline, Prod.mk.injEq] at he
    obtain ⟨-, hp₀, hqc₀⟩ := he
    rw [hq, Option.map_some, Option.map_eq_some_iff] at hqc₀
    obtain ⟨q₀, hq₀, heq⟩ := hqc₀
    obtain ⟨hparent₀, hcert⟩ := hok.certified b₀ hb₀ q₀ hq₀
    rw [hp₀, hparent, Option.some.injEq] at hparent₀
    rw [hparent₀]
    exact hcert

end History

end PersistHotStuff
