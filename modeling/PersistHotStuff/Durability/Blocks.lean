import PersistHotStuff.Durability.Carried

/-!
# Recovery of the block tree

Only accepted proposals are written to the log; the replica's own proposals and
the genesis block it starts with are not. Recovery puts genesis into an empty
tree only. So a block survives exactly when it is the last one accepted under
its hash, or nothing was accepted and it is genesis.
-/

namespace PersistHotStuff

open Basis

/-- What must be recovered of a block besides its hash. -/
def Block.header (block : Block) : Option Hash × Nat × Nat × ReplicaId :=
  (block.parent, block.view, block.epoch, block.proposer)

/-- The last block of a list with a hash. -/
def lastNamed (blocks : List Block) (hash : Hash) : Option Block :=
  blocks.reverse.find? fun block => block.hash == hash

theorem mem_of_lastNamed {blocks : List Block} {hash : Hash} {block : Block}
    (h : lastNamed blocks hash = some block) : block ∈ blocks ∧ block.hash = hash :=
  ⟨List.mem_reverse.mp (List.mem_of_find?_eq_some h), by simpa using List.find?_some h⟩

theorem lastNamed_eq_none {blocks : List Block} {hash : Hash} :
    lastNamed blocks hash = none ↔ ∀ block ∈ blocks, block.hash ≠ hash := by
  simp [lastNamed]

/-- Changing blocks under their hashes changes the last one of each hash. -/
theorem lastNamed_map {f : Block → Block} (hf : ∀ block, (f block).hash = block.hash)
    (blocks : List Block) (hash : Hash) :
    lastNamed (blocks.map f) hash = (lastNamed blocks hash).map f := by
  rw [lastNamed, lastNamed, ← List.map_reverse, List.find?_map]
  exact congrArg (Option.map f) (congrArg (List.find? · _) (funext fun block => by
    rw [Function.comp_apply, hf]))

/-- Blocks inserted one after the other: the last of each hash is found. -/
theorem get?_foldl_insert (blocks : List Block) (tree : OrdMap Hash Block) (hash : Hash) :
    (blocks.foldl (fun tree block => tree.insert block.hash block) tree).get? hash =
      (lastNamed blocks hash).or (tree.get? hash) := by
  induction blocks using List.reverseRecOn with
  | nil => rfl
  | append_singleton blocks block ih =>
    rw [List.foldl_append, List.foldl_cons, List.foldl_nil, OrdMap.get?_insert, ih, lastNamed,
      lastNamed, List.reverse_append, List.reverse_singleton, List.singleton_append]
    by_cases he : hash = block.hash
    · rw [if_pos he, List.find?_cons_of_pos (by simp [he])]
      rfl
    · rw [if_neg he, List.find?_cons_of_neg (by simpa using fun h => he h.symm)]

/-- The block a record rebuilds. -/
def LogEntry.rebuilt : LogEntry → Option Block
  | .blockInserted hash parent view epoch proposer qcBlockHash qcView _ _ => some
      { hash := hash
        parent := parent
        view := view
        epoch := epoch
        proposer := proposer
        qc := stubQc qcBlockHash qcView epoch
        command := .noOp }
  | _ => none

/-- What replay makes of an accepted block. -/
def rebuiltBlock (block : Block) : Block :=
  { block with
    qc := stubQc (block.qc.map QuorumCert.blockHash) (block.qc.map QuorumCert.view) block.epoch
    command := .noOp }

/-- Replay inserts the blocks that records rebuild. -/
theorem replayEntries_blockTree {entries : List LogEntry} {st st' : Recovered}
    (h : replayEntries entries st = .ok st') :
    st'.blockTree = (entries.filterMap LogEntry.rebuilt).foldl
      (fun tree block => tree.insert block.hash block) st.blockTree := by
  refine replayEntries_foldl ?_ h
  intro entry st st' h
  cases entry with
  | blockCommitted hash parent view epoch proposer command commitIndex timestamp =>
    rw [replayEntry_commit h]
    rfl
  | _ =>
    cases h
    rfl

theorem lastNamed_map_rebuiltBlock (blocks : List Block) (hash : Hash) :
    lastNamed (blocks.map rebuiltBlock) hash = (lastNamed blocks hash).map rebuiltBlock :=
  lastNamed_map (f := rebuiltBlock) (fun _ => rfl) blocks hash

/-- The tree rebuilt from accepted blocks, with genesis if there are none. -/
def rebuiltTree (accepted : List Block) : OrdMap Hash Block :=
  let tree := (accepted.map rebuiltBlock).foldl (fun tree block => tree.insert block.hash block)
    OrdMap.empty
  if tree.isEmpty then tree.insert 0 genesisBlock else tree

/-- A block is in the rebuilt tree when it is the last accepted one under its hash, or genesis and
nothing was accepted. -/
theorem mem_rebuiltTree_iff (accepted : List Block) (block : Block) :
    (∃ b ∈ (rebuiltTree accepted).get? block.hash, b.header = block.header) ↔
      (∃ b ∈ lastNamed accepted block.hash, b.header = block.header) ∨
        accepted = [] ∧ block.hash = genesisBlock.hash ∧ block.header = genesisBlock.header := by
  have hget : ∀ hash, ((accepted.map rebuiltBlock).foldl
      (fun tree block => tree.insert block.hash block) OrdMap.empty).get? hash =
        (lastNamed accepted hash).map rebuiltBlock := by
    intro hash
    rw [get?_foldl_insert, lastNamed_map_rebuiltBlock, OrdMap.get?_empty, Option.or_none]
  by_cases hnone : accepted = []
  · subst hnone
    have htree : (rebuiltTree []).get? block.hash =
        if block.hash = 0 then some genesisBlock else none := OrdMap.get?_insert ..
    rw [htree]
    by_cases hz : block.hash = 0
    · rw [if_pos hz]
      constructor
      · rintro ⟨b, hb, he⟩
        cases hb
        exact Or.inr ⟨rfl, hz, he.symm⟩
      · rintro (⟨b, hb, -⟩ | ⟨-, -, he⟩)
        · cases hb
        · exact ⟨genesisBlock, rfl, he.symm⟩
    · rw [if_neg hz]
      constructor
      · rintro ⟨b, hb, -⟩
        cases hb
      · rintro (⟨b, hb, -⟩ | ⟨-, hz', -⟩)
        · cases hb
        · exact absurd hz' hz
  · have hfilled : ((accepted.map rebuiltBlock).foldl
        (fun tree block => tree.insert block.hash block) OrdMap.empty).isEmpty = false := by
      refine OrdMap.isEmpty_eq_false_iff.mpr ⟨(accepted.getLast hnone).hash, ?_⟩
      rw [OrdMap.contains, hget, Option.isSome_map, lastNamed, List.find?_isSome]
      exact ⟨_, List.mem_reverse.mpr (List.getLast_mem hnone), beq_self_eq_true _⟩
    rw [rebuiltTree, hfilled, if_neg (by decide), hget]
    simp only [hnone, false_and, or_false, Option.mem_def, Option.map_eq_some_iff]
    constructor
    · rintro ⟨b, ⟨b', hb', rfl⟩, he⟩
      exact ⟨b', hb', he⟩
    · rintro ⟨b', hb', he⟩
      exact ⟨rebuiltBlock b', ⟨b', hb', rfl⟩, he⟩

namespace Replica

section Accepted

variable {σ : Type} [Ed25519] [Sha256]

/-- The proposals a call accepts. -/
def accepted (r : Replica σ) (c : Nat × Call) : List Block :=
  match c.2 with
  | .validateAndInsertProposal block => if r.acceptsProposal block then [block] else []
  | _ => []

omit [Ed25519] [Sha256] in
theorem rebuilt_commitRecords (now index : Nat) (blocks : List Block) :
    (commitRecords now index blocks).filterMap LogEntry.rebuilt = [] := by
  induction blocks generalizing index with
  | nil => rfl
  | cons block blocks ih => exact ih (index + 1)

variable [Bincode LogEntry] [Crc32]

/-- The records of a call rebuild what the call accepts. -/
theorem rebuilt_records (r : Replica σ) (c : Nat × Call) :
    (r.records c).filterMap LogEntry.rebuilt = (r.accepted c).map rebuiltBlock := by
  obtain ⟨now, call⟩ := c
  cases call with
  | validateAndInsertProposal block =>
    simp only [records, accepted]
    split <;> rfl
  | handleVote vote =>
    simp only [records, accepted]
    split <;> rfl
  | applyHighQcFromNetwork qc =>
    simp only [records, accepted]
    split <;> rfl
  | commitAll => exact rebuilt_commitRecords now _ _
  | _ => rfl

variable [App σ]

/-- The records of a run rebuild what the run accepts. -/
theorem rebuilt_outputs_records (r : Replica σ) (calls : List (Nat × Call)) :
    (outputs step records r calls).filterMap LogEntry.rebuilt =
      (outputs step accepted r calls).map rebuiltBlock := by
  induction calls generalizing r with
  | nil => rfl
  | cons c calls ih =>
    rw [outputs, outputs, List.filterMap_append, List.map_append, rebuilt_records, ih]

/-- The records of a run replay over a log of the right length. -/
theorem replay_outputs_records {r : Replica σ} (hkeyed : TreeKeyed r.blockTree) {st : Recovered}
    (hlen : st.committedLog.length = r.committedLog.length) (calls : List (Nat × Call)) :
    ∃ st', replayEntries (outputs step records r calls) st = .ok st' := by
  induction calls generalizing r st with
  | nil => exact ⟨st, rfl⟩
  | cons c calls ih =>
    obtain ⟨mid, hreplay, hlen'⟩ := replay_records_length hkeyed hlen c
    obtain ⟨st', hrest⟩ := ih (treeKeyed_step hkeyed c) hlen'
    refine ⟨st', ?_⟩
    rw [outputs, replayEntries_append, hreplay]
    exact hrest

end Accepted

end Replica

namespace Node

section Blocks

variable {σ : Type} [Ed25519] [Sha256] [Bincode LogEntry] [Bincode Snapshot] [Crc32]

/-- Recovery succeeds, and every block of the tree comes back with its parent, view, epoch and
proposer. -/
def TreeSurvives (node : Node σ) (config : Config) (keystore : KeyStore) (now : Nat) : Prop :=
  ∃ recovered, node.restart config keystore now = .ok recovered ∧
    ∀ block ∈ node.replica.blockTree.values,
      ∃ b ∈ recovered.replica.blockTree.get? block.hash, b.header = block.header

/-- Every block of the tree is the last one accepted under its hash, up to certificate and command;
or nothing was accepted and it is genesis. -/
def TreeReceived (r : Replica σ) (accepted : List Block) : Prop :=
  ∀ block ∈ r.blockTree.values,
    (∃ b ∈ lastNamed accepted block.hash, b.header = block.header) ∨
      accepted = [] ∧ block.hash = genesisBlock.hash ∧ block.header = genesisBlock.header

instance (r : Replica σ) (accepted : List Block) : Decidable (TreeReceived r accepted) :=
  inferInstanceAs (Decidable (∀ block ∈ r.blockTree.values,
    (∃ b ∈ lastNamed accepted block.hash, b.header = block.header) ∨
      accepted = [] ∧ block.hash = genesisBlock.hash ∧ block.header = genesisBlock.header))

variable [App σ]

/-- Calls on the replica of a node. -/
theorem Carrying.calls {node : Node σ} {snap : Option Snapshot} {entries : List LogEntry}
    (h : Carrying node snap entries) (calls : List (Nat × Call)) :
    Carrying { node with replica := run Replica.step node.replica calls } snap
      (entries ++ outputs Replica.step Replica.records node.replica calls) := by
  induction calls generalizing node entries with
  | nil =>
    rw [outputs, List.append_nil]
    exact h
  | cons c calls ih =>
    have hrest := ih (h.call c)
    rw [outputs, ← List.append_assoc]
    exact hrest

variable [LawfulBincode LogEntry] [LawfulBincode Snapshot] [StrictBincode LogEntry]

/-- After any run from the first start, the tree survives a crash exactly when every record of the
run fits its length prefix and every block of the tree was received. -/
theorem treeSurvives_iff {config : Config} {keystore : KeyStore} {now : Nat} {node : Node σ}
    (hboot : boot config keystore now = .ok node) (calls : List (Nat × Call)) (config' : Config)
    (keystore' : KeyStore) (now' : Nat) :
    TreeSurvives { node with replica := run Replica.step node.replica calls } config' keystore'
        now' ↔
      (∀ entry ∈ outputs Replica.step Replica.records node.replica calls, ShortPayload entry) ∧
        TreeReceived (run Replica.step node.replica calls)
          (outputs Replica.step Replica.accepted node.replica calls) := by
  obtain ⟨wal, heq, hdur⟩ := durable_boot (σ := σ) config keystore now
  rw [heq] at hboot
  cases hboot
  generalize hfirst : (⟨(buildReplica now config keystore (baseOf config.n none)
    (baseState none)).attachWal wal, DataDir.empty⟩ : Node σ) = node at hdur ⊢
  have hlen : (baseState none).committedLog.length = node.replica.committedLog.length := by
    rw [← hfirst]
    rfl
  obtain ⟨st, hreplay⟩ := Replica.replay_outputs_records hdur.keyed hlen calls
  have hcarrying := hdur.carrying.calls calls
  rw [List.nil_append] at hcarrying
  have htree : (if st.blockTree.isEmpty then st.blockTree.insert 0 genesisBlock else st.blockTree) =
      rebuiltTree (outputs Replica.step Replica.accepted node.replica calls) := by
    rw [replayEntries_blockTree hreplay, Replica.rebuilt_outputs_records]
    rfl
  constructor
  · rintro ⟨recovered, hrestart, hall⟩
    have hdurable := hcarrying.durable_of_restart hrestart
    obtain ⟨wal', hwal', hholds⟩ := hdurable.log
    obtain ⟨wal'', heq', -⟩ := hdurable.restart hreplay config' keystore' now'
    rw [heq'] at hrestart
    cases hrestart
    refine ⟨hholds.file.2, fun block hblock => ?_⟩
    rw [← mem_rebuiltTree_iff, ← htree]
    exact hall block hblock
  · rintro ⟨hshort, hreceived⟩
    obtain ⟨wal', heq', -⟩ := (hcarrying.durable hshort).restart hreplay config' keystore' now'
    refine ⟨_, heq', fun block hblock => ?_⟩
    have h := hreceived block hblock
    rw [← mem_rebuiltTree_iff, ← htree] at h
    exact h

end Blocks

section Samples

open Sample

/-- Replica 3 accepts genesis itself and a block. -/
def receivedCalls : List (Nat × Call) :=
  [(1, .validateAndInsertProposal genesisBlock),
    (2, .validateAndInsertProposal (block 1 0 0 0 none)), (3, .commitAll)]

theorem treeSurvives_received :
    TreeSurvives { firstNode with replica := run Replica.step firstNode.replica receivedCalls }
      (party 4 3).config (keyStore 4 3) 9 := by
  have hboot : boot (party 4 3).config (keyStore 4 3) 0 = .ok firstNode := by decide +kernel
  exact (treeSurvives_iff hboot receivedCalls _ _ _).mpr (by decide +kernel)

/-- Replica 3 accepts a block and proposes another as leader of view 3. -/
def ledCalls : List (Nat × Call) :=
  [(1, .validateAndInsertProposal (block 1 0 0 0 none)), (2, .propose (.proposeWithHash 7) 3)]

/-- Only the accepted block comes back: genesis and the own proposal are lost. -/
theorem own_proposal_lost :
    boot (party 4 3).config (keyStore 4 3) 0 = .ok firstNode ∧
      (run Replica.step firstNode.replica ledCalls).blockTree.keys = [0, 1, 7] ∧
      (restart (party 4 3).config (keyStore 4 3) 9
          { firstNode with replica := run Replica.step firstNode.replica ledCalls }).map
        (fun node => node.replica.blockTree.keys) = .ok [1] :=
  ⟨by decide +kernel, by decide +kernel, by decide +kernel⟩

end Samples

end Node

end PersistHotStuff
