import PersistHotStuff.Basis.Counter
import PersistHotStuff.Durability.Blocks
import PersistHotStuff.Durability.Rejoin
import PersistHotStuff.Durability.Validators

/-!
# Catch-up against recovery

A recovery and an import into a fresh replica interpret the same snapshot and
the same entries. The import drops the epochs and the validator set, keeps the
genesis block it started with, and does not move the local hash counter past
imported blocks. Everything else comes out the same.
-/

namespace PersistHotStuff

open Basis

/-- The hash counter an interpretation starts from. -/
def startCounter : Option Snapshot → Nat
  | none => 1
  | some snap => snap.nextHash

/-- The blocks that entries insert. -/
def insertedBlocks (entries : List LogEntry) : List Block := entries.filterMap LogEntry.rebuilt

/-- A block as an import in epoch 0 rebuilds it. -/
def Block.unepoched (block : Block) : Block :=
  { block with epoch := 0, qc := block.qc.map fun qc => { qc with epoch := 0 } }

/-- Every certificate that was formed is adopted by the next record. -/
inductive Adopting : List LogEntry → Prop
  | nil : Adopting []
  | formed {blockHash view epoch signerCount formed adopted : Nat} {entries : List LogEntry} :
      Adopting entries →
      Adopting (.qcFormed blockHash view epoch signerCount formed ::
        .highQcUpdated blockHash view epoch adopted :: entries)
  | other {entry : LogEntry} {entries : List LogEntry} :
      (∀ blockHash view epoch signerCount formed,
        entry ≠ .qcFormed blockHash view epoch signerCount formed) →
      Adopting entries → Adopting (entry :: entries)

theorem Adopting.append {entries more : List LogEntry} (h : Adopting entries)
    (hmore : Adopting more) : Adopting (entries ++ more) := by
  induction h with
  | nil => exact hmore
  | formed _ ih => exact .formed ih
  | other hne _ ih => exact .other hne ih

section Replay

variable {st st' : Recovered} {entries : List LogEntry}

/-- Replay moves the counter past every inserted hash. -/
theorem replayEntries_nextHash (h : replayEntries entries st = .ok st') :
    st'.nextHash =
      ((insertedBlocks entries).map Block.hash).foldl (overtake (2 ^ 64)) st.nextHash := by
  rw [List.foldl_map]
  refine replayEntries_foldl (p := Recovered.nextHash)
    (g := fun counter (block : Block) => overtake (2 ^ 64) counter block.hash) ?_ h
  intro entry st st' h
  cases entry with
  | blockCommitted hash parent view epoch proposer command commitIndex timestamp =>
    rw [replayEntry_commit h]
    rfl
  | _ =>
    cases h
    rfl

/-- Replay ends in the latest epoch that a record carries. -/
theorem replayEntries_maxEpoch (h : replayEntries entries st = .ok st') :
    st'.configEpoch = (entries.filterMap LogEntry.countedEpoch).foldl max st.configEpoch := by
  refine replayEntries_foldl ?_ h
  intro entry st st' h
  cases entry with
  | blockCommitted hash parent view epoch proposer command commitIndex timestamp =>
    rw [replayEntry_commit h]
    rfl
  | _ =>
    cases h
    rfl

/-- A maximum is zero when everything is. -/
theorem foldl_max_eq_zero_iff {epochs : List Nat} {epoch : Nat} :
    epochs.foldl max epoch = 0 ↔ epoch = 0 ∧ ∀ e ∈ epochs, e = 0 := by
  induction epochs generalizing epoch with
  | nil => simp
  | cons e epochs ih =>
    rw [List.foldl_cons, ih, List.forall_mem_cons, ← and_assoc]
    exact and_congr_left' Nat.max_eq_zero_iff

end Replay

section Trees

/-- The block of a record has the epoch of its certificate. -/
theorem rebuilt_qc_epoch {entry : LogEntry} {block : Block} (h : entry.rebuilt = some block) :
    ∀ qc ∈ block.qc, qc.epoch = block.epoch := by
  cases entry with
  | blockInserted hash parent view epoch proposer qcBlockHash qcView command timestamp =>
    cases h
    intro qc hqc
    cases qcBlockHash with
    | none => cases hqc
    | some blockHash =>
      cases qcView with
      | none => cases hqc
      | some view => cases hqc; rfl
  | _ => cases h

/-- The import rebuilds a block as the recovery does exactly when its epoch is 0. -/
theorem unepoched_eq_iff {entries : List LogEntry} {block : Block}
    (h : block ∈ insertedBlocks entries) : block.unepoched = block ↔ block.epoch = 0 := by
  obtain ⟨entry, -, hrebuilt⟩ := List.mem_filterMap.mp h
  have hqc := rebuilt_qc_epoch hrebuilt
  constructor
  · intro heq
    rw [← heq]
    rfl
  · intro hzero
    rw [hzero] at hqc
    have hsame : block.qc.map (fun qc => { qc with epoch := 0 }) = block.qc := by
      cases hq : block.qc with
      | none => rfl
      | some qc =>
        have hepoch := hqc qc hq
        rw [Option.map_some, ← hepoch]
    rw [Block.unepoched, hsame, ← hzero]

/-- The tree of a recovery. -/
def recoveredTree (base : OrdMap Hash Block) (blocks : List Block) : OrdMap Hash Block :=
  let tree := blocks.foldl (fun tree block => tree.insert block.hash block) base
  if tree.isEmpty then tree.insert 0 genesisBlock else tree

/-- The tree of an import. -/
def importedTree (base : OrdMap Hash Block) (blocks : List Block) : OrdMap Hash Block :=
  (blocks.map Block.unepoched).foldl (fun tree block => tree.insert block.hash block) base

theorem get?_importedTree (base : OrdMap Hash Block) (blocks : List Block) (hash : Hash) :
    (importedTree base blocks).get? hash =
      ((lastNamed blocks hash).map Block.unepoched).or (base.get? hash) := by
  rw [importedTree, get?_foldl_insert, lastNamed_map (f := Block.unepoched) fun _ => rfl]

/-- A tree that is not empty when genesis would be added stays as it is. -/
theorem get?_recoveredTree {base : OrdMap Hash Block} {blocks : List Block} {hash : Hash}
    (h : (lastNamed blocks hash).or (base.get? hash) ≠ none) (other : Hash) :
    (recoveredTree base blocks).get? other = (lastNamed blocks other).or (base.get? other) := by
  have hfilled : (blocks.foldl (fun tree block => tree.insert block.hash block) base).isEmpty =
      false := by
    rw [← get?_foldl_insert, ← Option.isSome_iff_ne_none] at h
    exact OrdMap.isEmpty_eq_false_iff.mpr ⟨hash, h⟩
  rw [recoveredTree, hfilled, if_neg Bool.false_ne_true, get?_foldl_insert]

/-- Over the same tree, recovery and import insert the same blocks exactly when the last record of
every hash carries epoch 0. -/
theorem or_map_unepoched_iff {entries : List LogEntry} (base : OrdMap Hash Block) :
    (∀ hash, (lastNamed (insertedBlocks entries) hash).or (base.get? hash) =
        ((lastNamed (insertedBlocks entries) hash).map Block.unepoched).or (base.get? hash)) ↔
      ∀ hash, ∀ block ∈ lastNamed (insertedBlocks entries) hash, block.epoch = 0 := by
  refine forall_congr' fun hash => ?_
  cases hlast : lastNamed (insertedBlocks entries) hash with
  | none => simp
  | some block =>
    have hiff := unepoched_eq_iff (mem_of_lastNamed hlast).1
    simp only [Option.map_some, Option.some_or, Option.some.injEq, Option.mem_def, forall_eq',
      ← hiff, eq_comm]

/-- The trees over a snapshot. -/
theorem trees_agree_iff_of_filled {base : OrdMap Hash Block} (hbase : base.isEmpty = false)
    (entries : List LogEntry) :
    recoveredTree base (insertedBlocks entries) = importedTree base (insertedBlocks entries) ↔
      ∀ hash, ∀ block ∈ lastNamed (insertedBlocks entries) hash, block.epoch = 0 := by
  obtain ⟨hash, hin⟩ := OrdMap.isEmpty_eq_false_iff.mp hbase
  have hhash : base.get? hash ≠ none := Option.isSome_iff_ne_none.mp hin
  have hkeeps : (lastNamed (insertedBlocks entries) hash).or (base.get? hash) ≠ none := by
    cases lastNamed (insertedBlocks entries) hash with
    | none => exact hhash
    | some block => exact Option.some_ne_none block
  rw [← or_map_unepoched_iff base]
  constructor
  · intro heq other
    rw [← get?_recoveredTree hkeeps, heq, get?_importedTree]
  · intro hall
    refine OrdMap.ext_get? fun other => ?_
    rw [get?_recoveredTree hkeeps, get?_importedTree, hall other]

/-- Without a snapshot the import starts from genesis, and the recovery adds it to an empty tree
only. -/
theorem trees_agree_iff_of_empty (entries : List LogEntry) :
    recoveredTree OrdMap.empty (insertedBlocks entries) =
        importedTree genesisTree (insertedBlocks entries) ↔
      (∀ hash, ∀ block ∈ lastNamed (insertedBlocks entries) hash, block.epoch = 0) ∧
        (insertedBlocks entries ≠ [] → ∃ block ∈ insertedBlocks entries, block.hash = 0) := by
  have hgenesis : ∀ hash, genesisTree.get? hash = if hash = 0 then some genesisBlock else none :=
    fun hash => OrdMap.get?_insert ..
  by_cases hnone : insertedBlocks entries = []
  · rw [hnone]
    exact iff_of_true rfl ⟨fun hash block h => (by cases h), fun h => absurd rfl h⟩
  · obtain ⟨first, hfirst⟩ := List.exists_mem_of_ne_nil _ hnone
    have hkeeps : (lastNamed (insertedBlocks entries) first.hash).or
        ((OrdMap.empty : OrdMap Hash Block).get? first.hash) ≠ none := by
      rw [OrdMap.get?_empty, Option.or_none, ne_eq, lastNamed_eq_none]
      exact fun h => h first hfirst rfl
    rw [← or_map_unepoched_iff OrdMap.empty]
    constructor
    · intro heq
      have hget : ∀ hash, lastNamed (insertedBlocks entries) hash =
          ((lastNamed (insertedBlocks entries) hash).map Block.unepoched).or
            (genesisTree.get? hash) := by
        intro hash
        rw [← get?_importedTree, ← heq, get?_recoveredTree hkeeps, OrdMap.get?_empty,
          Option.or_none]
      have hzero : lastNamed (insertedBlocks entries) 0 ≠ none := by
        intro h
        have h0 := hget 0
        rw [h, hgenesis, if_pos rfl] at h0
        cases h0
      refine ⟨fun hash => ?_, fun _ => ?_⟩
      · have hhash := hget hash
        rw [OrdMap.get?_empty, Option.or_none, Option.or_none]
        cases hlast : lastNamed (insertedBlocks entries) hash with
        | none => rfl
        | some block => rwa [hlast] at hhash
      · obtain ⟨block, hblock⟩ := Option.ne_none_iff_exists'.mp hzero
        exact ⟨block, mem_of_lastNamed hblock⟩
    · rintro ⟨hall, hzero⟩
      refine OrdMap.ext_get? fun hash => ?_
      have hhash := hall hash
      rw [OrdMap.get?_empty, Option.or_none, Option.or_none] at hhash
      rw [get?_recoveredTree hkeeps, get?_importedTree, OrdMap.get?_empty, Option.or_none,
        ← hhash]
      cases hlast : lastNamed (insertedBlocks entries) hash with
      | some block => rfl
      | none =>
        obtain ⟨block, hblock, hb0⟩ := hzero hnone
        have hne : hash ≠ 0 := fun h => lastNamed_eq_none.mp hlast block hblock (hb0.trans h.symm)
        rw [hgenesis, if_neg hne]
        rfl

end Trees

section Import

variable {σ : Type}

/-- The certificate an import rebuilds is the one of a recovery, in epoch 0. -/
theorem stubQc_unepoched (blockHash : Option Hash) (view : Option Nat) (epoch : Nat) :
    stubQc blockHash view 0 =
      (stubQc blockHash view epoch).map fun qc => { qc with epoch := 0 } := by
  cases blockHash with
  | none => rfl
  | some blockHash => cases view <;> rfl

/-- Imported entries insert their blocks, in the epoch of the importing replica. -/
theorem foldl_importEntry_blockTree {r : Replica σ} (h : r.configEpoch = 0)
    (entries : List LogEntry) :
    (entries.foldl Replica.importEntry r).blockTree =
      ((insertedBlocks entries).map Block.unepoched).foldl
        (fun tree block => tree.insert block.hash block) r.blockTree := by
  induction entries generalizing r with
  | nil => rfl
  | cons entry entries ih =>
    rw [List.foldl_cons]
    cases entry with
    | blockInserted hash parent view epoch proposer qcBlockHash qcView command timestamp =>
      have hnext : (r.importEntry (.blockInserted hash parent view epoch proposer qcBlockHash qcView
          command timestamp)).configEpoch = 0 := h
      refine (ih hnext).trans ?_
      simp only [Replica.importEntry, h, stubQc_unepoched qcBlockHash qcView epoch]
      rfl
    | _ => exact ih h

/-- Imported entries do not move the hash counter. -/
theorem foldl_importEntry_nextHash (r : Replica σ) (entries : List LogEntry) :
    (entries.foldl Replica.importEntry r).nextHash = r.nextHash := by
  induction entries generalizing r with
  | nil => rfl
  | cons entry entries ih =>
    rw [List.foldl_cons, ih]
    cases entry <;> rfl

/-- The same log, certificate and view. -/
structure SameProgress (st : Recovered) (r : Replica σ) : Prop where
  committedLog : st.committedLog = r.committedLog
  committedUpTo : st.committedUpTo = r.committedUpTo
  highQc : st.highQc = r.highQc
  currentView : st.currentView = r.currentView

/-- When no record carries another epoch than 0, both interpreters make the same progress. -/
theorem SameProgress.replay {entries : List LogEntry} (hadopting : Adopting entries)
    {st st' : Recovered} {r : Replica σ} (h : SameProgress st r) (hepoch : r.configEpoch = 0)
    (hzero : ∀ epoch ∈ entries.filterMap LogEntry.countedEpoch, epoch = 0)
    (hreplay : replayEntries entries st = .ok st') :
    SameProgress st' (entries.foldl Replica.importEntry r) := by
  induction hadopting generalizing st r with
  | nil =>
    cases hreplay
    exact h
  | @formed blockHash view epoch signerCount formed adopted entries _ ih =>
    have hzero' : epoch = 0 ∧ epoch = 0 ∧
        ∀ e ∈ entries.filterMap LogEntry.countedEpoch, e = 0 := by
      simpa [LogEntry.countedEpoch] using hzero
    obtain ⟨rfl, -, hrest⟩ := hzero'
    -- whatever the first record does, the second sets the certificate
    simp only [replayEntries, replayEntry] at hreplay
    rw [List.foldl_cons, List.foldl_cons]
    refine ih ?_ hepoch hrest hreplay
    refine ⟨h.committedLog, h.committedUpTo, ?_, h.currentView⟩
    simp only [Replica.importEntry, hepoch]
  | @other entry entries hne _ ih =>
    rw [List.foldl_cons]
    cases entry with
    | blockInserted hash parent view epoch proposer qcBlockHash qcView command timestamp =>
      refine ih ?_ hepoch hzero hreplay
      exact ⟨h.committedLog, h.committedUpTo, h.highQc, h.currentView⟩
    | qcFormed blockHash view epoch signerCount timestamp => exact absurd rfl (hne _ _ _ _ _)
    | highQcUpdated blockHash view epoch timestamp =>
      obtain ⟨rfl, hrest⟩ : epoch = 0 ∧ ∀ e ∈ entries.filterMap LogEntry.countedEpoch, e = 0 := by
        simpa [LogEntry.countedEpoch] using hzero
      simp only [replayEntries, replayEntry] at hreplay
      refine ih ?_ hepoch hrest hreplay
      refine ⟨h.committedLog, h.committedUpTo, ?_, h.currentView⟩
      simp only [Replica.importEntry, hepoch]
    | blockCommitted hash parent view epoch proposer command commitIndex timestamp =>
      obtain ⟨rfl, hrest⟩ : epoch = 0 ∧ ∀ e ∈ entries.filterMap LogEntry.countedEpoch, e = 0 := by
        simpa [LogEntry.countedEpoch] using hzero
      simp only [replayEntries] at hreplay
      cases hone : replayEntry (.blockCommitted hash parent view 0 proposer command commitIndex
        timestamp) st with
      | error e =>
        rw [hone] at hreplay
        cases hreplay
      | ok mid =>
        rw [hone] at hreplay
        refine ih ?_ hepoch hrest hreplay
        rw [replayEntry_commit hone]
        refine ⟨?_, rfl, h.highQc, h.currentView⟩
        simp only [Replica.importEntry, hepoch, h.committedLog]
    | viewChanged oldView newView reason timestamp =>
      refine ih ?_ hepoch hzero hreplay
      exact ⟨h.committedLog, h.committedUpTo, h.highQc, rfl⟩
    | voteReceived blockHash view signer timestamp => exact ih h hepoch hzero hreplay
    | snapshotTaken snapshotId lastCommittedHash timestamp => exact ih h hepoch hzero hreplay

/-- The eight things a catch-up is to restore. -/
structure SameCatchup (a b : Replica σ) : Prop where
  blockTree : a.blockTree = b.blockTree
  committedLog : a.committedLog = b.committedLog
  committedUpTo : a.committedUpTo = b.committedUpTo
  highQc : a.highQc = b.highQc
  currentView : a.currentView = b.currentView
  nextHash : a.nextHash = b.nextHash
  configEpoch : a.configEpoch = b.configEpoch
  activeValidators : a.activeValidators = b.activeValidators

/-- What a snapshot and the entries behind it must be like for an import into a replica of `n`
default validators to agree with a recovery. -/
structure Importable (n : Nat) (snap : Option Snapshot) (entries : List LogEntry) : Prop where
  /-- A snapshot is of the first epoch and has the default validators. -/
  epoch : ∀ s ∈ snap, s.configEpoch = 0
  validators : ∀ s ∈ snap, OrdMap.ofList (s.activeValidators.map fun id => (id, ())) =
    defaultValidators n
  /-- The certificates and commits are of the first epoch. -/
  counted : ∀ epoch ∈ entries.filterMap LogEntry.countedEpoch, epoch = 0
  /-- So is the last record of every block. -/
  blocks : ∀ hash, ∀ block ∈ lastNamed (insertedBlocks entries) hash, block.epoch = 0
  /-- Without a snapshot, genesis is among the blocks, if there are any. -/
  genesis : snap = none → insertedBlocks entries ≠ [] →
    ∃ block ∈ insertedBlocks entries, block.hash = 0
  /-- The hashes of the blocks lead the counter back to where it starts. -/
  counter : LeavesCounter (2 ^ 64) (startCounter snap) ((insertedBlocks entries).map Block.hash)

/-- What a snapshot and the entries behind it are like when a live replica wrote them. -/
structure Written (snap : Option Snapshot) (entries : List LogEntry) : Prop where
  adopting : Adopting entries
  filled : ∀ s ∈ snap, (baseState (some s)).blockTree.isEmpty = false
  counter : startCounter snap < 2 ^ 64

/-- The replica an import replays the entries on. -/
def importBase (now : Nat) (config : Config) (keystore : KeyStore) (snap : Option Snapshot) :
    Replica σ :=
  match snap with
  | some snap => (freshReplica now config keystore).importSnapshot snap
  | none => freshReplica now config keystore

/-- Default validators stay. -/
theorem ensureDefaultValidators_of_default {r : Replica σ}
    (h : r.activeValidators = defaultValidators r.config.n) : r.ensureDefaultValidators = r := by
  unfold Replica.ensureDefaultValidators
  split
  · rw [← h]
  · rfl

/-- A fresh replica stands at genesis. -/
theorem freshReplica_fields (now : Nat) (config : Config) (keystore : KeyStore) :
    SameProgress (baseState none) (freshReplica (σ := σ) now config keystore) ∧
      (freshReplica (σ := σ) now config keystore).blockTree = genesisTree ∧
      (freshReplica (σ := σ) now config keystore).nextHash = 1 ∧
      (freshReplica (σ := σ) now config keystore).configEpoch = 0 ∧
      (freshReplica (σ := σ) now config keystore).activeValidators =
        defaultValidators config.n := by
  simp only [freshReplica]
  rw [ensureDefaultValidators_of_default rfl]
  exact ⟨⟨rfl, rfl, rfl, rfl⟩, rfl, rfl, rfl, rfl⟩

/-- An import starts where replay starts, apart from epoch, validators and genesis. -/
theorem importBase_fields (now : Nat) (config : Config) (keystore : KeyStore)
    (snap : Option Snapshot) :
    SameProgress (baseState snap) (importBase (σ := σ) now config keystore snap) ∧
      (importBase (σ := σ) now config keystore snap).nextHash = startCounter snap ∧
      (importBase (σ := σ) now config keystore snap).configEpoch = 0 ∧
      (importBase (σ := σ) now config keystore snap).activeValidators =
        defaultValidators config.n := by
  obtain ⟨hprogress, -, hnext, hepoch, hvalidators⟩ :=
    freshReplica_fields (σ := σ) now config keystore
  cases snap with
  | none => exact ⟨hprogress, hnext, hepoch, hvalidators⟩
  | some s => exact ⟨⟨rfl, rfl, rfl, rfl⟩, rfl, hepoch, hvalidators⟩

/-- The trees agree exactly when the last records are of epoch 0 and genesis is not missing. -/
theorem sameTree_iff {snap : Option Snapshot} {entries : List LogEntry}
    (hfilled : ∀ s ∈ snap, (baseState (some s)).blockTree.isEmpty = false) (now : Nat)
    (config : Config) (keystore : KeyStore) :
    (entries.foldl Replica.importEntry
        (importBase (σ := σ) now config keystore snap)).blockTree =
      recoveredTree (baseState snap).blockTree (insertedBlocks entries) ↔
      (∀ hash, ∀ block ∈ lastNamed (insertedBlocks entries) hash, block.epoch = 0) ∧
        (snap = none → insertedBlocks entries ≠ [] →
          ∃ block ∈ insertedBlocks entries, block.hash = 0) := by
  have hepoch := (importBase_fields (σ := σ) now config keystore snap).2.2.1
  rw [foldl_importEntry_blockTree hepoch, ← importedTree, eq_comm]
  cases snap with
  | none =>
    have htree : (importBase (σ := σ) now config keystore none).blockTree = genesisTree :=
      (freshReplica_fields now config keystore).2.1
    have hstart : (baseState none).blockTree = OrdMap.empty := rfl
    rw [htree, hstart, trees_agree_iff_of_empty]
    exact and_congr_right' ⟨fun h _ => h, fun h => h rfl⟩
  | some s =>
    have htree : (importBase (σ := σ) now config keystore (some s)).blockTree =
        (baseState (some s)).blockTree := rfl
    rw [htree, trees_agree_iff_of_filled (hfilled s rfl)]
    exact ⟨fun h => ⟨h, fun hnone => by cases hnone⟩, fun h => h.1⟩

/-- An import into a fresh replica agrees with what recovery builds exactly when snapshot and
entries are importable. -/
theorem sameCatchup_iff {snap : Option Snapshot} {entries : List LogEntry}
    (hwritten : Written snap entries) {st : Recovered}
    (hreplay : replayEntries entries (baseState snap) = .ok st) (now : Nat) (config : Config)
    (keystore : KeyStore) (wal : WAL) :
    SameCatchup ((freshReplica (σ := σ) now config keystore).importCatchupState snap entries)
        ((buildReplica now config keystore (baseOf config.n snap) st).attachWal wal) ↔
      Importable config.n snap entries := by
  have himport : (freshReplica (σ := σ) now config keystore).importCatchupState snap entries =
      entries.foldl Replica.importEntry (importBase now config keystore snap) := by
    cases snap <;> rfl
  rw [himport]
  obtain ⟨hprogress, hnext, hepoch, hvalidators⟩ :=
    importBase_fields (σ := σ) now config keystore snap
  have hmember := (importCatchupState_accounts (importBase (σ := σ) now config keystore snap) none
    entries).1
  have himported : (entries.foldl Replica.importEntry
        (importBase (σ := σ) now config keystore snap)).configEpoch = 0 ∧
      (entries.foldl Replica.importEntry
        (importBase (σ := σ) now config keystore snap)).activeValidators =
          defaultValidators config.n ∧
      (entries.foldl Replica.importEntry
        (importBase (σ := σ) now config keystore snap)).nextHash = startCounter snap :=
    ⟨(congrArg Membership.configEpoch hmember).trans hepoch,
      (congrArg Membership.activeValidators hmember).trans hvalidators,
      (foldl_importEntry_nextHash _ entries).trans hnext⟩
  have htree : ((buildReplica (σ := σ) now config keystore (baseOf config.n snap) st).attachWal
      wal).blockTree = recoveredTree (baseState snap).blockTree (insertedBlocks entries) := by
    rw [recoveredTree, insertedBlocks, ← replayEntries_blockTree hreplay]
    rfl
  have hzero : st.configEpoch = 0 ↔ (∀ s ∈ snap, s.configEpoch = 0) ∧
      ∀ epoch ∈ entries.filterMap LogEntry.countedEpoch, epoch = 0 := by
    rw [replayEntries_maxEpoch hreplay, foldl_max_eq_zero_iff]
    refine and_congr_left' ?_
    cases snap with
    | none => exact iff_of_true rfl fun s hs => by cases hs
    | some s => exact ⟨fun h s' hs' => by cases hs'; exact h, fun h => h s rfl⟩
  have hset : (baseOf config.n snap).activeValidators = defaultValidators config.n ↔
      ∀ s ∈ snap, OrdMap.ofList (s.activeValidators.map fun id => (id, ())) =
        defaultValidators config.n := by
    cases snap with
    | none => exact iff_of_true rfl fun s hs => by cases hs
    | some s => exact ⟨fun h s' hs' => by cases hs'; exact h, fun h => h s rfl⟩
  have hcounter : st.nextHash = startCounter snap ↔
      LeavesCounter (2 ^ 64) (startCounter snap) ((insertedBlocks entries).map Block.hash) := by
    have hstart : (baseState snap).nextHash = startCounter snap := by cases snap <;> rfl
    rw [replayEntries_nextHash hreplay, hstart]
    exact foldl_overtake_eq_iff hwritten.counter _
  constructor
  · intro h
    obtain ⟨hepoch', hcounted⟩ := hzero.mp (h.configEpoch.symm.trans himported.1)
    obtain ⟨hblocks, hgenesis⟩ :=
      (sameTree_iff hwritten.filled now config keystore).mp (h.blockTree.trans htree)
    exact ⟨hepoch', hset.mp (h.activeValidators.symm.trans himported.2.1), hcounted, hblocks,
      hgenesis, hcounter.mp (h.nextHash.symm.trans himported.2.2)⟩
  · intro h
    have hdone := hprogress.replay hwritten.adopting hepoch h.counted hreplay
    refine ⟨?_, hdone.committedLog.symm, hdone.committedUpTo.symm, hdone.highQc.symm,
      hdone.currentView.symm, ?_, ?_, ?_⟩
    · exact ((sameTree_iff hwritten.filled now config keystore).mpr ⟨h.blocks, h.genesis⟩).trans
        htree.symm
    · exact himported.2.2.trans (hcounter.mpr h.counter).symm
    · exact himported.1.trans (hzero.mpr ⟨h.epoch, h.counted⟩).symm
    · exact himported.2.1.trans (hset.mpr h.validators).symm

end Import

end PersistHotStuff
