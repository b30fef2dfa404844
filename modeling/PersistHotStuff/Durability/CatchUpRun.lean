import PersistHotStuff.Durability.CatchUp

/-!
# Catch-up state of a live replica

What a replica exports after any history: its latest snapshot and the records
since. An import of that state into a fresh replica is compared with a recovery
from the same directory.
-/

namespace PersistHotStuff

open Basis

/-- What replay starts from has the counter of the snapshot. -/
theorem baseState_nextHash (snap : Option Snapshot) :
    (baseState snap).nextHash = startCounter snap := by
  cases snap <;> rfl

/-- The tree of a replica built from a recovered state is filled. -/
theorem buildReplica_filled {σ : Type} (now : Nat) (config : Config) (keystore : KeyStore)
    (base : RecoveredBase) (st : Recovered) :
    (buildReplica (σ := σ) now config keystore base st).blockTree.isEmpty = false := by
  simp only [buildReplica]
  split
  · exact OrdMap.isEmpty_insert ..
  · next hne => exact Bool.eq_false_iff.mpr hne

namespace Replica

variable {σ : Type} [Ed25519] [Sha256] [Bincode LogEntry] [Crc32]

/-- A certificate that is formed is adopted by the record behind it. -/
theorem adopting_records (r : Replica σ) (c : Nat × Call) : Adopting (r.records c) := by
  have hcommits : ∀ (now index : Nat) (blocks : List Block),
      Adopting (commitRecords now index blocks) := by
    intro now index blocks
    induction blocks generalizing index with
    | nil => exact .nil
    | cons block blocks ih =>
      exact .other (fun _ _ _ _ _ h => by cases h) (ih (index + 1))
  have hone : ∀ entry : LogEntry, (∀ h v e n t, entry ≠ .qcFormed h v e n t) → Adopting [entry] :=
    fun entry hne => .other hne .nil
  obtain ⟨now, call⟩ := c
  cases call with
  | validateAndInsertProposal block =>
    simp only [records]
    split
    · exact hone _ fun _ _ _ _ _ h => by cases h
    · exact .nil
  | handleVote vote =>
    simp only [records]
    split
    · exact .formed .nil
    · exact .nil
  | applyHighQcFromNetwork qc =>
    simp only [records]
    split
    · exact hone _ fun _ _ _ _ _ h => by cases h
    · exact .nil
  | advanceViewWithReason reason => exact hone _ fun _ _ _ _ _ h => by cases h
  | commitAll => exact hcommits now _ _
  | _ => exact .nil

variable [App σ]

/-- A call leaves the hash counter alone or adds one to it. -/
theorem step_nextHash (r : Replica σ) (c : Nat × Call) :
    (r.step c).nextHash = r.nextHash ∨ (r.step c).nextHash = wrappingAdd r.nextHash 1 := by
  obtain ⟨now, call⟩ := c
  cases call with
  | propose how view =>
    simp only [step]
    rw [proposeBy_eq]
    split
    · show r.nextHashAfter how = r.nextHash ∨ r.nextHashAfter how = wrappingAdd r.nextHash 1
      cases how
      case proposeWithHash | proposeNextWithHash => exact .inl rfl
      all_goals exact .inr rfl
    · exact .inl rfl
  | validateAndInsertProposal block =>
    left
    simp only [step]
    rcases r.validateAndInsertProposal_cases now block with ⟨-, hv⟩ | ⟨-, hv⟩
    · rw [hv]
    · rw [hv]
      rfl
  | handleVote vote =>
    left
    simp only [step]
    rcases r.handleVote_cases now vote with hv | ⟨-, ⟨-, hv⟩ | ⟨-, hv⟩⟩ <;> rw [hv] <;> rfl
  | applyHighQcFromNetwork qc =>
    left
    simp only [step]
    rcases r.applyHighQcFromNetwork_cases now qc with hq | ⟨-, hq⟩
    · rw [hq]
    · rw [hq]
      rfl
  | commitAll =>
    left
    refine commitAll_preserves (I := fun s : Replica σ => s.nextHash = r.nextHash) now r ?_ rfl
    intro s block hs
    rw [executeAndCommit_eq]
    exact hs
  | _ => exact .inl rfl

/-- The hash counter is a 64-bit number. -/
theorem step_nextHash_lt {r : Replica σ} (h : r.nextHash < 2 ^ 64) (c : Nat × Call) :
    (r.step c).nextHash < 2 ^ 64 := by
  rcases r.step_nextHash c with heq | heq
  · rw [heq]
    exact h
  · rw [heq]
    exact Nat.mod_lt _ (by decide)

end Replica

/-- The tree in a snapshot of a filled tree is filled. -/
theorem written_capture {σ : Type} [App σ] {r : Replica σ} (hfilled : r.blockTree.isEmpty = false)
    (hcounter : r.nextHash < 2 ^ 64) (now : Nat) : Written (some (r.captureSnapshot now)) [] where
  adopting := .nil
  filled s hs := by
    cases hs
    obtain ⟨hash, hin⟩ := OrdMap.isEmpty_eq_false_iff.mp hfilled
    obtain ⟨block, hblock⟩ := OrdMap.contains_iff.mp hin
    have hstored : SerializableBlock.fromBlock block ∈ (r.captureSnapshot now).blockTree :=
      List.mem_map_of_mem (OrdMap.mem_values.mpr ⟨hash, hblock⟩)
    exact OrdMap.isEmpty_ofList (List.ne_nil_of_mem (List.mem_map_of_mem hstored))
  counter := hcounter

namespace Node

section History

variable {σ : Type} [Ed25519] [Sha256] [Bincode LogEntry] [Bincode Snapshot] [Crc32] [App σ]

/-- A node whose log carries records that replay to a log of the right length, with a filled tree
and a 64-bit counter, in memory and in what it wrote. -/
structure InOrder (node : Node σ) (snap : Option Snapshot) (entries : List LogEntry) : Prop where
  carrying : Carrying node snap entries
  replays : ∃ st, replayEntries entries (baseState snap) = .ok st ∧
    st.committedLog.length = node.replica.committedLog.length
  written : Written snap entries
  filled : node.replica.blockTree.isEmpty = false
  counter : node.replica.nextHash < 2 ^ 64

/-- After a snapshot a filled node is in order. -/
theorem Writable.inOrder_takeSnapshot {node : Node σ} (h : Writable node)
    (hfilled : node.replica.blockTree.isEmpty = false) (hcounter : node.replica.nextHash < 2 ^ 64)
    (now : Nat) :
    InOrder (node.step (now, .takeSnapshot)) (some (node.replica.captureSnapshot now)) [] := by
  obtain ⟨wal, dir, heq, hdur⟩ := h.takeSnapshot now
  simp only [Node.step, heq]
  refine ⟨hdur.carrying, ⟨_, rfl, ?_⟩, written_capture hfilled hcounter now, hfilled, hcounter⟩
  rw [baseState_length]
  simp [snapshotLength, Replica.captureSnapshot, Snapshot.capture]

/-- How a history begins: a first start with or without a record of genesis, or any replica that has
just taken a snapshot. -/
inductive Begins : Node σ → Prop
  | boot {config : Config} {keystore : KeyStore} {now : Nat} {node : Node σ} :
      Node.boot config keystore now = .ok node → Begins node
  | opened {config : Config} {keystore : KeyStore} {now id : Nat} {r : Replica σ} :
      Simulation.openReplica now id config keystore DataDir.empty = .ok r →
      Begins ⟨r, DataDir.empty⟩
  | snapshot {node : Node σ} {now : Nat} :
      Writable node → node.replica.blockTree.isEmpty = false → node.replica.nextHash < 2 ^ 64 →
      Begins (node.step (now, .takeSnapshot))

omit [Ed25519] [App σ] in
/-- A replica opened in an empty directory carries the record of genesis. -/
theorem carrying_opened {config : Config} {keystore : KeyStore} {now id : Nat} {r : Replica σ}
    (hok : Simulation.openReplica now id config keystore DataDir.empty = .ok r) :
    Carrying (⟨r, DataDir.empty⟩ : Node σ) none [LogEntry.fromBlock now genesisBlock] := by
  have hempty : WAL.Carries ⟨⟨walHeader now config.id, headerSize⟩, config.id, 0, []⟩ [] :=
    ⟨(logFile_header now config.id).1, (length_walHeader now config.id).symm, rfl⟩
  have hkeyed := buildReplica_keyed (σ := σ) (baseState_keyed none) now config keystore
    (baseOf config.n none)
  rw [openReplica_empty] at hok
  cases hok
  exact ⟨hkeyed, ⟨_, rfl, hempty.append _⟩, rfl, rfl, fun seq hseq => (by cases hseq),
    fun seq hseq => (by cases hseq)⟩

omit [Ed25519] [App σ] in
/-- A first start is in order without a record. -/
theorem inOrder_boot {config : Config} {keystore : KeyStore} {now : Nat} {node : Node σ}
    (hok : boot config keystore now = .ok node) : InOrder node none [] := by
  have hone : (1 : Nat) < 2 ^ 64 := by decide
  obtain ⟨wal, heq, hdur⟩ := durable_boot (σ := σ) config keystore now
  rw [heq] at hok
  cases hok
  exact ⟨hdur.carrying, ⟨_, rfl, rfl⟩, ⟨.nil, fun s hs => (by cases hs), hone⟩, rfl, hone⟩

omit [Ed25519] [App σ] in
/-- A replica opened in an empty directory is in order with the record of genesis. -/
theorem inOrder_opened {config : Config} {keystore : KeyStore} {now id : Nat} {r : Replica σ}
    (hok : Simulation.openReplica now id config keystore DataDir.empty = .ok r) :
    InOrder (⟨r, DataDir.empty⟩ : Node σ) none [LogEntry.fromBlock now genesisBlock] := by
  have hone : (1 : Nat) < 2 ^ 64 := by decide
  have hcarry := carrying_opened hok
  rw [openReplica_empty] at hok
  cases hok
  exact ⟨hcarry, ⟨_, rfl, rfl⟩, ⟨.other (fun _ _ _ _ _ h => by cases h) .nil,
    fun s hs => (by cases hs), hone⟩, rfl, hone⟩

/-- A node is in order from the beginning. -/
theorem Begins.inOrder {node : Node σ} (h : Begins node) :
    ∃ snap entries, InOrder node snap entries := by
  cases h with
  | boot hok => exact ⟨_, _, inOrder_boot hok⟩
  | opened hok => exact ⟨_, _, inOrder_opened hok⟩
  | snapshot hwritable hfilled hcounter =>
    exact ⟨_, _, hwritable.inOrder_takeSnapshot hfilled hcounter _⟩

variable [LawfulBincode LogEntry] [LawfulBincode Snapshot] [StrictBincode LogEntry]

omit [LawfulBincode LogEntry] [LawfulBincode Snapshot] [StrictBincode LogEntry] in
/-- The records of a call keep a node in order. -/
theorem InOrder.call {node : Node σ} {snap : Option Snapshot} {entries : List LogEntry}
    (h : InOrder node snap entries) (now : Nat) (call : Call) :
    InOrder (node.step (now, .call call)) snap (entries ++ node.replica.records (now, call)) := by
  obtain ⟨st, hreplay, hlen⟩ := h.replays
  obtain ⟨st', hcall, hlen'⟩ := Replica.replay_records_length h.carrying.keyed hlen (now, call)
  refine ⟨h.carrying.call (now, call), ⟨st', ?_, hlen'⟩,
    ⟨h.written.adopting.append (node.replica.adopting_records (now, call)), h.written.filled,
      h.written.counter⟩,
    Replica.step_filled h.filled (now, call), Replica.step_nextHash_lt h.counter (now, call)⟩
  rw [replayEntries_append, hreplay]
  exact hcall

/-- A restart keeps a node in order, over the same snapshot and records. A recovery that fails
changes nothing. -/
theorem InOrder.restart {node : Node σ} {snap : Option Snapshot} {entries : List LogEntry}
    (h : InOrder node snap entries) (now : Nat) (config : Config) (keystore : KeyStore) :
    InOrder (node.step (now, .restart config keystore)) snap entries := by
  obtain ⟨st, hreplay, hlen⟩ := h.replays
  simp only [Node.step]
  cases hrestart : node.restart config keystore now with
  | error e => exact h
  | ok recovered =>
    obtain ⟨st', wal, hreplay', rfl, hdur⟩ :=
      (h.carrying.durable_of_restart hrestart).of_restart hrestart
    rw [hreplay] at hreplay'
    cases hreplay'
    refine ⟨hdur.carrying, ⟨st, hreplay, rfl⟩, h.written,
      buildReplica_filled (σ := σ) now config keystore (baseOf config.n snap) st, ?_⟩
    show st.nextHash < 2 ^ 64
    rw [replayEntries_nextHash hreplay, baseState_nextHash]
    exact foldl_overtake_lt h.written.counter _

/-- Every operation keeps a node in order. -/
theorem InOrder.step {node : Node σ} {snap : Option Snapshot} {entries : List LogEntry}
    (h : InOrder node snap entries) (op : Nat × NodeOp) :
    ∃ snap' entries', InOrder (node.step op) snap' entries' := by
  obtain ⟨now, op⟩ := op
  cases op with
  | call call => exact ⟨_, _, h.call now call⟩
  | takeSnapshot =>
    exact ⟨_, _, h.carrying.writable.inOrder_takeSnapshot h.filled h.counter now⟩
  | restart config keystore => exact ⟨_, _, h.restart now config keystore⟩

omit [Ed25519] [App σ] in
/-- A node that carries its records exports them with its latest snapshot, if it can export at
all. -/
theorem Carrying.of_exportCatchupState {node : Node σ} {snap : Option Snapshot}
    {entries : List LogEntry} (h : Carrying node snap entries) {exported : Option Snapshot}
    {exportedEntries : List LogEntry}
    (hexport : node.replica.exportCatchupState (node.replica.onDisk node.dir) =
      .ok (exported, exportedEntries)) :
    Durable node snap entries ∧ exported = snap ∧ exportedEntries = entries := by
  obtain ⟨wal, hwal, -⟩ := h.log
  have hdisk : (node.replica.onDisk node.dir).wal = some wal.file.bytes := by
    rw [Replica.onDisk, hwal]
  simp only [Replica.exportCatchupState, hdisk, Option.isSome_some, if_true] at hexport
  cases hopen : WAL.openExisting node.replica.config.id (some wal.file.bytes) with
  | error e =>
    rw [hopen] at hexport
    split at hexport <;> cases hexport
  | ok opened =>
    have hdur := h.durable_of_openExisting (hdisk.symm ▸ hopen)
    obtain ⟨bytes, hbytes, hfile⟩ := hdur.onDisk.log
    obtain rfl : wal.file.bytes = bytes := Option.some.inj (hdisk.symm.trans hbytes)
    have htail : ([] : Bytes).length < 4 := by decide
    have hread := readEntriesFromFile_logFile hfile htail
    have hopened := WAL.openExisting_logFile hfile htail node.replica.config.id
    rw [List.append_nil] at hread hopened
    simp only [hopened, WAL.readAll, hread, hdur.onDisk.store.loadLatest] at hexport
    refine ⟨hdur, ?_⟩
    cases snap <;> cases hexport <;> exact ⟨rfl, rfl⟩

/-- For everything a replica can export after any history, an import into a fresh replica agrees
with a recovery exactly when the export is importable. -/
theorem catchup_agrees_iff {node : Node σ} (hbegins : Begins node) (ops : List (Nat × NodeOp))
    {snap : Option Snapshot} {entries : List LogEntry}
    (hexport : (run step node ops).replica.exportCatchupState
      ((run step node ops).replica.onDisk (run step node ops).dir) = .ok (snap, entries))
    (config : Config) (keystore : KeyStore) (now : Nat) :
    ∃ recovered, (run step node ops).restart config keystore now = .ok recovered ∧
      (SameCatchup ((freshReplica (σ := σ) now config keystore).importCatchupState snap entries)
          recovered.replica ↔
        Importable config.n snap entries) := by
  obtain ⟨snap', entries', horder⟩ :=
    run_preserves (I := fun node : Node σ => ∃ snap entries, InOrder node snap entries)
      (fun _ op ⟨_, _, h⟩ => h.step op) hbegins.inOrder ops
  obtain ⟨hdur, rfl, rfl⟩ := horder.carrying.of_exportCatchupState hexport
  obtain ⟨st, hreplay, -⟩ := horder.replays
  obtain ⟨wal, hrestart, -⟩ := hdur.restart hreplay config keystore now
  exact ⟨_, hrestart, sameCatchup_iff horder.written hreplay now config keystore wal⟩

end History

section Samples

open Sample

/-- Replica 3 of four as a simulation starts it, with genesis in its log. -/
def openedNode : Node NoOpApp :=
  ⟨(party 4 3).attachWal (firstWal 0 (party 4 3).config), DataDir.empty⟩

/-- A replica that has only changed its view exports what an import and a recovery read alike. -/
theorem catchup_agrees_iff_sample :
    ∃ entries recovered,
      (run step openedNode [(1, .call (.advanceViewWithReason .commit))]).replica.exportCatchupState
          ((run step openedNode [(1, .call (.advanceViewWithReason .commit))]).replica.onDisk
            DataDir.empty) = .ok (none, entries) ∧
      (run step openedNode [(1, .call (.advanceViewWithReason .commit))]).restart
          (party 4 3).config (keyStore 4 3) 2 = .ok recovered ∧
      SameCatchup ((freshReplica 2 (party 4 3).config (keyStore 4 3)).importCatchupState none
        entries) recovered.replica := by
  have hexport : (run step openedNode
      [(1, .call (.advanceViewWithReason .commit))]).replica.exportCatchupState
        ((run step openedNode [(1, .call (.advanceViewWithReason .commit))]).replica.onDisk
          DataDir.empty) =
      .ok (none, [LogEntry.fromBlock 0 genesisBlock, .viewChanged 0 1 .commit 1]) := by
    decide +kernel
  have hopened : Simulation.openReplica 0 3 (party 4 3).config (keyStore 4 3) DataDir.empty =
      .ok openedNode.replica := rfl
  obtain ⟨recovered, hrestart, hiff⟩ :=
    catchup_agrees_iff (.opened hopened) [(1, .call (.advanceViewWithReason .commit))] hexport
      (party 4 3).config (keyStore 4 3) 2
  refine ⟨_, recovered, hexport, hrestart, hiff.mpr ?_⟩
  constructor
  case epoch | validators => exact fun s hs => by cases hs
  case counted => decide
  case blocks =>
    intro hash block hlast
    obtain rfl : block = genesisBlock := List.mem_singleton.mp (mem_of_lastNamed hlast).1
    rfl
  case genesis => exact fun _ _ => ⟨genesisBlock, by decide, rfl⟩
  case counter => exact .inl (by decide)

/-- An accepted block moves the hash counter of a recovery, and not that of an import. -/
theorem catchup_agrees_counterexample :
    ∃ entries recovered,
      (run step openedNode
          [(1, .call (.validateAndInsertProposal (block 1 0 0 0 none)))]).replica.exportCatchupState
          ((run step openedNode
            [(1, .call (.validateAndInsertProposal (block 1 0 0 0 none)))]).replica.onDisk
            DataDir.empty) = .ok (none, entries) ∧
      (run step openedNode [(1, .call (.validateAndInsertProposal (block 1 0 0 0 none)))]).restart
          (party 4 3).config (keyStore 4 3) 2 = .ok recovered ∧
      ¬ SameCatchup ((freshReplica 2 (party 4 3).config (keyStore 4 3)).importCatchupState none
        entries) recovered.replica := by
  have hexport : (run step openedNode
      [(1, .call (.validateAndInsertProposal (block 1 0 0 0 none)))]).replica.exportCatchupState
        ((run step openedNode
          [(1, .call (.validateAndInsertProposal (block 1 0 0 0 none)))]).replica.onDisk
          DataDir.empty) =
      .ok (none,
        [LogEntry.fromBlock 0 genesisBlock, LogEntry.fromBlock 1 (block 1 0 0 0 none)]) := by
    decide +kernel
  have hcounter : ((run step openedNode
      [(1, .call (.validateAndInsertProposal (block 1 0 0 0 none)))]).restart (party 4 3).config
        (keyStore 4 3) 2).map (fun node => node.replica.nextHash) = .ok 2 := by
    decide +kernel
  cases hrestart : (run step openedNode
      [(1, .call (.validateAndInsertProposal (block 1 0 0 0 none)))]).restart (party 4 3).config
        (keyStore 4 3) 2 with
  | error e =>
    rw [hrestart] at hcounter
    cases hcounter
  | ok recovered =>
    rw [hrestart] at hcounter
    have hnext : recovered.replica.nextHash = 2 := Except.ok.inj hcounter
    refine ⟨_, recovered, hexport, rfl, fun h => ?_⟩
    have himport := h.nextHash
    rw [hnext] at himport
    revert himport
    decide +kernel

end Samples

end Node

end PersistHotStuff
