import PersistHotStuff.Durability.Carried
import PersistHotStuff.Simulator.RoundRule

/-!
# The stock of blocks

The blocks the replicas of a simulation and their directories can hold between
them. Every step of the simulator keeps to the stock, apart from the block a
leader proposes.
-/

namespace PersistHotStuff

open Basis

section Opening

variable {σ : Type} [Bincode LogEntry] [Bincode Snapshot] [Crc32] [Sha256] [LawfulBincode LogEntry]
  [StrictBincode LogEntry]

/-- A directory from which a replica was opened has no record too long for its length prefix. -/
theorem framesFit_of_openReplica {now id : Nat} {config : Config} {keystore : KeyStore}
    {dir : DataDir} {recovered : Replica σ}
    (hok : Simulation.openReplica now id config keystore dir = .ok recovered) : FramesFit dir := by
  intro created replicaId entries hwal
  obtain ⟨disk, wal, log, hrec, -, -⟩ := Node.openReplica_ok_iff.mp hok
  obtain ⟨opened, hopened⟩ := Node.openExisting_of_recover hwal hrec
  exact short_of_openExisting hopened

omit [Bincode Snapshot] [Sha256] [LawfulBincode LogEntry] [StrictBincode LogEntry] in
/-- Logging genesis adds nothing to the log, or a block of the tree. -/
theorem logGenesis_cases {now : Nat} {wal wal' : WAL} {replica : Replica σ}
    (hok : logGenesis now wal replica = .ok wal') :
    wal' = wal ∨ ∃ block ∈ replica.blockTree.values,
      wal' = (wal.append (LogEntry.fromBlock now block)).2 := by
  unfold logGenesis at hok
  split at hok
  · rename_i hfresh
    obtain ⟨block, hblock⟩ : ∃ block, replica.blockTree.get? 0 = some block := by
      simp only [isFreshStore, Bool.and_eq_true] at hfresh
      exact OrdMap.contains_iff.mp hfresh.2
    simp only [hblock, Option.getD_some] at hok
    refine .inr ⟨block, OrdMap.mem_values.mpr ⟨0, hblock⟩, ?_⟩
    cases happend : wal.append (LogEntry.fromBlock now block) with
    | mk result appended =>
      rw [happend] at hok
      cases result with
      | error e => cases hok
      | ok _ =>
        cases hok
        rfl
  · cases hok
    exact .inl rfl

variable [LawfulBincode Snapshot]

/-- A replica opened from a directory with a readable log is live, and its directory holds no more
than its tree. -/
theorem DirKnows.live_of_openReplica {blocks stored : List Block} {dir : DataDir} {p : Pointers}
    (h : DirKnows stored dir p) {now id : Nat} {config : Config} {keystore : KeyStore}
    {recovered : Replica σ}
    (hok : Simulation.openReplica now id config keystore dir = .ok recovered)
    (hknown : KnownTree blocks recovered.blockTree) : Node.Live blocks ⟨recovered, dir⟩ := by
  obtain ⟨snap, entries, st, ⟨created, replicaId, hwal⟩, hstore, hreplay, -, -⟩ := h.replays
  have hfit := framesFit_of_openReplica hok created replicaId entries hwal
  have hholds : DirHolds dir snap entries :=
    ⟨⟨_, hwal, ⟨created, replicaId, rfl⟩, hfit⟩, hstore, h.noTmp⟩
  obtain ⟨-, -, -, -, hwritable⟩ := Node.writable_of_openReplica hholds h.paired hok
  obtain ⟨wal, hwalholds, -, hrec⟩ := hholds.recover (σ := σ) now config keystore
  rw [Simulation.openReplica, hrec, hreplay] at hok
  simp only [Except.map] at hok
  cases hlog : logGenesis now wal
      (buildReplica (σ := σ) now config keystore (baseOf config.n snap) st) with
  | error e =>
    rw [hlog] at hok
    cases hok
  | ok wal' =>
    rw [hlog] at hok
    cases hok
    -- what the log replays to is in the tree
    have hstored : KnownTree blocks st.blockTree := by
      intro b hb
      refine hknown b ?_
      simp only [Replica.attachWal, buildReplica]
      split
      · rename_i hempty
        obtain ⟨hash, hget⟩ := OrdMap.mem_values.mp hb
        rw [OrdMap.isEmpty_iff.mp hempty hash] at hget
        cases hget
      · exact hb
    obtain ⟨more, st', hcarries, hreplay', hp, hknown'⟩ : ∃ more st',
        wal'.Carries (entries ++ more) ∧
          replayEntries (entries ++ more) (baseState snap) = .ok st' ∧
          st'.pointers = st.pointers ∧ KnownTree blocks st'.blockTree := by
      rcases logGenesis_cases hlog with rfl | ⟨block, hblock, rfl⟩
      · refine ⟨[], st, ?_, ?_, rfl, hstored⟩
        · rw [List.append_nil]
          exact hwalholds.carries
        · rw [List.append_nil]
          exact hreplay
      · obtain ⟨st', rebuilt, hone, hp, htree, houtline⟩ : ∃ st' rebuilt,
            replayEntries [LogEntry.fromBlock now block] st = .ok st' ∧
              st'.pointers = st.pointers ∧
              st'.blockTree = st.blockTree.insert block.hash rebuilt ∧
              rebuilt.outline = block.outline := by
          refine ⟨_, _, rfl, rfl, rfl, ?_⟩
          simp only [Block.outline, stubQc_blockHash]
        refine ⟨[LogEntry.fromBlock now block], st', hwalholds.carries.append _, ?_, hp, ?_⟩
        · rw [replayEntries_append, hreplay]
          exact hone
        · obtain ⟨b₀, hb₀, h₀⟩ := hknown block hblock
          rw [htree]
          exact hstored.insert block.hash ⟨b₀, hb₀, h₀.trans houtline.symm⟩
    obtain ⟨created', replicaId', hbytes⟩ := hcarries.bytes
    refine ⟨hwritable, fun w hw => ?_, ⟨snap, entries ++ more, st', ⟨created', replicaId', ?_⟩, ?_,
      hreplay', hp, hknown'⟩, h.noTmp, h.paired⟩
    · cases hw
      exact hcarries.atEnd
    · exact congrArg some hbytes
    · cases snap <;> exact hstore

end Opening

section Slot

variable {σ : Type} [Bincode LogEntry] [Bincode Snapshot] [Crc32] [Sha256] {blocks : List Block}

/-- A live replica and its directory hold blocks of the stock. -/
structure LiveStock (blocks : List Block) (r : Replica σ) (dir : Option DataDir) : Prop where
  keyed : TreeKeyed r.blockTree
  known : KnownTree blocks r.blockTree
  disk : ∀ d ∈ dir, Node.Live blocks ⟨r, d⟩

/-- A crashed replica and the directory it has left hold blocks of the stock. -/
structure LeftStock (blocks : List Block) (r : Replica σ) (dir : Option DataDir) : Prop where
  keyed : TreeKeyed r.blockTree
  known : KnownTree blocks r.blockTree
  disk : ∀ d ∈ dir, ∃ p, DirKnows blocks d p

theorem LiveStock.mono {more : List Block} {r : Replica σ} {dir : Option DataDir}
    (h : LiveStock blocks r dir) (hsub : ∀ b ∈ blocks, b ∈ more) : LiveStock more r dir := by
  refine ⟨h.keyed, h.known.mono hsub, fun d hd => ?_⟩
  obtain ⟨hwritable, hend, hstored⟩ := h.disk d hd
  exact ⟨hwritable, hend, hstored.mono hsub⟩

theorem LeftStock.mono {more : List Block} {r : Replica σ} {dir : Option DataDir}
    (h : LeftStock blocks r dir) (hsub : ∀ b ∈ blocks, b ∈ more) : LeftStock more r dir := by
  refine ⟨h.keyed, h.known.mono hsub, fun d hd => ?_⟩
  obtain ⟨p, hstored⟩ := h.disk d hd
  exact ⟨p, hstored.mono hsub⟩

variable [Ed25519] [App σ]

omit [Bincode Snapshot] in
/-- The tree after a call that inserts a block of the stock. -/
theorem KnownTree.call {r : Replica σ} (h : KnownTree blocks r.blockTree) {c : Nat × Call}
    (hins : ∀ b ∈ r.inserted c, b ∈ blocks) : KnownTree blocks (r.step c).blockTree := by
  rw [Replica.step_blockTree]
  cases hin : r.inserted c with
  | none => exact h
  | some block => exact h.insert block.hash ⟨block, hins block hin, rfl⟩

/-- A call that inserts a block of the stock. -/
theorem LiveStock.call {r : Replica σ} {dir : Option DataDir} (h : LiveStock blocks r dir)
    {c : Nat × Call} (hins : ∀ b ∈ r.inserted c, b ∈ blocks) : LiveStock blocks (r.step c) dir :=
  ⟨Replica.treeKeyed_step h.keyed c, h.known.call hins, fun d hd => (h.disk d hd).call hins⟩

theorem LeftStock.call {r : Replica σ} {dir : Option DataDir} (h : LeftStock blocks r dir)
    {c : Nat × Call} (hins : ∀ b ∈ r.inserted c, b ∈ blocks) : LeftStock blocks (r.step c) dir :=
  ⟨Replica.treeKeyed_step h.keyed c, h.known.call hins, h.disk⟩

omit [Ed25519] in
/-- A snapshot of the stock. -/
theorem LiveStock.takeSnapshot {r : Replica σ} {dir : DataDir} (h : LiveStock blocks r (some dir))
    (now : Nat) :
    LiveStock blocks (r.takeSnapshot now dir).2.1 (some (r.takeSnapshot now dir).2.2) := by
  obtain ⟨wal, dir', heq, hlive⟩ := (h.disk dir rfl).writable.live_takeSnapshot h.known now
  simp only at heq
  rw [heq]
  refine ⟨h.keyed, h.known, fun d hd => ?_⟩
  cases hd
  exact hlive

end Slot

namespace Simulation

variable {σ : Type} [Bincode LogEntry] [Bincode Snapshot] [Crc32] [Sha256] {blocks : List Block}
  {sim : Simulation σ}

/-- A simulation whose replicas and directories hold blocks of the stock. -/
def Stocked (blocks : List Block) (sim : Simulation σ) : Prop :=
  Seated (LiveStock blocks) (LeftStock blocks) sim

theorem Stocked.mono {more : List Block} (h : Stocked blocks sim)
    (hsub : ∀ b ∈ blocks, b ∈ more) : Stocked more sim :=
  Seated.mono h (fun _ _ h => h.mono hsub) fun _ _ h => h.mono hsub

/-- Every tree holds blocks of the stock, each under its own hash. -/
theorem Stocked.tree (h : Stocked blocks sim) {r : Replica σ} (hr : r ∈ sim.replicas) :
    TreeKeyed r.blockTree ∧ KnownTree blocks r.blockTree := by
  obtain ⟨i, hi⟩ := List.mem_iff_getElem?.mp hr
  by_cases hc : i ∈ sim.crashedReplicas
  · exact ⟨(h.left i r hi hc).keyed, (h.left i r hi hc).known⟩
  · exact ⟨(h.live i r hi hc).keyed, (h.live i r hi hc).known⟩

/-- A crash loses blocks, and none is new. -/
theorem Stocked.crash (h : Stocked blocks sim) (hgenesis : genesisBlock ∈ blocks) {now i : Nat}
    {sim' : Simulation σ} (hok : sim.crashReplica now i = .ok sim') : Stocked blocks sim' := by
  refine Seated.crash h (fun _ r dir keystore hlive => ?_) hok
  have hfollows := follows_freshReplica (σ := σ) now r.config keystore
  refine ⟨hfollows.keyed, hfollows.known.mono fun b hb => ?_, fun d hd => ?_⟩
  · rw [List.mem_singleton.mp hb]
    exact hgenesis
  · obtain ⟨d', hd', rfl⟩ := Option.map_eq_some_iff.mp hd
    exact ⟨_, (hlive.disk d' hd').stored⟩

theorem Stocked.processTimeoutCrashes (h : Stocked blocks sim) (hgenesis : genesisBlock ∈ blocks)
    (now : Nat) : Stocked blocks (sim.processTimeoutCrashes now) :=
  processTimeoutCrashes_preserves (fun _ _ _ h hok => h.crash hgenesis hok) h

omit [Bincode Snapshot] [Sha256] in
/-- What a replica and a donor know between them. -/
theorem known_synced {r : Replica σ} {others : List (Replica σ)} (now : Nat)
    (hr : KnownTree blocks r.blockTree)
    (hothers : ∀ donor ∈ others.head?, KnownTree blocks donor.blockTree) :
    KnownTree blocks (synced now others r).blockTree := by
  refine synced_preserves (I := fun s : Replica σ => KnownTree blocks s.blockTree) (fun _ h => h) hr
    fun donor hdonor => ?_
  rw [syncFrom_eq]
  exact known_importBlocks hr (hothers donor hdonor)

variable [App σ]

/-- A recovery brings back blocks of the stock. -/
theorem Stocked.recover [LawfulBincode LogEntry] [StrictBincode LogEntry] [LawfulBincode Snapshot]
    (h : Stocked blocks sim) (hgenesis : genesisBlock ∈ blocks) {now i : Nat}
    {sim' : Simulation σ} (hok : sim.recoverReplica now i = .ok sim') : Stocked blocks sim' := by
  refine Seated.recover h (fun replica keystore dir recovered hr hi hdir hopen => ?_) hok
  obtain ⟨p, hstored⟩ := (h.left i replica hr hi).disk dir hdir
  obtain ⟨-, hknown, hwritable⟩ :=
    hstored.openReplica (framesFit_of_openReplica hopen) hgenesis hopen
  have hothers : ∀ donor ∈ (sim.liveOthers i).head?,
      TreeKeyed donor.blockTree ∧ KnownTree blocks donor.blockTree := by
    intro donor hdonor
    obtain ⟨j, hj, -, -⟩ := mem_liveOthers (List.mem_of_head? hdonor)
    exact h.tree (List.mem_of_getElem? hj)
  have hsynced := hwritable.synced now fun donor hdonor => (hothers donor hdonor).1
  have hall := known_synced now hknown fun donor hdonor => (hothers donor hdonor).2
  obtain ⟨wal, dir', heq, hlive⟩ := hsynced.live_takeSnapshot hall now
  simp only at heq
  rw [rejoin_eq, heq]
  refine ⟨hsynced.keyed, hall, fun d hd => ?_⟩
  cases hd
  exact hlive

variable [Ed25519]

/-- Every step of a round keeps to the stock if the blocks inserted do. -/
theorem stocked_rule (blocks : List Block) :
    RuleFor (σ := σ) (fun b => b ∈ blocks) (Stocked blocks) where
  call sim i r c h hr ha hins :=
    Seated.replace h (not_crashed_of_available ha) (fun _ _ => rfl)
      ((h.live i r hr (not_crashed_of_available ha)).call hins)
  snapshot sim i r dir now h hr ha hdir := by
    have hi := not_crashed_of_available ha
    refine Seated.replace h hi (fun j hj => List.getElem?_set_ne (Ne.symm hj)) ?_
    have hlive := h.live i r hr hi
    rw [hdir] at hlive
    rw [List.getElem?_set_self (List.getElem?_eq_some_iff.mp hdir).1]
    exact hlive.takeSnapshot now
  respond sim i h := ⟨h.live, h.left⟩
  network sim net h _ := ⟨h.live, h.left⟩

end Simulation

end PersistHotStuff
