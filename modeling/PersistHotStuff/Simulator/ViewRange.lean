import PersistHotStuff.Simulator.FreshHash
import PersistHotStuff.Simulator.Join
import PersistHotStuff.Simulator.TraceRule

/-!
# The range of views

A view is a machine integer: it is counted up without overflow, written to disk
and read back. Whatever arises in a sequence of programs, the views of the live
replicas and those on disk stay in the range.
-/

namespace PersistHotStuff

open Basis

section Calls

variable {σ : Type} [Ed25519] [Sha256] [Bincode LogEntry] [Crc32] [App σ]

/-- A call keeps the view, or moves to the next one. -/
theorem Replica.step_currentView (r : Replica σ) (c : Nat × Call) :
    (r.step c).currentView =
      match c.2 with
      | .advanceViewWithReason _ => saturatingAdd r.currentView 1
      | _ => r.currentView := by
  obtain ⟨now, call⟩ := c
  cases call with
  | propose how view =>
    simp only [step]
    rcases r.proposeBy_cases now view how with h | ⟨-, hash, command, nextHash, queue, h⟩
    · rw [h]
    · rw [h]
      rfl
  | validateAndInsertProposal block =>
    simp only [step]
    rcases r.validateAndInsertProposal_cases now block with ⟨-, h⟩ | ⟨-, h⟩
    · rw [h]
    · rw [h]
      rfl
  | handleVote vote =>
    simp only [step]
    rcases r.handleVote_cases now vote with h | ⟨-, ⟨-, h⟩ | ⟨-, h⟩⟩
    · rw [h]
    · rw [h]
      rfl
    · rw [h]
      rfl
  | applyHighQcFromNetwork qc =>
    simp only [step]
    rcases r.applyHighQcFromNetwork_cases now qc with h | ⟨-, h⟩
    · rw [h]
    · rw [h]
      rfl
  | commitAll => exact commitAll_currentView now r
  | _ => rfl

/-- No call leaves the range. -/
theorem Replica.step_currentView_le {r : Replica σ} (h : r.currentView ≤ u64Max)
    (c : Nat × Call) : (r.step c).currentView ≤ u64Max := by
  rw [step_currentView]
  split
  · exact min_le_right _ _
  · exact h

end Calls

namespace Simulation

theorem freshReplica_currentView {σ : Type} (now : Nat) (config : Config) (keystore : KeyStore) :
    (freshReplica (σ := σ) now config keystore).currentView = 0 := by
  simp only [freshReplica, Replica.ensureDefaultValidators]
  split <;> rfl

section Sync

variable {σ : Type} [Bincode LogEntry] [Crc32]

/-- A rejoin stays in the range. -/
theorem currentView_synced_le (now : Nat) (others : List (Replica σ)) {r : Replica σ}
    (h : r.currentView ≤ u64Max) : (synced now others r).currentView ≤ u64Max := by
  refine synced_preserves (I := fun r : Replica σ => r.currentView ≤ u64Max)
    (fun _ _ => min_le_right _ _) h fun donor _ => ?_
  rw [syncFrom_eq]
  exact h

/-- A rejoin ends in the view recorded on disk, or in the latest one of the others. -/
theorem currentView_synced {others : List (Replica σ)} {donor : Replica σ}
    (hdonor : others.head? = some donor) (hviews : ∀ s ∈ others, s.currentView ≤ u64Max)
    (now : Nat) (r : Replica σ) :
    ∃ top ∈ others.map Replica.currentView, (∀ s ∈ others, s.currentView ≤ top) ∧
      (synced now others r).currentView = max r.currentView top := by
  obtain ⟨top, hmem, htop, heq⟩ := synced_eq hdonor now r
  obtain ⟨last, hlast, rfl⟩ := List.mem_map.mp hmem
  refine ⟨_, hmem, htop, ?_⟩
  rw [heq, currentView_catchUpView (by omega) (hviews last hlast), syncFrom_eq]

end Sync

section Range

variable {σ : Type} [Bincode LogEntry] [Bincode Snapshot] [Crc32] [Sha256]

/-- A directory that restores a view in the range. -/
def Restores (dir : DataDir) : Prop :=
  ∃ stored p, genesisBlock ∈ stored ∧ DirKnows stored dir p ∧ p.currentView ≤ u64Max

/-- The views of the live replicas and of the directories the crashed ones have left are in the
range. -/
def InRange (sim : Simulation σ) : Prop :=
  Seated (fun r _ => r.currentView ≤ u64Max) (fun _ dir => ∀ d ∈ dir, Restores d) sim

variable {sim : Simulation σ}

/-- What a simulation leaves behind restores a view in the range. -/
theorem InRange.leaves (h : InRange sim) {blocks : List Block} (hgenesis : genesisBlock ∈ blocks)
    (hstocked : Stocked blocks sim) {id : Nat} {dir : DataDir}
    (hleaves : sim.leaves id = some dir) : Restores dir := by
  rw [Simulation.leaves] at hleaves
  split at hleaves
  · rename_i r d hr hd
    cases hleaves
    split
    · rename_i hi
      exact h.left id r hr hi d hd
    · rename_i hi
      exact ⟨blocks, _, hgenesis, ((hstocked.live id r hr hi).disk d hd).stored,
        h.live id r hr hi⟩
  · cases hleaves

/-- A replica opened from an empty directory is in view 0. -/
theorem openReplica_empty_currentView {now id : Nat} {config : Config} {keystore : KeyStore}
    {opened : Replica σ} (hok : openReplica now id config keystore DataDir.empty = .ok opened) :
    opened.currentView = 0 := by
  rw [PersistHotStuff.openReplica_empty] at hok
  cases hok
  rfl

variable [LawfulBincode LogEntry] [StrictBincode LogEntry] [LawfulBincode Snapshot]

/-- A directory restores the view it has recorded. -/
theorem Restores.openReplica {dir : DataDir} (h : Restores dir) {now id : Nat} {config : Config}
    {keystore : KeyStore} {opened : Replica σ}
    (hok : openReplica now id config keystore dir = .ok opened) : opened.currentView ≤ u64Max := by
  obtain ⟨stored, p, hgenesis, hknows, hview⟩ := h
  obtain ⟨hpointers, -, -⟩ := hknows.openReplica (framesFit_of_openReplica hok) hgenesis hok
  exact (congrArg Pointers.currentView hpointers).trans_le hview

variable [Ed25519] [App σ]

/-- Every step keeps to some stock of blocks and to the range of views. -/
theorem inRange_rule : TraceRule fun sim : Simulation σ =>
    (∃ blocks, genesisBlock ∈ blocks ∧ Stocked blocks sim) ∧ InRange sim := by
  refine { call := ?_, snapshot := ?_, respond := ?_, network := ?_, clock := ?_, bump := ?_,
           crash := ?_, recover := ?_, interrupt := ?_, configure := ?_ }
  · rintro sim i r c ⟨⟨blocks, hgenesis, hstocked⟩, h⟩ hr ha
    -- the stock grows by what the call inserts
    refine ⟨⟨(r.inserted c).toList ++ blocks, List.mem_append_right _ hgenesis, ?_⟩, ?_⟩
    · exact (stocked_rule _).call sim i r c
        (hstocked.mono fun b hb => List.mem_append_right _ hb) hr ha
        fun b hb => List.mem_append_left _ (Option.mem_toList.mpr hb)
    · exact h.replace (not_crashed_of_available ha) (fun _ _ => rfl)
        (Replica.step_currentView_le (h.live i r hr (not_crashed_of_available ha)) c)
  · rintro sim i r dir now ⟨⟨blocks, hgenesis, hstocked⟩, h⟩ hr ha hdir
    refine ⟨⟨blocks, hgenesis, (stocked_rule blocks).snapshot sim i r dir now hstocked hr ha hdir⟩,
      h.replace (not_crashed_of_available ha)
        (fun j hj => List.getElem?_set_ne (Ne.symm hj)) ?_⟩
    rw [takeSnapshot_replica]
    exact h.live i r hr (not_crashed_of_available ha)
  · rintro sim i ⟨⟨blocks, hgenesis, hstocked⟩, h⟩
    exact ⟨⟨blocks, hgenesis, hstocked.live, hstocked.left⟩, h.live, h.left⟩
  · rintro sim net ⟨⟨blocks, hgenesis, hstocked⟩, h⟩ -
    exact ⟨⟨blocks, hgenesis, hstocked.live, hstocked.left⟩, h.live, h.left⟩
  · rintro sim ⟨⟨blocks, hgenesis, hstocked⟩, h⟩
    exact ⟨⟨blocks, hgenesis, hstocked.live, hstocked.left⟩, h.live, h.left⟩
  · rintro sim ⟨⟨blocks, hgenesis, hstocked⟩, h⟩
    exact ⟨⟨blocks, hgenesis, hstocked.live, hstocked.left⟩, h.live, h.left⟩
  · rintro now sim i sim' ⟨⟨blocks, hgenesis, hstocked⟩, h⟩ hok
    refine ⟨⟨blocks, hgenesis, hstocked.crash hgenesis hok⟩, ?_⟩
    -- the directory has recorded the view of the replica that crashes
    have hboth : Seated (fun r dir => r.currentView ≤ u64Max ∧ LiveStock blocks r dir)
        (fun _ dir => ∀ d ∈ dir, Restores d) sim :=
      ⟨fun j r hr hj => ⟨h.live j r hr hj, hstocked.live j r hr hj⟩, h.left⟩
    refine (hboth.crash (fun _ r dir keystore hlive d hd => ?_) hok).mono (fun _ _ h => h.1)
      fun _ _ h => h
    obtain ⟨d', hd', rfl⟩ := Option.map_eq_some_iff.mp hd
    exact ⟨blocks, _, hgenesis, (hlive.2.disk d' hd').stored, hlive.1⟩
  · rintro now sim i sim' ⟨⟨blocks, hgenesis, hstocked⟩, h⟩ hok
    refine ⟨⟨blocks, hgenesis, hstocked.recover hgenesis hok⟩, ?_⟩
    refine h.recover (fun r keystore dir opened hr hi hdir hopen => ?_) hok
    rw [rejoin_eq, takeSnapshot_replica]
    exact currentView_synced_le now _ ((h.left i r hr hi dir hdir).openReplica hopen)
  · rintro sim i unresponsive sim' ⟨⟨blocks, hgenesis, hstocked⟩, h⟩ hok
    exact ⟨⟨blocks, hgenesis, hstocked.setReplicaUnresponsive hok⟩, h.setReplicaUnresponsive hok⟩
  · rintro now sim call replicas ⟨⟨blocks, hgenesis, hstocked⟩, h⟩ - hreplicas
    have hkeeps : ∀ blocks, (∀ r ∈ sim.replicas, ∀ b ∈ r.inserted (now, call), b ∈ blocks) →
        Stocked blocks sim → Stocked blocks { sim with replicas := replicas } := by
      intro blocks hins hstocked
      refine ⟨fun i r' hr' hi => ?_, fun i r' hr' hi => ?_⟩
      · obtain ⟨r, hr, rfl | rfl⟩ := hreplicas i r' hr'
        · exact hstocked.live i _ hr hi
        · exact (hstocked.live i r hr hi).call (hins r (List.mem_of_getElem? hr))
      · obtain ⟨r, hr, rfl | rfl⟩ := hreplicas i r' hr'
        · exact hstocked.left i _ hr hi
        · exact (hstocked.left i r hr hi).call (hins r (List.mem_of_getElem? hr))
    refine ⟨⟨(sim.replicas.flatMap fun r => (r.inserted (now, call)).toList) ++ blocks,
      List.mem_append_right _ hgenesis, hkeeps _ (fun r hr b hb => List.mem_append_left _ ?_)
        (hstocked.mono fun b hb => List.mem_append_right _ hb)⟩, ?_⟩
    · exact List.mem_flatMap.mpr ⟨r, hr, Option.mem_toList.mpr hb⟩
    · refine h.configure fun i r' hr' => ?_
      obtain ⟨r, hr, rfl | rfl⟩ := hreplicas i r' hr'
      · exact ⟨_, hr, fun _ => ⟨id, id⟩⟩
      · exact ⟨r, hr, fun _ => ⟨fun hview => Replica.step_currentView_le hview _, id⟩⟩

/-- Whatever arises in a sequence of programs has its views in the range. -/
theorem Arises.inRange (h : Arises sim) : InRange sim := by
  induction h with
  | new now f maxSteps allKeys =>
    refine ⟨fun i r hr _ => ?_, fun i r _ hi => absurd hi (Finset.notMem_empty i)⟩
    simp only [Simulation.new, start, List.getElem?_mapIdx, Option.map_eq_some_iff] at hr
    obtain ⟨ks, -, rfl⟩ := hr
    exact (freshReplica_currentView now _ ks).trans_le (Nat.zero_le _)
  | restart harises hrestarts ih =>
    obtain ⟨old, maxSteps, blocks, hminted⟩ := harises.minted
    obtain ⟨now, f, maxSteps, allKeys, dirs, -, hdirs, hok⟩ := hrestarts
    obtain ⟨replicas, rfl, -, hslots⟩ := newWithPersistence_slots hok
    refine ⟨fun i r hr _ => ?_, fun i r _ hi => absurd hi (Finset.notMem_empty i)⟩
    obtain ⟨ks, dir, -, hdir, hopened⟩ := hslots i r hr
    rcases hdirs i dir hdir with rfl | hleaves
    · exact (openReplica_empty_currentView hopened).trans_le (Nat.zero_le _)
    · exact (ih.leaves hminted.genesis hminted.stocked hleaves).openReplica hopened
  | step op harises ih =>
    obtain ⟨old, maxSteps, blocks, hminted⟩ := harises.minted
    exact (inRange_rule.step ⟨⟨blocks, hminted.genesis, hminted.stocked⟩, ih⟩ op).2

end Range

end Simulation

end PersistHotStuff
