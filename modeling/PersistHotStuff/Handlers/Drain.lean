import PersistHotStuff.Handlers.Execution
import PersistHotStuff.Source.Sample

/-!
# Draining the commits

The commit loop on any tree, also one whose blocks do not sit under their own
hashes. Each round commits a block of the tree that is not in the log yet, so
fewer are left; when none is found the loop stops.
-/

namespace PersistHotStuff

open Basis

namespace Replica

section Drain

variable {σ : Type}

/-- The blocks of the tree that are not in the log. -/
def uncommitted (r : Replica σ) : List Block :=
  r.blockTree.values.filter fun b => !r.isCommitted b.hash

/-- The scan finds a block of the tree that is not in the log. -/
theorem findCommittedBlock_some {r : Replica σ} {block : Block}
    (h : r.findCommittedBlock = some block) :
    block ∈ r.blockTree.values ∧ r.isCommitted block.hash = false := by
  rw [findCommittedBlock_eq] at h
  obtain ⟨hin, hfresh, -⟩ := mem_ready.mp (List.mem_of_mem_head? h)
  exact ⟨hin, hfresh⟩

variable [Ed25519] [Bincode LogEntry] [Crc32] [App σ]

/-- A committed block of the tree leaves fewer uncommitted ones. -/
theorem uncommitted_executeAndCommit (now : Nat) {r : Replica σ} {block : Block}
    (hin : block ∈ r.blockTree.values) (hfresh : r.isCommitted block.hash = false) :
    (r.executeAndCommit now block).uncommitted.length < r.uncommitted.length := by
  have hsplit : (r.executeAndCommit now block).uncommitted =
      r.uncommitted.filter fun b => b.hash != block.hash := by
    simp only [uncommitted, executeAndCommit_blockTree, isCommitted,
      executeAndCommit_committedLog, List.any_append, List.any_cons, List.any_nil, Bool.or_false,
      List.filter_filter]
    refine List.filter_congr fun b _ => ?_
    rw [Bool.not_or, Bool.and_comm, BEq.comm, bne]
  rw [hsplit]
  refine List.length_filter_lt_length_iff_exists.mpr ⟨block, ?_, by simp⟩
  rw [uncommitted, List.mem_filter]
  exact ⟨hin, by simp [hfresh]⟩

/-- What committing blocks one after the other, until none is found, leads to. -/
structure Drained (r s : Replica σ) (appended : List Block) : Prop where
  log : s.committedLog = r.committedLog ++ appended
  inTree : ∀ block ∈ appended, block ∈ r.blockTree.values
  /-- No hash is in the log twice. -/
  once : (s.committedLog.map Block.hash).Nodup
  upTo : s.committedUpTo = (appended.getLast?.map Block.hash).or r.committedUpTo
  /-- The application was told of the appended blocks, in order and with their positions. -/
  app : s.app = r.app.map fun app => execute app r.committedLog.length appended
  stopped : s.findCommittedBlock = none

omit [Ed25519] [Bincode LogEntry] [Crc32] in
theorem drained_refl {r : Replica σ} (hdistinct : (r.committedLog.map Block.hash).Nodup)
    (hnone : r.findCommittedBlock = none) : Drained r r [] := by
  refine ⟨(List.append_nil _).symm, fun block hb => (by cases hb), hdistinct, rfl, ?_, hnone⟩
  show r.app = r.app.map id
  rw [Option.map_id, id]

/-- A commit in front of a drained state. -/
theorem Drained.cons {now : Nat} {r s : Replica σ} {block : Block} {appended : List Block}
    (h : Drained (r.executeAndCommit now block) s appended)
    (hin : block ∈ r.blockTree.values) : Drained r s (block :: appended) := by
  refine ⟨?_, ?_, h.once, ?_, ?_, h.stopped⟩
  · rw [h.log, executeAndCommit_committedLog, List.append_assoc]
    rfl
  · intro b hb
    rcases List.mem_cons.mp hb with rfl | hb
    · exact hin
    · have hb' := h.inTree b hb
      rwa [executeAndCommit_blockTree] at hb'
  · rw [h.upTo, executeAndCommit_committedUpTo]
    cases appended with
    | nil => rfl
    | cons b bs =>
      rw [List.getLast?_cons_cons]
      cases hlast : (b :: bs).getLast? with
      | none => exact absurd (List.getLast?_eq_none_iff.mp hlast) (List.cons_ne_nil b bs)
      | some last => rfl
  · rw [h.app, executeAndCommit_app, executeAndCommit_committedLog, Option.map_map,
      List.length_append, List.length_singleton]
    rfl

/-- With enough rounds the loop drains. -/
theorem exists_drained (now : Nat) {r : Replica σ}
    (hdistinct : (r.committedLog.map Block.hash).Nodup) {fuel : Nat}
    (hfuel : r.uncommitted.length ≤ fuel) :
    ∃ appended, Drained r (commitLoop now fuel r) appended := by
  induction fuel generalizing r with
  | zero =>
    refine ⟨[], drained_refl hdistinct ?_⟩
    cases hfind : r.findCommittedBlock with
    | none => rfl
    | some block =>
      obtain ⟨hin, hfresh⟩ := findCommittedBlock_some hfind
      have hlt := uncommitted_executeAndCommit now hin hfresh
      omega
  | succ fuel ih =>
    simp only [commitLoop, tryCommitOnce]
    cases hfind : r.findCommittedBlock with
    | none => exact ⟨[], drained_refl hdistinct hfind⟩
    | some block =>
      obtain ⟨hin, hfresh⟩ := findCommittedBlock_some hfind
      have hlt := uncommitted_executeAndCommit now hin hfresh
      have hnew : ((r.executeAndCommit now block).committedLog.map Block.hash).Nodup := by
        rw [executeAndCommit_committedLog, List.map_append, List.nodup_append]
        refine ⟨hdistinct, List.nodup_singleton _, fun i hi j hj => ?_⟩
        obtain ⟨b, hb, rfl⟩ := List.mem_map.mp hi
        rw [List.mem_singleton.mp hj]
        intro heq
        rw [isCommitted_iff.mpr ⟨b, hb, heq⟩] at hfresh
        cases hfresh
      obtain ⟨appended, hdrained⟩ := ih hnew (by omega)
      exact ⟨block :: appended, hdrained.cons hin⟩

/-- A loop that finds nothing changes nothing. -/
theorem commitLoop_of_none (now : Nat) {r : Replica σ} (h : r.findCommittedBlock = none)
    (fuel : Nat) : commitLoop now fuel r = r := by
  cases fuel with
  | zero => rfl
  | succ fuel => simp only [commitLoop, tryCommitOnce, h]

/-- Rounds beyond the first that finds nothing change nothing. -/
theorem commitLoop_add (now : Nat) {r : Replica σ} {fuel : Nat}
    (h : (commitLoop now fuel r).findCommittedBlock = none) (more : Nat) :
    commitLoop now (fuel + more) r = commitLoop now fuel r := by
  induction fuel generalizing r with
  | zero =>
    rw [Nat.zero_add]
    exact commitLoop_of_none now h more
  | succ fuel ih =>
    rw [Nat.succ_add]
    simp only [commitLoop, tryCommitOnce] at h ⊢
    cases hfind : r.findCommittedBlock with
    | none => rfl
    | some block =>
      rw [hfind] at h
      exact ih h

/-- On any tree, if no hash is in the log twice: the loop ends, by itself, within as many rounds as
the tree has blocks. It appends blocks of the tree to the log, each hash once, moves the pointer to
the last of them, and tells the application of exactly these, in order and with their positions;
after it the scan finds nothing and another loop changes nothing. -/
theorem commitAll_drains (now : Nat) {r : Replica σ}
    (hdistinct : (r.committedLog.map Block.hash).Nodup) :
    (∃ appended, Drained r (r.commitAll now) appended) ∧
      (∀ rounds, r.blockTree.length ≤ rounds → commitLoop now rounds r = r.commitAll now) ∧
      ∀ later, (r.commitAll now).commitAll later = r.commitAll now := by
  have hfuel : r.uncommitted.length ≤ r.blockTree.length := by
    rw [← OrdMap.length_values]
    exact List.length_filter_le ..
  obtain ⟨appended, hdrained⟩ := exists_drained now hdistinct hfuel
  refine ⟨⟨appended, hdrained⟩, fun rounds hrounds => ?_, fun later => ?_⟩
  · obtain ⟨more, rfl⟩ := Nat.exists_eq_add_of_le hrounds
    exact commitLoop_add now hdrained.stopped more
  · exact commitLoop_of_none later hdrained.stopped _

end Drain

section Samples

open Sample

/-- Genesis and two certified blocks, the last of them twice, once under a hash that is not its
own. -/
def drainable : Replica NoOpApp :=
  { party 4 0 with
    blockTree := OrdMap.ofList
      [(0, genesisBlock), (1, block 1 0 1 1 (some (qc [] 0 0 0))),
        (2, block 2 1 2 2 (some (qc [] 1 1 0))), (3, block 2 1 2 2 (some (qc [] 1 1 0))),
        (4, block 4 2 3 3 (some (qc [] 2 2 0)))]
    app := some {} }

theorem commitAll_drains_sample :
    (drainable.commitAll 7).committedLog.map Block.hash = [0, 1] ∧
      (drainable.commitAll 7).commitAll 8 = drainable.commitAll 7 :=
  ⟨by decide +kernel, (commitAll_drains 7 (r := drainable) (by decide +kernel)).2.2 8⟩

end Samples

end Replica

end PersistHotStuff
