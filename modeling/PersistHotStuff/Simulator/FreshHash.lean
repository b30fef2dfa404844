import PersistHotStuff.Simulator.FaultFree
import PersistHotStuff.Simulator.Minting

/-!
# Successive programs

A simulation over directories that an earlier program has left starts with the
blocks stored there and with its counter back at 1. When that matters is decided
by the blocks it starts with, whatever is done to it afterwards.
-/

namespace PersistHotStuff

open Basis

namespace Simulation

variable {σ : Type} [Ed25519] [Sha256] [Bincode LogEntry] [Bincode Snapshot] [Crc32]
  {sim : Simulation σ}

section Start

/-- What a replica has on disk when the program ends: a crashed one what it has left, a live one
its snapshots and its log. -/
def leaves (sim : Simulation σ) (id : Nat) : Option DataDir :=
  match sim.replicas[id]?, sim.replicaDataDirs[id]? with
  | some r, some dir => some (if id ∈ sim.crashedReplicas then dir else r.onDisk dir)
  | _, _ => none

/-- A simulation that starts over directories each of which is empty or left by an earlier one. -/
def Restarts (earlier sim : Simulation σ) : Prop :=
  ∃ now f maxSteps allKeys dirs, dirs.length = allKeys.length ∧
    (∀ id dir, dirs[id]? = some dir → dir = DataDir.empty ∨ earlier.leaves id = some dir) ∧
    Simulation.newWithPersistence now f maxSteps allKeys dirs = .ok sim

/-- The simulations that arise in a sequence of programs. -/
inductive Arises [App σ] : Simulation σ → Prop
  | new (now f maxSteps : Nat) (allKeys : List (ReplicaId × Bytes)) :
      Arises (Simulation.new now f maxSteps allKeys)
  | restart {earlier sim : Simulation σ} : Arises earlier → Restarts earlier sim → Arises sim
  | step {t : Trace σ} (op : Nat × SimulationOp) : Arises t.sim → Arises (t.step op).sim

/-- A simulation that has just been set up. -/
def Starting [App σ] (sim : Simulation σ) : Prop :=
  (∃ now f maxSteps allKeys, sim = Simulation.new now f maxSteps allKeys) ∨
    ∃ earlier, Arises earlier ∧ Restarts earlier sim

/-- A hash names a block of some replica. -/
def Holds (sim : Simulation σ) (hash : Hash) : Prop :=
  ∃ r ∈ sim.replicas, r.blockTree.contains hash = true

omit [Ed25519] in
/-- What is left behind can be opened again, if its log can be read. -/
theorem Minted.dirKnows {old : Hash → Prop} {maxSteps ahead : Nat} {blocks : List Block}
    (h : Minted old maxSteps ahead blocks sim) {id : Nat} {dir : DataDir}
    (hleaves : sim.leaves id = some dir) : ∃ p, DirKnows blocks dir p := by
  rw [leaves] at hleaves
  split at hleaves
  · rename_i r d hr hd
    cases hleaves
    split
    · rename_i hi
      exact (h.stocked.left id r hr hi).disk d hd
    · rename_i hi
      exact ⟨_, ((h.stocked.live id r hr hi).disk d hd).stored⟩
  · cases hleaves

omit [Ed25519] in
/-- A simulation before its first round holds only the blocks of its trees. -/
theorem minted_of_start (hcrashed : sim.crashedReplicas = ∅)
    (hnetwork : sim.network = Network.new sim.replicas.length) (hstep : sim.step = 0)
    (hopen : ∀ (i : Nat) r, sim.replicas[i]? = some r → TreeKeyed r.blockTree ∧
      ∀ blocks, genesisBlock ∈ blocks → KnownTree blocks r.blockTree →
        ∀ d ∈ sim.replicaDataDirs[i]?, Node.Live blocks ⟨r, d⟩) :
    ∃ blocks, Minted sim.Holds sim.maxSteps 1 blocks sim := by
  have hknown : ∀ (i : Nat) r, sim.replicas[i]? = some r →
      KnownTree (genesisBlock :: sim.replicas.flatMap fun r => r.blockTree.values) r.blockTree := by
    intro i r hr b hb
    refine ⟨b, List.mem_cons_of_mem _ (List.mem_flatMap.mpr ⟨r, List.mem_of_getElem? hr, hb⟩), rfl⟩
  refine ⟨genesisBlock :: sim.replicas.flatMap fun r => r.blockTree.values, List.mem_cons_self ..,
    ⟨fun i r hr _ => ?_, fun i r _ hi => ?_⟩, fun b hb => ?_, ?_, ?_, ?_, ?_, ?_, rfl⟩
  · obtain ⟨hkeyed, hlive⟩ := hopen i r hr
    exact ⟨hkeyed, hknown i r hr, hlive _ (List.mem_cons_self ..) (hknown i r hr)⟩
  · rw [hcrashed] at hi
    exact absurd hi (Finset.notMem_empty i)
  · rw [hnetwork]
    rcases List.mem_cons.mp hb with rfl | hb
    · exact .inl Nat.zero_lt_one
    · obtain ⟨r, hr, hb⟩ := List.mem_flatMap.mp hb
      obtain ⟨i, hi⟩ := List.mem_iff_getElem?.mp hr
      exact .inr ⟨r, hr, OrdMap.contains_iff.mpr ⟨b, (hopen i r hi).1.get? hb⟩⟩
  · rw [hnetwork]
    rfl
  · rw [hnetwork]
    rfl
  · rw [hnetwork]
    exact le_refl 1
  · rw [hnetwork, hstep]
    exact le_refl 1
  · rw [hstep]
    omega

variable [LawfulBincode LogEntry] [StrictBincode LogEntry] [LawfulBincode Snapshot]

/-- Over directories that can be opened, a restarted simulation holds only the blocks of its
trees. -/
theorem Restarts.minted {earlier : Simulation σ} (h : Restarts earlier sim)
    (hearlier : ∀ id dir, earlier.leaves id = some dir → ∃ stored p, DirKnows stored dir p) :
    ∃ blocks, Minted sim.Holds sim.maxSteps 1 blocks sim := by
  obtain ⟨now, f, maxSteps, allKeys, dirs, hlen, hdirs, hok⟩ := h
  obtain ⟨replicas, rfl, hcount, hslots⟩ := newWithPersistence_slots hok
  rw [KeyStore.length_distributeKeys, hlen, Nat.min_self] at hcount
  refine minted_of_start rfl (congrArg Network.new hcount.symm) rfl fun i r hr => ?_
  obtain ⟨ks, dir, -, hdir, hopened⟩ := hslots i r hr
  have hlive : ∀ blocks, genesisBlock ∈ blocks → KnownTree blocks r.blockTree →
      Node.Live blocks ⟨r, dir⟩ := by
    intro blocks hgenesis hknown
    rcases hdirs i dir hdir with rfl | hleft
    · obtain ⟨-, hwritable, hend, hstored⟩ := live_openReplica_empty hopened
      refine ⟨hwritable, hend, hstored.mono fun b hb => ?_⟩
      rw [List.mem_singleton.mp hb]
      exact hgenesis
    · obtain ⟨stored, p, hknows⟩ := hearlier i dir hleft
      exact hknows.live_of_openReplica hopened hknown
  have hown : KnownTree (genesisBlock :: r.blockTree.values) r.blockTree :=
    fun b hb => ⟨b, List.mem_cons_of_mem _ hb, rfl⟩
  have hkeyed := (hlive _ (List.mem_cons_self ..) hown).writable.keyed
  refine ⟨hkeyed, fun blocks hgenesis hknown d hd => ?_⟩
  obtain rfl : dir = d := Option.some.inj (hdir.symm.trans hd)
  exact hlive blocks hgenesis hknown

omit [LawfulBincode LogEntry] [StrictBincode LogEntry] [LawfulBincode Snapshot] in
/-- Without persistence a simulation starts with genesis. -/
theorem minted_new (now f maxSteps : Nat) (allKeys : List (ReplicaId × Bytes)) :
    ∃ blocks, Minted (Simulation.new (σ := σ) now f maxSteps allKeys).Holds maxSteps 1 blocks
      (Simulation.new (σ := σ) now f maxSteps allKeys) := by
  have hlen : (Simulation.new (σ := σ) now f maxSteps allKeys).replicas.length = allKeys.length :=
    (List.length_mapIdx ..).trans KeyStore.length_distributeKeys
  refine minted_of_start rfl (congrArg Network.new hlen.symm) rfl fun i r hr => ?_
  simp only [Simulation.new, start, List.getElem?_mapIdx, Option.map_eq_some_iff] at hr
  obtain ⟨ks, -, rfl⟩ := hr
  exact ⟨(follows_freshReplica now _ ks).keyed, fun _ _ _ d hd => by cases hd⟩

variable [App σ]

omit [LawfulBincode LogEntry] [StrictBincode LogEntry] [LawfulBincode Snapshot] in
/-- What arises still arises after a run. -/
theorem Arises.run {t : Trace σ} (h : Arises t.sim) (ops : List (Nat × SimulationOp)) :
    Arises (run Trace.step t ops).sim :=
  run_preserves (I := fun t : Trace σ => t.sim.Arises) (fun _ op ht => .step op ht) h ops

/-- Whatever arises holds blocks its network has named, and blocks it has started with. -/
theorem Arises.minted (h : Arises sim) :
    ∃ old maxSteps blocks, Minted old maxSteps 1 blocks sim := by
  induction h with
  | new now f maxSteps allKeys => exact ⟨_, _, minted_new now f maxSteps allKeys⟩
  | restart _ hrestarts ih =>
    obtain ⟨old, maxSteps, blocks, hminted⟩ := ih
    exact ⟨_, _, hrestarts.minted fun id dir hleaves => ⟨blocks, hminted.dirKnows hleaves⟩⟩
  | step op _ ih =>
    obtain ⟨old, maxSteps, blocks, hminted⟩ := ih
    exact ⟨old, maxSteps, Trace.minted_step hminted op⟩

/-- A simulation that has just been set up holds the blocks of its trees. -/
theorem Starting.minted (h : Starting sim) :
    ∃ blocks, Minted sim.Holds sim.maxSteps 1 blocks sim := by
  rcases h with ⟨now, f, maxSteps, allKeys, rfl⟩ | ⟨earlier, harises, hrestarts⟩
  · exact minted_new now f maxSteps allKeys
  · obtain ⟨old, maxSteps, blocks, hminted⟩ := harises.minted
    exact hrestarts.minted fun id dir hleaves => ⟨blocks, hminted.dirKnows hleaves⟩

omit [LawfulBincode LogEntry] [StrictBincode LogEntry] [LawfulBincode Snapshot] in
theorem Starting.arises (h : Starting sim) : Arises sim := by
  rcases h with ⟨now, f, maxSteps, allKeys, rfl⟩ | ⟨earlier, harises, hrestarts⟩
  · exact .new now f maxSteps allKeys
  · exact .restart harises hrestarts

omit [LawfulBincode LogEntry] [StrictBincode LogEntry] [LawfulBincode Snapshot] in
/-- A simulation that has just been set up is at its first round, with everyone available. -/
theorem Starting.fields (h : Starting sim) :
    sim.network.nextGlobalHash = 1 ∧ sim.step = 0 ∧ sim.crashedReplicas = ∅ ∧
      sim.unresponsiveReplicas = ∅ := by
  rcases h with ⟨now, f, maxSteps, allKeys, rfl⟩ |
    ⟨earlier, -, now, f, maxSteps, allKeys, dirs, -, -, hok⟩
  · exact ⟨rfl, rfl, rfl, rfl⟩
  · obtain ⟨replicas, rfl, -, -⟩ := newWithPersistence_slots hok
    exact ⟨rfl, rfl, rfl, rfl⟩

end Start

section Rounds

variable [App σ] {hash : Hash} {k : Nat}

/-- After `k` rounds in which no replica was crashed or unresponsive. -/
structure Undisturbed (hash : Hash) (k : Nat) (sim : Simulation σ) : Prop where
  holds : sim.Holds hash
  quiet : sim.network.messageQueue = []
  count : sim.network.numReplicas = sim.replicas.length
  next : sim.network.nextGlobalHash = k + 1
  step : sim.step = k
  crashed : sim.crashedReplicas = ∅
  unresponsive : sim.unresponsiveReplicas = ∅

/-- No step of a round takes a block out of a tree. -/
theorem holds_rule (hash : Hash) : RoundRule fun sim : Simulation σ => sim.Holds hash := by
  have hset : ∀ (sim : Simulation σ) (j : Nat) (r r' : Replica σ), sim.replicas[j]? = some r →
      (r.blockTree.contains hash = true → r'.blockTree.contains hash = true) → sim.Holds hash →
      ∃ s ∈ sim.replicas.set j r', s.blockTree.contains hash = true := by
    rintro sim j r r' hr hkeeps ⟨s, hs, hin⟩
    obtain ⟨i, hi⟩ := List.mem_iff_getElem?.mp hs
    by_cases he : i = j
    · subst he
      rw [hr, Option.some.injEq] at hi
      subst hi
      exact ⟨r', List.mem_set (List.getElem?_eq_some_iff.mp hr).1 r', hkeeps hin⟩
    · exact ⟨s, List.mem_of_getElem? ((List.getElem?_set_ne (Ne.symm he)).trans hi), hin⟩
  refine ⟨fun sim j r c h hr _ => hset sim j r _ hr (fun hin => Replica.step_contains hin c) h,
    fun sim j r dir now h hr _ _ => hset sim j r _ hr (fun hin => ?_) h, fun _ _ h => h,
    fun _ _ h _ => h⟩
  rw [takeSnapshot_replica]
  exact hin

omit [Ed25519] [Sha256] [Bincode LogEntry] [Bincode Snapshot] [Crc32] [App σ] in
/-- The leader is one of the replicas. -/
theorem currentLeader_lt (h : 0 < sim.replicas.length) :
    sim.currentLeader < sim.replicas.length := by
  have hne : sim.replicas.isEmpty = false :=
    List.isEmpty_eq_false_iff.mpr (List.ne_nil_of_length_pos h)
  simp only [currentLeader, hne, Bool.false_eq_true, if_false]
  generalize (maxView _).getD 0 = baseView
  cases hfind : ((List.range sim.replicas.length).map fun offset =>
      (baseView + offset) % sim.replicas.length).find?
        fun candidate => decide (candidate ∉ sim.crashedReplicas) with
  | none => exact h
  | some candidate =>
    obtain ⟨offset, -, rfl⟩ := List.mem_map.mp (List.mem_of_find?_eq_some hfind)
    exact Nat.mod_lt _ h

omit [Ed25519] [Sha256] [Bincode LogEntry] [Bincode Snapshot] [Crc32] [App σ] in
/-- An available leader is asked to propose. -/
theorem openRound_of_available
    (proposeWith : Replica σ → Nat → Hash → Replica σ × Option Block)
    (hsteps : sim.step < sim.maxSteps) (hcrashed : sim.crashedReplicas.card ≠ sim.replicas.length)
    {leader : Replica σ} (hr : sim.replicas[sim.currentLeader]? = some leader)
    (ha : sim.available sim.currentLeader = true) :
    openRound proposeWith sim ≠ .finished ∧ openRound proposeWith sim ≠ .leaderless := by
  have hgo : ¬ (sim.maxSteps ≤ sim.step ∨ sim.crashedReplicas.card = sim.replicas.length) :=
    not_or.mpr ⟨not_le.mpr hsteps, hcrashed⟩
  simp only [openRound, if_neg hgo, hr, ha, Bool.not_true, Bool.false_eq_true, if_false]
  generalize proposeWith leader leader.currentView sim.network.generateUniqueHash.1 = proposed
  obtain ⟨leader', block⟩ := proposed
  cases block <;> exact ⟨by simp, by simp⟩

omit [Ed25519] [Sha256] [Bincode LogEntry] [Bincode Snapshot] [Crc32] [App σ] in
/-- A round in which the leader was asked to propose is counted. -/
theorem Undisturbed.bumpStep (h : Undisturbed hash k sim) {sim' : Simulation σ}
    (hframe : sim'.frame = { sim.frame with nextGlobalHash := sim.network.nextGlobalHash + 1 })
    (hquiet : sim'.network.messageQueue = []) (hholds : sim'.Holds hash) (now : Nat) :
    Undisturbed hash (k + 1) (sim'.bumpStep.processTimeoutCrashes now) ∧
      (sim'.bumpStep.processTimeoutCrashes now).maxSteps = sim.maxSteps := by
  obtain ⟨hcount, hnum, hhash, hstep, hmax, -, -, hcrashed, hunresponsive⟩ := Frame.mk.inj hframe
  have hcalm : sim'.bumpStep.unresponsiveReplicas = ∅ := hunresponsive.trans h.unresponsive
  rw [processTimeoutCrashes_calm hcalm]
  refine ⟨⟨hholds, hquiet, hnum.trans (h.count.trans hcount.symm), ?_, ?_,
    hcrashed.trans h.crashed, hcalm⟩, hmax⟩
  · exact hhash.trans (congrArg (· + 1) h.next)
  · exact congrArg (· + 1) (hstep.trans h.step)

/-- One more undisturbed round. -/
theorem Undisturbed.runOneRound (h : Undisturbed hash k sim) (hk : k < sim.maxSteps) (now : Nat) :
    Undisturbed hash (k + 1) (sim.runOneRound now).1 ∧
      (sim.runOneRound now).1.maxSteps = sim.maxSteps := by
  have hcalm : sim.advanceSimulatedTime.unresponsiveReplicas = ∅ := h.unresponsive
  have hstart : sim.roundStart now = sim.advanceSimulatedTime :=
    processTimeoutCrashes_calm hcalm now
  have hclock : Undisturbed hash k sim.advanceSimulatedTime :=
    ⟨h.holds, h.quiet, h.count, h.next, h.step, h.crashed, h.unresponsive⟩
  simp only [Simulation.runOneRound, hstart]
  generalize hsim : sim.advanceSimulatedTime = started at hclock
  have hmax : started.maxSteps = sim.maxSteps := hsim ▸ rfl
  rw [← hmax] at hk ⊢
  have hpos : 0 < started.replicas.length := by
    obtain ⟨r, hr, -⟩ := hclock.holds
    exact List.length_pos_of_mem hr
  have hopen : Opens now .proposeWithHash started (plainOpening now started) := openRound_opens ..
  obtain ⟨hfinished, hleaderless⟩ : plainOpening now started ≠ .finished ∧
      plainOpening now started ≠ .leaderless := by
    refine openRound_of_available _ (hclock.step ▸ hk) ?_
      (List.getElem?_eq_getElem (currentLeader_lt hpos))
      (available_of_calm hclock.crashed hclock.unresponsive _)
    rw [hclock.crashed, Finset.card_empty]
    exact hpos.ne
  obtain ⟨hframe, hquiet⟩ :=
    simAfter_frame hclock.quiet hclock.count hopen hfinished hleaderless false
  have hholds := (holds_rule hash).ruleFor.simAfter hclock.holds hopen (fun _ _ _ _ => trivial)
    (fun _ _ _ _ => trivial) false
  cases ho : plainOpening now started with
  | finished => exact absurd ho hfinished
  | leaderless => exact absurd ho hleaderless
  | silent sim' =>
    rw [ho] at hframe hquiet hholds
    refine hclock.bumpStep ((advanceViews_visits now .timeout true sim').1.trans hframe) ?_
      ((holds_rule hash).advanceViews hholds now .timeout true) now
    rw [advanceViews_network]
    exact hquiet
  | proposed sim' leaderId block =>
    rw [ho] at hframe hquiet hholds
    simp only [simAfter] at hframe hquiet hholds ⊢
    generalize Simulation.certifyPhases now leaderId false block sim' = certified
      at hframe hquiet hholds ⊢
    exact hclock.bumpStep hframe hquiet hholds now

/-- Undisturbed rounds move the counter on to every hash in its range. -/
theorem Undisturbed.run {t : Trace σ} (h : Undisturbed hash 0 t.sim) (hk : k ≤ t.sim.maxSteps) :
    Undisturbed hash k (run Trace.step t (List.replicate k (0, .runOneRound))).sim ∧
      (run Trace.step t (List.replicate k (0, .runOneRound))).sim.maxSteps = t.sim.maxSteps := by
  induction k with
  | zero => exact ⟨h, rfl⟩
  | succ k ih =>
    obtain ⟨hreached, hmax⟩ := ih (Nat.le_of_succ_le hk)
    rw [List.replicate_succ', run_append]
    obtain ⟨hnext, hmax'⟩ := hreached.runOneRound (hmax ▸ hk) 0
    exact ⟨hnext, hmax'.trans hmax⟩

end Rounds

end Simulation

namespace Trace

variable {σ : Type} [Ed25519] [Sha256] [Bincode LogEntry] [Bincode Snapshot] [Crc32] [App σ]

/-- The next hash names no block, and neither does the hash of what a round proposes. -/
def NamesFresh (t : Trace σ) : Prop :=
  t.sim.HashUnused ∧ ∀ op s leaderId block, t.opening op = .proposed s leaderId block →
    ∀ r ∈ t.sim.replicas, r.blockTree.contains block.hash = false

omit [Bincode Snapshot] in
/-- A round proposes its block under the next hash. -/
theorem opening_hash {t : Trace σ} {op : Nat × SimulationOp} {s : Simulation σ} {leaderId : Nat}
    {block : Block} (hproposed : t.opening op = .proposed s leaderId block) :
    block.hash = t.sim.network.nextGlobalHash := by
  have hnetwork : ∀ now, (t.sim.roundStart now).network = t.sim.network := fun now =>
    Simulation.processTimeoutCrashes_preserves (I := fun sim => sim.network = t.sim.network)
      (fun _ _ _ h hok =>
        (congrArg Simulation.Surroundings.network
          (Simulation.crashReplica_surroundings hok)).trans h) rfl
  have hhash : ∀ (now : Nat) (how : Hash → ProposeCall), (∀ (r : Replica σ) view hash block,
      (r.proposeBy now view (how hash)).2 = some block → block.hash = hash) →
      Simulation.Opens now how (t.sim.roundStart now) (.proposed s leaderId block) →
      block.hash = t.sim.network.nextGlobalHash := by
    intro now how hhow hopen
    rw [← hnetwork now]
    cases hopen with
    | proposed _ _ hins => exact hhow _ _ _ _ hins
  obtain ⟨now, op⟩ := op
  cases op with
  | runOneRound =>
    exact hhash now .proposeWithHash (fun r view hash block hb => Replica.proposeBy_hash hb)
      (hproposed ▸ Simulation.openRound_opens ..)
  | runOneRoundWithPacemaker =>
    exact hhash now .proposeNextWithHash (fun r view hash block hb => Replica.proposeBy_hash hb)
      (hproposed ▸ Simulation.openRound_opens ..)
  | _ => cases hproposed

omit [Bincode Snapshot] in
theorem namesFresh_iff {t : Trace σ} : t.NamesFresh ↔ t.sim.HashUnused := by
  refine ⟨And.left, fun h => ⟨h, fun op s leaderId block hproposed r hr => ?_⟩⟩
  rw [opening_hash hproposed]
  exact h r hr

variable [LawfulBincode LogEntry] [StrictBincode LogEntry] [LawfulBincode Snapshot]

/-- A simulation that starts with no block in the range of its counter names only fresh blocks. -/
theorem namesFresh_run {t : Trace σ} (hstart : t.sim.Starting)
    (hclear : ∀ r ∈ t.sim.replicas, ∀ hash, 1 ≤ hash → hash ≤ t.sim.maxSteps + 1 →
      r.blockTree.contains hash = false) (ops : List (Nat × SimulationOp)) :
    (run step t ops).NamesFresh := by
  obtain ⟨blocks, hreached⟩ := run_preserves
    (I := fun u : Trace σ => ∃ blocks, u.sim.Minted t.sim.Holds t.sim.maxSteps 1 blocks)
    (fun _ op ⟨_, h⟩ => minted_step h op) hstart.minted ops
  refine namesFresh_iff.mpr (hreached.hashUnused ?_)
  rintro hash hpos hle ⟨r, hr, hin⟩
  rw [hclear r hr hash hpos hle] at hin
  cases hin

/-- Whatever is done to a simulation, it names only fresh blocks, exactly when none of the trees it
starts with holds a block in the range of its counter. -/
theorem names_fresh_iff {t : Trace σ} (hstart : t.sim.Starting) :
    (∀ ops, Throughout step NamesFresh t ops) ↔
      ∀ r ∈ t.sim.replicas, ∀ hash, 1 ≤ hash → hash ≤ t.sim.maxSteps + 1 →
        r.blockTree.contains hash = false := by
  obtain ⟨blocks, hminted⟩ := hstart.minted
  constructor
  · intro hfresh r hr hash hpos hle
    rw [← Bool.not_eq_true]
    intro hin
    obtain ⟨hnext, hstep, hcrashed, hunresponsive⟩ := hstart.fields
    have hundisturbed : t.sim.Undisturbed hash 0 :=
      ⟨⟨r, hr, hin⟩, hminted.quiet, hminted.count, hnext, hstep, hcrashed, hunresponsive⟩
    -- the round before the counter reaches the hash
    have hk : hash - 1 ≤ t.sim.maxSteps := Nat.sub_le_of_le_add hle
    obtain ⟨hreached, -⟩ := hundisturbed.run hk
    obtain ⟨s, hs, hold⟩ := hreached.holds
    have hunused := (hfresh _ _ (List.prefix_refl _)).1 s hs
    rw [Network.generateUniqueHash, hreached.next, Nat.sub_add_cancel hpos, hold] at hunused
    cases hunused
  · exact fun hclear ops pre _ => namesFresh_run hstart hclear pre

omit [LawfulBincode LogEntry] [StrictBincode LogEntry] [LawfulBincode Snapshot] in
/-- Empty directories need no earlier program. -/
theorem Start.starting {t : Trace σ} (h : t.Start) : t.sim.Starting := by
  rcases h.2 with ⟨now, f, maxSteps, allKeys, heq⟩ | ⟨now, f, maxSteps, allKeys, hok⟩
  · exact .inl ⟨now, f, maxSteps, allKeys, heq⟩
  · exact .inr ⟨_, .new 0 0 0 [], now, f, maxSteps, allKeys, _, List.length_replicate,
      fun id dir hdir => .inl (List.eq_of_mem_replicate (List.mem_of_getElem? hdir)), hok⟩

/-- Without blocks from an earlier program every hash is fresh. -/
theorem Start.namesFresh {t : Trace σ} (h : t.Start) (ops : List (Nat × SimulationOp)) :
    (run step t ops).NamesFresh := by
  refine namesFresh_run h.starting (fun r hr hash hpos _ => ?_) ops
  rw [← Bool.not_eq_true, OrdMap.contains_iff]
  rintro ⟨block, hblock⟩
  obtain ⟨-, nextHash, -, hsound⟩ := h.sound
  obtain ⟨i, hi⟩ := List.mem_iff_getElem?.mp hr
  have hlive : i ∉ t.sim.crashedReplicas := by
    rw [h.starting.fields.2.2.1]
    exact Finset.notMem_empty i
  have hfollows := (hsound.live i r hi hlive).follows
  obtain ⟨b, hb, houtline⟩ := hfollows.known block (OrdMap.mem_values.mpr ⟨_, hblock⟩)
  rw [h.1] at hb
  rw [List.mem_singleton.mp hb] at houtline
  have hzero : 0 = hash := (congrArg Prod.fst houtline).trans (hfollows.keyed _ _ hblock)
  exact absurd hpos (by rw [← hzero]; exact Nat.not_succ_le_zero 0)

end Trace

namespace Trace

section Samples

open Sample SimulationOp

instance (sim : Simulation NoOpApp) : Decidable sim.HashUnused :=
  inferInstanceAs (Decidable (∀ r ∈ sim.replicas,
    r.blockTree.contains sim.network.generateUniqueHash.1 = false))

/-- What four sample replicas leave after one round. -/
def leftAfterRound : List DataDir :=
  (List.range 4).map fun id =>
    ((run step fourDurable [(1, runOneRound)]).sim.leaves id).getD DataDir.empty

/-- Four sample replicas over what they have left. -/
def fourRestarted : Trace NoOpApp where
  sim :=
    match Simulation.newWithPersistence 9 1 20 (sampleKeys 4) leftAfterRound with
    | .ok sim => sim
    | .error _ => fourVolatile.sim
  history := History.genesis

/-- Rounds around a crash and a recovery. -/
theorem names_fresh_sample :
    Throughout step NamesFresh fourDurable
      [(1, runOneRound), (2, crashReplica 3), (3, runOneRound), (4, recoverReplica 3),
        (5, runOneRound)] := by
  refine (names_fresh_iff fourDurable_start.starting).mpr (fun r hr hash hpos _ => ?_) _
  have htree : ∀ r ∈ fourDurable.sim.replicas, r.blockTree = genesisTree := by decide +kernel
  rw [htree r hr, genesisTree, OrdMap.contains_insert, OrdMap.contains_empty, Bool.or_false,
    decide_eq_false_iff_not]
  exact Nat.one_le_iff_ne_zero.mp hpos

/-- After a restart the first hash names the block of the first round. -/
theorem names_fresh_counterexample :
    ∃ t : Trace NoOpApp, t.sim.Starting ∧ ¬ ∀ ops, Throughout step NamesFresh t ops := by
  have hok : (Simulation.newWithPersistence (σ := NoOpApp) 9 1 20 (sampleKeys 4)
      leftAfterRound).isOk = true := by decide +kernel
  have hnew : Simulation.newWithPersistence 9 1 20 (sampleKeys 4) leftAfterRound =
      .ok fourRestarted.sim := by
    simp only [fourRestarted]
    split
    · assumption
    · rename_i he
      rw [he] at hok
      cases hok
  have hdirs : ∀ (id : Nat) dir, leftAfterRound[id]? = some dir → dir = DataDir.empty ∨
      (run step fourDurable [(1, runOneRound)]).sim.leaves id = some dir := by
    intro id dir hdir
    rw [leftAfterRound, List.getElem?_map] at hdir
    obtain ⟨id', hid, rfl⟩ := Option.map_eq_some_iff.mp hdir
    obtain ⟨-, rfl⟩ := List.getElem?_eq_some_iff.mp hid
    rw [List.getElem_range]
    cases (run step fourDurable [(1, runOneRound)]).sim.leaves id with
    | none => exact .inl rfl
    | some dir => exact .inr rfl
  have hlen : leftAfterRound.length = (sampleKeys 4).length := by
    rw [leftAfterRound, sampleKeys, List.length_map, List.length_map]
  have hearlier : (run step fourDurable [(1, runOneRound)]).sim.Arises :=
    .step (1, runOneRound) fourDurable_start.starting.arises
  have hused : ¬ fourRestarted.sim.HashUnused := by decide +kernel
  exact ⟨fourRestarted,
    .inr ⟨_, hearlier, 9, 1, 20, sampleKeys 4, leftAfterRound, hlen, hdirs, hnew⟩,
    fun h => hused (h [] [] (List.prefix_refl _)).1⟩

end Samples

end Trace

end PersistHotStuff
