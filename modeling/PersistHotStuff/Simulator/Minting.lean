import PersistHotStuff.Simulator.Stock
import PersistHotStuff.Simulator.Trace

/-!
# Fresh hashes

The counter of block hashes starts at 1 in every program, while the blocks it
has named stay on disk. A simulation mints only fresh hashes as long as none of
the blocks it starts with lies in the range the counter can reach.
-/

namespace PersistHotStuff

open Basis

namespace Simulation

section Minted

variable {σ : Type} [Bincode LogEntry] [Bincode Snapshot] [Crc32] [Sha256] {old : Hash → Prop}
  {maxSteps ahead : Nat} {blocks : List Block} {sim : Simulation σ}

/-- A simulation whose blocks are old ones or were named by its network, which names at most one
block in a step. `ahead` is 1 between two rounds, and 2 in a round that is not counted yet. -/
structure Minted (old : Hash → Prop) (maxSteps ahead : Nat) (blocks : List Block)
    (sim : Simulation σ) : Prop where
  genesis : genesisBlock ∈ blocks
  stocked : Stocked blocks sim
  named : ∀ b ∈ blocks, b.hash < sim.network.nextGlobalHash ∨ old b.hash
  quiet : sim.network.messageQueue = []
  count : sim.network.numReplicas = sim.replicas.length
  first : 1 ≤ sim.network.nextGlobalHash
  next : sim.network.nextGlobalHash ≤ sim.step + ahead
  steps : sim.step + ahead ≤ maxSteps + 1
  bound : sim.maxSteps = maxSteps

/-- The next hash names no block of any replica. -/
def HashUnused (sim : Simulation σ) : Prop :=
  ∀ r ∈ sim.replicas, r.blockTree.contains sim.network.generateUniqueHash.1 = false

/-- The next hash is unused if no old block has a hash in the range of the counter. -/
theorem Minted.hashUnused (h : Minted old maxSteps 1 blocks sim)
    (hold : ∀ hash, 1 ≤ hash → hash ≤ maxSteps + 1 → ¬ old hash) : HashUnused sim := by
  intro r hr
  obtain ⟨hkeyed, hknown⟩ := h.stocked.tree hr
  show r.blockTree.contains sim.network.nextGlobalHash = false
  rw [← Bool.not_eq_true, OrdMap.contains_iff]
  rintro ⟨block, hblock⟩
  obtain ⟨b, hb, houtline⟩ := hknown block (OrdMap.mem_values.mpr ⟨_, hblock⟩)
  have hhash : b.hash = sim.network.nextGlobalHash :=
    (congrArg Prod.fst houtline).trans (hkeyed _ _ hblock)
  rcases h.named b hb with hlt | hisold
  · exact absurd hhash hlt.ne
  · exact hold _ h.first (h.next.trans h.steps) (hhash ▸ hisold)

/-- Steps that mint nothing and insert nothing new. -/
theorem Minted.of_stocked (h : Minted old maxSteps ahead blocks sim) {sim' : Simulation σ}
    (hstocked : Stocked blocks sim') (hsame : sim'.surroundings = sim.surroundings) :
    Minted old maxSteps ahead blocks sim' := by
  obtain ⟨hnetwork, hstep, hmax, -, hcount⟩ := Surroundings.mk.inj hsame
  refine ⟨h.genesis, hstocked, ?_, ?_, ?_, ?_, ?_, ?_, hmax.trans h.bound⟩
  · rw [hnetwork]
    exact h.named
  · rw [hnetwork]
    exact h.quiet
  · rw [hnetwork, hcount]
    exact h.count
  · rw [hnetwork]
    exact h.first
  · rw [hnetwork, hstep]
    exact h.next
  · rw [hstep]
    exact h.steps

theorem Minted.crash (h : Minted old maxSteps ahead blocks sim) {now i : Nat}
    {sim' : Simulation σ} (hok : sim.crashReplica now i = .ok sim') :
    Minted old maxSteps ahead blocks sim' :=
  h.of_stocked (h.stocked.crash h.genesis hok) (crashReplica_surroundings hok)

theorem Minted.processTimeoutCrashes (h : Minted old maxSteps ahead blocks sim) (now : Nat) :
    Minted old maxSteps ahead blocks (sim.processTimeoutCrashes now) :=
  processTimeoutCrashes_preserves (fun _ _ _ h hok => h.crash hok) h

theorem Minted.roundStart (h : Minted old maxSteps ahead blocks sim) (now : Nat) :
    Minted old maxSteps ahead blocks (sim.roundStart now) := by
  have hclock : Minted old maxSteps ahead blocks sim.advanceSimulatedTime :=
    h.of_stocked ⟨h.stocked.live, h.stocked.left⟩ rfl
  exact hclock.processTimeoutCrashes now

theorem Minted.setReplicaUnresponsive (h : Minted old maxSteps ahead blocks sim) {i : Nat}
    {unresponsive : Bool} {sim' : Simulation σ}
    (hok : sim.setReplicaUnresponsive i unresponsive = .ok sim') :
    Minted old maxSteps ahead blocks sim' :=
  h.of_stocked (Seated.setReplicaUnresponsive h.stocked hok)
    (setReplicaUnresponsive_surroundings hok)

/-- A step is counted. -/
theorem Minted.bumpStep (h : Minted old maxSteps 2 blocks sim) :
    Minted old maxSteps 1 blocks sim.bumpStep :=
  ⟨h.genesis, ⟨h.stocked.live, h.stocked.left⟩, h.named, h.quiet, h.count, h.first, h.next, h.steps,
    h.bound⟩

/-- A round goes on until its step is counted. -/
theorem Minted.begin (h : Minted old maxSteps 1 blocks sim) (hsteps : sim.step < sim.maxSteps) :
    Minted old maxSteps 2 blocks sim := by
  have hbound := h.bound
  exact ⟨h.genesis, h.stocked, h.named, h.quiet, h.count, h.first, h.next.trans (Nat.le_succ _),
    by omega, h.bound⟩

/-- Phases that change no frame and leave no message. -/
theorem Minted.of_frame (h : Minted old maxSteps ahead blocks sim) {sim' : Simulation σ}
    (hstocked : Stocked blocks sim') (hframe : sim'.frame = sim.frame)
    (hquiet : sim'.network.messageQueue = []) : Minted old maxSteps ahead blocks sim' := by
  obtain ⟨hcount, hnum, hhash, hstep, hmax, -⟩ := Frame.mk.inj hframe
  refine ⟨h.genesis, hstocked, hhash ▸ h.named, hquiet, ?_, hhash ▸ h.first, ?_, ?_,
    hmax.trans h.bound⟩
  · rw [hnum, hcount]
    exact h.count
  · rw [hhash, hstep]
    exact h.next
  · rw [hstep]
    exact h.steps

variable [App σ]

theorem Minted.recover [LawfulBincode LogEntry] [StrictBincode LogEntry] [LawfulBincode Snapshot]
    (h : Minted old maxSteps ahead blocks sim) {now i : Nat} {sim' : Simulation σ}
    (hok : sim.recoverReplica now i = .ok sim') : Minted old maxSteps ahead blocks sim' :=
  h.of_stocked (h.stocked.recover h.genesis hok) (recoverReplica_surroundings hok)

end Minted

section Round

variable {σ : Type} [Ed25519] [Sha256] [Bincode LogEntry] [Bincode Snapshot] [Crc32] [App σ]
  {old : Hash → Prop} {maxSteps ahead : Nat} {blocks : List Block} {sim : Simulation σ}

theorem Minted.advanceViews (h : Minted old maxSteps ahead blocks sim) (now : Nat)
    (reason : ViewChangeReason) (responds : Bool) :
    Minted old maxSteps ahead blocks (advanceViews now reason responds sim) := by
  refine h.of_frame ((stocked_rule blocks).advanceViews h.stocked now reason responds)
    (advanceViews_visits now reason responds sim).1 ?_
  rw [advanceViews_network]
  exact h.quiet

omit [Ed25519] [Sha256] [Bincode LogEntry] [Bincode Snapshot] [Crc32] [App σ] in
/-- A round that is not finished has a step left. -/
theorem step_lt_of_openRound {proposeWith : Replica σ → Nat → Hash → Replica σ × Option Block}
    (h : openRound proposeWith sim ≠ .finished) : sim.step < sim.maxSteps := by
  by_contra hle
  refine h ?_
  rw [openRound, if_pos (.inl (not_lt.mp hle))]

/-- What a round leaves before its step is counted. -/
theorem Minted.round (h : Minted old maxSteps 1 blocks sim) (now : Nat) {how : Hash → ProposeCall}
    (hhow : ∀ (r : Replica σ) view hash block,
      (r.proposeBy now view (how hash)).2 = some block → block.hash = hash)
    {opening : Opening σ} (hopen : Opens now how sim opening) (hfinished : opening ≠ .finished)
    (hsteps : sim.step < sim.maxSteps) (always : Bool) :
    ∃ blocks, Minted old maxSteps 2 blocks (sim.simAfter now always opening) := by
  by_cases hleaderless : opening = .leaderless
  · subst hleaderless
    exact ⟨blocks, h.begin hsteps⟩
  · obtain ⟨more, hmore, hblock⟩ : ∃ more : List Block,
        (∀ b ∈ more, b.hash = sim.network.nextGlobalHash) ∧
          ∀ s leaderId block, opening = .proposed s leaderId block → block ∈ more := by
      cases hopen with
      | @proposed leader block hr ha hins =>
        refine ⟨[block], fun b hb => ?_, fun s leaderId b heq => ?_⟩
        · rw [List.mem_singleton.mp hb]
          exact hhow _ _ _ _ hins
        · cases heq
          exact List.mem_singleton_self _
      | _ => exact ⟨[], fun b hb => (by cases hb), fun s leaderId b heq => (by cases heq)⟩
    have hqueue : ProposesOnly (fun b => b ∈ blocks ++ more) sim.network.messageQueue := by
      rw [h.quiet]
      exact fun _ _ _ hnone => absurd hnone List.not_mem_nil
    have hstocked := (stocked_rule (blocks ++ more)).simAfter
      (h.stocked.mono fun b hb => List.mem_append_left more hb) hopen
      (fun s leaderId block heq => List.mem_append_right blocks (hblock s leaderId block heq))
      hqueue always
    obtain ⟨hframe, hquiet⟩ := simAfter_frame h.quiet h.count hopen hfinished hleaderless always
    obtain ⟨hcount, hnum, hhash, hstep, hmax, -⟩ := Frame.mk.inj hframe
    have hbound := h.bound
    refine ⟨blocks ++ more, List.mem_append_left _ h.genesis, hstocked, fun b hb => ?_, hquiet, ?_,
      ?_, ?_, ?_, hmax.trans h.bound⟩
    · rw [hhash]
      rcases List.mem_append.mp hb with hold | hnew
      · exact (h.named b hold).imp_left Nat.lt_succ_of_lt
      · rw [hmore b hnew]
        exact .inl (Nat.lt_succ_self _)
    · rw [hnum, hcount]
      exact h.count
    · rw [hhash]
      exact h.first.trans (Nat.le_succ _)
    · rw [hhash, hstep]
      exact Nat.succ_le_succ h.next
    · rw [hstep]
      show sim.step + 2 ≤ maxSteps + 1
      omega

/-- Calls that insert nothing, on some of the replicas. -/
theorem Minted.configure (h : Minted old maxSteps ahead blocks sim) {c : Nat × Call}
    (hquiet : ∀ r : Replica σ, r.inserted c = none) {replicas : List (Replica σ)}
    (hlen : replicas.length = sim.replicas.length)
    (hreplicas : ∀ (i : Nat) r', replicas[i]? = some r' →
      ∃ r, sim.replicas[i]? = some r ∧ (r' = r ∨ r' = r.step c)) :
    Minted old maxSteps ahead blocks { sim with replicas := replicas } := by
  refine h.of_stocked (Seated.configure h.stocked fun i r' hr' => ?_) ?_
  · obtain ⟨r, hr, rfl | rfl⟩ := hreplicas i r' hr'
    · exact ⟨_, hr, fun dir => ⟨id, id⟩⟩
    · refine ⟨r, hr, fun dir => ⟨fun hlive => hlive.call fun b hb => ?_, fun hleft => ?_⟩⟩
      · rw [hquiet] at hb
        cases hb
      · refine ⟨Replica.treeKeyed_step hleft.keyed c, ?_, hleft.disk⟩
        rw [Replica.step_blockTree, hquiet]
        exact hleft.known
  · simp only [surroundings, hlen]

end Round

end Simulation

namespace Trace

variable {σ : Type} [Ed25519] [Sha256] [Bincode LogEntry] [Bincode Snapshot] [Crc32] [App σ]
  [LawfulBincode LogEntry] [StrictBincode LogEntry] [LawfulBincode Snapshot]

/-- Every operation names at most one block, by the next hash. -/
theorem minted_step {old : Hash → Prop} {maxSteps : Nat} {t : Trace σ} {blocks : List Block}
    (h : t.sim.Minted old maxSteps 1 blocks) (op : Nat × SimulationOp) :
    ∃ blocks, (t.step op).sim.Minted old maxSteps 1 blocks := by
  obtain ⟨now, op⟩ := op
  have hdoes := t.step_does now op
  generalize (t.step (now, op)).sim = sim' at hdoes ⊢
  cases hdoes with
  | runOneRound =>
    have hopen : Simulation.Opens now .proposeWithHash (t.sim.roundStart now)
        (Simulation.plainOpening now (t.sim.roundStart now)) := Simulation.openRound_opens ..
    have hhash : ∀ (r : Replica σ) view hash block,
        (r.proposeBy now view (.proposeWithHash hash)).2 = some block → block.hash = hash :=
      fun r view hash block hb => Replica.proposeBy_hash hb
    refine Simulation.runOneRound_closes
      (I := fun s => ∃ blocks, Simulation.Minted old maxSteps 2 blocks s)
      (J := fun s => ∃ blocks, Simulation.Minted old maxSteps 1 blocks s) ?_ ?_ t.sim
      (fun _ => ⟨blocks, h.roundStart now⟩) fun hfinished => ?_
    · rintro s reason responds ⟨more, hs⟩
      exact ⟨more, hs.advanceViews now reason responds⟩
    · rintro s ⟨more, hs⟩
      exact ⟨more, hs.bumpStep.processTimeoutCrashes now⟩
    · exact (h.roundStart now).round now hhash hopen hfinished
        (Simulation.step_lt_of_openRound hfinished) false
  | runOneRoundWithPacemaker =>
    have hopen : Simulation.Opens now .proposeNextWithHash (t.sim.roundStart now)
        (Simulation.pacemakerOpening now (t.sim.roundStart now)) := Simulation.openRound_opens ..
    have hhash : ∀ (r : Replica σ) view hash block,
        (r.proposeBy now view (.proposeNextWithHash hash)).2 = some block → block.hash = hash :=
      fun r view hash block hb => Replica.proposeBy_hash hb
    refine Simulation.runOneRoundWithPacemaker_closes
      (I := fun s => ∃ blocks, Simulation.Minted old maxSteps 2 blocks s)
      (J := fun s => ∃ blocks, Simulation.Minted old maxSteps 1 blocks s) ?_ ?_ t.sim
      (fun _ => ⟨blocks, h.roundStart now⟩) fun hfinished => ?_
    · rintro s reason responds ⟨more, hs⟩
      exact ⟨more, hs.advanceViews now reason responds⟩
    · rintro s ⟨more, hs⟩
      exact ⟨more, hs.bumpStep⟩
    · exact (h.roundStart now).round now hhash hopen hfinished
        (Simulation.step_lt_of_openRound hfinished) true
  | configured hsetting hlen hreplicas =>
    exact ⟨blocks, h.configure (fun r => (SimulationOp.setting_quiet hsetting now r).1) hlen
      hreplicas⟩
  | interrupted hset => exact ⟨blocks, h.setReplicaUnresponsive hset⟩
  | crashed hcrash => exact ⟨blocks, h.crash hcrash⟩
  | recovered hrecover => exact ⟨blocks, h.recover hrecover⟩
  | refused _ => exact ⟨blocks, h⟩

end Trace

end PersistHotStuff
