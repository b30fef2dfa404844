import PersistHotStuff.Simulator.Rejoining
import PersistHotStuff.Simulator.Sweep
import PersistHotStuff.Simulator.ViewRange

/-!
# Synchronous views

A round moves every available replica to its next view, so replicas that shared
a view still do. Only a return can part them: a recovery catches up with the
latest view of the live replicas, while an interruption that ends leaves the
replica in the view in which it began.
-/

namespace PersistHotStuff

open Basis

namespace Simulation

section Views

variable {σ : Type} {sim sim' sim'' : Simulation σ}

/-- Every available replica is in the given view. -/
def InView (sim : Simulation σ) (view : Nat) : Prop :=
  ∀ p ∈ sim.replicas.zipIdx, sim.available p.2 = true → p.1.currentView = view

instance (sim : Simulation σ) (view : Nat) : Decidable (sim.InView view) :=
  inferInstanceAs (Decidable (∀ p ∈ sim.replicas.zipIdx,
    sim.available p.2 = true → p.1.currentView = view))

/-- All available replicas are in the same view. -/
def Synchronous (sim : Simulation σ) : Prop :=
  ∀ p ∈ sim.replicas.zipIdx, sim.available p.2 = true → sim.InView p.1.currentView

instance (sim : Simulation σ) : Decidable sim.Synchronous :=
  inferInstanceAs (Decidable (∀ p ∈ sim.replicas.zipIdx,
    sim.available p.2 = true → sim.InView p.1.currentView))

theorem inView_iff {view : Nat} : sim.InView view ↔
    ∀ (i : Nat) r, sim.replicas[i]? = some r → sim.available i = true → r.currentView = view :=
  ⟨fun h i r hr => h (r, i) (List.mem_zipIdx_iff_getElem?.mpr hr),
    fun h p hp => h p.2 p.1 (List.mem_zipIdx_iff_getElem?.mp hp)⟩

theorem synchronous_iff : sim.Synchronous ↔ ∃ view, sim.InView view := by
  constructor
  · intro h
    by_cases hsome : ∃ p ∈ sim.replicas.zipIdx, sim.available p.2 = true
    · obtain ⟨p, hp, ha⟩ := hsome
      exact ⟨_, h p hp ha⟩
    · exact ⟨0, fun p hp ha => absurd ⟨p, hp, ha⟩ hsome⟩
  · rintro ⟨view, h⟩ p hp ha
    rw [h p hp ha]
    exact h

/-- Fewer replicas are available. -/
theorem Synchronous.withdraw (h : sim.Synchronous)
    (hless : ∀ i, sim'.available i = true →
      sim.available i = true ∧ sim'.replicas[i]? = sim.replicas[i]?) : sim'.Synchronous := by
  obtain ⟨view, hview⟩ := synchronous_iff.mp h
  refine synchronous_iff.mpr ⟨view, inView_iff.mpr fun i r hr ha => ?_⟩
  obtain ⟨ha, hsame⟩ := hless i ha
  exact inView_iff.mp hview i r (hsame.symm.trans hr) ha

/-- The same replicas are available as before, each in the view that follows from its own. -/
structure Moves (f : Nat → Nat) (sim sim' : Simulation σ) : Prop where
  available : ∀ i, sim'.available i = sim.available i
  view : ∀ i, sim.available i = true → (sim'.replicas[i]?).map Replica.currentView =
    (sim.replicas[i]?).map fun r => f r.currentView

theorem Moves.refl (sim : Simulation σ) : Moves id sim sim := ⟨fun _ => rfl, fun _ _ => rfl⟩

theorem Moves.trans {f g : Nat → Nat} (h : Moves f sim sim') (h' : Moves g sim' sim'') :
    Moves (g ∘ f) sim sim'' := by
  refine ⟨fun i => (h'.available i).trans (h.available i), fun i ha => ?_⟩
  have hfirst := congrArg (Option.map g) (h.view i ha)
  rw [Option.map_map, Option.map_map] at hfirst
  exact (h'.view i ((h.available i).trans ha)).trans hfirst

/-- Replicas in one view move on together. -/
theorem Moves.inView {f : Nat → Nat} (h : Moves f sim sim') {view : Nat} (hview : sim.InView view) :
    sim'.InView (f view) := by
  refine inView_iff.mpr fun i r' hr' ha => ?_
  rw [h.available] at ha
  have hmoved := h.view i ha
  rw [hr'] at hmoved
  obtain ⟨r, hr, heq⟩ := Option.map_eq_some_iff.mp hmoved.symm
  rw [← heq, inView_iff.mp hview i r hr ha]

theorem Moves.synchronous {f : Nat → Nat} (h : Moves f sim sim') (hsync : sim.Synchronous) :
    sim'.Synchronous := by
  obtain ⟨view, hview⟩ := synchronous_iff.mp hsync
  exact synchronous_iff.mpr ⟨_, h.inView hview⟩

/-- A change of each available replica. -/
theorem moves_of_visits {f : Nat → Nat} (hframe : sim'.frame = sim.frame)
    (h : ∀ (i : Nat) r, sim.replicas[i]? = some r → sim.available i = true →
      ∃ r', sim'.replicas[i]? = some r' ∧ r'.currentView = f r.currentView) : Moves f sim sim' := by
  refine ⟨available_congr hframe, fun i ha => ?_⟩
  have hcount : sim'.replicas.length = sim.replicas.length := congrArg Frame.count hframe
  cases hr : sim.replicas[i]? with
  | none =>
    rw [List.getElem?_eq_none_iff] at hr
    rw [List.getElem?_eq_none (hcount.trans_le hr)]
    rfl
  | some r =>
    obtain ⟨r', hr', hview⟩ := h i r hr ha
    rw [hr', Option.map_some, Option.map_some, hview]

/-- A crash of a replica that is not available. -/
theorem moves_crash {now i : Nat} (hi : sim.available i = false)
    (hok : sim.crashReplica now i = .ok sim') : Moves id sim sim' := by
  obtain ⟨r, keystore, -, -, -, -, rfl⟩ := crashReplica_ok_iff.mp hok
  refine ⟨fun j => ?_, fun j ha => ?_⟩
  · by_cases hj : j = i
    · rw [hj, hi]
      simp [available]
    · simp [available, hj]
  · have hj : i ≠ j := by
      rintro rfl
      rw [hi] at ha
      cases ha
    rw [List.getElem?_set_ne hj]
    rfl

/-- A timeout sweep leaves the available replicas alone. -/
theorem moves_processTimeoutCrashes (sim : Simulation σ) (now : Nat) :
    Moves id sim (sim.processTimeoutCrashes now) := by
  obtain ⟨ids, hids, heq⟩ := processTimeoutCrashes_eq now sim
  rw [heq]
  refine (foldl_tryCrash (P := fun ids s => Moves id sim s ∧ ∀ i ∈ ids, sim.available i = false)
    (fun i ids s hs => ?_) ⟨.refl sim, fun i hi => ?_⟩).1
  · obtain ⟨hmoves, hout⟩ := hs
    obtain ⟨hi, hout⟩ := List.forall_mem_cons.mp hout
    rcases tryCrash_cases now s i with hsame | hok
    · rw [hsame]
      exact ⟨hmoves, hout⟩
    · exact ⟨hmoves.trans (moves_crash ((hmoves.available i).trans hi) hok), hout⟩
  · rw [← Bool.not_eq_true, available_iff]
    exact fun h => h.2 (hids i hi)

end Views

section Rounds

variable {σ : Type} [Bincode LogEntry] [Crc32] {sim : Simulation σ}

/-- A view change. -/
theorem moves_advanceViews (now : Nat) (reason : ViewChangeReason) (responds : Bool) :
    Moves (saturatingAdd · 1) sim (advanceViews now reason responds sim) := by
  obtain ⟨hframe, hin⟩ := advanceViews_visits now reason responds sim
  refine moves_of_visits hframe fun i r hr hi => ?_
  obtain ⟨r', hr', hchange⟩ := hin i r hr
  rw [if_pos hi] at hchange
  exact ⟨r', hr', hchange ▸ rfl⟩

variable [Ed25519] [Sha256] [App σ]

/-- The leader is asked to propose. -/
theorem moves_led (now : Nat) (how : Hash → ProposeCall) {leader : Replica σ}
    (hr : sim.replicas[sim.currentLeader]? = some leader) :
    Moves id sim (sim.led now how leader) := by
  refine ⟨fun _ => rfl, fun i _ => ?_⟩
  by_cases hi : sim.currentLeader = i
  · subst hi
    simp only [led, setReplica]
    rw [List.getElem?_set_self (List.getElem?_eq_some_iff.mp hr).1, hr, Option.map_some,
      Option.map_some, Replica.step_currentView]
    rfl
  · simp only [led, setReplica, List.getElem?_set_ne hi]
    rfl

omit [App σ] in
/-- Votes change no view. -/
theorem currentView_handleVotes (now : Nat) (votes : List Vote)
    (acc : Replica σ × Option QuorumCert) :
    (Replica.handleVotes now acc votes).1.currentView = acc.1.currentView := by
  induction votes generalizing acc with
  | nil => rfl
  | cons vote votes ih =>
    have hone : (acc.1.handleVote now vote).1.currentView = acc.1.currentView := by
      rcases acc.1.handleVote_cases now vote with h | ⟨-, ⟨-, h⟩ | ⟨-, h⟩⟩
      · rw [h]
      · rw [h]
        rfl
      · rw [h]
        rfl
    exact (ih _).trans hone

/-- The certifying phases change no view. -/
theorem certified_currentView (now : Nat) (sim : Simulation σ) (leaderId : Nat) (block : Block)
    {leader : Replica σ} {id : Nat} {r : Replica σ} (hleader : id = leaderId → r = leader) :
    (sim.certified now leaderId block leader id r).currentView = r.currentView := by
  rw [certified]
  split
  · next he =>
    rw [hleader he]
    exact currentView_handleVotes now _ (leader, none)
  · rw [(learn_fields now _ _).1.view]
    exact r.step_currentView (now, .validateAndInsertProposal block)

theorem moves_certifyPhases (now : Nat) (always : Bool) (block : Block) {leaderId : Nat}
    {leader : Replica σ} (hquiet : sim.network.messageQueue = [])
    (hcount : sim.network.numReplicas = sim.replicas.length)
    (hleader : sim.replicas[leaderId]? = some leader) (ha : sim.available leaderId = true) :
    Moves id sim (certifyPhases now leaderId always block sim).1 := by
  obtain ⟨hframe, -, -, hin⟩ := certifyPhases_visits now always block hquiet hcount hleader ha
  refine moves_of_visits hframe fun i r hr hi => ⟨_, hin i r hr, ?_⟩
  rw [if_pos hi]
  refine certified_currentView now sim leaderId block fun he => ?_
  subst he
  exact Option.some.inj (hr.symm.trans hleader)

variable [Bincode Snapshot]

/-- The end of a round with a proposal. -/
theorem moves_close (now : Nat) :
    Moves (saturatingAdd · 1) sim (advanceViews now .commit true (commitPhase now sim)) := by
  obtain ⟨hframe, hin⟩ := close_visits now sim
  refine moves_of_visits hframe fun i r hr hi => ?_
  obtain ⟨r', hr', hchange⟩ := hin i r hr
  rw [if_pos hi] at hchange
  exact ⟨r', hr', hchange.fields.1⟩

/-- A round with a proposal. -/
theorem moves_proposed (now : Nat) (how : Hash → ProposeCall) (always : Bool) (block : Block)
    {leader : Replica σ} (hquiet : sim.network.messageQueue = [])
    (hcount : sim.network.numReplicas = sim.replicas.length)
    (hr : sim.replicas[sim.currentLeader]? = some leader)
    (ha : sim.available sim.currentLeader = true) :
    Moves (saturatingAdd · 1) sim (advanceViews now .commit true (commitPhase now
      (certifyPhases now sim.currentLeader always block
        ((sim.led now how leader).markResponded sim.currentLeader)).1)) := by
  have hled : Moves id sim ((sim.led now how leader).markResponded sim.currentLeader) :=
    ⟨(moves_led now how hr).available, (moves_led now how hr).view⟩
  have hquiet' : ((sim.led now how leader).markResponded
      sim.currentLeader).network.messageQueue = [] := hquiet
  have hcertify := moves_certifyPhases now always block hquiet'
    (hcount.trans (List.length_set ..).symm)
    (List.getElem?_set_self (List.getElem?_eq_some_iff.mp hr).1) ha
  exact (hled.trans hcertify).trans (moves_close now)

variable [LawfulBincode LogEntry] [StrictBincode LogEntry] [LawfulBincode Snapshot]

/-- The start of a round leaves the available replicas and the network alone. -/
theorem Arises.roundStart (h : Arises sim) (now : Nat) :
    Moves id sim (sim.roundStart now) ∧ (sim.roundStart now).network.messageQueue = [] ∧
      (sim.roundStart now).network.numReplicas = (sim.roundStart now).replicas.length := by
  obtain ⟨old, maxSteps, blocks, hminted⟩ := h.minted
  have hclock : Moves id sim sim.advanceSimulatedTime := ⟨fun _ => rfl, fun _ _ => rfl⟩
  exact ⟨hclock.trans (moves_processTimeoutCrashes _ now), (hminted.roundStart now).quiet,
    (hminted.roundStart now).count⟩

/-- A round moves the available replicas on together. -/
theorem Arises.moves_runOneRound (h : Arises sim) (now : Nat) :
    ∃ f, Moves f sim (sim.runOneRound now).1 := by
  obtain ⟨hstart, hquiet, hcount⟩ := h.roundStart now
  have hend : ∀ {f : Nat → Nat} {s s' : Simulation σ}, Moves f s s' →
      Moves f s (s'.bumpStep.processTimeoutCrashes now) := by
    intro f s s' hs
    have hbump : Moves f s s'.bumpStep := ⟨hs.available, hs.view⟩
    exact hbump.trans (moves_processTimeoutCrashes _ now)
  have hopen : Opens now .proposeWithHash (sim.roundStart now)
      (plainOpening now (sim.roundStart now)) := openRound_opens ..
  simp only [runOneRound]
  generalize plainOpening now (sim.roundStart now) = opening at hopen
  cases hopen with
  | finished => exact ⟨_, hstart⟩
  | leaderless => exact ⟨_, hstart.trans (hend (moves_advanceViews now _ true))⟩
  | silent hr _ _ =>
    exact ⟨_, hstart.trans (hend ((moves_led now _ hr).trans (moves_advanceViews now _ true)))⟩
  | @proposed leader block hr ha _ =>
    have hround := moves_proposed now .proposeWithHash false block hquiet hcount hr ha
    dsimp only
    generalize certifyPhases now _ false block _ = certified at hround ⊢
    exact ⟨_, hstart.trans (hend hround)⟩

theorem Arises.moves_runOneRoundWithPacemaker (h : Arises sim) (now : Nat) :
    ∃ f, Moves f sim (sim.runOneRoundWithPacemaker now).1 := by
  obtain ⟨hstart, hquiet, hcount⟩ := h.roundStart now
  have hend : ∀ {f : Nat → Nat} {s s' : Simulation σ}, Moves f s s' → Moves f s s'.bumpStep :=
    fun hs => ⟨hs.available, hs.view⟩
  have hopen : Opens now .proposeNextWithHash (sim.roundStart now)
      (pacemakerOpening now (sim.roundStart now)) := openRound_opens ..
  simp only [runOneRoundWithPacemaker]
  generalize pacemakerOpening now (sim.roundStart now) = opening at hopen
  cases hopen with
  | finished => exact ⟨_, hstart⟩
  | leaderless => exact ⟨_, hstart.trans (hend (moves_advanceViews now _ false))⟩
  | silent hr _ _ =>
    exact ⟨_, hstart.trans (hend ((moves_led now _ hr).trans (moves_advanceViews now _ false)))⟩
  | @proposed leader block hr ha _ =>
    have hround := moves_proposed now .proposeNextWithHash true block hquiet hcount hr ha
    dsimp only
    generalize certifyPhases now _ true block _ = certified at hround ⊢
    exact ⟨_, hstart.trans (hend hround)⟩

end Rounds

section Returns

variable {σ : Type} {sim sim' : Simulation σ}

/-- When one replica returns, the views are the same exactly if its own is that of the others. -/
theorem synchronous_return_iff {id : Nat} {r' : Replica σ}
    (hseat : sim'.replicas[id]? = some r') (havailable : sim'.available id = true)
    (hothers : ∀ j, j ≠ id → sim'.replicas[j]? = sim.replicas[j]? ∧
      sim'.available j = sim.available j) :
    sim'.Synchronous ↔ ∀ (j : Nat) s, j ≠ id → sim.replicas[j]? = some s →
      sim.available j = true → s.currentView = r'.currentView := by
  constructor
  · intro h j s hj hs ha
    obtain ⟨hsame, hstays⟩ := hothers j hj
    have hview := h (r', id) (List.mem_zipIdx_iff_getElem?.mpr hseat) havailable
    exact inView_iff.mp hview j s (hsame.trans hs) (hstays.trans ha)
  · intro h
    refine synchronous_iff.mpr ⟨r'.currentView, inView_iff.mpr fun j s hs ha => ?_⟩
    by_cases hj : j = id
    · rw [hj, hseat] at hs
      rw [Option.some.inj hs]
    · obtain ⟨hsame, hstays⟩ := hothers j hj
      exact h j s hj (hsame.symm.trans hs) (hstays.symm.trans ha)

/-- An interruption ends. -/
theorem synchronous_release_iff {id : Nat} {r : Replica σ} (hr : sim.replicas[id]? = some r)
    (hok : sim.setReplicaUnresponsive id false = .ok sim') :
    sim'.Synchronous ↔ sim.InView r.currentView := by
  obtain ⟨-, hlive, hsim'⟩ := setReplicaUnresponsive_ok_iff.mp hok
  rw [if_neg Bool.false_ne_true] at hsim'
  have hseat : sim'.replicas[id]? = some r := by
    rw [hsim']
    exact hr
  have havailable : sim'.available id = true := by
    rw [hsim']
    simp [available_iff, markResponded, hlive]
  have hothers : ∀ j, j ≠ id → sim'.replicas[j]? = sim.replicas[j]? ∧
      sim'.available j = sim.available j := by
    intro j hj
    rw [hsim']
    refine ⟨rfl, ?_⟩
    rw [Bool.eq_iff_iff, available_iff, available_iff]
    simp [markResponded, hj]
  rw [synchronous_return_iff hseat havailable hothers, inView_iff]
  constructor
  · intro h j s hs ha
    by_cases hj : j = id
    · rw [hj, hr] at hs
      rw [Option.some.inj hs]
    · exact h j s hj hs ha
  · exact fun h j s _ hs ha => h j s hs ha

variable [Bincode LogEntry] [Bincode Snapshot] [Crc32] [Sha256]

/-- The replica a recovery opens from the files of a crashed one, before it catches up. -/
def reopened (now : Nat) (sim : Simulation σ) (id : Nat) : Option (Replica σ) :=
  if sim.persistenceEnabled = true ∧ id ∈ sim.crashedReplicas then do
    let replica ← sim.replicas[id]?
    let keystore ← sim.replicaKeystores[id]?
    let dir ← sim.replicaDataDirs[id]?
    (openReplica now id replica.config keystore dir).toOption
  else none

theorem reopened_eq_some {now id : Nat} {opened : Replica σ} :
    reopened now sim id = some opened ↔ ∃ replica keystore dir,
      sim.persistenceEnabled = true ∧ sim.replicas[id]? = some replica ∧
        sim.replicaKeystores[id]? = some keystore ∧ id ∈ sim.crashedReplicas ∧
        sim.replicaDataDirs[id]? = some dir ∧
        openReplica now id replica.config keystore dir = .ok opened := by
  have hopen : ∀ result : Except SimulationError (Replica σ),
      result.toOption = some opened ↔ result = .ok opened := by
    intro result
    cases result <;> simp [Except.toOption]
  constructor
  · intro h
    rw [reopened] at h
    split at h
    · next hcrashed =>
      simp only [Option.bind_eq_bind, Option.bind_eq_some_iff] at h
      obtain ⟨replica, hr, keystore, hks, dir, hdir, h⟩ := h
      exact ⟨replica, keystore, dir, hcrashed.1, hr, hks, hcrashed.2, hdir, (hopen _).mp h⟩
    · cases h
  · rintro ⟨replica, keystore, dir, hpersistent, hr, hks, hcrashed, hdir, h⟩
    rw [reopened, if_pos ⟨hpersistent, hcrashed⟩, hr, hks, hdir]
    exact (hopen _).mpr h

variable [App σ]

/-- A recovery returns a replica that is in the view on disk, or in the latest one of the others. -/
theorem synchronous_recover_iff (hrange : InRange sim) {now id : Nat}
    {opened : Replica σ} (hopened : reopened now sim id = some opened)
    (hok : sim.recoverReplica now id = .ok sim') :
    sim'.Synchronous ↔ ∀ p ∈ sim.replicas.zipIdx, sim.available p.2 = true →
      opened.currentView ≤ p.1.currentView ∧
        ∀ s ∈ sim.liveOthers id, s.currentView ≤ p.1.currentView := by
  obtain ⟨replica, keystore, dir, opened', hpersistent, hr, hks, hcrashed, hdir, hopen, hsim'⟩ :=
    recoverReplica_ok_iff.mp hok
  obtain rfl : opened' = opened := by
    have hreopened := reopened_eq_some.mpr
      ⟨replica, keystore, dir, hpersistent, hr, hks, hcrashed, hdir, hopen⟩
    rw [hopened] at hreopened
    exact (Option.some.inj hreopened).symm
  have hlive : ∀ s ∈ sim.liveOthers id, s.currentView ≤ u64Max := by
    intro s hs
    obtain ⟨j, hj, -, hc⟩ := mem_liveOthers hs
    exact hrange.live j s hj hc
  have hseat : sim'.replicas[id]? = some (rejoin now (sim.liveOthers id) opened' dir).1 := by
    rw [hsim']
    exact List.getElem?_set_self (List.getElem?_eq_some_iff.mp hr).1
  have havailable : sim'.available id = true := by
    rw [hsim']
    simp [available_iff, markResponded]
  have hothers : ∀ j, j ≠ id → sim'.replicas[j]? = sim.replicas[j]? ∧
      sim'.available j = sim.available j := by
    intro j hj
    rw [hsim']
    refine ⟨List.getElem?_set_ne hj.symm, ?_⟩
    rw [Bool.eq_iff_iff, available_iff, available_iff]
    simp [markResponded, hj]
  rw [synchronous_return_iff hseat havailable hothers]
  have hview : (rejoin now (sim.liveOthers id) opened' dir).1.currentView =
      (synced now (sim.liveOthers id) opened').currentView := by
    rw [rejoin_eq, takeSnapshot_replica]
  -- an available replica is a live other, so the rejoin catches up with it
  have hother : ∀ (j : Nat) s, sim.replicas[j]? = some s → sim.available j = true →
      j ≠ id ∧ s ∈ sim.liveOthers id ∧ ∃ top ∈ (sim.liveOthers id).map Replica.currentView,
        (∀ s ∈ sim.liveOthers id, s.currentView ≤ top) ∧
          (rejoin now (sim.liveOthers id) opened' dir).1.currentView =
            max opened'.currentView top := by
    intro j s hs ha
    have hc := not_crashed_of_available ha
    have hj : j ≠ id := fun he => hc (he ▸ hcrashed)
    have hmem := mem_liveOthers_of_getElem? hs hj hc
    obtain ⟨donor, hdonor⟩ : ∃ donor, (sim.liveOthers id).head? = some donor :=
      Option.isSome_iff_exists.mp (List.isSome_head?.mpr (List.ne_nil_of_mem hmem))
    rw [hview]
    exact ⟨hj, hmem, currentView_synced hdonor hlive now opened'⟩
  constructor
  · intro h p hp ha
    have hs := List.mem_zipIdx_iff_getElem?.mp hp
    obtain ⟨hj, -, top, -, htop, hmax⟩ := hother p.2 p.1 hs ha
    rw [h p.2 p.1 hj hs ha, hmax]
    exact ⟨le_max_left _ _, fun s hs => (htop s hs).trans (le_max_right _ _)⟩
  · intro h j s _ hs ha
    obtain ⟨-, hmem, top, htopmem, htop, hmax⟩ := hother j s hs ha
    obtain ⟨hdisk, hothers⟩ := h (s, j) (List.mem_zipIdx_iff_getElem?.mpr hs) ha
    obtain ⟨last, hlast, rfl⟩ := List.mem_map.mp htopmem
    rw [hmax]
    exact le_antisymm ((htop s hmem).trans (le_max_right _ _)) (max_le hdisk (hothers last hlast))

end Returns

end Simulation

namespace Trace

variable {σ : Type} [Bincode LogEntry] [Bincode Snapshot] [Crc32] [Sha256]

/-- A replica whose interruption ends is in the view of the available ones; and a replica recovers
only while they are in the latest view of the live replicas and its files record no later one. -/
def Aligned (t : Trace σ) (op : Nat × SimulationOp) : Prop :=
  match op.2 with
  | .setReplicaUnresponsive id false =>
      id ∉ t.sim.crashedReplicas → ∀ r ∈ t.sim.replicas[id]?, t.sim.InView r.currentView
  | .recoverReplica id =>
      ∀ opened ∈ Simulation.reopened op.1 t.sim id,
        ∀ p ∈ t.sim.replicas.zipIdx, t.sim.available p.2 = true →
          opened.currentView ≤ p.1.currentView ∧
            ∀ s ∈ t.sim.liveOthers id, s.currentView ≤ p.1.currentView
  | _ => True

instance (t : Trace σ) : (op : Nat × SimulationOp) → Decidable (t.Aligned op)
  | (_, .setReplicaUnresponsive id false) => inferInstanceAs (Decidable
      (id ∉ t.sim.crashedReplicas → ∀ r ∈ t.sim.replicas[id]?, t.sim.InView r.currentView))
  | (now, .recoverReplica id) => inferInstanceAs (Decidable
      (∀ opened ∈ Simulation.reopened now t.sim id,
        ∀ p ∈ t.sim.replicas.zipIdx, t.sim.available p.2 = true →
          opened.currentView ≤ p.1.currentView ∧
            ∀ s ∈ t.sim.liveOthers id, s.currentView ≤ p.1.currentView))
  | (_, .setReplicaUnresponsive _ true) => .isTrue trivial
  | (_, .crashReplica _) => .isTrue trivial
  | (_, .runOneRound) => .isTrue trivial
  | (_, .runOneRoundWithPacemaker) => .isTrue trivial
  | (_, .enqueueClientCommand _) => .isTrue trivial
  | (_, .enableDummyProposals _) => .isTrue trivial
  | (_, .disableDummyProposals) => .isTrue trivial

open Simulation

variable [Ed25519] [App σ]

omit [Bincode Snapshot] in
/-- Settings change no view. -/
theorem moves_configured {sim : Simulation σ} {op : SimulationOp} {call : Call}
    {replicas : List (Replica σ)} {now : Nat} (hsetting : op.setting = some call)
    (hlen : replicas.length = sim.replicas.length)
    (hreplicas : ∀ (i : Nat) r', replicas[i]? = some r' →
      ∃ r, sim.replicas[i]? = some r ∧ (r' = r ∨ r' = r.step (now, call))) :
    Moves id sim { sim with replicas := replicas } := by
  have hview : ∀ r : Replica σ, (r.step (now, call)).currentView = r.currentView := by
    intro r
    cases op with
    | enqueueClientCommand cmd =>
      cases hsetting
      rfl
    | enableDummyProposals timeoutMs =>
      cases hsetting
      rfl
    | disableDummyProposals =>
      cases hsetting
      rfl
    | _ => cases hsetting
  refine ⟨fun _ => rfl, fun i _ => ?_⟩
  cases hr' : replicas[i]? with
  | none =>
    rw [List.getElem?_eq_none_iff, hlen, ← List.getElem?_eq_none_iff] at hr'
    rw [hr']
    rfl
  | some r' =>
    obtain ⟨r, hr, rfl | rfl⟩ := hreplicas i r' hr'
    · rw [hr]
      rfl
    · rw [hr, Option.map_some, Option.map_some, hview]
      rfl

variable [LawfulBincode LogEntry] [StrictBincode LogEntry] [LawfulBincode Snapshot]

/-- As long as no replica returns, the views stay synchronous. -/
theorem synchronous_step {t : Trace σ} (harises : t.sim.Arises) (hsync : t.sim.Synchronous)
    (now : Nat) {op : SimulationOp} (hrelease : ∀ id, op ≠ .setReplicaUnresponsive id false)
    (hrecover : ∀ id, op ≠ .recoverReplica id) : (t.step (now, op)).sim.Synchronous := by
  have hdoes := t.step_does now op
  generalize (t.step (now, op)).sim = sim' at hdoes ⊢
  cases hdoes with
  | runOneRound =>
    obtain ⟨f, hmoves⟩ := harises.moves_runOneRound now
    exact hmoves.synchronous hsync
  | runOneRoundWithPacemaker =>
    obtain ⟨f, hmoves⟩ := harises.moves_runOneRoundWithPacemaker now
    exact hmoves.synchronous hsync
  | configured hsetting hlen hreplicas =>
    exact (moves_configured hsetting hlen hreplicas).synchronous hsync
  | @interrupted id unresponsive _ hok =>
    cases unresponsive with
    | false => exact absurd rfl (hrelease id)
    | true =>
      obtain ⟨-, -, rfl⟩ := setReplicaUnresponsive_ok_iff.mp hok
      refine hsync.withdraw fun i ha => ⟨?_, rfl⟩
      rw [available_iff] at ha ⊢
      exact ⟨ha.1, fun hin => ha.2 (Finset.mem_insert_of_mem hin)⟩
  | crashed hok =>
    obtain ⟨r, keystore, -, -, -, -, rfl⟩ := crashReplica_ok_iff.mp hok
    refine hsync.withdraw fun i ha => ?_
    rw [available_iff] at ha ⊢
    obtain ⟨hne, hlive⟩ := not_or.mp (Finset.mem_insert.not.mp ha.1)
    exact ⟨⟨hlive, fun hin => ha.2 (Finset.mem_erase.mpr ⟨hne, hin⟩)⟩,
      List.getElem?_set_ne (Ne.symm hne)⟩
  | @recovered id _ _ => exact absurd rfl (hrecover id)
  | refused _ => exact hsync

/-- An operation leaves the views synchronous exactly when it is aligned. -/
theorem synchronous_step_iff {t : Trace σ} (harises : t.sim.Arises) (hsync : t.sim.Synchronous)
    (op : Nat × SimulationOp) : (t.step op).sim.Synchronous ↔ t.Aligned op := by
  have hstays : ∀ now op, (∀ id, op ≠ .setReplicaUnresponsive id false) →
      (∀ id, op ≠ .recoverReplica id) → (t.step (now, op)).sim.Synchronous :=
    fun now op hrelease hrecover => synchronous_step harises hsync now hrelease hrecover
  obtain ⟨now, op⟩ := op
  cases op with
  | setReplicaUnresponsive id unresponsive =>
    cases unresponsive with
    | true => exact iff_of_true (hstays now _ (by simp) (by simp)) trivial
    | false =>
      simp only [Aligned, step, nextSim]
      cases hok : t.sim.setReplicaUnresponsive id false with
      | error e =>
        refine iff_of_true hsync fun hlive r hr => ?_
        have haccepted : t.sim.setReplicaUnresponsive id false = .ok _ :=
          setReplicaUnresponsive_ok_iff.mpr ⟨(List.getElem?_eq_some_iff.mp hr).1, hlive, rfl⟩
        rw [hok] at haccepted
        cases haccepted
      | ok sim' =>
        obtain ⟨hseat, hlive, -⟩ := setReplicaUnresponsive_ok_iff.mp hok
        have hr := List.getElem?_eq_getElem hseat
        rw [synchronous_release_iff hr hok]
        constructor
        · intro h _ r' hr'
          rw [Option.mem_def, hr, Option.some.injEq] at hr'
          exact hr' ▸ h
        · exact fun h => h hlive _ hr
  | recoverReplica id =>
    simp only [Aligned, step, nextSim]
    cases hok : t.sim.recoverReplica now id with
    | error e =>
      refine iff_of_true hsync fun opened hopened => ?_
      obtain ⟨replica, keystore, dir, hp, hr, hks, hcrashed, hdir, hopen⟩ :=
        reopened_eq_some.mp hopened
      have haccepted : t.sim.recoverReplica now id = .ok _ := recoverReplica_ok_iff.mpr
        ⟨replica, keystore, dir, opened, hp, hr, hks, hcrashed, hdir, hopen, rfl⟩
      rw [hok] at haccepted
      cases haccepted
    | ok sim' =>
      obtain ⟨replica, keystore, dir, opened, hp, hr, hks, hcrashed, hdir, hopen, -⟩ :=
        recoverReplica_ok_iff.mp hok
      have hopened : Simulation.reopened now t.sim id = some opened :=
        reopened_eq_some.mpr ⟨replica, keystore, dir, hp, hr, hks, hcrashed, hdir, hopen⟩
      rw [synchronous_recover_iff harises.inRange hopened hok]
      constructor
      · intro h opened' hopened'
        rw [Option.mem_def, hopened, Option.some.injEq] at hopened'
        exact hopened' ▸ h
      · exact fun h => h opened hopened
  | _ => exact iff_of_true (hstays now _ (by simp) (by simp)) trivial

/-- In every run of a simulation that starts in view 0, the available replicas are in the same view
throughout exactly when every replica that returns is aligned with them. -/
theorem views_synchronous_iff {t : Trace σ} (hstart : t.sim.Starting)
    (hzero : ∀ r ∈ t.sim.replicas, r.currentView = 0) (ops : List (Nat × SimulationOp)) :
    Throughout step (fun t => t.sim.Synchronous) t ops ↔ Along step Aligned t ops := by
  have hsync : t.sim.Synchronous := synchronous_iff.mpr ⟨0, inView_iff.mpr fun i r hr _ =>
    hzero r (List.mem_of_getElem? hr)⟩
  exact throughout_iff_along (I := fun t : Trace σ => t.sim.Arises) (D := fun _ _ => True)
    (fun _ op h _ => .step op h) (fun t op h hs => synchronous_step_iff h hs op)
    hstart.arises hsync (along_of_forall (fun _ _ => trivial) t ops)

end Trace

namespace Trace

section Samples

open Sample SimulationOp

/-- Replica 3 is crashed while unresponsive, misses a round and recovers. -/
def alignedOps : List (Nat × SimulationOp) :=
  [(1, runOneRound), (2, setReplicaUnresponsive 3 true), (2, setReplicaUnresponsive 3 false),
    (2, setReplicaUnresponsive 3 true), (2, runOneRoundWithPacemaker), (3, crashReplica 3),
    (3, runOneRound), (4, recoverReplica 3), (4, runOneRound)]

/-- Replica 3 does not respond for a round. -/
def laggingOps : List (Nat × SimulationOp) :=
  [(1, setReplicaUnresponsive 3 true), (1, runOneRound), (2, setReplicaUnresponsive 3 false),
    (2, runOneRound)]

/-- A replica that recovers is in the view of the others. -/
theorem views_synchronous_recovered :
    Throughout step (fun t => t.sim.Synchronous) fourDurable alignedOps := by
  have hzero : ∀ r ∈ fourDurable.sim.replicas, r.currentView = 0 := by decide +kernel
  exact (views_synchronous_iff fourDurable_start.starting hzero alignedOps).mpr (by decide +kernel)

/-- A replica whose interruption ends stays one view behind, also after the next round. -/
theorem views_part_lagging : fourVolatile.sim.Starting ∧
    (∀ r ∈ fourVolatile.sim.replicas, r.currentView = 0) ∧
    ¬ (run step fourVolatile laggingOps).sim.Synchronous ∧
    (run step fourVolatile laggingOps).sim.replicas.map Replica.currentView = [2, 2, 2, 1] ∧
    ∀ i < 4, (run step fourVolatile laggingOps).sim.available i = true := by
  refine ⟨fourVolatile_start.starting, ?_⟩
  decide +kernel

end Samples

end Trace

end PersistHotStuff
