import PersistHotStuff.Handlers.LeaderRotation
import PersistHotStuff.Simulator.FreshHash
import PersistHotStuff.Simulator.Sweep
import PersistHotStuff.Simulator.TraceRule

/-!
# Two leader rules

The simulator lets the replicas lead by seat, a replica lets the active
validators lead by rank. While the first `n` ids are the active ones these are
one rule. A membership change that takes effect gives the ids other ranks.
-/

namespace PersistHotStuff

open Basis

/-- There are validators, and a default set has some. -/
def Membership.Filled (m : Membership) : Prop := m.activeValidators.isEmpty = false ∧ 0 < m.n

theorem Membership.Filled.apply [Ed25519] {m : Membership} (h : m.Filled)
    (command : ConsensusCommand) : (m.apply command).Filled := by
  cases heff : m.effective command with
  | false => rwa [apply_of_not_effective heff]
  | true =>
    obtain ⟨-, hleast, -⟩ := length_apply heff
    have hsize : (m.apply command).n = (m.apply command).activeValidators.length := by
      simp only [Membership.apply, heff, if_true]
      cases command with
      | noOp => cases heff
      | clientTx payload => cases heff
      | joinValidator replicaId publicKey => rfl
      | removeValidator replicaId => rfl
    refine ⟨List.isEmpty_eq_false_iff.mpr (List.ne_nil_of_length_pos ?_), ?_⟩
    · exact Nat.lt_of_lt_of_le (by decide) hleast
    · omega

/-- A default set for some replicas is filled. -/
theorem isEmpty_defaultValidators {n : Nat} (hn : 0 < n) :
    (defaultValidators n).isEmpty = false := by
  have hlen : 0 < (defaultValidators n).length := by
    rw [length_defaultValidators]
    exact hn
  exact List.isEmpty_eq_false_iff.mpr (List.ne_nil_of_length_pos hlen)

namespace Simulation

section Electorate

variable {σ : Type} [Ed25519] [Sha256] [Bincode LogEntry] [Bincode Snapshot] [Crc32] [App σ]

/-- A snapshot lists some validators. -/
def ListsValidators (snap : Option Snapshot) : Prop := ∀ s ∈ snap, s.activeValidators ≠ []

/-- A live replica with some validators, in memory and in its newest snapshot. -/
structure LiveElectorate (r : Replica σ) (dir : Option DataDir) : Prop where
  filled : r.membership.Filled
  disk : ∀ d ∈ dir, ∃ snap, Node.Stored ⟨r, d⟩ snap ∧ ListsValidators snap

/-- A crashed replica whose newest snapshot lists some validators. -/
structure LeftElectorate (r : Replica σ) (dir : Option DataDir) : Prop where
  filled : r.membership.Filled
  disk : ∀ d ∈ dir, ∃ snap, StoreHolds d snap ∧ d.walTmp = none ∧ ListsValidators snap

omit [Ed25519] [Sha256] [Bincode LogEntry] [Bincode Snapshot] [Crc32] [App σ] in
/-- A replica that starts over has the default validators. -/
theorem filled_freshReplica (now : Nat) {config : Config} (hn : 0 < config.n)
    (keystore : KeyStore) : (freshReplica (σ := σ) now config keystore).membership.Filled := by
  have hfilled := isEmpty_defaultValidators hn
  simp only [freshReplica, Replica.ensureDefaultValidators]
  split
  · exact ⟨hfilled, hn⟩
  · exact ⟨hfilled, hn⟩

omit [Ed25519] [App σ] in
/-- A replica opened over a snapshot with validators has validators. -/
theorem liveElectorate_openReplica [LawfulBincode Snapshot] {dir : DataDir}
    {snap : Option Snapshot} (hstore : StoreHolds dir snap) (hnoTmp : dir.walTmp = none)
    (hlists : ListsValidators snap) {now id : Nat} {config : Config} (hn : 0 < config.n)
    {keystore : KeyStore} {opened : Replica σ}
    (hok : openReplica now id config keystore dir = .ok opened) :
    LiveElectorate opened (some dir) := by
  obtain ⟨disk, wal, log, hrec, -, rfl⟩ := Node.openReplica_ok_iff.mp hok
  obtain ⟨hvalidators, -, hcounter⟩ := Node.recover_roster hstore hrec
  obtain ⟨hconfig, -, -⟩ := openReplica_fields hok
  refine ⟨⟨?_, ?_⟩, fun d hd => ?_⟩
  · have hsame : (disk.attachWal log).membership.activeValidators =
        (baseOf config.n snap).activeValidators := hvalidators
    rw [hsame]
    cases snap with
    | none => exact isEmpty_defaultValidators hn
    | some s => exact OrdMap.isEmpty_ofList (by simpa using hlists s rfl)
  · show 0 < (disk.attachWal log).config.n
    rw [hconfig]
    exact hn
  · cases hd
    refine ⟨snap, ⟨hstore, hnoTmp, fun seq hseq => ?_⟩, hlists⟩
    show seq < disk.snapshotCounter
    rw [hcounter]
    exact hstore.below hseq

omit [Ed25519] in
theorem LiveElectorate.takeSnapshot {r : Replica σ} {dir : DataDir}
    (h : LiveElectorate r (some dir)) (now : Nat) :
    LiveElectorate (r.takeSnapshot now dir).2.1 (some (r.takeSnapshot now dir).2.2) := by
  obtain ⟨snap, hstored, -⟩ := h.disk dir rfl
  obtain ⟨hstored', hm⟩ := hstored.takeSnapshot now
  refine ⟨hm.symm ▸ h.filled, fun d hd => ⟨_, Option.some.inj hd ▸ hstored', fun s hs => ?_⟩⟩
  cases hs
  exact fun hnil => List.isEmpty_eq_false_iff.mp h.filled.1 (List.map_eq_nil_iff.mp hnil)

/-- Every step keeps some validators in every seat. -/
theorem electorate_rule [LawfulBincode Snapshot] :
    TraceRule (σ := σ) (Seated LiveElectorate LeftElectorate) := by
  refine traceRule_of_seated ?_ ?_ ?_ ?_ ?_
  · intro r c dir h
    refine ⟨Replica.step_membership_preserves (fun _ command hm => hm.apply command) h.filled c,
      fun d hd => ?_⟩
    obtain ⟨snap, hstored, hlists⟩ := h.disk d hd
    refine ⟨snap, ⟨hstored.store, hstored.noTmp, fun seq hseq => ?_⟩, hlists⟩
    show seq < (r.step c).snapshotCounter
    rw [Replica.step_snapshotCounter]
    exact hstored.below seq hseq
  · exact fun r c dir h =>
      ⟨Replica.step_membership_preserves (fun _ command hm => hm.apply command) h.filled c, h.disk⟩
  · exact fun r dir now h => h.takeSnapshot now
  · intro r dir now keystore h
    refine ⟨filled_freshReplica now h.filled.2 keystore, fun d hd => ?_⟩
    obtain ⟨d', hd', rfl⟩ := Option.map_eq_some_iff.mp hd
    obtain ⟨snap, hstored, hlists⟩ := h.disk d' hd'
    exact ⟨snap, hstored.onDisk.1, hstored.onDisk.2, hlists⟩
  · intro r dir now id keystore opened others h hok
    obtain ⟨snap, hstore, hnoTmp, hlists⟩ := h.disk dir rfl
    have hopened := liveElectorate_openReplica hstore hnoTmp hlists h.filled.2 hok
    have hsynced : LiveElectorate (synced now others opened) (some dir) := by
      refine ⟨(synced_membership now others opened).symm ▸ hopened.filled, fun d hd => ?_⟩
      obtain ⟨snap, hstored, hlists⟩ := hopened.disk d hd
      refine ⟨snap, ⟨hstored.store, hstored.noTmp, fun seq hseq => ?_⟩, hlists⟩
      show seq < (synced now others opened).snapshotCounter
      rw [synced_snapshotCounter]
      exact hstored.below seq hseq
    rw [rejoin_eq]
    exact hsynced.takeSnapshot now

/-- In whatever arises, every seat has some validators. -/
theorem Arises.electorate [LawfulBincode Snapshot] {sim : Simulation σ} (h : Arises sim) :
    Seated LiveElectorate LeftElectorate sim := by
  induction h with
  | new now f maxSteps allKeys =>
    refine ⟨fun i r hr _ => ?_, fun i r _ hi => absurd hi (Finset.notMem_empty i)⟩
    have hduty := onDuty_new now f maxSteps hr
    have hpos : 0 < allKeys.length := Nat.zero_lt_of_lt
      (List.getElem?_eq_some_iff.mp (KeyStore.distributeKeys_getElem? hduty.keystore).1).1
    refine ⟨⟨?_, ?_⟩, fun d hd => by cases hd⟩
    · exact (congrArg OrdMap.isEmpty hduty.validators).trans (isEmpty_defaultValidators hpos)
    · show 0 < r.config.n
      rw [hduty.size]
      exact hpos
  | @restart earlier sim _ hrestarts ih =>
    obtain ⟨now, f, maxSteps, allKeys, dirs, -, hdirs, hok⟩ := hrestarts
    obtain ⟨replicas, rfl, -, hslots⟩ := newWithPersistence_slots hok
    refine ⟨fun i r hr _ => ?_, fun i r _ hi => absurd hi (Finset.notMem_empty i)⟩
    obtain ⟨ks, dir, hks, hdir, hopen⟩ := hslots i r hr
    have hpos : 0 < (replicaConfig allKeys.length f i).n := Nat.zero_lt_of_lt
      (List.getElem?_eq_some_iff.mp (KeyStore.distributeKeys_getElem? hks).1).1
    obtain ⟨snap, hstore, hnoTmp, hlists⟩ : ∃ snap, StoreHolds dir snap ∧ dir.walTmp = none ∧
        ListsValidators snap := by
      rcases hdirs i dir hdir with rfl | hleaves
      · exact ⟨none, rfl, rfl, fun s hs => by cases hs⟩
      · rw [leaves] at hleaves
        split at hleaves
        · next old d hold hd =>
          cases hleaves
          split
          · next hi => exact (ih.left i old hold hi).disk d hd
          · next hi =>
            obtain ⟨snap, hstored, hlists⟩ := (ih.live i old hold hi).disk d hd
            exact ⟨snap, hstored.onDisk.1, hstored.onDisk.2, hlists⟩
        · cases hleaves
    have hlive := liveElectorate_openReplica hstore hnoTmp hlists hpos hopen
    exact ⟨hlive.filled, fun d hd => hlive.disk d (hdir.symm.trans hd)⟩
  | step op _ ih => exact electorate_rule.step ih op

/-- In whatever arises, every replica has the id of its seat. -/
theorem Arises.ids {sim : Simulation σ} (h : Arises sim) (i : Nat) (r : Replica σ)
    (hr : sim.replicas[i]? = some r) : r.config.id = i := by
  have hfresh : ∀ (i : Nat) (r : Replica σ) now keystore, r.config.id = i →
      (freshReplica (σ := σ) now r.config keystore).config.id = i := by
    intro i r now keystore hid
    simp only [freshReplica, Replica.ensureDefaultValidators]
    split <;> exact hid
  have hrule : TraceRule (σ := σ) fun sim =>
      ∀ (i : Nat) r, sim.replicas[i]? = some r → r.config.id = i := by
    refine traceRule_of_seats (P := fun i r => r.config.id = i) ?_ (fun _ _ _ _ h => h) hfresh ?_
    · intro i r c hid
      exact (congrArg Prod.fst (r.step_identity c)).trans hid
    · intro i r now keystore dir opened others hid hopen
      obtain ⟨hconfig, -, hpool⟩ := openReplica_fields hopen
      rw [(rejoin_fields now others hpool dir).1, hconfig]
      exact hid
  induction h generalizing i r with
  | new now f maxSteps allKeys => exact (onDuty_new now f maxSteps hr).id
  | restart _ hrestarts _ =>
    obtain ⟨now, f, maxSteps, allKeys, dirs, -, -, hok⟩ := hrestarts
    obtain ⟨replicas, rfl, -, hslots⟩ := newWithPersistence_slots hok
    obtain ⟨ks, dir, -, -, hopen⟩ := hslots i r hr
    exact congrArg Config.id (openReplica_fields hopen).1
  | step op _ ih => exact hrule.step ih op i r hr

end Electorate

section Leader

variable {σ : Type} {sim : Simulation σ}

/-- Enqueueing a command does not change who leads. -/
theorem currentLeader_enqueueClientCommand (sim : Simulation σ) (cmd : ConsensusCommand) :
    (sim.enqueueClientCommand cmd).currentLeader = sim.currentLeader := by
  refine currentLeader_congr (List.length_modify ..) rfl fun i _ => ?_
  show ((sim.replicas.modify sim.currentLeader fun r => r.enqueueCommand cmd)[i]?).map _ = _
  rw [List.getElem?_modify]
  cases sim.replicas[i]? with
  | none => rfl
  | some r => by_cases hi : sim.currentLeader = i <;> simp [hi, Replica.enqueueCommand]

end Leader

section Agreement

variable {σ : Type}

/-- The replica the simulator lets lead leads its view, every replica expects the proposals of the
view from it, and a client command enqueued now is the one it proposes next. -/
structure LedBy (sim : Simulation σ) (r : Replica σ) : Prop where
  seat : sim.replicas[sim.currentLeader]? = some r
  leads : r.isLeader r.currentView = true
  expected : ∀ s ∈ sim.replicas, s.dynamicLeaderForView s.currentView = r.config.id
  reached : ∀ cmd now hash, ∃ r' block,
    (sim.enqueueClientCommand cmd).replicas[(sim.enqueueClientCommand cmd).currentLeader]? =
        some r' ∧
      (r'.proposeNextWithHash now r'.currentView hash).2 = some block ∧ block.command = cmd

/-- The leader of the simulator is the leader of the replicas. -/
def LeadersAgree (sim : Simulation σ) : Prop := ∃ r, sim.LedBy r

/-- A leader proposes the command it was given last. -/
theorem proposeNextWithHash_enqueueCommand {r : Replica σ}
    (hleads : r.isLeader r.currentView = true) (cmd : ConsensusCommand) (now : Nat) (hash : Hash) :
    ∃ block, ((r.enqueueCommand cmd).proposeNextWithHash now r.currentView hash).2 = some block ∧
      block.command = cmd := by
  have hleads' : (r.enqueueCommand cmd).isLeader r.currentView = true := hleads
  have hlast : (r.enqueueCommand cmd).clientQueue.getLast? = some cmd :=
    List.getLast?_append_of_ne_nil _ (List.cons_ne_nil cmd [])
  simp only [Replica.proposeNextWithHash, hleads', hlast, Bool.not_true, Bool.false_eq_true,
    if_false]
  exact ⟨_, rfl, rfl⟩

/-- With equal views and validators, the replicas agree with the simulator as soon as the one that
leads considers itself the leader. -/
theorem ledBy_of_isLeader {sim : Simulation σ} {view : Nat} {validators : OrdMap ReplicaId Unit}
    (hview : ∀ r ∈ sim.replicas, r.currentView = view)
    (hvalidators : ∀ r ∈ sim.replicas, r.activeValidators = validators)
    (hne : validators.isEmpty = false) {r : Replica σ}
    (hr : sim.replicas[sim.currentLeader]? = some r)
    (hleads : r.isLeader r.currentView = true) : sim.LedBy r := by
  have hmem := List.mem_of_getElem? hr
  refine ⟨hr, hleads, fun s hs => ?_, fun cmd now hash => ?_⟩
  · have hsame : s.activeValidators = r.activeValidators :=
      (hvalidators s hs).trans (hvalidators r hmem).symm
    have hfilled : r.activeValidators.isEmpty = false := hvalidators r hmem ▸ hne
    rw [Replica.dynamicLeaderForView_congr hsame hfilled, hview s hs, ← hview r hmem]
    exact beq_iff_eq.mp hleads
  · obtain ⟨block, hblock, hcommand⟩ := proposeNextWithHash_enqueueCommand hleads cmd now hash
    refine ⟨r.enqueueCommand cmd, block, ?_, hblock, hcommand⟩
    rw [currentLeader_enqueueClientCommand]
    show (sim.replicas.modify sim.currentLeader fun r => r.enqueueCommand cmd)[sim.currentLeader]? =
      some (r.enqueueCommand cmd)
    rw [List.getElem?_modify, hr]
    simp

variable [Ed25519] [Sha256] [Bincode LogEntry] [Bincode Snapshot] [Crc32] [App σ]

/-- With everyone live, in one view and with one validator set, the two leader rules agree exactly
when the seat that is due is that of an active validator, and as many validators have smaller ids as
the view is past a multiple of their number. -/
theorem leadersAgree_iff [LawfulBincode Snapshot] {sim : Simulation σ} (harises : Arises sim)
    (hcrashed : sim.crashedReplicas = ∅) {view : Nat} {validators : OrdMap ReplicaId Unit}
    (hview : ∀ r ∈ sim.replicas, r.currentView = view)
    (hvalidators : ∀ r ∈ sim.replicas, r.activeValidators = validators) :
    sim.LeadersAgree ↔ sim.replicas ≠ [] ∧
      validators.contains (view % sim.replicas.length) = true ∧
      validators.keys.countP (· < view % sim.replicas.length) = view % validators.length := by
  by_cases hne : sim.replicas = []
  · refine iff_of_false ?_ fun h => h.1 hne
    rintro ⟨r, hled⟩
    have hseat := hled.seat
    rw [hne] at hseat
    cases hseat
  have hpos : 0 < sim.replicas.length := List.length_pos_iff.mpr hne
  have hleader := currentLeader_of_uniform hne hcrashed hview
  obtain ⟨r, hr⟩ : ∃ r, sim.replicas[view % sim.replicas.length]? = some r :=
    ⟨_, List.getElem?_eq_getElem (Nat.mod_lt view hpos)⟩
  have hmem := List.mem_of_getElem? hr
  have hfilled : r.activeValidators.isEmpty = false :=
    (harises.electorate.live _ r hr (by rw [hcrashed]; exact Finset.notMem_empty _)).filled.1
  -- the ids are the seats, so the replica leads when the rank of its seat is due
  have hrank : r.dynamicLeaderForView view = r.config.id ↔
      r.activeValidators.contains r.config.id = true ∧
        r.activeValidators.keys.countP (· < r.config.id) = view % r.activeValidators.length :=
    Replica.dynamicLeaderForView_eq_iff hfilled
  rw [harises.ids _ r hr, hvalidators r hmem] at hrank
  have hleads : r.isLeader r.currentView = true ↔
      r.dynamicLeaderForView view = view % sim.replicas.length := by
    rw [Replica.isLeader, hview r hmem, harises.ids _ r hr, beq_iff_eq]
  rw [← hrank, ← hleads, and_iff_right hne]
  constructor
  · rintro ⟨s, hled⟩
    have hs := hled.seat
    rw [hleader, hr] at hs
    cases hs
    exact hled.leads
  · intro h
    rw [← hleader] at hr
    exact ⟨r, ledBy_of_isLeader hview hvalidators (hvalidators r hmem ▸ hfilled) hr h⟩

end Agreement

end Simulation

namespace Trace

section Samples

open Sample SimulationOp

/-- Three sample replicas without persistence. -/
def threeVolatile : Trace NoOpApp where
  sim := Simulation.new 0 0 20 (sampleKeys 3)
  history := History.genesis

/-- A validator joins in the third round. -/
def joiningOps (id : ReplicaId) : List (Nat × SimulationOp) :=
  [(1, enableDummyProposals 0),
    (1, enqueueClientCommand (.joinValidator id (signingKey id))), (1, runOneRoundWithPacemaker),
    (2, runOneRoundWithPacemaker), (3, runOneRoundWithPacemaker)]

/-- The three replicas with the fourth validator. -/
def threeJoined : Simulation NoOpApp := (run step threeVolatile (joiningOps 7)).sim

theorem threeJoined_arises : threeJoined.Arises :=
  Simulation.Arises.run (t := threeVolatile) (.new 0 0 20 (sampleKeys 3)) (joiningOps 7)

/-- Six sample replicas with a seventh validator. -/
def sixJoined : Simulation NoOpApp :=
  (run step ⟨Simulation.new 0 1 20 (sampleKeys 6), History.genesis⟩ (joiningOps 6)).sim

/-- Once a seventh validator has joined six replicas, the simulator lets replica 3 lead view 3, and
so do the replicas. -/
theorem leadersAgree_sixJoined :
    (∀ r ∈ sixJoined.replicas, r.dynamicLeaderForView 3 = 3) ∧ sixJoined.LeadersAgree := by
  have harises : sixJoined.Arises :=
    Simulation.Arises.run (t := ⟨Simulation.new 0 1 20 (sampleKeys 6), History.genesis⟩)
      (.new 0 1 20 (sampleKeys 6)) (joiningOps 6)
  have hview : ∀ r ∈ sixJoined.replicas, r.currentView = 3 := by decide +kernel
  have hvalidators : ∀ r ∈ sixJoined.replicas,
      r.activeValidators = defaultValidators 7 := by decide +kernel
  exact ⟨by decide +kernel, (Simulation.leadersAgree_iff harises (by decide +kernel) hview
    hvalidators).mpr (by decide +kernel)⟩

/-- Once a fourth validator has joined three replicas, the simulator lets replica 0 lead view 3,
which every replica expects validator 7 to lead. -/
theorem leaders_disagree : threeJoined.Arises ∧ threeJoined.crashedReplicas = ∅ ∧
    (∀ r ∈ threeJoined.replicas, r.currentView = 3 ∧
      r.activeValidators = OrdMap.ofList ([0, 1, 2, 7].map fun id => (id, ())) ∧
      r.dynamicLeaderForView 3 = 7) ∧
    threeJoined.currentLeader = 0 ∧
    (threeJoined.replicas[0]?).map (fun r => r.isLeader r.currentView) = some false ∧
    ¬ threeJoined.LeadersAgree := by
  have hleader : threeJoined.currentLeader = 0 := by decide +kernel
  have hfalse : (threeJoined.replicas[0]?).map (fun r => r.isLeader r.currentView) =
      some false := by decide +kernel
  refine ⟨threeJoined_arises, by decide +kernel, by decide +kernel, hleader, hfalse, ?_⟩
  rintro ⟨r, hled⟩
  have hseat := hled.seat
  rw [hleader] at hseat
  rw [hseat, Option.map_some, hled.leads] at hfalse
  cases hfalse

end Samples

end Trace

end PersistHotStuff
