import PersistHotStuff.Simulator.Outcome
import PersistHotStuff.Simulator.RoundRule
import PersistHotStuff.Simulator.Trace

/-!
# Reachable simulations

In every state a simulation of `3f + 1` replicas can reach, whatever was crashed,
interrupted and recovered, each replica sits in its place with its own keys and
the first validators, the directories bring these back, and between two rounds
no message and no vote is pending.
-/

namespace PersistHotStuff

open Basis

/-- A directory that a node with the first `n` validators leaves when it stops. -/
def LeftBy (σ : Type) [Bincode Snapshot] [Sha256] (n : Nat) (dir : DataDir) : Prop :=
  ∃ keys, ∃ node : Node σ, node.Roster n keys ∧ dir = node.replica.onDisk node.dir

section Posts

variable {σ : Type} [Bincode Snapshot] [Sha256] {n : Nat} {keys : OrdMap ReplicaId Bytes}

/-- The keys of a node are not in its directory. -/
theorem Node.Roster.rekey {node : Node σ} (h : node.Roster n keys) (keystore : KeyStore) :
    Node.Roster n keystore.publicKeys
      (⟨{ node.replica with keystore := keystore }, node.dir⟩ : Node σ) := by
  obtain ⟨snap, hstored, hsnap⟩ := h.stored
  exact ⟨h.validators, rfl, snap, ⟨hstored.store, hstored.noTmp, hstored.below⟩, hsnap⟩

/-- A node stops and leaves its directory. -/
theorem Node.Roster.leftBy {r : Replica σ} {dir : DataDir} (h : Node.Roster n keys ⟨r, dir⟩) :
    LeftBy σ n (r.onDisk dir) := ⟨keys, ⟨r, dir⟩, h, rfl⟩

/-- An empty directory is as good as one left behind. -/
theorem leftBy_empty (n : Nat) : LeftBy σ n DataDir.empty := by
  let keystore : KeyStore := ⟨0, [], OrdMap.empty⟩
  let config : Config := ⟨n, 0, 0, 0⟩
  refine ⟨OrdMap.empty, ⟨{ freshReplica 0 config keystore with
    activeValidators := defaultValidators n, keystore := keystore, wal := none }, DataDir.empty⟩,
    ⟨rfl, rfl, none, ⟨rfl, rfl, fun seq hseq => by cases hseq⟩, fun s hs => by cases hs⟩, rfl⟩

end Posts

namespace Simulation

variable {σ : Type} [Ed25519] [Sha256] [Bincode Snapshot]

/-- A simulation of replicas in their places, at any moment of a round. -/
structure Manned (allKeys : List (ReplicaId × Bytes)) (sim : Simulation σ) : Prop where
  count : sim.replicas.length = allKeys.length
  network : sim.network.numReplicas = allKeys.length
  keystores : sim.replicaKeystores = KeyStore.distributeKeys allKeys
  crashed : ∀ i ∈ sim.crashedReplicas, i < allKeys.length
  placed : ∀ (i : Nat) r, sim.replicas[i]? = some r → r.Placed allKeys i
  idle : ∀ (i : Nat) r, sim.replicas[i]? = some r → sim.available i = false →
    r.votePool = OrdMap.empty
  /-- The directory of a live replica belongs to it. -/
  roster : sim.persistenceEnabled = true → ∀ (i : Nat) r, sim.replicas[i]? = some r →
    i ∉ sim.crashedReplicas →
    ∃ dir, sim.replicaDataDirs[i]? = some dir ∧ ∃ keys, Node.Roster allKeys.length keys ⟨r, dir⟩
  /-- The directory of a crashed replica waits for it. -/
  left : ∀ i ∈ sim.crashedReplicas,
    ∃ dir, sim.replicaDataDirs[i]? = some dir ∧ LeftBy σ allKeys.length dir

/-- Between two rounds nothing is pending. -/
structure OffDuty (allKeys : List (ReplicaId × Bytes)) (sim : Simulation σ) : Prop
    extends Manned allKeys sim where
  quiet : sim.network.messageQueue = []
  pools : ∀ (i : Nat) r, sim.replicas[i]? = some r → r.votePool = OrdMap.empty

variable {allKeys : List (ReplicaId × Bytes)} {sim : Simulation σ}

theorem OffDuty.staffed (h : OffDuty allKeys sim) : Staffed allKeys sim :=
  ⟨h.count, h.network, h.quiet, h.crashed, fun i r hr => ⟨h.placed i r hr, h.pools i r hr⟩⟩

/-- A live replica changes, and its directory with it. -/
theorem Manned.replace (h : Manned allKeys sim) {i : Nat} {r' : Replica σ} {dirs : List DataDir}
    (hi : sim.available i = true) (hplaced : r'.Placed allKeys i)
    (hdirs : ∀ j, j ≠ i → dirs[j]? = sim.replicaDataDirs[j]?)
    (hroster : sim.persistenceEnabled = true →
      ∃ dir, dirs[i]? = some dir ∧ ∃ keys, Node.Roster allKeys.length keys ⟨r', dir⟩) :
    Manned allKeys { sim.setReplica i r' with replicaDataDirs := dirs } := by
  have hget : ∀ (j : Nat) s, (sim.replicas.set i r')[j]? = some s →
      j = i ∧ s = r' ∨ j ≠ i ∧ sim.replicas[j]? = some s := by
    intro j s hs
    by_cases he : j = i
    · subst he
      rw [List.getElem?_set_self'] at hs
      obtain ⟨-, -, rfl⟩ := Option.map_eq_some_iff.mp hs
      exact Or.inl ⟨rfl, rfl⟩
    · rw [List.getElem?_set_ne (Ne.symm he)] at hs
      exact Or.inr ⟨he, hs⟩
  refine ⟨(List.length_set ..).trans h.count, h.network, h.keystores, h.crashed, fun j s hs => ?_,
    fun j s hs ha => ?_, fun hp j s hs hj => ?_, fun j hj => ?_⟩
  · rcases hget j s hs with ⟨rfl, rfl⟩ | ⟨-, hs⟩
    · exact hplaced
    · exact h.placed j s hs
  · have hoff : sim.available j = false := ha
    rcases hget j s hs with ⟨rfl, rfl⟩ | ⟨-, hs⟩
    · rw [hi] at hoff
      cases hoff
    · exact h.idle j s hs ha
  · rcases hget j s hs with ⟨rfl, rfl⟩ | ⟨hne, hs⟩
    · exact hroster hp
    · obtain ⟨dir, hdir, hkeys⟩ := h.roster hp j s hs hj
      exact ⟨dir, (hdirs j hne).trans hdir, hkeys⟩
  · have hne : j ≠ i := fun he => not_crashed_of_available hi (he ▸ hj)
    obtain ⟨dir, hdir, hleft⟩ := h.left j hj
    exact ⟨dir, (hdirs j hne).trans hdir, hleft⟩

section Rule

variable [Bincode LogEntry] [Crc32] [App σ]

/-- With `3f + 1` replicas every step of a round keeps them in their places. -/
theorem manned_rule (hn : allKeys.length % 3 = 1) : RoundRule (σ := σ) (Manned allKeys) where
  call sim i r c h hr ha := by
    have hplaced := h.placed i r hr
    have hlen : r.activeValidators.length % 3 = 1 := by
      rw [hplaced.validators, length_defaultValidators, hn]
    refine h.replace ha (hplaced.congr (Replica.step_membership_of_mod hlen c)
      (r.step_identity c)) (fun _ _ => rfl) fun hp => ?_
    obtain ⟨dir, hdir, keys, hroster⟩ := h.roster hp i r hr (not_crashed_of_available ha)
    exact ⟨dir, hdir, keys, hroster.call hn c⟩
  snapshot sim i r dir now h hr ha hdir := by
    have hsame := takeSnapshot_replica now r dir
    have hplaced : (r.takeSnapshot now dir).2.1.Placed allKeys i :=
      (h.placed i r hr).congr (by rw [hsame]; rfl) (by rw [hsame]; rfl)
    refine h.replace ha hplaced (fun j hj => List.getElem?_set_ne (Ne.symm hj)) fun hp => ?_
    obtain ⟨dir', hdir', keys, hroster⟩ := h.roster hp i r hr (not_crashed_of_available ha)
    rw [hdir, Option.some.injEq] at hdir'
    subst hdir'
    exact ⟨_, List.getElem?_set_self (List.getElem?_eq_some_iff.mp hdir).1, keys,
      hroster.takeSnapshot now⟩
  respond sim i h :=
    ⟨h.count, h.network, h.keystores, h.crashed, h.placed, h.idle, h.roster, h.left⟩
  network sim net h hnet :=
    ⟨h.count, hnet.trans h.network, h.keystores, h.crashed, h.placed, h.idle, h.roster, h.left⟩

/-- A view change leaves no vote pending. -/
theorem Manned.advanceViews (h : Manned allKeys sim) (hn : allKeys.length % 3 = 1)
    (hquiet : sim.network.messageQueue = []) (now : Nat) (reason : ViewChangeReason)
    (responds : Bool) : OffDuty allKeys (advanceViews now reason responds sim) := by
  have hmanned := (manned_rule hn).advanceViews h now reason responds
  obtain ⟨hframe, hvisits⟩ := advanceViews_visits now reason responds sim
  refine ⟨hmanned, ?_, fun i r' hr' => ?_⟩
  · rw [advanceViews_network]
    exact hquiet
  · have hlen : (Simulation.advanceViews now reason responds sim).replicas.length =
        sim.replicas.length := congrArg Frame.count hframe
    obtain ⟨hlt, -⟩ := List.getElem?_eq_some_iff.mp hr'
    have hr := List.getElem?_eq_getElem (hlen ▸ hlt)
    obtain ⟨r'', hr'', hvisit⟩ := hvisits i _ hr
    rw [hr', Option.some.injEq] at hr''
    subst hr''
    cases ha : sim.available i with
    | false =>
      rw [ha, if_neg Bool.false_ne_true] at hvisit
      rw [hvisit]
      exact h.idle i _ hr ha
    | true =>
      rw [ha, if_pos rfl] at hvisit
      rw [hvisit]
      rfl

end Rule

section Crash

omit [Sha256] [Bincode Snapshot] in
/-- A replica that starts over is in its place. -/
theorem onDuty_freshReplica (now : Nat) {config : Config} {keystore : KeyStore} {i : Nat}
    (hsize : config.n = allKeys.length) (hid : config.id = i)
    (hks : (KeyStore.distributeKeys allKeys)[i]? = some keystore) :
    (freshReplica (σ := σ) now config keystore).OnDuty allKeys i := by
  have hvalidators := congrArg defaultValidators hsize
  simp only [freshReplica, Replica.ensureDefaultValidators]
  split
  · exact ⟨⟨hsize, hid, hvalidators, hks⟩, rfl⟩
  · exact ⟨⟨hsize, hid, hvalidators, hks⟩, rfl⟩

/-- Another replica takes the place of one. -/
theorem OffDuty.reseat (h : OffDuty allKeys sim) {i : Nat} {r' : Replica σ} {sim' : Simulation σ}
    (hi : i < sim.replicas.length) (hduty : r'.OnDuty allKeys i)
    (hreplicas : sim'.replicas = sim.replicas.set i r') (hnetwork : sim'.network = sim.network)
    (hkeystores : sim'.replicaKeystores = sim.replicaKeystores)
    (hpersistent : sim'.persistenceEnabled = sim.persistenceEnabled)
    (hdirs : ∀ j, j ≠ i → sim'.replicaDataDirs[j]? = sim.replicaDataDirs[j]?)
    (hcrashed : ∀ j, j ≠ i → (j ∈ sim'.crashedReplicas ↔ j ∈ sim.crashedReplicas))
    (hlive : i ∉ sim'.crashedReplicas →
      ∃ dir, sim'.replicaDataDirs[i]? = some dir ∧
        ∃ keys, Node.Roster allKeys.length keys ⟨r', dir⟩)
    (hleft : i ∈ sim'.crashedReplicas →
      ∃ dir, sim'.replicaDataDirs[i]? = some dir ∧ LeftBy σ allKeys.length dir) :
    OffDuty allKeys sim' := by
  have hget : ∀ (j : Nat) s, sim'.replicas[j]? = some s →
      j = i ∧ s = r' ∨ j ≠ i ∧ sim.replicas[j]? = some s := by
    intro j s hs
    rw [hreplicas] at hs
    by_cases he : j = i
    · subst he
      rw [List.getElem?_set_self hi, Option.some.injEq] at hs
      exact Or.inl ⟨rfl, hs.symm⟩
    · rw [List.getElem?_set_ne (Ne.symm he)] at hs
      exact Or.inr ⟨he, hs⟩
  have hall : ∀ (j : Nat) s, sim'.replicas[j]? = some s → s.OnDuty allKeys j := by
    intro j s hs
    rcases hget j s hs with ⟨rfl, rfl⟩ | ⟨-, hs⟩
    · exact hduty
    · exact ⟨h.placed j s hs, h.pools j s hs⟩
  refine ⟨⟨?_, hnetwork ▸ h.network, hkeystores ▸ h.keystores, fun j hj => ?_,
    fun j s hs => (hall j s hs).toPlaced, fun j s hs _ => (hall j s hs).pool,
    fun hp j s hs hj => ?_, fun j hj => ?_⟩, hnetwork ▸ h.quiet, fun j s hs => (hall j s hs).pool⟩
  · rw [hreplicas, List.length_set, h.count]
  · by_cases he : j = i
    · rw [he, ← h.count]
      exact hi
    · exact h.crashed j ((hcrashed j he).mp hj)
  · rcases hget j s hs with ⟨rfl, rfl⟩ | ⟨hne, hs⟩
    · exact hlive hj
    · obtain ⟨dir, hdir, hroster⟩ :=
        h.roster (hpersistent ▸ hp) j s hs fun hin => hj ((hcrashed j hne).mpr hin)
      exact ⟨dir, (hdirs j hne).trans hdir, hroster⟩
  · by_cases he : j = i
    · subst he
      exact hleft hj
    · obtain ⟨dir, hdir, hleft⟩ := h.left j ((hcrashed j he).mp hj)
      exact ⟨dir, (hdirs j he).trans hdir, hleft⟩

/-- A crash leaves a place to come back to. -/
theorem OffDuty.crash (h : OffDuty allKeys sim) {now i : Nat} {sim' : Simulation σ}
    (hok : sim.crashReplica now i = .ok sim') : OffDuty allKeys sim' := by
  obtain ⟨replica, keystore, hpersistent, hr, hks, hi, rfl⟩ := crashReplica_ok_iff.mp hok
  have hplaced := h.placed i replica hr
  rw [h.keystores] at hks
  obtain ⟨dir, hdir, keys, hroster⟩ := h.roster hpersistent i replica hr hi
  refine h.reseat (List.getElem?_eq_some_iff.mp hr).1
    (onDuty_freshReplica now hplaced.size hplaced.id hks) rfl rfl rfl rfl
    (fun j hj => List.getElem?_modify_ne _ _ (Ne.symm hj)) (fun j hj => ?_)
    (fun hin => absurd (Finset.mem_insert_self ..) hin)
    (fun _ => ⟨replica.onDisk dir, ?_, hroster.leftBy⟩)
  · rw [Finset.mem_insert, or_iff_right hj]
  · simp only [List.getElem?_modify_eq, hdir]
    rfl

theorem OffDuty.processTimeoutCrashes (h : OffDuty allKeys sim) (now : Nat) :
    OffDuty allKeys (sim.processTimeoutCrashes now) :=
  processTimeoutCrashes_preserves (fun _ _ _ h hok => h.crash hok) h

theorem OffDuty.advanceSimulatedTime (h : OffDuty allKeys sim) :
    OffDuty allKeys sim.advanceSimulatedTime :=
  ⟨⟨h.count, h.network, h.keystores, h.crashed, h.placed, h.idle, h.roster, h.left⟩, h.quiet,
    h.pools⟩

theorem OffDuty.roundStart (h : OffDuty allKeys sim) (now : Nat) :
    OffDuty allKeys (sim.roundStart now) := h.advanceSimulatedTime.processTimeoutCrashes now

theorem OffDuty.bumpStep (h : OffDuty allKeys sim) : OffDuty allKeys sim.bumpStep :=
  ⟨⟨h.count, h.network, h.keystores, h.crashed, h.placed, h.idle, h.roster, h.left⟩, h.quiet,
    h.pools⟩

/-- Interruptions change no place. -/
theorem OffDuty.setReplicaUnresponsive (h : OffDuty allKeys sim) {i : Nat} {unresponsive : Bool}
    {sim' : Simulation σ} (hok : sim.setReplicaUnresponsive i unresponsive = .ok sim') :
    OffDuty allKeys sim' := by
  have hsame : ∀ (s : Simulation σ), s.replicas = sim.replicas → s.network = sim.network →
      s.replicaKeystores = sim.replicaKeystores → s.crashedReplicas = sim.crashedReplicas →
      s.persistenceEnabled = sim.persistenceEnabled →
      s.replicaDataDirs = sim.replicaDataDirs → OffDuty allKeys s := by
    intro s hreplicas hnetwork hkeystores hcrashed hpersistent hdirs
    refine ⟨⟨hreplicas ▸ h.count, hnetwork ▸ h.network, hkeystores ▸ h.keystores,
      hcrashed ▸ h.crashed, hreplicas ▸ h.placed, fun i r hr _ => ?_, ?_, ?_⟩,
      hnetwork ▸ h.quiet, hreplicas ▸ h.pools⟩
    · exact h.pools i r (hreplicas ▸ hr)
    · rw [hpersistent, hreplicas, hcrashed, hdirs]
      exact h.roster
    · rw [hcrashed, hdirs]
      exact h.left
  obtain ⟨-, -, rfl⟩ := setReplicaUnresponsive_ok_iff.mp hok
  cases unresponsive <;> exact hsame _ rfl rfl rfl rfl rfl rfl

end Crash

section Round

variable [Bincode LogEntry] [Crc32] [App σ]

/-- A round that opens with a proposal ends with its view change. -/
theorem OffDuty.proposed (h : OffDuty allKeys sim) (hn : allKeys.length % 3 = 1) {now : Nat}
    {how : Hash → ProposeCall} {sim' : Simulation σ} {leaderId : Nat} {block : Block}
    (hopen : Opens now how sim (.proposed sim' leaderId block)) (always : Bool) :
    OffDuty allKeys (Simulation.advanceViews now .commit true
      (commitPhase now (certifyPhases now leaderId always block sim').1)) := by
  have hrule := manned_rule (σ := σ) hn
  have hstart : Manned allKeys sim' ∧ sim'.network.messageQueue = [] ∧
      sim'.available leaderId = true ∧ ∃ leader, sim'.replicas[leaderId]? = some leader := by
    cases hopen with
    | proposed hr ha _ =>
      exact ⟨hrule.respond _ sim.currentLeader (hrule.led h.toManned now how hr ha), h.quiet, ha,
        _, List.getElem?_set_self (List.getElem?_eq_some_iff.mp hr).1⟩
  obtain ⟨hmanned, hquiet, ha, leader, hleader⟩ := hstart
  obtain ⟨-, hquiet', -⟩ := certifyPhases_visits now always block hquiet
    (hmanned.network.trans hmanned.count.symm) hleader ha
  refine Manned.advanceViews (hrule.commitPhase (hrule.certifyPhases hmanned ..) now) hn ?_ ..
  rw [commitPhase_network]
  exact hquiet'

/-- A round whose leader does not propose ends with its view change. -/
theorem OffDuty.silent (h : OffDuty allKeys sim) (hn : allKeys.length % 3 = 1) {now : Nat}
    {how : Hash → ProposeCall} {sim' : Simulation σ} (hopen : Opens now how sim (.silent sim'))
    (reason : ViewChangeReason) (responds : Bool) :
    OffDuty allKeys (Simulation.advanceViews now reason responds sim') := by
  cases hopen with
  | silent hr ha _ =>
    exact Manned.advanceViews ((manned_rule hn).led h.toManned now how hr ha) hn h.quiet ..

theorem OffDuty.runOneRound (h : OffDuty allKeys sim) (hn : allKeys.length % 3 = 1) (now : Nat) :
    OffDuty allKeys (sim.runOneRound now).1 := by
  have hstart := h.roundStart now
  have hopen : Opens now .proposeWithHash (sim.roundStart now)
      (plainOpening now (sim.roundStart now)) := openRound_opens ..
  simp only [Simulation.runOneRound]
  cases ho : plainOpening now (sim.roundStart now) with
  | finished => exact hstart
  | leaderless =>
    exact (hstart.toManned.advanceViews hn hstart.quiet now _ _).bumpStep.processTimeoutCrashes now
  | silent sim' =>
    rw [ho] at hopen
    exact (hstart.silent hn hopen _ _).bumpStep.processTimeoutCrashes now
  | proposed sim' leaderId block =>
    rw [ho] at hopen
    have hend := hstart.proposed hn hopen false
    dsimp only
    generalize certifyPhases now leaderId false block sim' = certified at hend ⊢
    exact hend.bumpStep.processTimeoutCrashes now

theorem OffDuty.runOneRoundWithPacemaker (h : OffDuty allKeys sim) (hn : allKeys.length % 3 = 1)
    (now : Nat) : OffDuty allKeys (sim.runOneRoundWithPacemaker now).1 := by
  have hstart := h.roundStart now
  have hopen : Opens now .proposeNextWithHash (sim.roundStart now)
      (pacemakerOpening now (sim.roundStart now)) := openRound_opens ..
  simp only [Simulation.runOneRoundWithPacemaker]
  cases ho : pacemakerOpening now (sim.roundStart now) with
  | finished => exact hstart
  | leaderless => exact (hstart.toManned.advanceViews hn hstart.quiet now _ _).bumpStep
  | silent sim' =>
    rw [ho] at hopen
    exact (hstart.silent hn hopen _ _).bumpStep
  | proposed sim' leaderId block =>
    rw [ho] at hopen
    have hend := hstart.proposed hn hopen true
    dsimp only
    generalize certifyPhases now leaderId true block sim' = certified at hend ⊢
    exact hend.bumpStep

end Round

section Recovery

variable [Bincode LogEntry] [Crc32]

omit [Ed25519] in
/-- What a replica opened from its directory gets from its caller. -/
theorem openReplica_fields {now id : Nat} {config : Config} {keystore : KeyStore} {dir : DataDir}
    {r : Replica σ} (hok : openReplica now id config keystore dir = .ok r) :
    r.config = config ∧ r.keystore = keystore ∧ r.votePool = OrdMap.empty := by
  obtain ⟨disk, wal, log, hrec, -, rfl⟩ := Node.openReplica_ok_iff.mp hok
  obtain ⟨base, st, -, -, rfl⟩ := recover_ok_iff.mp hrec
  exact ⟨rfl, rfl, rfl⟩

omit [Ed25519] in
/-- Rejoining changes neither configuration nor keys, and leaves no vote pending. -/
theorem rejoin_fields [App σ] (now : Nat) (others : List (Replica σ)) {r : Replica σ}
    (hpool : r.votePool = OrdMap.empty) (dir : DataDir) :
    (rejoin now others r dir).1.config = r.config ∧
      (rejoin now others r dir).1.keystore = r.keystore ∧
      (rejoin now others r dir).1.votePool = OrdMap.empty := by
  have hsynced : (synced now others r).config = r.config ∧
      (synced now others r).keystore = r.keystore ∧
      (synced now others r).votePool = OrdMap.empty := by
    refine synced_preserves (I := fun s : Replica σ => s.config = r.config ∧
      s.keystore = r.keystore ∧ s.votePool = OrdMap.empty) (fun s h => ⟨h.1, h.2.1, rfl⟩)
      ⟨rfl, rfl, hpool⟩ fun donor _ => ?_
    rw [syncFrom_eq]
    exact ⟨rfl, rfl, hpool⟩
  rw [rejoin_eq, takeSnapshot_replica]
  exact hsynced

variable [LawfulBincode Snapshot]

omit [Ed25519] in
/-- A replica opened from a directory left for it is on the roster again. -/
theorem openReplica_roster {n now id : Nat} {config : Config} {keystore : KeyStore}
    {dir : DataDir} (hleft : LeftBy σ n dir) (hsize : config.n = n) {r : Replica σ}
    (hok : openReplica now id config keystore dir = .ok r) :
    Node.Roster n keystore.publicKeys ⟨r, dir⟩ := by
  obtain ⟨keys, node, hnode, rfl⟩ := hleft
  exact (hnode.rekey keystore).openReplica hsize rfl hok

variable [App σ]

/-- A recovered replica is back in its place. -/
theorem OffDuty.recover (h : OffDuty allKeys sim) {now i : Nat} {sim' : Simulation σ}
    (hok : sim.recoverReplica now i = .ok sim') : OffDuty allKeys sim' := by
  obtain ⟨replica, keystore, dir, recovered, -, hr, hks, hi, hdir, hopened, rfl⟩ :=
    recoverReplica_ok_iff.mp hok
  have hplaced := h.placed i replica hr
  obtain ⟨dir', hdir', keys, node, hnode, hleft⟩ := h.left i hi
  rw [hdir, Option.some.injEq] at hdir'
  subst hdir'
  subst hleft
  have hroster := (hnode.rekey keystore).rejoin hplaced.size rfl hopened (sim.liveOthers i)
  obtain ⟨hconfig, hkeystore, hpool⟩ := openReplica_fields hopened
  obtain ⟨hconfig', hkeystore', hpool'⟩ := rejoin_fields now (sim.liveOthers i) hpool
    (node.replica.onDisk node.dir)
  rw [hconfig] at hconfig'
  rw [hkeystore] at hkeystore'
  rw [h.keystores] at hks
  refine h.reseat (List.getElem?_eq_some_iff.mp hr).1
    ⟨⟨hconfig' ▸ hplaced.size, hconfig' ▸ hplaced.id, hroster.validators,
      hkeystore'.symm ▸ hks⟩, hpool'⟩ rfl rfl rfl rfl
    (fun j hj => List.getElem?_set_ne (Ne.symm hj)) (fun j hj => ?_)
    (fun _ => ⟨_, ?_, _, hroster⟩) (fun hin => absurd rfl (Finset.ne_of_mem_erase hin))
  · exact ⟨Finset.mem_of_mem_erase, Finset.mem_erase_of_ne_of_mem hj⟩
  · exact List.getElem?_set_self (List.getElem?_eq_some_iff.mp hdir).1

end Recovery

section Start

variable [Bincode LogEntry] [Crc32]

/-- A new simulation of generated keys, without persistence or over directories that replicas of as
many have left. -/
def Starts (allKeys : List (ReplicaId × Bytes)) (sim : Simulation σ) : Prop :=
  (∃ now f maxSteps, sim = Simulation.new now f maxSteps allKeys) ∨
    ∃ now f maxSteps dirs, dirs.length = allKeys.length ∧
      (∀ dir ∈ dirs, LeftBy σ allKeys.length dir) ∧
      Simulation.newWithPersistence now f maxSteps allKeys dirs = .ok sim

omit [Sha256] [Bincode Snapshot] [Bincode LogEntry] [Crc32] in
/-- The replicas of a new simulation. -/
theorem onDuty_new (now f maxSteps : Nat) {i : Nat} {r : Replica σ}
    (hr : (Simulation.new (σ := σ) now f maxSteps allKeys).replicas[i]? = some r) :
    r.OnDuty allKeys i := by
  simp only [Simulation.new, start, List.getElem?_mapIdx, Option.map_eq_some_iff] at hr
  obtain ⟨ks, hks, rfl⟩ := hr
  exact onDuty_freshReplica now rfl rfl hks

/-- A new simulation is off duty. -/
theorem Starts.offDuty [LawfulBincode Snapshot] (h : Starts allKeys sim) :
    OffDuty allKeys sim := by
  have hlen : (KeyStore.distributeKeys allKeys).length = allKeys.length :=
    KeyStore.length_distributeKeys
  rcases h with ⟨now, f, maxSteps, rfl⟩ | ⟨now, f, maxSteps, dirs, hdirs, hleft, hnew⟩
  · have hall := fun (i : Nat) (r : Replica σ)
        (hr : (Simulation.new (σ := σ) now f maxSteps allKeys).replicas[i]? = some r) =>
      onDuty_new now f maxSteps hr
    exact ⟨⟨(List.length_mapIdx ..).trans hlen, rfl, rfl,
      fun i hi => absurd hi (Finset.notMem_empty i), fun i r hr => (hall i r hr).toPlaced,
      fun i r hr _ => (hall i r hr).pool, fun hp => (by cases hp),
      fun i hi => absurd hi (Finset.notMem_empty i)⟩, rfl, fun i r hr => (hall i r hr).pool⟩
  · obtain ⟨replicas, rfl, hcount, hslots⟩ := newWithPersistence_slots hnew
    -- each slot was opened over the directory left for it
    have hslot : ∀ (i : Nat) r, replicas[i]? = some r → r.OnDuty allKeys i ∧
        ∃ dir, dirs[i]? = some dir ∧ ∃ keys, Node.Roster allKeys.length keys ⟨r, dir⟩ := by
      intro i r hr
      obtain ⟨ks, dir, hks, hdir, hok⟩ := hslots i r hr
      obtain ⟨hconfig, hkeystore, hpool⟩ := openReplica_fields hok
      have hroster := openReplica_roster (hleft dir (List.mem_of_getElem? hdir)) rfl hok
      exact ⟨⟨⟨congrArg Config.n hconfig, congrArg Config.id hconfig, hroster.validators,
        hkeystore.symm ▸ hks⟩, hpool⟩, dir, hdir, _, hroster⟩
    rw [hlen, hdirs, Nat.min_self] at hcount
    exact ⟨⟨hcount, rfl, rfl, fun i hi => absurd hi (Finset.notMem_empty i),
      fun i r hr => (hslot i r hr).1.toPlaced, fun i r hr _ => (hslot i r hr).1.pool,
      fun _ i r hr _ => (hslot i r hr).2, fun i hi => absurd hi (Finset.notMem_empty i)⟩, rfl,
      fun i r hr => (hslot i r hr).1.pool⟩

/-- Simulations over empty directories are among them. -/
theorem Starts.of_start {t : Trace σ} (h : t.Start) : ∃ allKeys, Starts allKeys t.sim := by
  rcases h.2 with ⟨now, f, maxSteps, allKeys, hnew⟩ | ⟨now, f, maxSteps, allKeys, hnew⟩
  · exact ⟨allKeys, Or.inl ⟨now, f, maxSteps, hnew⟩⟩
  · refine ⟨allKeys, Or.inr ⟨now, f, maxSteps, _, List.length_replicate, fun dir hdir => ?_, hnew⟩⟩
    rw [List.eq_of_mem_replicate hdir]
    exact leftBy_empty _

end Start

section Run

variable [Bincode LogEntry] [Crc32] [App σ] [LawfulBincode Snapshot]

omit [LawfulBincode Snapshot] in
/-- Calls that count no vote change no place. -/
theorem OffDuty.configure (h : OffDuty allKeys sim) (hn : allKeys.length % 3 = 1)
    {replicas : List (Replica σ)} (hlen : replicas.length = sim.replicas.length)
    (hreplicas : ∀ (i : Nat) r', replicas[i]? = some r' → ∃ r, sim.replicas[i]? = some r ∧
      (r' = r ∨ ∃ c, r' = r.step c ∧ (r.step c).votePool = r.votePool)) :
    OffDuty allKeys { sim with replicas := replicas } := by
  have hall : ∀ (i : Nat) r', replicas[i]? = some r' → r'.OnDuty allKeys i := by
    intro i r' hr'
    obtain ⟨r, hr, rfl | ⟨c, rfl, hpool⟩⟩ := hreplicas i r' hr'
    · exact ⟨h.placed i _ hr, h.pools i _ hr⟩
    · have hplaced := h.placed i r hr
      have hmod : r.activeValidators.length % 3 = 1 := by
        rw [hplaced.validators, length_defaultValidators, hn]
      exact ⟨hplaced.congr (Replica.step_membership_of_mod hmod c) (r.step_identity c),
        hpool.trans (h.pools i r hr)⟩
  refine ⟨⟨hlen.trans h.count, h.network, h.keystores, h.crashed,
    fun i r hr => (hall i r hr).toPlaced, fun i r hr _ => (hall i r hr).pool,
    fun hp i r' hr' hi => ?_, h.left⟩, h.quiet, fun i r hr => (hall i r hr).pool⟩
  obtain ⟨r, hr, hstep⟩ := hreplicas i r' hr'
  obtain ⟨dir, hdir, keys, hroster⟩ := h.roster hp i r hr hi
  refine ⟨dir, hdir, keys, ?_⟩
  rcases hstep with rfl | ⟨c, rfl, -⟩
  · exact hroster
  · exact hroster.call hn c

/-- Every operation keeps the replicas in their places. -/
theorem OffDuty.step {t : Trace σ} (h : OffDuty allKeys t.sim) (hn : allKeys.length % 3 = 1)
    (op : Nat × SimulationOp) : OffDuty allKeys (t.step op).sim := by
  obtain ⟨now, op⟩ := op
  have hdoes := t.step_does now op
  generalize (t.step (now, op)).sim = sim' at hdoes ⊢
  cases hdoes with
  | runOneRound => exact h.runOneRound hn now
  | runOneRoundWithPacemaker => exact h.runOneRoundWithPacemaker hn now
  | configured hsetting hlen hreplicas =>
    refine h.configure hn hlen fun i r' hr' => ?_
    obtain ⟨r, hr, heq⟩ := hreplicas i r' hr'
    exact ⟨r, hr, heq.imp_right fun hcall =>
      ⟨_, hcall, (SimulationOp.setting_quiet hsetting now r).2.2.2⟩⟩
  | interrupted hset => exact h.setReplicaUnresponsive hset
  | crashed hcrash => exact h.crash hcrash
  | recovered hrecover => exact h.recover hrecover
  | refused _ => exact h

/-- In every state that a new simulation of `3f + 1` replicas reaches, they are in their places. -/
theorem Starts.offDuty_run {t : Trace σ} (h : Starts allKeys t.sim) (hn : allKeys.length % 3 = 1)
    (ops : List (Nat × SimulationOp)) : OffDuty allKeys (run Trace.step t ops).sim :=
  run_preserves (I := fun t : Trace σ => OffDuty allKeys t.sim) (fun _ op h => h.step hn op)
    h.offDuty ops

end Run

end Simulation

end PersistHotStuff
