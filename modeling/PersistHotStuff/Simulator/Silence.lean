import PersistHotStuff.Simulator.Detection

/-!
# How long a replica can be silent

A replica that does not respond takes no part in a round: nothing is heard of it,
and its time runs on. Whatever the others do, it is crashed by the first round
that finds its timeout up, and by none before.
-/

namespace PersistHotStuff

open Basis

namespace Simulation

section Aside

variable {σ : Type} {id : Nat} {before sim : Simulation σ}

/-- What a round leaves alone of a replica that does not take part. -/
structure Aside (id : Nat) (before sim : Simulation σ) : Prop where
  replica : sim.replicas[id]? = before.replicas[id]?
  response : sim.lastResponseMs[id]? = before.lastResponseMs[id]?
  crashed : sim.crashedReplicas = before.crashedReplicas
  unresponsive : sim.unresponsiveReplicas = before.unresponsiveReplicas
  clock : sim.simulatedTimeMs = before.simulatedTimeMs
  pace : sim.roundTimeMs = before.roundTimeMs
  persistent : sim.persistenceEnabled = before.persistenceEnabled
  keystores : sim.replicaKeystores = before.replicaKeystores
  count : sim.replicas.length = before.replicas.length

theorem Aside.refl (id : Nat) (sim : Simulation σ) : Aside id sim sim :=
  ⟨rfl, rfl, rfl, rfl, rfl, rfl, rfl, rfl, rfl⟩

theorem Aside.available (h : Aside id before sim) (i : Nat) :
    sim.available i = before.available i := by
  rw [Simulation.available, Simulation.available, h.crashed, h.unresponsive]

/-- Whoever takes part is another one. -/
theorem Aside.ne (h : Aside id before sim) (hid : before.available id = false) {i : Nat}
    (ha : sim.available i = true) : i ≠ id := by
  rintro rfl
  rw [h.available, hid] at ha
  cases ha

theorem Aside.setReplica (h : Aside id before sim) {i : Nat} (hi : i ≠ id) (r : Replica σ) :
    Aside id before (sim.setReplica i r) :=
  { h with
    replica := (List.getElem?_set_ne hi).trans h.replica
    count := List.length_set.trans h.count }

theorem Aside.markResponded (h : Aside id before sim) {i : Nat} (hi : i ≠ id) :
    Aside id before (sim.markResponded i) :=
  { h with response := (List.getElem?_set_ne hi).trans h.response }

theorem Aside.network (h : Aside id before sim) (net : Network) :
    Aside id before { sim with network := net } :=
  { h with }

variable [Ed25519] [Sha256] [Bincode LogEntry] [Bincode Snapshot] [Crc32] [App σ]

section Phases

variable (h : Aside id before sim) (hid : before.available id = false) (now : Nat)

include h hid

omit [Bincode Snapshot] [App σ] in
theorem Aside.deliverProposal (msg : Message) : Aside id before (deliverProposal now sim msg) := by
  cases msg with
  | proposal sender receiver block =>
    simp only [Simulation.deliverProposal]
    split
    · exact h
    · cases ha : sim.available receiver with
      | false => exact h
      | true =>
        rw [if_neg (by simp)]
        have hne := h.ne hid ha
        split
        · exact h.setReplica hne _
        · exact ((h.setReplica hne _).markResponded hne).network _
  | _ => exact h

omit [Bincode Snapshot] in
theorem Aside.deliverVote {formed : Option QuorumCert} (msg : Message) :
    Aside id before (deliverVote now (sim, formed) msg).1 := by
  cases msg with
  | vote sender receiver vote =>
    rcases deliverVote_cases now (sim, formed) sender receiver vote with heq | ⟨r, -, ha, heq⟩
    · rw [heq]
      exact h
    · rw [heq]
      have hne := h.ne hid ha
      exact (h.setReplica hne _).markResponded hne
  | _ => exact h

omit [Ed25519] [Sha256] [Bincode Snapshot] [App σ] in
theorem Aside.deliverQc (always : Bool) (msg : Message) :
    Aside id before (deliverQc now always sim msg) := by
  cases msg with
  | quorumCertBroadcast sender receiver qc hash =>
    simp only [Simulation.deliverQc]
    split
    · exact h
    · cases ha : sim.available receiver with
      | false => exact h
      | true =>
        rw [if_neg (by simp)]
        have hne := h.ne hid ha
        split
        · exact (h.setReplica hne _).markResponded hne
        · exact h.setReplica hne _
  | _ => exact h

omit [Bincode Snapshot] in
/-- From the proposal to the certificate. -/
theorem Aside.certifyPhases (leaderId : Nat) (always : Bool) (block : Block) :
    Aside id before (certifyPhases now leaderId always block sim).1 := by
  have hproposal : Aside id before (proposalPhase now leaderId block sim) := by
    simp only [proposalPhase, Network.drain]
    exact foldl_messages (fun s msg _ hs => hs.deliverProposal hid now msg) (h.network _)
  have hvote : Aside id before (votePhase now (proposalPhase now leaderId block sim)).1 := by
    simp only [votePhase, Network.drain]
    exact foldl_messages (J := fun acc : Simulation σ × Option QuorumCert => Aside id before acc.1)
      (fun acc msg _ hs => hs.deliverVote hid now msg) (hproposal.network _)
  have hphases : (Simulation.certifyPhases now leaderId always block sim).1 =
      qcPhase now leaderId always (votePhase now (proposalPhase now leaderId block sim)).2
        (votePhase now (proposalPhase now leaderId block sim)).1 := rfl
  rw [hphases]
  generalize votePhase now (proposalPhase now leaderId block sim) = voted at hvote
  obtain ⟨s, formed⟩ := voted
  cases formed with
  | none => exact hvote
  | some qc =>
    simp only [qcPhase, Network.drain]
    exact foldl_messages (fun s msg _ hs => hs.deliverQc hid now always msg) (hvote.network _)

theorem Aside.commitPhase : Aside id before (commitPhase now sim) := by
  refine forEachAvailable_preserves (fun s i r hs hr ha => ?_) h
  have hne := hs.ne hid ha
  have hset := fun r' : Replica σ => hs.setReplica hne r'
  simp only [commitAt]
  refine Aside.markResponded ?_ hne
  split
  · split
    · exact { hset _ with }
    · exact hset _
  · exact hset _

omit [Ed25519] [Sha256] [Bincode Snapshot] [App σ] in
theorem Aside.advanceViews (reason : ViewChangeReason) (responds : Bool) :
    Aside id before (advanceViews now reason responds sim) := by
  refine forEachAvailable_preserves (fun s i r hs hr ha => ?_) h
  have hne := hs.ne hid ha
  cases responds with
  | false => exact hs.setReplica hne _
  | true => exact (hs.setReplica hne _).markResponded hne

end Phases

/-- A round, up to its last view change. -/
theorem Aside.simAfter (hid : sim.available id = false) {now : Nat} {how : Hash → ProposeCall}
    {opening : Opening σ} (hopen : Opens now how sim opening) (always : Bool) :
    Aside id sim (sim.simAfter now always opening) := by
  have hself := Aside.refl id sim
  have hled : ∀ leader : Replica σ, sim.available sim.currentLeader = true →
      Aside id sim (sim.led now how leader) :=
    fun leader ha => (hself.network _).setReplica (hself.ne hid ha) _
  cases hopen with
  | finished => exact hself
  | leaderless => exact hself
  | silent _ ha _ => exact hled _ ha
  | @proposed leader block _ ha _ =>
    have hmarked := (hled leader ha).markResponded (hself.ne hid ha)
    exact ((hmarked.certifyPhases hid now _ always _).commitPhase hid now).advanceViews hid now _ _

end Aside

section Silence

variable {σ : Type} {id timeout since : Nat} {sim sim' : Simulation σ}

/-- A sweep changes neither the times nor the configuration. -/
structure Timed (sim sim' : Simulation σ) : Prop where
  response : sim'.lastResponseMs = sim.lastResponseMs
  clock : sim'.simulatedTimeMs = sim.simulatedTimeMs
  pace : sim'.roundTimeMs = sim.roundTimeMs

theorem processTimeoutCrashes_timed (sim : Simulation σ) (now : Nat) :
    Timed sim (sim.processTimeoutCrashes now) := by
  refine processTimeoutCrashes_preserves (I := Timed sim) (fun s i s' hs hok => ?_) ⟨rfl, rfl, rfl⟩
  obtain ⟨r, keystore, -, -, -, -, rfl⟩ := crashReplica_ok_iff.mp hok
  exact ⟨hs.response, hs.clock, hs.pace⟩

/-- An unresponsive replica of which nothing has been heard since a time. -/
structure SilentSince (id timeout since : Nat) (sim : Simulation σ) : Prop where
  unresponsive : id ∈ sim.unresponsiveReplicas
  live : id ∉ sim.crashedReplicas
  seat : ∃ r, sim.replicas[id]? = some r ∧ r.timeoutMs = timeout
  heard : (sim.lastResponseMs[id]?).getD 0 = since
  past : since ≤ sim.simulatedTimeMs
  persistent : sim.persistenceEnabled = true
  keystores : sim.replicas.length ≤ sim.replicaKeystores.length

/-- Nothing has been heard of the replica since a time, and if it is crashed, its timeout is up. -/
def Missing (id timeout since : Nat) (sim : Simulation σ) : Prop :=
  id ∈ sim.crashedReplicas ∧ since + timeout ≤ sim.simulatedTimeMs ∨
    SilentSince id timeout since sim

/-- A silent replica times out when its timeout is up. -/
theorem SilentSince.mem_timedOut (h : SilentSince id timeout since sim) :
    id ∈ sim.timedOut ↔ since + timeout ≤ sim.simulatedTimeMs := by
  obtain ⟨r, hr, rfl⟩ := h.seat
  have hlt := (List.getElem?_eq_some_iff.mp hr).1
  have hpast := h.past
  rw [timedOut, if_pos h.persistent, List.mem_toFinset, List.mem_filter, List.mem_range, hr]
  simp only [hlt, h.live, h.unresponsive, h.heard, not_false_eq_true, decide_true, Bool.true_and,
    true_and, decide_eq_true_eq]
  omega

theorem Missing.available (h : Missing id timeout since sim) : sim.available id = false := by
  rw [← Bool.not_eq_true, available_iff]
  rcases h with hcrashed | hsilent
  · exact fun ha => ha.1 hcrashed.1
  · exact fun ha => ha.2 hsilent.unresponsive

/-- What the others do is not heard of it. -/
theorem Aside.missing {before : Simulation σ} (h : Aside id before sim)
    (hmissing : Missing id timeout since before) : Missing id timeout since sim := by
  refine hmissing.imp (fun hcrashed => ?_) fun hsilent => ?_
  · rw [h.crashed, h.clock]
    exact hcrashed
  · refine ⟨h.unresponsive ▸ hsilent.unresponsive, h.crashed ▸ hsilent.live,
      h.replica ▸ hsilent.seat, h.response ▸ hsilent.heard, h.clock ▸ hsilent.past,
      h.persistent.trans hsilent.persistent, ?_⟩
    rw [h.count, h.keystores]
    exact hsilent.keystores

/-- A sweep crashes it if and only if its timeout is up. -/
theorem Missing.sweep (h : Missing id timeout since sim) (now : Nat) :
    Missing id timeout since (sim.processTimeoutCrashes now) ∧
      (id ∈ (sim.processTimeoutCrashes now).crashedReplicas ↔
        since + timeout ≤ (sim.processTimeoutCrashes now).simulatedTimeMs) := by
  have htimed := processTimeoutCrashes_timed sim now
  rw [htimed.clock]
  rcases h with ⟨hcrashed, hdue⟩ | hsilent
  · have hstays : id ∈ (sim.processTimeoutCrashes now).crashedReplicas :=
      processTimeoutCrashes_preserves (I := fun s : Simulation σ => id ∈ s.crashedReplicas)
        (fun s i s' hs hok => by
          obtain ⟨r, keystore, -, -, -, -, rfl⟩ := crashReplica_ok_iff.mp hok
          exact Finset.mem_insert_of_mem hs) hcrashed
    exact ⟨.inl ⟨hstays, htimed.clock ▸ hdue⟩, iff_of_true hstays hdue⟩
  · have hswept := processTimeoutCrashes_swept hsilent.keystores now
    have hcrashed : id ∈ (sim.processTimeoutCrashes now).crashedReplicas ↔
        since + timeout ≤ sim.simulatedTimeMs := by
      rw [hswept.crashed, Finset.mem_union, hsilent.mem_timedOut]
      exact or_iff_right hsilent.live
    refine ⟨?_, hcrashed⟩
    by_cases hdue : since + timeout ≤ sim.simulatedTimeMs
    · exact .inl ⟨hcrashed.mpr hdue, htimed.clock ▸ hdue⟩
    · have hnot : id ∉ sim.timedOut := fun hin => hdue (hsilent.mem_timedOut.mp hin)
      refine .inr ⟨?_, fun hin => hdue (hcrashed.mp hin), (hswept.others id hnot) ▸ hsilent.seat,
        htimed.response ▸ hsilent.heard, htimed.clock ▸ hsilent.past,
        hswept.persistent.trans hsilent.persistent, ?_⟩
      · rw [hswept.unresponsive, Finset.mem_sdiff]
        exact ⟨hsilent.unresponsive, hnot⟩
      · rw [hswept.count, hswept.keystores]
        exact hsilent.keystores

/-- Time runs on. -/
theorem Missing.advanceSimulatedTime (h : Missing id timeout since sim)
    (hrange : sim.simulatedTimeMs ≤ 2 ^ 128 - 1) :
    Missing id timeout since sim.advanceSimulatedTime := by
  have hle : sim.simulatedTimeMs ≤ sim.advanceSimulatedTime.simulatedTimeMs :=
    le_min (Nat.le_add_right _ _) hrange
  refine h.imp (fun hcrashed => ⟨hcrashed.1, hcrashed.2.trans hle⟩) fun hsilent => ?_
  exact ⟨hsilent.unresponsive, hsilent.live, hsilent.seat, hsilent.heard, hsilent.past.trans hle,
    hsilent.persistent, hsilent.keystores⟩

/-- A crash of another replica. -/
theorem Missing.crash (h : Missing id timeout since sim) {now i : Nat} (hne : i ≠ id)
    (hok : sim.crashReplica now i = .ok sim') : Missing id timeout since sim' := by
  obtain ⟨r, keystore, -, -, -, -, rfl⟩ := crashReplica_ok_iff.mp hok
  refine h.imp (fun hcrashed => ⟨Finset.mem_insert_of_mem hcrashed.1, hcrashed.2⟩) fun hsilent => ?_
  refine ⟨Finset.mem_erase.mpr ⟨hne.symm, hsilent.unresponsive⟩, fun hin => ?_,
    (List.getElem?_set_ne hne).symm ▸ hsilent.seat, hsilent.heard, hsilent.past,
    hsilent.persistent, ?_⟩
  · exact hsilent.live ((Finset.mem_insert.mp hin).resolve_left hne.symm)
  · rw [List.length_set]
    exact hsilent.keystores

/-- An interruption of any replica, or the end of one of another replica. -/
theorem Missing.interrupt (h : Missing id timeout since sim) {i : Nat} {unresponsive : Bool}
    (hspares : i = id → unresponsive = true)
    (hok : sim.setReplicaUnresponsive i unresponsive = .ok sim') :
    Missing id timeout since sim' := by
  obtain ⟨-, -, rfl⟩ := setReplicaUnresponsive_ok_iff.mp hok
  cases unresponsive with
  | true =>
    exact h.imp_right fun hsilent =>
      { hsilent with unresponsive := Finset.mem_insert_of_mem hsilent.unresponsive }
  | false =>
    have hne : i ≠ id := fun he => Bool.false_ne_true (hspares he)
    refine h.imp_right fun hsilent => { hsilent with
      unresponsive := Finset.mem_erase.mpr ⟨hne.symm, hsilent.unresponsive⟩
      heard := ?_ }
    show ((sim.lastResponseMs.set i sim.simulatedTimeMs)[id]?).getD 0 = since
    rw [List.getElem?_set_ne hne]
    exact hsilent.heard

/-- The replicas change their settings. -/
theorem Missing.configure (h : Missing id timeout since sim) {replicas : List (Replica σ)}
    (hlen : replicas.length = sim.replicas.length)
    (hreplicas : (replicas[id]?).map Replica.timeoutMs =
      (sim.replicas[id]?).map Replica.timeoutMs) :
    Missing id timeout since { sim with replicas := replicas } := by
  refine h.imp_right fun hsilent => { hsilent with
    seat := ?_
    keystores := hlen.trans_le hsilent.keystores }
  obtain ⟨r, hr, htimeout⟩ := hsilent.seat
  rw [hr, Option.map_some, htimeout] at hreplicas
  exact Option.map_eq_some_iff.mp hreplicas

variable [Ed25519] [Sha256] [Bincode LogEntry] [Bincode Snapshot] [Crc32] [App σ]

omit [Ed25519] in
/-- A recovery of another replica. -/
theorem Missing.recover (h : Missing id timeout since sim) {now i : Nat} (hne : i ≠ id)
    (hok : sim.recoverReplica now i = .ok sim') : Missing id timeout since sim' := by
  obtain ⟨r, keystore, dir, opened, -, -, -, -, -, -, rfl⟩ := recoverReplica_ok_iff.mp hok
  refine h.imp (fun hcrashed => ⟨Finset.mem_erase.mpr ⟨hne.symm, hcrashed.1⟩, hcrashed.2⟩)
    fun hsilent => ?_
  refine ⟨Finset.mem_erase.mpr ⟨hne.symm, hsilent.unresponsive⟩,
    fun hin => hsilent.live (Finset.mem_of_mem_erase hin), ?_, ?_, hsilent.past,
    hsilent.persistent, ?_⟩
  · exact (List.getElem?_set_ne hne).symm ▸ hsilent.seat
  · show ((sim.lastResponseMs.set i sim.simulatedTimeMs)[id]?).getD 0 = since
    rw [List.getElem?_set_ne hne]
    exact hsilent.heard
  · show (sim.replicas.set i _).length ≤ _
    rw [List.length_set]
    exact hsilent.keystores

/-- Whether a missing replica is crashed is settled from the sweep at the start of a round on. -/
theorem Missing.round (h : Missing id timeout since sim)
    (hrange : sim.simulatedTimeMs ≤ 2 ^ 128 - 1) (now : Nat) :
    (Missing id timeout since (sim.runOneRound now).1 ∧
      (id ∈ (sim.runOneRound now).1.crashedReplicas ↔
        since + timeout ≤ (sim.runOneRound now).1.simulatedTimeMs)) ∧
    Missing id timeout since (sim.runOneRoundWithPacemaker now).1 ∧
      (id ∈ (sim.runOneRoundWithPacemaker now).1.crashedReplicas ↔
        since + timeout ≤ (sim.runOneRoundWithPacemaker now).1.simulatedTimeMs) := by
  have hstart := (h.advanceSimulatedTime hrange).sweep now
  have hid : (sim.roundStart now).available id = false := hstart.1.available
  let I := fun s : Simulation σ => Missing id timeout since s ∧
    (id ∈ s.crashedReplicas ↔ since + timeout ≤ s.simulatedTimeMs)
  -- what holds from the sweep at the start to the end of the round
  have haside : ∀ s : Simulation σ, Aside id (sim.roundStart now) s → I s := by
    intro s hs
    refine ⟨hs.missing hstart.1, ?_⟩
    rw [hs.crashed, hs.clock]
    exact hstart.2
  have hadvance : ∀ s reason responds, Aside id (sim.roundStart now) s →
      Aside id (sim.roundStart now) (Simulation.advanceViews now reason responds s) :=
    fun s reason responds hs => hs.advanceViews hid now reason responds
  have hbump : ∀ s : Simulation σ, Missing id timeout since s →
      Missing id timeout since s.bumpStep :=
    fun s hs => hs.imp_right fun hsilent => { hsilent with }
  constructor
  · exact runOneRound_closes (J := I) hadvance (fun s hs => (hbump s (haside s hs).1).sweep now) sim
      (fun _ => hstart) fun _ => Aside.simAfter hid (openRound_opens now .proposeWithHash _) false
  · exact runOneRoundWithPacemaker_closes (J := I) hadvance
      (fun s hs => ⟨hbump s (haside s hs).1, (haside s hs).2⟩) sim (fun _ => hstart)
      fun _ => Aside.simAfter hid (openRound_opens now .proposeNextWithHash _) true

end Silence

section Times

variable {σ : Type}

/-- Nothing has been heard later than now, and who is unresponsive is not crashed. -/
structure WellTimed (sim : Simulation σ) : Prop where
  keystores : sim.replicas.length ≤ sim.replicaKeystores.length
  range : sim.simulatedTimeMs ≤ 2 ^ 128 - 1
  past : ∀ i : Nat, (sim.lastResponseMs[i]?).getD 0 ≤ sim.simulatedTimeMs
  live : ∀ i ∈ sim.unresponsiveReplicas, i ∉ sim.crashedReplicas

theorem WellTimed.setReplicas {sim : Simulation σ} (h : WellTimed sim) {replicas : List (Replica σ)}
    (hlen : replicas.length = sim.replicas.length) :
    WellTimed { sim with replicas := replicas } :=
  { h with keystores := hlen.trans_le h.keystores }

theorem WellTimed.markResponded {sim : Simulation σ} (h : WellTimed sim) (i : Nat) :
    WellTimed (sim.markResponded i) := by
  refine { h with past := fun j => ?_ }
  rcases getElem?_markResponded sim i j with hsame | hnow
  · rw [hsame]
    exact h.past j
  · rw [hnow]
    exact le_rfl

theorem wellTimed_start {n maxSteps : Nat} {persistenceEnabled : Bool}
    {replicas : List (Replica σ)} {dirs : List DataDir} {keystores : List KeyStore}
    (hlen : replicas.length ≤ keystores.length) :
    WellTimed (start n maxSteps persistenceEnabled replicas dirs keystores) := by
  refine ⟨hlen, Nat.zero_le _, fun i => ?_, fun i hi => absurd hi (Finset.notMem_empty i)⟩
  rw [Simulation.start, List.getElem?_replicate]
  split <;> exact le_rfl

variable [Ed25519] [Sha256] [Bincode LogEntry] [Bincode Snapshot] [Crc32] [App σ]

theorem wellTimed_rule : TraceRule (WellTimed (σ := σ)) where
  call sim i r c h _ _ := h.setReplicas (List.length_set ..)
  snapshot sim i r dir now h _ _ _ := { h.setReplicas (List.length_set ..) with }
  respond sim i h := h.markResponded i
  network sim net h _ := { h with }
  clock sim h := { h with
    range := min_le_right _ _
    past := fun i => (h.past i).trans (le_min (Nat.le_add_right _ _) h.range) }
  bump sim h := { h with }
  crash now sim i sim' h hok := by
    obtain ⟨r, keystore, -, -, -, -, rfl⟩ := crashReplica_ok_iff.mp hok
    refine { h.setReplicas (List.length_set ..) with live := fun j hj hin => ?_ }
    obtain ⟨hne, hj⟩ := Finset.mem_erase.mp hj
    exact h.live j hj ((Finset.mem_insert.mp hin).resolve_left hne)
  recover now sim i sim' h hok := by
    obtain ⟨r, keystore, dir, opened, -, -, -, -, -, -, rfl⟩ := recoverReplica_ok_iff.mp hok
    refine { (h.setReplicas (List.length_set ..)).markResponded i with live := fun j hj hin => ?_ }
    exact h.live j (Finset.mem_of_mem_erase hj) (Finset.mem_of_mem_erase hin)
  interrupt sim i unresponsive sim' h hok := by
    obtain ⟨-, hlive, rfl⟩ := setReplicaUnresponsive_ok_iff.mp hok
    cases unresponsive with
    | true =>
      refine { h with live := fun j hj => ?_ }
      rcases Finset.mem_insert.mp hj with rfl | hj
      · exact hlive
      · exact h.live j hj
    | false =>
      exact { h.markResponded i with
        live := fun j hj => h.live j (Finset.mem_of_mem_erase hj) }
  configure now sim call replicas h hlen _ := h.setReplicas hlen

/-- Whatever arises is well timed. -/
theorem Arises.wellTimed {sim : Simulation σ} (h : Arises sim) : WellTimed sim := by
  induction h with
  | new now f maxSteps allKeys => exact wellTimed_start (List.length_mapIdx ..).le
  | restart _ hrestarts _ =>
    obtain ⟨now, f, maxSteps, allKeys, dirs, -, -, hok⟩ := hrestarts
    obtain ⟨replicas, rfl, hlen, -⟩ := newWithPersistence_slots hok
    exact wellTimed_start (hlen.trans_le (min_le_left _ _))
  | step op _ ih => exact wellTimed_rule.step ih op

/-- The steps of a round take no time. -/
theorem times_rule (before : Simulation σ) : TurnRule fun sim : Simulation σ =>
    sim.simulatedTimeMs = before.simulatedTimeMs ∧ sim.roundTimeMs = before.roundTimeMs where
  call _ _ _ _ h _ _ := h
  snapshot _ _ _ _ _ h _ _ _ := h
  respond _ _ h := h
  network _ _ h _ := h
  bump _ h := h
  sweep now sim h :=
    ⟨(processTimeoutCrashes_timed sim now).clock.trans h.1,
      (processTimeoutCrashes_timed sim now).pace.trans h.2⟩

end Times

end Simulation

/-- Whether an operation neither crashes a replica nor ends its silence. -/
def SimulationOp.Spares (id : Nat) : SimulationOp → Prop
  | setReplicaUnresponsive i unresponsive => i = id → unresponsive = true
  | crashReplica i => i ≠ id
  | recoverReplica i => i ≠ id
  | _ => True

instance (id : Nat) : DecidablePred (SimulationOp.Spares id) := fun op =>
  match op with
  | .setReplicaUnresponsive i unresponsive =>
      inferInstanceAs (Decidable (i = id → unresponsive = true))
  | .crashReplica i => inferInstanceAs (Decidable (i ≠ id))
  | .recoverReplica i => inferInstanceAs (Decidable (i ≠ id))
  | .runOneRound => .isTrue trivial
  | .runOneRoundWithPacemaker => .isTrue trivial
  | .enqueueClientCommand _ => .isTrue trivial
  | .enableDummyProposals _ => .isTrue trivial
  | .disableDummyProposals => .isTrue trivial

namespace Trace

variable {σ : Type} [Ed25519] [Sha256] [Bincode LogEntry] [Bincode Snapshot] [Crc32] [App σ]
  {t : Trace σ} {id timeout since : Nat}

open Simulation

/-- Rounds take their time, and nothing else takes any. -/
theorem step_times (t : Trace σ) (op : Nat × SimulationOp) :
    (t.step op).sim.roundTimeMs = t.sim.roundTimeMs ∧ (t.step op).sim.simulatedTimeMs =
      if op.2.isRound then min (t.sim.simulatedTimeMs + t.sim.roundTimeMs) (2 ^ 128 - 1)
      else t.sim.simulatedTimeMs := by
  obtain ⟨now, op⟩ := op
  have hdoes := t.step_does now op
  generalize (t.step (now, op)).sim = sim' at hdoes ⊢
  have hself := (⟨rfl, rfl⟩ : t.sim.advanceSimulatedTime.simulatedTimeMs =
    t.sim.advanceSimulatedTime.simulatedTimeMs ∧ t.sim.advanceSimulatedTime.roundTimeMs =
      t.sim.advanceSimulatedTime.roundTimeMs)
  cases hdoes with
  | runOneRound => exact ((times_rule t.sim.advanceSimulatedTime).runOneRound hself now).symm
  | runOneRoundWithPacemaker =>
    exact ((times_rule t.sim.advanceSimulatedTime).runOneRoundWithPacemaker hself now).symm
  | configured hsetting _ _ =>
    rw [SimulationOp.isRound_of_setting hsetting]
    exact ⟨rfl, rfl⟩
  | @interrupted _ unresponsive _ hok =>
    obtain ⟨-, -, rfl⟩ := setReplicaUnresponsive_ok_iff.mp hok
    cases unresponsive <;> exact ⟨rfl, rfl⟩
  | crashed hok =>
    obtain ⟨r, keystore, -, -, -, -, rfl⟩ := crashReplica_ok_iff.mp hok
    exact ⟨rfl, rfl⟩
  | recovered hok =>
    obtain ⟨r, keystore, dir, opened, -, -, -, -, -, -, rfl⟩ := recoverReplica_ok_iff.mp hok
    exact ⟨rfl, rfl⟩
  | refused hround =>
    rw [hround]
    exact ⟨rfl, rfl⟩

/-- A run takes the time of its rounds, as far as the clock goes. -/
theorem run_times (ops : List (Nat × SimulationOp))
    (hrange : t.sim.simulatedTimeMs ≤ 2 ^ 128 - 1) :
    (run step t ops).sim.simulatedTimeMs = min (t.sim.simulatedTimeMs +
      ops.countP (fun op => op.2.isRound) * t.sim.roundTimeMs) (2 ^ 128 - 1) := by
  induction ops generalizing t with
  | nil =>
    rw [List.countP_nil, Nat.zero_mul, Nat.add_zero, Nat.min_eq_left hrange]
    rfl
  | cons op ops ih =>
    obtain ⟨hpace, hclock⟩ := t.step_times op
    rw [run_cons, List.countP_cons]
    cases hround : op.2.isRound with
    | false =>
      rw [hround, if_neg Bool.false_ne_true] at hclock
      rw [ih (hclock.trans_le hrange), hclock, hpace]
      rfl
    | true =>
      rw [hround, if_pos rfl] at hclock
      rw [ih (hclock.trans_le (min_le_right _ _)), hclock, hpace, if_pos rfl, Nat.add_mul]
      omega

/-- Between rounds nobody else is crashed or recovered. -/
theorem crashed_step {op : Nat × SimulationOp} (hround : op.2.isRound = false)
    (hspares : op.2.Spares id) :
    id ∈ (t.step op).sim.crashedReplicas ↔ id ∈ t.sim.crashedReplicas := by
  obtain ⟨now, op⟩ := op
  have hdoes := t.step_does now op
  generalize (t.step (now, op)).sim = sim' at hdoes ⊢
  cases hdoes with
  | runOneRound => cases hround
  | runOneRoundWithPacemaker => cases hround
  | configured _ _ _ => exact Iff.rfl
  | @interrupted _ unresponsive _ hok =>
    obtain ⟨-, -, rfl⟩ := setReplicaUnresponsive_ok_iff.mp hok
    cases unresponsive <;> exact Iff.rfl
  | crashed hok =>
    obtain ⟨r, keystore, -, -, -, -, rfl⟩ := crashReplica_ok_iff.mp hok
    exact Finset.mem_insert.trans (or_iff_right (Ne.symm hspares))
  | recovered hok =>
    obtain ⟨r, keystore, dir, opened, -, -, -, -, -, -, rfl⟩ := recoverReplica_ok_iff.mp hok
    exact Finset.mem_erase.trans (and_iff_right (Ne.symm hspares))
  | refused _ => exact Iff.rfl

/-- A missing replica stays missing, and a round settles whether it is crashed. -/
theorem missing_step (h : Missing id timeout since t.sim)
    (hrange : t.sim.simulatedTimeMs ≤ 2 ^ 128 - 1) {op : Nat × SimulationOp}
    (hspares : op.2.Spares id) :
    Missing id timeout since (t.step op).sim ∧ (op.2.isRound = true →
      (id ∈ (t.step op).sim.crashedReplicas ↔
        since + timeout ≤ (t.step op).sim.simulatedTimeMs)) := by
  obtain ⟨now, op⟩ := op
  have hdoes := t.step_does now op
  generalize (t.step (now, op)).sim = sim' at hdoes ⊢
  obtain ⟨hplain, hpacemaker⟩ := h.round hrange now
  cases hdoes with
  | runOneRound => exact ⟨hplain.1, fun _ => hplain.2⟩
  | runOneRoundWithPacemaker => exact ⟨hpacemaker.1, fun _ => hpacemaker.2⟩
  | @configured _ _ replicas hsetting hlen hreplicas =>
    refine ⟨h.configure hlen ?_, fun hr => ?_⟩
    · cases hr' : replicas[id]? with
      | none =>
        rw [List.getElem?_eq_none_iff, hlen] at hr'
        rw [List.getElem?_eq_none hr']
      | some r' =>
        obtain ⟨r, hr, rfl | rfl⟩ := hreplicas id r' hr'
        · rw [hr]
        · rw [hr, Option.map_some, Option.map_some, Replica.step_timeoutMs]
    · rw [SimulationOp.isRound_of_setting hsetting] at hr
      cases hr
  | interrupted hok => exact ⟨h.interrupt hspares hok, fun hr => by cases hr⟩
  | crashed hok => exact ⟨h.crash hspares hok, fun hr => by cases hr⟩
  | recovered hok => exact ⟨h.recover hspares hok, fun hr => by cases hr⟩
  | refused hround =>
    refine ⟨h, fun hr => ?_⟩
    rw [hround] at hr
    cases hr

/-- At the end of a run a missing replica is crashed if it was before or there has been a round, and
its timeout is up. -/
theorem missing_run (htimed : WellTimed t.sim) (h : Missing id timeout since t.sim)
    {ops : List (Nat × SimulationOp)} (hspares : ∀ op ∈ ops, op.2.Spares id) :
    id ∈ (run step t ops).sim.crashedReplicas ↔
      (id ∈ t.sim.crashedReplicas ∨ 0 < ops.countP (fun op => op.2.isRound)) ∧
        since + timeout ≤ (run step t ops).sim.simulatedTimeMs := by
  induction ops generalizing t with
  | nil =>
    rw [run_nil, List.countP_nil, or_iff_left (Nat.lt_irrefl 0)]
    rcases h with ⟨hcrashed, hdue⟩ | hsilent
    · exact iff_of_true hcrashed ⟨hcrashed, hdue⟩
    · exact iff_of_false hsilent.live fun hcrashed => hsilent.live hcrashed.1
  | cons op ops ih =>
    obtain ⟨hop, hspares⟩ := List.forall_mem_cons.mp hspares
    obtain ⟨hmissing, hsettled⟩ := missing_step h htimed.range hop
    have htimed' : WellTimed (t.step op).sim := wellTimed_rule.step htimed op
    rw [run_cons, List.countP_cons, ih htimed' hmissing hspares]
    cases hround : op.2.isRound with
    | false => rw [crashed_step hround hop, if_neg Bool.false_ne_true, Nat.add_zero]
    | true =>
      rw [hsettled hround, if_pos rfl]
      have hclock := run_times ops htimed'.range
      refine ⟨fun hend => ⟨.inr (Nat.succ_pos _), hend.2⟩, fun hend => ⟨?_, hend.2⟩⟩
      -- without another round the clock stands still
      rcases Nat.eq_zero_or_pos (ops.countP fun op => op.2.isRound) with hnone | hmore
      · rw [hnone, Nat.zero_mul, Nat.add_zero, Nat.min_eq_left htimed'.range] at hclock
        exact .inl (hclock ▸ hend.2)
      · exact .inr hmore

/-- A replica that does not respond is crashed if and only if a round finds its timeout up: whatever
else is done, as long as it is neither crashed by hand nor made to respond, it is crashed at the end
of a run if there has been a round and the time of the rounds reaches from the last response to the
timeout. -/
theorem silent_crashed_iff (harises : t.sim.Arises) (hpersistent : t.sim.persistenceEnabled = true)
    {r : Replica σ} (hr : t.sim.replicas[id]? = some r) (hsilent : id ∈ t.sim.unresponsiveReplicas)
    {ops : List (Nat × SimulationOp)} (hspares : ∀ op ∈ ops, op.2.Spares id) :
    id ∈ (run step t ops).sim.crashedReplicas ↔
      0 < ops.countP (fun op => op.2.isRound) ∧
        (t.sim.lastResponseMs[id]?).getD 0 + r.timeoutMs ≤ min (t.sim.simulatedTimeMs +
          ops.countP (fun op => op.2.isRound) * t.sim.roundTimeMs) (2 ^ 128 - 1) := by
  have htimed := harises.wellTimed
  have hlive := htimed.live id hsilent
  have hmissing : Missing id r.timeoutMs ((t.sim.lastResponseMs[id]?).getD 0) t.sim :=
    .inr ⟨hsilent, hlive, ⟨r, hr, rfl⟩, rfl, htimed.past id, hpersistent, htimed.keystores⟩
  rw [missing_run htimed hmissing hspares, run_times ops htimed.range, or_iff_right hlive]

end Trace

namespace Trace

section Samples

open Sample SimulationOp

/-- Replica 3 becomes unresponsive after a round that it has voted in. -/
def silentDurable : Trace NoOpApp :=
  run step fourDurable [(1, runOneRound), (1, setReplicaUnresponsive 3 true)]

/-- Five rounds, between which replica 2 is crashed and recovered. -/
def waitingOps : List (Nat × SimulationOp) :=
  [(2, runOneRound), (3, crashReplica 2), (3, runOneRoundWithPacemaker), (4, recoverReplica 2),
    (4, setReplicaUnresponsive 3 true), (4, runOneRound), (5, runOneRoundWithPacemaker),
    (6, runOneRound)]

/-- The silent replica is crashed in the fifth round. -/
theorem silent_crashed_iff_waiting :
    3 ∈ (run step silentDurable waitingOps).sim.crashedReplicas ∧
      3 ∉ (run step silentDurable waitingOps.dropLast).sim.crashedReplicas := by
  have harises : silentDurable.sim.Arises := fourDurable_start.starting.arises.run _
  have hpersistent : silentDurable.sim.persistenceEnabled = true := by decide +kernel
  have hsilent : 3 ∈ silentDurable.sim.unresponsiveReplicas := by decide +kernel
  have hseat : (silentDurable.sim.replicas[3]?).map Replica.timeoutMs = some 5000 := by
    decide +kernel
  obtain ⟨r, hr, htimeout⟩ := Option.map_eq_some_iff.mp hseat
  have htimes : (silentDurable.sim.lastResponseMs[3]?).getD 0 = 1000 ∧
      silentDurable.sim.simulatedTimeMs = 1000 ∧ silentDurable.sim.roundTimeMs = 1000 := by
    decide +kernel
  have hfive : waitingOps.countP (fun op => op.2.isRound) = 5 := by decide
  have hfour : waitingOps.dropLast.countP (fun op => op.2.isRound) = 4 := by decide
  rw [silent_crashed_iff harises hpersistent hr hsilent (by decide),
    silent_crashed_iff harises hpersistent hr hsilent (by decide), hfive, hfour, htimeout,
    htimes.1, htimes.2.1, htimes.2.2]
  omega

end Samples

end Trace

end PersistHotStuff
