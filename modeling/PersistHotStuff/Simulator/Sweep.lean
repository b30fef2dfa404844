import PersistHotStuff.Simulator.Duty

/-!
# The timeout sweep

The sweep crashes the unresponsive replicas whose timeout has passed and nothing
else. It takes nobody out of a round who was in it, but it can change the leader,
because leaders are chosen by the views of all replicas that are not crashed.
-/

namespace PersistHotStuff

open Basis

namespace Simulation

variable {σ : Type}

/-- The unresponsive replicas whose timeout has passed, which a sweep crashes. -/
def timedOut (sim : Simulation σ) : Finset Nat :=
  if sim.persistenceEnabled then
    ((List.range sim.replicas.length).filter fun id =>
      match sim.replicas[id]? with
      | none => false
      | some replica =>
          decide (id ∉ sim.crashedReplicas) && decide (id ∈ sim.unresponsiveReplicas) &&
            decide (replica.timeoutMs ≤
              sim.simulatedTimeMs - (sim.lastResponseMs[id]?).getD 0)).toFinset
  else ∅

/-- One simulation is another one after a set of replicas crashed. -/
structure Swept (ids : Finset Nat) (sim sim' : Simulation σ) : Prop where
  count : sim'.replicas.length = sim.replicas.length
  others : ∀ j, j ∉ ids → sim'.replicas[j]? = sim.replicas[j]?
  crashed : sim'.crashedReplicas = sim.crashedReplicas ∪ ids
  unresponsive : sim'.unresponsiveReplicas = sim.unresponsiveReplicas \ ids
  network : sim'.network = sim.network
  step : sim'.step = sim.step
  maxSteps : sim'.maxSteps = sim.maxSteps
  persistent : sim'.persistenceEnabled = sim.persistenceEnabled
  keystores : sim'.replicaKeystores = sim.replicaKeystores

variable {sim sim' : Simulation σ} {ids : Finset Nat}

theorem Swept.refl (sim : Simulation σ) : Swept ∅ sim sim :=
  ⟨rfl, fun _ _ => rfl, (Finset.union_empty _).symm, Finset.sdiff_empty.symm, rfl, rfl, rfl, rfl,
    rfl⟩

theorem Swept.trans {sim'' : Simulation σ} {ids' : Finset Nat} (h : Swept ids sim sim')
    (h' : Swept ids' sim' sim'') : Swept (ids ∪ ids') sim sim'' where
  count := h'.count.trans h.count
  others j hj := by
    rw [Finset.mem_union, not_or] at hj
    exact (h'.others j hj.2).trans (h.others j hj.1)
  crashed := by rw [h'.crashed, h.crashed, Finset.union_assoc]
  unresponsive := by rw [h'.unresponsive, h.unresponsive, sdiff_sdiff_left, Finset.sup_eq_union]
  network := h'.network.trans h.network
  step := h'.step.trans h.step
  maxSteps := h'.maxSteps.trans h.maxSteps
  persistent := h'.persistent.trans h.persistent
  keystores := h'.keystores.trans h.keystores

/-- Crash a replica, or leave the simulation as it is if that is refused. -/
def tryCrash (now : Nat) (sim : Simulation σ) (id : Nat) : Simulation σ :=
  match sim.crashReplica now id with
  | .ok sim => sim
  | .error _ => sim

theorem tryCrash_cases (now : Nat) (sim : Simulation σ) (id : Nat) :
    tryCrash now sim id = sim ∨ sim.crashReplica now id = .ok (tryCrash now sim id) := by
  rw [tryCrash]
  cases sim.crashReplica now id with
  | error e => exact .inl rfl
  | ok sim' => exact .inr rfl

/-- What is said of the simulation and the replicas still to be crashed, once each is tried, is said
of none. -/
theorem foldl_tryCrash {P : List Nat → Simulation σ → Prop} {now : Nat}
    (htry : ∀ i l s, P (i :: l) s → P l (tryCrash now s i)) {l : List Nat} (h : P l sim) :
    P [] (l.foldl (tryCrash now) sim) := by
  induction l generalizing sim with
  | nil => exact h
  | cons i l ih => exact ih (htry i l sim h)

/-- A live replica can be crashed. -/
theorem crashReplica_swept (hp : sim.persistenceEnabled = true) {i : Nat}
    (hr : i < sim.replicas.length) (hks : i < sim.replicaKeystores.length)
    (hi : i ∉ sim.crashedReplicas) (now : Nat) :
    ∃ sim', sim.crashReplica now i = .ok sim' ∧ Swept {i} sim sim' := by
  have hok : sim.crashReplica now i = .ok _ := crashReplica_ok_iff.mpr
    ⟨_, _, hp, List.getElem?_eq_getElem hr, List.getElem?_eq_getElem hks, hi, rfl⟩
  refine ⟨_, hok, List.length_set .., fun j hj => ?_, ?_, ?_, rfl, rfl, rfl, rfl, rfl⟩
  · exact List.getElem?_set_ne fun he => hj (Finset.mem_singleton.mpr he.symm)
  · exact (Finset.insert_eq ..).trans (Finset.union_comm ..)
  · exact Finset.erase_eq _ i

/-- Live replicas can be crashed one after the other. -/
theorem foldl_crash_swept (now : Nat) {l : List Nat} (hnodup : l.Nodup)
    (hp : sim.persistenceEnabled = true) (hr : ∀ i ∈ l, i < sim.replicas.length)
    (hks : ∀ i ∈ l, i < sim.replicaKeystores.length) (hl : ∀ i ∈ l, i ∉ sim.crashedReplicas) :
    Swept l.toFinset sim (l.foldl (tryCrash now) sim) := by
  induction l generalizing sim with
  | nil => exact Swept.refl sim
  | cons i l ih =>
    obtain ⟨hi, hnodup⟩ := List.nodup_cons.mp hnodup
    obtain ⟨hri, hr⟩ := List.forall_mem_cons.mp hr
    obtain ⟨hksi, hks⟩ := List.forall_mem_cons.mp hks
    obtain ⟨hli, hl⟩ := List.forall_mem_cons.mp hl
    obtain ⟨s, hok, hswept⟩ := crashReplica_swept hp hri hksi hli now
    rw [List.foldl_cons, tryCrash, hok, List.toFinset_cons, Finset.insert_eq]
    refine hswept.trans (ih hnodup (hswept.persistent.trans hp) ?_ ?_ fun j hj => ?_)
    · rw [hswept.count]
      exact hr
    · rw [hswept.keystores]
      exact hks
    · rw [hswept.crashed, Finset.mem_union, Finset.mem_singleton]
      rintro (hin | rfl)
      · exact hl j hj hin
      · exact hi hj

/-- Without persistence no replica can be crashed. -/
theorem foldl_crash_volatile (now : Nat) (hp : sim.persistenceEnabled = false) (l : List Nat) :
    l.foldl (tryCrash now) sim = sim := by
  induction l with
  | nil => rfl
  | cons i l ih =>
    have hrefused : sim.crashReplica now i = .error .persistenceDisabled := by
      simp only [crashReplica, hp, Bool.not_false, if_true]
    rw [List.foldl_cons, tryCrash, hrefused]
    exact ih

/-- Only unresponsive live replicas time out. -/
theorem mem_timedOut {i : Nat} (h : i ∈ sim.timedOut) :
    i < sim.replicas.length ∧ i ∉ sim.crashedReplicas ∧ i ∈ sim.unresponsiveReplicas := by
  rw [timedOut] at h
  split at h
  · rw [List.mem_toFinset, List.mem_filter, List.mem_range] at h
    obtain ⟨hlt, h⟩ := h
    rw [List.getElem?_eq_getElem hlt] at h
    simp only [Bool.and_eq_true, decide_eq_true_eq] at h
    exact ⟨hlt, h.1⟩
  · exact absurd h (Finset.notMem_empty i)

/-- A sweep crashes the replicas that have timed out. -/
theorem processTimeoutCrashes_swept (hks : sim.replicas.length ≤ sim.replicaKeystores.length)
    (now : Nat) : Swept sim.timedOut sim (sim.processTimeoutCrashes now) := by
  have hmem := fun i (hi : i ∈ sim.timedOut) => mem_timedOut hi
  cases hp : sim.persistenceEnabled with
  | false =>
    have hsame : sim.processTimeoutCrashes now = sim := foldl_crash_volatile now hp _
    rw [hsame, timedOut, hp]
    exact Swept.refl sim
  | true =>
    rw [timedOut, hp, if_pos rfl] at hmem ⊢
    refine foldl_crash_swept now (List.nodup_range.filter _) hp (fun i hi => ?_) (fun i hi => ?_)
      fun i hi => ?_
    · exact (hmem i (List.mem_toFinset.mpr hi)).1
    · exact (hmem i (List.mem_toFinset.mpr hi)).1.trans_le hks
    · exact (hmem i (List.mem_toFinset.mpr hi)).2.1

/-- Crashes that leave nobody crashed have crashed nobody. -/
theorem foldl_tryCrash_of_calm {now : Nat} (l : List Nat)
    (hcalm : (l.foldl (tryCrash now) sim).crashedReplicas = ∅) :
    l.foldl (tryCrash now) sim = sim := by
  induction l generalizing sim with
  | nil => rfl
  | cons i l ih =>
    rw [List.foldl_cons] at hcalm ⊢
    have hrest := ih hcalm
    rw [hrest] at hcalm ⊢
    rcases tryCrash_cases now sim i with hsame | hok
    · exact hsame
    · obtain ⟨r, keystore, -, -, -, -, heq⟩ := crashReplica_ok_iff.mp hok
      rw [heq] at hcalm
      exact absurd hcalm (Finset.insert_ne_empty _ _)

theorem processTimeoutCrashes_of_calm {now : Nat}
    (hcalm : (sim.processTimeoutCrashes now).crashedReplicas = ∅) :
    sim.processTimeoutCrashes now = sim := foldl_tryCrash_of_calm _ hcalm

/-- Crashing unresponsive replicas takes nobody out of a round. -/
theorem Swept.available (h : Swept ids sim sim')
    (hids : ∀ i ∈ ids, i ∈ sim.unresponsiveReplicas) (i : Nat) :
    sim'.available i = sim.available i := by
  rw [Simulation.available, Simulation.available, h.crashed, h.unresponsive]
  by_cases hi : i ∈ ids
  · simp [hi, hids i hi]
  · simp [hi]

/-- Available replicas are not touched. -/
theorem Swept.replica (h : Swept ids sim sim') (hids : ∀ i ∈ ids, i ∈ sim.unresponsiveReplicas)
    {i : Nat} (ha : sim.available i = true) : sim'.replicas[i]? = sim.replicas[i]? := by
  refine h.others i fun hi => ?_
  exact (available_iff.mp ha).2 (hids i hi)

/-- The leader depends on who is crashed and on the views of the others. -/
theorem currentLeader_congr (hcount : sim'.replicas.length = sim.replicas.length)
    (hcrashed : sim'.crashedReplicas = sim.crashedReplicas)
    (hlive : ∀ i, i ∉ sim.crashedReplicas → (sim'.replicas[i]?).map Replica.currentView =
      (sim.replicas[i]?).map Replica.currentView) :
    sim'.currentLeader = sim.currentLeader := by
  have hempty : sim'.replicas.isEmpty = sim.replicas.isEmpty := by
    rw [Bool.eq_iff_iff, List.isEmpty_iff_length_eq_zero, List.isEmpty_iff_length_eq_zero, hcount]
  have hviews : ∀ s : Simulation σ,
      (s.replicas.zipIdx.filter fun p => decide (p.2 ∉ s.crashedReplicas)).map
        (fun p => p.1.currentView) =
      (s.replicas.zipIdx.map fun p =>
        if p.2 ∈ s.crashedReplicas then none else some p.1.currentView).filterMap id := by
    intro s
    rw [List.filterMap_map, ← List.filterMap_eq_map, List.filterMap_filter]
    refine List.filterMap_congr fun p _ => ?_
    by_cases hp : p.2 ∈ s.crashedReplicas
    · simp [hp]
    · simp [hp]
  have hsame : (sim'.replicas.zipIdx.map fun p =>
        if p.2 ∈ sim'.crashedReplicas then none else some p.1.currentView) =
      sim.replicas.zipIdx.map fun p =>
        if p.2 ∈ sim.crashedReplicas then none else some p.1.currentView := by
    refine List.ext_getElem (by simp [hcount]) fun i h h' => ?_
    simp only [List.length_map, List.length_zipIdx] at h h'
    simp only [List.getElem_map, List.getElem_zipIdx, hcrashed, Nat.zero_add]
    by_cases hi : i ∈ sim.crashedReplicas
    · rw [if_pos hi, if_pos hi]
    · have hr := hlive i hi
      rw [List.getElem?_eq_getElem h, List.getElem?_eq_getElem h', Option.map_some,
        Option.map_some] at hr
      rw [if_neg hi, if_neg hi, hr]
  simp only [currentLeader]
  rw [hempty, hviews sim', hviews sim, hsame, hcount, hcrashed]

/-- Whether the leader stays the same when the replicas about to time out count as crashed. -/
def KeepsLeader (sim : Simulation σ) : Prop :=
  { sim with
    crashedReplicas := sim.crashedReplicas ∪ sim.advanceSimulatedTime.timedOut }.currentLeader =
      sim.currentLeader

instance (sim : Simulation σ) : Decidable sim.KeepsLeader := inferInstanceAs (Decidable (_ = _))

section Start

variable [Ed25519] [Sha256] [Bincode Snapshot] {allKeys : List (ReplicaId × Bytes)}
  {leader : Replica σ}

/-- The start of a round changes nothing for the available replicas. -/
theorem OffDuty.roundStart_swept (h : OffDuty allKeys sim) (now : Nat) :
    Swept sim.advanceSimulatedTime.timedOut sim.advanceSimulatedTime (sim.roundStart now) := by
  refine processTimeoutCrashes_swept ?_ now
  show sim.replicas.length ≤ sim.replicaKeystores.length
  rw [h.count, h.keystores, KeyStore.length_distributeKeys]

/-- The leader after the sweep. -/
theorem OffDuty.roundStart_currentLeader (h : OffDuty allKeys sim) (now : Nat) :
    (sim.roundStart now).currentLeader = sim.currentLeader ↔ sim.KeepsLeader := by
  have hswept := h.roundStart_swept now
  have hleader : (sim.roundStart now).currentLeader =
      { sim with
        crashedReplicas := sim.crashedReplicas ∪ sim.advanceSimulatedTime.timedOut }.currentLeader
      := by
    refine currentLeader_congr hswept.count hswept.crashed fun i hi =>
      congrArg _ (hswept.others i fun hin => ?_)
    exact hi (Finset.mem_union_right _ hin)
  rw [hleader]
  rfl

/-- A leader that stays the leader is in step after the sweep. -/
theorem OffDuty.roundStart_inStep (h : OffDuty allKeys sim) (hstep : sim.InStep leader)
    (hkeeps : sim.KeepsLeader) (now : Nat) : (sim.roundStart now).InStep leader := by
  have hswept := h.roundStart_swept now
  have hids : ∀ i ∈ sim.advanceSimulatedTime.timedOut,
      i ∈ sim.advanceSimulatedTime.unresponsiveReplicas := fun i hi => (mem_timedOut hi).2.2
  have hleader := (h.roundStart_currentLeader now).mpr hkeeps
  have havailable := hswept.available hids
  refine ⟨?_, ?_, hstep.leads, fun j r hr ha => ?_⟩
  · rw [hleader]
    exact (hswept.replica hids hstep.available).trans hstep.leaderAt
  · rw [hleader, havailable]
    exact hstep.available
  · rw [havailable] at ha
    exact hstep.agrees j r ((hswept.replica hids ha).symm.trans hr) ha

end Start

end Simulation

end PersistHotStuff
