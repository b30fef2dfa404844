import PersistHotStuff.Durability.Rejoin

/-!
# The seats of the simulator

Each seat holds a live replica with its directory, or a crashed one and what it
has left. Whatever is said about the two, replacing a live replica, a crash and
a recovery carry it from seat to seat.
-/

namespace PersistHotStuff

open Basis

namespace Simulation

variable {σ : Type} {Live Left : Replica σ → Option DataDir → Prop} {sim : Simulation σ}

/-- What crashes and recoveries of single replicas leave alone. -/
structure Surroundings where
  network : Network
  step : Nat
  maxSteps : Nat
  persistenceEnabled : Bool
  count : Nat

/-- The surroundings of the replicas of a simulation. -/
def surroundings (sim : Simulation σ) : Surroundings where
  network := sim.network
  step := sim.step
  maxSteps := sim.maxSteps
  persistenceEnabled := sim.persistenceEnabled
  count := sim.replicas.length

/-- A crash drops a live replica and leaves its files. -/
theorem crashReplica_ok_iff {now i : Nat} {sim' : Simulation σ} :
    sim.crashReplica now i = .ok sim' ↔
      ∃ replica keystore, sim.persistenceEnabled = true ∧ sim.replicas[i]? = some replica ∧
        sim.replicaKeystores[i]? = some keystore ∧ i ∉ sim.crashedReplicas ∧
        sim' = { sim with
          replicas := sim.replicas.set i (freshReplica now replica.config keystore)
          replicaDataDirs := sim.replicaDataDirs.modify i replica.onDisk
          crashedReplicas := insert i sim.crashedReplicas
          unresponsiveReplicas := sim.unresponsiveReplicas.erase i } := by
  constructor
  · intro hok
    rw [crashReplica] at hok
    split at hok
    · cases hok
    · rename_i hp
      split at hok
      · rename_i replica keystore hr hks
        split at hok
        · cases hok
        · rename_i hi
          cases hok
          exact ⟨replica, keystore, by simpa using hp, hr, hks, hi, rfl⟩
      · cases hok
  · rintro ⟨replica, keystore, hp, hr, hks, hi, rfl⟩
    simp only [crashReplica, hp, hr, hks, hi, Bool.not_true, Bool.false_eq_true, if_false]

theorem crashReplica_surroundings {now i : Nat} {sim' : Simulation σ}
    (hok : sim.crashReplica now i = .ok sim') : sim'.surroundings = sim.surroundings := by
  obtain ⟨replica, keystore, -, -, -, -, rfl⟩ := crashReplica_ok_iff.mp hok
  simp only [surroundings, List.length_set]

/-- Whoever responds responded last now; the others did when they had before. -/
theorem getElem?_markResponded (sim : Simulation σ) (i j : Nat) :
    (sim.markResponded i).lastResponseMs[j]? = sim.lastResponseMs[j]? ∨
      (sim.markResponded i).lastResponseMs[j]? = some sim.simulatedTimeMs := by
  simp only [markResponded]
  by_cases hij : i = j
  · subst hij
    rcases Nat.lt_or_ge i sim.lastResponseMs.length with hi | hi
    · exact .inr (List.getElem?_set_self hi)
    · exact .inl (by rw [List.set_eq_of_length_le hi])
  · exact .inl (List.getElem?_set_ne hij)

/-- An interruption of a live replica, or its end, changes the set of the unresponsive and the time
of a response. -/
theorem setReplicaUnresponsive_ok_iff {i : Nat} {unresponsive : Bool} {sim' : Simulation σ} :
    sim.setReplicaUnresponsive i unresponsive = .ok sim' ↔
      i < sim.replicas.length ∧ i ∉ sim.crashedReplicas ∧
        sim' = if unresponsive then
            { sim with unresponsiveReplicas := insert i sim.unresponsiveReplicas }
          else
            ({ sim with unresponsiveReplicas := sim.unresponsiveReplicas.erase i } :
              Simulation σ).markResponded i := by
  rw [setReplicaUnresponsive]
  constructor
  · intro hok
    split at hok
    · cases hok
    · next hlt =>
      split at hok
      · cases hok
      · next hlive =>
        refine ⟨not_le.mp hlt, hlive, ?_⟩
        cases unresponsive <;> cases hok <;> rfl
  · rintro ⟨hlt, hlive, rfl⟩
    rw [if_neg (not_le.mpr hlt), if_neg hlive]
    cases unresponsive <;> rfl

theorem setReplicaUnresponsive_surroundings {i : Nat} {unresponsive : Bool} {sim' : Simulation σ}
    (hok : sim.setReplicaUnresponsive i unresponsive = .ok sim') :
    sim'.surroundings = sim.surroundings := by
  obtain ⟨-, -, rfl⟩ := setReplicaUnresponsive_ok_iff.mp hok
  cases unresponsive <;> rfl

/-- Every live replica and its directory are in order, and so is what a crashed one has left. -/
structure Seated (Live Left : Replica σ → Option DataDir → Prop) (sim : Simulation σ) : Prop where
  live : ∀ (i : Nat) r, sim.replicas[i]? = some r → i ∉ sim.crashedReplicas →
    Live r sim.replicaDataDirs[i]?
  left : ∀ (i : Nat) r, sim.replicas[i]? = some r → i ∈ sim.crashedReplicas →
    Left r sim.replicaDataDirs[i]?

/-- Seats may be described more loosely. -/
theorem Seated.mono (h : Seated Live Left sim) {Live' Left' : Replica σ → Option DataDir → Prop}
    (hlive : ∀ r dir, Live r dir → Live' r dir) (hleft : ∀ r dir, Left r dir → Left' r dir) :
    Seated Live' Left' sim :=
  ⟨fun i r hr hi => hlive r _ (h.live i r hr hi), fun i r hr hi => hleft r _ (h.left i r hr hi)⟩

/-- A live replica and its directory are replaced. -/
theorem Seated.replace (h : Seated Live Left sim) {i : Nat} {r' : Replica σ}
    (hi : i ∉ sim.crashedReplicas) {dirs : List DataDir}
    (hdirs : ∀ j, j ≠ i → dirs[j]? = sim.replicaDataDirs[j]?) (hlive : Live r' dirs[i]?) :
    Seated Live Left { sim.setReplica i r' with replicaDataDirs := dirs } := by
  refine ⟨fun j r hr hj => ?_, fun j r hr hj => ?_⟩
  · simp only [setReplica, List.getElem?_set] at hr hj ⊢
    by_cases he : i = j
    · subst he
      rw [if_pos rfl] at hr
      split at hr
      · cases hr
        exact hlive
      · cases hr
    · rw [if_neg he] at hr
      rw [hdirs j (Ne.symm he)]
      exact h.live j r hr hj
  · simp only [setReplica, List.getElem?_set] at hr hj ⊢
    have he : i ≠ j := fun he => hi (he ▸ hj)
    rw [if_neg he] at hr
    rw [hdirs j he.symm]
    exact h.left j r hr hj

/-- The replicas change their settings. -/
theorem Seated.configure (h : Seated Live Left sim) {replicas : List (Replica σ)}
    (hreplicas : ∀ (i : Nat) r', replicas[i]? = some r' → ∃ r, sim.replicas[i]? = some r ∧
      ∀ dir, (Live r dir → Live r' dir) ∧ (Left r dir → Left r' dir)) :
    Seated Live Left { sim with replicas := replicas } := by
  refine ⟨fun i r' hr' hi => ?_, fun i r' hr' hi => ?_⟩
  · obtain ⟨r, hr, hkeeps⟩ := hreplicas i r' hr'
    exact (hkeeps _).1 (h.live i r hr hi)
  · obtain ⟨r, hr, hkeeps⟩ := hreplicas i r' hr'
    exact (hkeeps _).2 (h.left i r hr hi)

/-- A replica crashes and leaves its directory. -/
theorem Seated.crash (h : Seated Live Left sim) {now i : Nat}
    (hcrash : sim.persistenceEnabled = true → ∀ r dir keystore, Live r dir →
      Left (freshReplica now r.config keystore) (dir.map r.onDisk)) {sim' : Simulation σ}
    (hok : sim.crashReplica now i = .ok sim') : Seated Live Left sim' := by
  obtain ⟨replica, keystore, hpersistent, hr, -, hi, rfl⟩ := crashReplica_ok_iff.mp hok
  refine ⟨fun j r hrj hj => ?_, fun j r hrj hj => ?_⟩
  · simp only [Finset.mem_insert, not_or] at hj
    obtain ⟨hne, hj⟩ := hj
    simp only [List.getElem?_set_ne (Ne.symm hne)] at hrj
    simp only [List.getElem?_modify_ne _ _ (Ne.symm hne)]
    exact h.live j r hrj hj
  · simp only [Finset.mem_insert] at hj
    by_cases he : i = j
    · subst he
      simp only [List.getElem?_set_self (List.getElem?_eq_some_iff.mp hr).1] at hrj
      cases hrj
      simp only [List.getElem?_modify_eq]
      exact hcrash hpersistent replica _ keystore (h.live i replica hr hi)
    · simp only [List.getElem?_set_ne he] at hrj
      simp only [List.getElem?_modify_ne _ _ he]
      exact h.left j r hrj (hj.resolve_left (Ne.symm he))

/-- Interruptions change no seat. -/
theorem Seated.setReplicaUnresponsive (h : Seated Live Left sim) {i : Nat} {unresponsive : Bool}
    {sim' : Simulation σ} (hok : sim.setReplicaUnresponsive i unresponsive = .ok sim') :
    Seated Live Left sim' := by
  obtain ⟨-, -, rfl⟩ := setReplicaUnresponsive_ok_iff.mp hok
  cases unresponsive <;> exact ⟨h.live, h.left⟩

variable [Sha256] [Bincode LogEntry] [Bincode Snapshot] [Crc32] [App σ]

/-- A recovery opens a crashed replica from its directory and lets it rejoin. -/
theorem recoverReplica_ok_iff {now i : Nat} {sim' : Simulation σ} :
    sim.recoverReplica now i = .ok sim' ↔
      ∃ replica keystore dir recovered, sim.persistenceEnabled = true ∧
        sim.replicas[i]? = some replica ∧ sim.replicaKeystores[i]? = some keystore ∧
        i ∈ sim.crashedReplicas ∧ sim.replicaDataDirs[i]? = some dir ∧
        openReplica now i replica.config keystore dir = .ok recovered ∧
        sim' = { sim with
          replicas := sim.replicas.set i (rejoin now (sim.liveOthers i) recovered dir).1
          replicaDataDirs :=
            sim.replicaDataDirs.set i (rejoin now (sim.liveOthers i) recovered dir).2
          crashedReplicas := sim.crashedReplicas.erase i
          unresponsiveReplicas := sim.unresponsiveReplicas.erase i }.markResponded i := by
  constructor
  · intro hok
    rw [recoverReplica] at hok
    split at hok
    · cases hok
    · rename_i hp
      split at hok
      · rename_i replica keystore hr hks
        split at hok
        · cases hok
        · rename_i hi
          split at hok
          · cases hok
          · rename_i dir hdir
            split at hok
            · cases hok
            · rename_i recovered hopened
              cases hok
              exact ⟨replica, keystore, dir, recovered, by simpa using hp, hr, hks, not_not.mp hi,
                hdir, hopened, rfl⟩
      · cases hok
  · rintro ⟨replica, keystore, dir, recovered, hp, hr, hks, hi, hdir, hopened, rfl⟩
    simp only [recoverReplica, hp, hr, hks, hi, hdir, hopened, Bool.not_true, Bool.false_eq_true,
      if_false, not_true_eq_false]

theorem recoverReplica_surroundings {now i : Nat} {sim' : Simulation σ}
    (hok : sim.recoverReplica now i = .ok sim') : sim'.surroundings = sim.surroundings := by
  obtain ⟨replica, keystore, dir, recovered, -, -, -, -, -, -, rfl⟩ := recoverReplica_ok_iff.mp hok
  simp only [surroundings, Simulation.markResponded, List.length_set]

/-- A crashed replica is opened from its directory and rejoins. -/
theorem Seated.recover (h : Seated Live Left sim) {now i : Nat}
    (hrejoin : ∀ replica keystore dir recovered, sim.replicas[i]? = some replica →
      i ∈ sim.crashedReplicas → sim.replicaDataDirs[i]? = some dir →
      openReplica now i replica.config keystore dir = .ok recovered →
      Live (rejoin now (sim.liveOthers i) recovered dir).1
        (some (rejoin now (sim.liveOthers i) recovered dir).2)) {sim' : Simulation σ}
    (hok : sim.recoverReplica now i = .ok sim') : Seated Live Left sim' := by
  obtain ⟨replica, keystore, dir, recovered, -, hr, -, hi, hdir, hopened, rfl⟩ :=
    recoverReplica_ok_iff.mp hok
  have hlive := hrejoin replica keystore dir recovered hr hi hdir hopened
  have hlt : i < sim.replicaDataDirs.length := (List.getElem?_eq_some_iff.mp hdir).1
  refine ⟨fun j r hrj hj => ?_, fun j r hrj hj => ?_⟩
  · by_cases he : i = j
    · subst he
      simp only [Simulation.markResponded,
        List.getElem?_set_self (List.getElem?_eq_some_iff.mp hr).1] at hrj ⊢
      cases hrj
      rw [List.getElem?_set_self hlt]
      exact hlive
    · simp only [Simulation.markResponded, List.getElem?_set_ne he] at hrj ⊢
      exact h.live j r hrj fun hc => hj (Finset.mem_erase.mpr ⟨Ne.symm he, hc⟩)
  · have hj := Finset.mem_erase.mp hj
    have he : i ≠ j := hj.1.symm
    simp only [Simulation.markResponded, List.getElem?_set_ne he] at hrj ⊢
    exact h.left j r hrj hj.2

end Simulation

end PersistHotStuff
