import PersistHotStuff.Simulator.Duty

/-!
# Signing as oneself

The key stores are listed in the iteration order of the generated key map, and
the simulator looks them up by replica id. Replica `i` therefore signs under the
name of the `i`-th key of that order. Every replica signs as itself exactly when
the order is the ascending one.
-/

namespace PersistHotStuff

open Basis

/-- The iteration order of a generated key map is the ascending one. -/
def InIdOrder (allKeys : List (ReplicaId × Bytes)) : Prop :=
  allKeys.map Prod.fst = List.range allKeys.length

namespace Simulation

variable {σ : Type} [Ed25519]

/-- Each replica signs votes under its own id, and every other replica accepts such a signature by
the key it holds for that id. -/
def SignAsThemselves [Sha256] (sim : Simulation σ) : Prop :=
  ∀ (i : Nat) (r : Replica σ), sim.replicas[i]? = some r →
    r.config.id = i ∧ ∀ blockHash view epoch,
      (r.keystore.sign blockHash view epoch).signer = r.config.id ∧
      ∀ (j : Nat) (s : Replica σ), j ≠ i → sim.replicas[j]? = some s →
        ∃ vk, s.keystore.publicKeys.get? i = some vk ∧
          Ed25519.verify vk (voteMessage blockHash view epoch)
            (r.keystore.sign blockHash view epoch).bytes = true

/-- There is a replica for every key, and the key stores are looked up by replica id. -/
structure Equipped (allKeys : List (ReplicaId × Bytes)) (sim : Simulation σ) : Prop where
  count : sim.replicas.length = allKeys.length
  id : ∀ (i : Nat) (r : Replica σ), sim.replicas[i]? = some r → r.config.id = i
  keystore : ∀ (i : Nat) (r : Replica σ), sim.replicas[i]? = some r →
    (KeyStore.distributeKeys allKeys)[i]? = some r.keystore

variable {allKeys : List (ReplicaId × Bytes)}

/-- A new simulation without persistence looks up its key stores by replica id. -/
theorem equipped_new {now f maxSteps : Nat} :
    Equipped allKeys (new (σ := σ) now f maxSteps allKeys) := by
  refine ⟨?_, fun i r hr => (onDuty_new now f maxSteps hr).id,
    fun i r hr => (onDuty_new now f maxSteps hr).keystore⟩
  simp only [new, start, List.length_mapIdx]
  exact KeyStore.length_distributeKeys

/-- In an ascending order the `i`-th key store is that of replica `i`. -/
theorem Equipped.myId_eq {sim : Simulation σ} (h : Equipped allKeys sim)
    (horder : InIdOrder allKeys) {i : Nat} {r : Replica σ} (hr : sim.replicas[i]? = some r) :
    r.keystore.myId = i := by
  have hkey := (KeyStore.distributeKeys_getElem? (h.keystore i r hr)).1
  have hid : (allKeys.map Prod.fst)[i]? = some r.keystore.myId := by
    rw [List.getElem?_map, hkey]
    rfl
  obtain ⟨hlt, -⟩ := List.getElem?_eq_some_iff.mp hkey
  rw [horder, List.getElem?_range hlt, Option.some.injEq] at hid
  exact hid.symm

variable [Sha256]

/-- A new simulation with persistence looks up its key stores by replica id, whatever its
directories hold. -/
theorem equipped_newWithPersistence [Bincode LogEntry] [Bincode Snapshot] [Crc32]
    {now f maxSteps : Nat} {dirs : List DataDir} (hdirs : dirs.length = allKeys.length)
    {sim : Simulation σ} (hok : newWithPersistence now f maxSteps allKeys dirs = .ok sim) :
    Equipped allKeys sim := by
  obtain ⟨replicas, rfl, hcount, hslots⟩ := newWithPersistence_slots hok
  refine ⟨?_, fun i r hr => ?_, fun i r hr => ?_⟩
  · rw [KeyStore.length_distributeKeys, hdirs, min_self] at hcount
    exact hcount
  · obtain ⟨ks, dir, -, -, hopen⟩ := hslots i r hr
    rw [(openReplica_fields hopen).1]
    rfl
  · obtain ⟨ks, dir, hks, -, hopen⟩ := hslots i r hr
    rw [(openReplica_fields hopen).2.1]
    exact hks

/-- Replicas that look up their key stores by id sign as themselves exactly when the key map lists
the ids in ascending order. -/
theorem Equipped.signAsThemselves_iff [LawfulEd25519] {sim : Simulation σ}
    (h : Equipped allKeys sim) (hkeys : GeneratedKeys allKeys) :
    sim.SignAsThemselves ↔ InIdOrder allKeys := by
  constructor
  · intro hself
    refine List.ext_getElem? fun i => ?_
    by_cases hi : i < allKeys.length
    · obtain ⟨r, hr⟩ : ∃ r, sim.replicas[i]? = some r :=
        ⟨_, List.getElem?_eq_getElem (h.count ▸ hi)⟩
      obtain ⟨hid, hsign⟩ := hself i _ hr
      have hsigner := (hsign 0 0 0).1
      rw [hid] at hsigner
      rw [List.getElem?_map, (KeyStore.distributeKeys_getElem? (h.keystore i _ hr)).1,
        List.getElem?_range hi]
      exact congrArg some hsigner
    · rw [List.getElem?_eq_none (by rw [List.length_map]; omega),
        List.getElem?_eq_none (by rw [List.length_range]; omega)]
  · intro horder i r hr
    have hmy := h.myId_eq horder hr
    refine ⟨h.id i r hr, fun blockHash view epoch => ⟨?_, fun j s _ hs => ?_⟩⟩
    · rw [h.id i r hr]
      exact hmy
    · have hverify := KeyStore.verify_sign hkeys (h.keystore i r hr) (h.keystore j s hs) blockHash
        view epoch
      have hsigner : (r.keystore.sign blockHash view epoch).signer = i := hmy
      unfold KeyStore.verify at hverify
      rw [hsigner] at hverify
      cases hvk : s.keystore.publicKeys.get? i with
      | none =>
        rw [hvk] at hverify
        cases hverify
      | some vk =>
        rw [hvk] at hverify
        exact ⟨vk, rfl, hverify⟩

/-- For every generated key map and every iteration order of it, the replicas of a new simulation,
with or without persistence, sign as themselves exactly when that order is the ascending one. -/
theorem new_signAsThemselves_iff [LawfulEd25519] [Bincode LogEntry] [Bincode Snapshot] [Crc32]
    (hkeys : GeneratedKeys allKeys) (now f maxSteps : Nat) :
    ((new (σ := σ) now f maxSteps allKeys).SignAsThemselves ↔ InIdOrder allKeys) ∧
      ∀ dirs (sim : Simulation σ), dirs.length = allKeys.length →
        newWithPersistence now f maxSteps allKeys dirs = .ok sim →
          (sim.SignAsThemselves ↔ InIdOrder allKeys) :=
  ⟨equipped_new.signAsThemselves_iff hkeys, fun _ _ hdirs hok =>
    (equipped_newWithPersistence hdirs hok).signAsThemselves_iff hkeys⟩

end Simulation

namespace Simulation

section Samples

open Sample Trace

/-- A start over empty directories succeeds. -/
def startsEmpty (allKeys : List (ReplicaId × Bytes)) : Bool :=
  (newWithPersistence (σ := NoOpApp) 0 1 20 allKeys
    (List.replicate allKeys.length DataDir.empty)).isOk

theorem exists_of_startsEmpty {allKeys : List (ReplicaId × Bytes)}
    (h : startsEmpty allKeys = true) :
    ∃ sim, newWithPersistence (σ := NoOpApp) 0 1 20 allKeys
      (List.replicate allKeys.length DataDir.empty) = .ok sim := by
  unfold startsEmpty at h
  cases hnew : newWithPersistence (σ := NoOpApp) 0 1 20 allKeys
      (List.replicate allKeys.length DataDir.empty) with
  | error e =>
    rw [hnew] at h
    cases h
  | ok sim => exact ⟨sim, rfl⟩

/-- Four replicas whose keys come in ascending order sign as themselves. -/
theorem new_signAsThemselves_four :
    GeneratedKeys (sampleKeys 4) ∧
      (new (σ := NoOpApp) 0 1 20 (sampleKeys 4)).SignAsThemselves ∧
      ∃ sim, newWithPersistence (σ := NoOpApp) 0 1 20 (sampleKeys 4)
        (List.replicate (sampleKeys 4).length DataDir.empty) = .ok sim ∧ sim.SignAsThemselves := by
  have hkeys : GeneratedKeys (sampleKeys 4) := List.Perm.refl (List.range 4)
  have horder : InIdOrder (sampleKeys 4) := rfl
  obtain ⟨hvolatile, hdurable⟩ := new_signAsThemselves_iff (σ := NoOpApp) hkeys 0 1 20
  have hstarts : startsEmpty (sampleKeys 4) = true := by decide +kernel
  obtain ⟨sim, hsim⟩ := exists_of_startsEmpty hstarts
  exact ⟨hkeys, hvolatile.mpr horder, sim, hsim,
    (hdurable _ sim (List.length_replicate ..) hsim).mpr horder⟩

/-- The keys of four replicas, with that of replica 1 first. -/
def swappedKeys : List (ReplicaId × Bytes) := [1, 0, 2, 3].map fun i => (i, signingKey i)

/-- When the key map lists replica 1 before replica 0, they sign in each other's name. -/
theorem swapped_sign_as_other :
    GeneratedKeys swappedKeys ∧
      ¬ (new (σ := NoOpApp) 0 1 20 swappedKeys).SignAsThemselves ∧
      ∃ sim, newWithPersistence (σ := NoOpApp) 0 1 20 swappedKeys
        (List.replicate swappedKeys.length DataDir.empty) = .ok sim ∧
          ¬ sim.SignAsThemselves := by
  have hkeys : GeneratedKeys swappedKeys := List.Perm.swap ..
  have horder : ¬ InIdOrder swappedKeys := by unfold InIdOrder; decide
  have hstarts : startsEmpty swappedKeys = true := by decide +kernel
  obtain ⟨sim, hsim⟩ := exists_of_startsEmpty hstarts
  have hequipped := equipped_newWithPersistence (List.length_replicate ..) hsim
  exact ⟨hkeys, (equipped_new.signAsThemselves_iff hkeys).not.mpr horder, sim, hsim,
    (hequipped.signAsThemselves_iff hkeys).not.mpr horder⟩

end Samples

end Simulation

end PersistHotStuff
