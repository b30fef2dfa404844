import PersistHotStuff.Durability.Commands
import PersistHotStuff.Durability.Rejoin

/-!
# The roster of a validator

With `3f + 1` validators no membership command ever takes effect, and recovery
brings the same validators and keys back. So a replica verifies certificates
under the same keys and the same quorum for its whole life.
-/

namespace PersistHotStuff

open Basis

theorem keys_defaultValidators (n : Nat) : (defaultValidators n).keys = List.range n := by
  have hsorted : ((List.range n).map fun id => (id, ())).Pairwise fun p q => p.1 < q.1 :=
    List.pairwise_map.mpr List.pairwise_lt_range
  have hentries : defaultValidators n = ⟨(List.range n).map fun id => (id, ()), hsorted⟩ :=
    OrdMap.ofList_entries ⟨_, hsorted⟩
  rw [hentries, OrdMap.keys, List.map_map]
  exact List.map_id _

theorem length_defaultValidators (n : Nat) : (defaultValidators n).length = n := by
  rw [← OrdMap.length_keys, keys_defaultValidators, List.length_range]

/-- The leader of the first validators rotates. -/
theorem Replica.dynamicLeaderForView_default {σ : Type} {r : Replica σ} {n : Nat} (hn : 0 < n)
    (h : r.activeValidators = defaultValidators n) (view : Nat) :
    r.dynamicLeaderForView view = view % n := by
  have hne : r.activeValidators.isEmpty = false := by
    have hlen := length_defaultValidators n
    rw [OrdMap.length] at hlen
    rw [h, OrdMap.isEmpty, List.isEmpty_eq_false_iff, ← List.length_pos_iff, hlen]
    exact hn
  simp only [dynamicLeaderForView, hne, Bool.false_eq_true, if_false]
  rw [h, length_defaultValidators, keys_defaultValidators,
    List.getElem?_range (Nat.mod_lt view hn), Option.getD_some]

/-- One more than a multiple of three is never left. -/
theorem Membership.apply_of_mod [Ed25519] {m : Membership}
    (h : m.activeValidators.length % 3 = 1) (command : ConsensusCommand) :
    m.apply command = m := apply_of_not_effective (not_effective_of_mod h command)

namespace Replica

variable {σ : Type} [Ed25519] [Sha256] [Bincode LogEntry] [Crc32] [App σ]

/-- With `3f + 1` validators no call changes the membership. -/
theorem step_membership_of_mod {r : Replica σ} (h : r.activeValidators.length % 3 = 1)
    (c : Nat × Call) : (r.step c).membership = r.membership := by
  refine step_membership_preserves (P := fun m => m = r.membership) (fun m command hm => ?_) rfl c
  have hlen : m.activeValidators.length % 3 = 1 := by
    rw [hm]
    exact h
  rw [Membership.apply_of_mod hlen, hm]

end Replica

namespace Node

variable {σ : Type}

/-- The directory of a node holds a snapshot, and the next one is the newest. -/
structure Stored [Bincode Snapshot] [Sha256] (node : Node σ) (snap : Option Snapshot) : Prop where
  store : StoreHolds node.dir snap
  noTmp : node.dir.walTmp = none
  below : ∀ seq, node.dir.bins.contains seq = true → seq < node.replica.snapshotCounter

/-- What a node leaves behind still holds its snapshot. -/
theorem Stored.onDisk [Bincode Snapshot] [Sha256] {node : Node σ} {snap : Option Snapshot}
    (h : Stored node snap) :
    StoreHolds (node.replica.onDisk node.dir) snap ∧
      (node.replica.onDisk node.dir).walTmp = none := by
  have hstore := h.store
  simp only [Replica.onDisk]
  cases node.replica.wal with
  | none => exact ⟨hstore, h.noTmp⟩
  | some wal =>
    refine ⟨?_, h.noTmp⟩
    cases snap with
    | none => exact hstore
    | some s => exact hstore

/-- The validators and keys of a node, in memory and in its directory. -/
structure Roster [Bincode Snapshot] [Sha256] (n : Nat) (keys : OrdMap ReplicaId Bytes)
    (node : Node σ) : Prop where
  validators : node.replica.activeValidators = defaultValidators n
  publicKeys : node.replica.keystore.publicKeys = keys
  stored : ∃ snap, Stored node snap ∧ ∀ s ∈ snap, s.activeValidators = (defaultValidators n).keys

section Snapshots

variable [App σ] [Bincode LogEntry] [Bincode Snapshot] [Crc32] [Sha256]

/-- A snapshot completes, becomes the newest one and leaves the membership alone. -/
theorem Stored.takeSnapshot {node : Node σ} {snap : Option Snapshot} (h : Stored node snap)
    (now : Nat) :
    Stored ⟨(node.replica.takeSnapshot now node.dir).2.1,
        (node.replica.takeSnapshot now node.dir).2.2⟩
      (some (node.replica.captureSnapshot now)) ∧
      (node.replica.takeSnapshot now node.dir).2.1.membership = node.replica.membership := by
  have hsaved : StoreHolds ((node.replica.captureSnapshot now).save node.dir)
      (some (node.replica.captureSnapshot now)) :=
    storeHolds_save fun seq hseq => h.below seq hseq
  have htmp : ((node.replica.captureSnapshot now).save node.dir).walTmp = none := h.noTmp
  have hbelow : ∀ seq,
      (cleanupOld ((node.replica.captureSnapshot now).save node.dir) 3).bins.contains seq = true →
        seq < node.replica.snapshotCounter + 1 :=
    fun _ hseq => below_cleanupOld_save h.below hseq
  have hclean := hsaved.cleanupOld (show 0 < 3 by decide)
  have hnoTmp :=
    ((cleanupOld_wal ((node.replica.captureSnapshot now).save node.dir) 3).2).trans htmp
  cases hwal : node.replica.wal with
  | none =>
    simp only [Replica.takeSnapshot, Replica.record, hwal, Option.map_none]
    exact ⟨⟨hclean, hnoTmp, hbelow⟩, rfl⟩
  | some wal =>
    rw [Replica.takeSnapshot_eq hwal h.noTmp]
    exact ⟨⟨hclean, hnoTmp, hbelow⟩, rfl⟩

end Snapshots

section Recovery

variable [Bincode LogEntry] [Bincode Snapshot] [Crc32] [Sha256] [LawfulBincode Snapshot]

/-- What a recovery takes from the snapshot and from its caller. -/
theorem recover_roster {d : DataDir} {snap : Option Snapshot} (h : StoreHolds d snap) {now : Nat}
    {config : Config} {keystore : KeyStore} {r : Replica σ} {wal : WAL}
    (hok : recover now config keystore d = .ok (r, wal)) :
    r.activeValidators = (baseOf config.n snap).activeValidators ∧ r.keystore = keystore ∧
      r.snapshotCounter = (baseOf config.n snap).snapshotCounter := by
  obtain ⟨base, st, hbase, -, rfl⟩ := recover_ok_iff.mp hok
  rw [loadBase_of_storeHolds h] at hbase
  cases hbase
  exact ⟨rfl, rfl, rfl⟩

/-- A replica recovered with the configuration and the keys of the roster is on the roster. -/
theorem Roster.recovered {n : Nat} {keys : OrdMap ReplicaId Bytes} {node : Node σ}
    (h : Roster n keys node) {now : Nat} {config : Config} {keystore : KeyStore}
    (hn : config.n = n) (hkeys : keystore.publicKeys = keys) {r : Replica σ} {wal : WAL}
    (hok : recover now config keystore (node.replica.onDisk node.dir) = .ok (r, wal)) :
    Roster n keys ⟨r, node.replica.onDisk node.dir⟩ := by
  obtain ⟨snap, hstored, hsnap⟩ := h.stored
  obtain ⟨hstore, hnoTmp⟩ := hstored.onDisk
  obtain ⟨hvalidators, hks, hcounter⟩ := recover_roster hstore hok
  refine ⟨?_, by rw [hks, hkeys], snap, ⟨hstore, hnoTmp, ?_⟩, hsnap⟩
  · rw [hvalidators]
    cases snap with
    | none => exact congrArg defaultValidators hn
    | some s =>
      show OrdMap.ofList (s.activeValidators.map fun id => (id, ())) = _
      rw [hsnap s rfl, OrdMap.ofList_keys]
  · intro seq hseq
    rw [hcounter]
    exact hstore.below hseq

/-- A restart with the configuration and the keys of the roster keeps a node on it. -/
theorem Roster.restart {n : Nat} {keys : OrdMap ReplicaId Bytes} {node : Node σ}
    (h : Roster n keys node) {now : Nat} {config : Config} {keystore : KeyStore}
    (hn : config.n = n) (hkeys : keystore.publicKeys = keys) {node' : Node σ}
    (hok : node.restart config keystore now = .ok node') : Roster n keys node' := by
  obtain ⟨r, wal, hrec, rfl⟩ := restart_ok_iff.mp hok
  obtain ⟨hvalidators, hks, snap, hstored, hsnap⟩ := h.recovered hn hkeys hrec
  exact ⟨hvalidators, hks, snap, ⟨hstored.store, hstored.noTmp, hstored.below⟩, hsnap⟩

end Recovery

section Steps

variable [App σ] [Bincode LogEntry] [Bincode Snapshot] [Crc32] [Sha256] {n : Nat}
  {keys : OrdMap ReplicaId Bytes}

/-- A snapshot keeps a node on the roster. -/
theorem Roster.takeSnapshot {node : Node σ} (h : Roster n keys node) (now : Nat) :
    Roster n keys ⟨(node.replica.takeSnapshot now node.dir).2.1,
      (node.replica.takeSnapshot now node.dir).2.2⟩ := by
  obtain ⟨snap, hstored, -⟩ := h.stored
  obtain ⟨hstored', hm⟩ := hstored.takeSnapshot now
  refine ⟨?_, ?_, _, hstored', ?_⟩
  · exact (congrArg Membership.activeValidators hm).trans h.validators
  · exact (congrArg Membership.publicKeys hm).trans h.publicKeys
  · intro s hs
    cases hs
    exact congrArg OrdMap.keys h.validators

section Rejoin

variable [LawfulBincode Snapshot]

omit [App σ] in
/-- A replica opened with the configuration and the keys of the roster is on the roster. -/
theorem Roster.openReplica {node : Node σ} (h : Roster n keys node) {now id : Nat}
    {config : Config} {keystore : KeyStore} (hn : config.n = n)
    (hkeys : keystore.publicKeys = keys) {recovered : Replica σ}
    (hok : Simulation.openReplica now id config keystore (node.replica.onDisk node.dir) =
      .ok recovered) : Roster n keys ⟨recovered, node.replica.onDisk node.dir⟩ := by
  obtain ⟨r, wal, log, hrec, -, rfl⟩ := openReplica_ok_iff.mp hok
  obtain ⟨hvalidators, hks, snap, hstored, hsnap⟩ := h.recovered hn hkeys hrec
  exact ⟨hvalidators, hks, snap, ⟨hstored.store, hstored.noTmp, hstored.below⟩, hsnap⟩

/-- Rejoining the others keeps a node on the roster. -/
theorem Roster.rejoin {node : Node σ} (h : Roster n keys node) {now id : Nat} {config : Config}
    {keystore : KeyStore} (hn : config.n = n) (hkeys : keystore.publicKeys = keys)
    {recovered : Replica σ}
    (hok : Simulation.openReplica now id config keystore (node.replica.onDisk node.dir) =
      .ok recovered) (others : List (Replica σ)) :
    Roster n keys ⟨(Simulation.rejoin now others recovered (node.replica.onDisk node.dir)).1,
      (Simulation.rejoin now others recovered (node.replica.onDisk node.dir)).2⟩ := by
  have hopened := h.openReplica hn hkeys hok
  have hsynced : Roster n keys
      ⟨Simulation.synced now others recovered, node.replica.onDisk node.dir⟩ := by
    have hm := Simulation.synced_membership now others recovered
    have hcounter := Simulation.synced_snapshotCounter now others recovered
    obtain ⟨snap, hstored, hsnap⟩ := hopened.stored
    refine ⟨?_, ?_, snap, ⟨hstored.store, hstored.noTmp, fun seq hseq => ?_⟩, hsnap⟩
    · exact (congrArg Membership.activeValidators hm).trans hopened.validators
    · exact (congrArg Membership.publicKeys hm).trans hopened.publicKeys
    · rw [hcounter]
      exact hstored.below seq hseq
  exact hsynced.takeSnapshot now

end Rejoin

variable [Ed25519]

/-- Calls keep a node on the roster. -/
theorem Roster.call {node : Node σ} (h : Roster n keys node) (hn : n % 3 = 1) (c : Nat × Call) :
    Roster n keys ⟨node.replica.step c, node.dir⟩ := by
  have hlen : node.replica.activeValidators.length % 3 = 1 := by
    rw [h.validators, length_defaultValidators, hn]
  have hm := Replica.step_membership_of_mod hlen c
  obtain ⟨snap, hstored, hsnap⟩ := h.stored
  refine ⟨?_, ?_, snap, ⟨hstored.store, hstored.noTmp, fun seq hseq => ?_⟩, hsnap⟩
  · exact (congrArg Membership.activeValidators hm).trans h.validators
  · exact (congrArg Membership.publicKeys hm).trans h.publicKeys
  · rw [Replica.step_snapshotCounter]
    exact hstored.below seq hseq

/-- Every operation keeps a node on the roster, if it is recovered with what belongs to it. -/
theorem Roster.step [LawfulBincode Snapshot] {node : Node σ} (h : Roster n keys node)
    (hn : n % 3 = 1) {op : Nat × NodeOp}
    (hrestart : ∀ config keystore, op.2 = .restart config keystore →
      config.n = n ∧ keystore.publicKeys = keys) : Roster n keys (node.step op) := by
  obtain ⟨now, op⟩ := op
  cases op with
  | call call => exact h.call hn (now, call)
  | takeSnapshot => exact h.takeSnapshot now
  | restart config keystore =>
    obtain ⟨hconfig, hkeys⟩ := hrestart config keystore rfl
    simp only [Node.step]
    cases hok : node.restart config keystore now with
    | error e => exact h
    | ok node' => exact h.restart hconfig hkeys hok

end Steps

end Node

end PersistHotStuff
