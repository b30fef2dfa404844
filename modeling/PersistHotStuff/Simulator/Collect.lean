import PersistHotStuff.Cluster.Roster
import PersistHotStuff.Simulator.Phases

/-!
# Collecting votes

Simulated replicas hold the keys that were generated for them. When the leader
and the available replicas agree on view, tree, certificate and epoch, the leader
counts one vote for each available replica but itself: the broadcast leaves the
sender out, and the leader never votes for its own block.
-/

namespace PersistHotStuff

open Basis

/-- Keys were generated for the replicas `0, .., n-1`, in any order. -/
def GeneratedKeys (allKeys : List (ReplicaId × Bytes)) : Prop :=
  (allKeys.map Prod.fst).Perm (List.range allKeys.length)

namespace KeyStore

variable [Ed25519] {allKeys : List (ReplicaId × Bytes)}

/-- A key store holds its own generated key and everyone's public keys. -/
theorem distributeKeys_getElem? {i : Nat} {ks : KeyStore}
    (h : (distributeKeys allKeys)[i]? = some ks) :
    allKeys[i]? = some (ks.myId, ks.mySigningKey) ∧
      ks.publicKeys = OrdMap.ofList (allKeys.map fun k => (k.1, Ed25519.verifyingKey k.2)) := by
  rw [distributeKeys, List.getElem?_map, Option.map_eq_some_iff] at h
  obtain ⟨k, hk, rfl⟩ := h
  exact ⟨hk, rfl⟩

theorem length_distributeKeys : (distributeKeys allKeys).length = allKeys.length :=
  List.length_map ..

/-- The signers are the replicas. -/
theorem myId_lt (hkeys : GeneratedKeys allKeys) {i : Nat} {ks : KeyStore}
    (h : (distributeKeys allKeys)[i]? = some ks) : ks.myId < allKeys.length := by
  have hmem : ks.myId ∈ allKeys.map Prod.fst :=
    List.mem_map.mpr ⟨_, List.mem_of_getElem? (distributeKeys_getElem? h).1, rfl⟩
  exact List.mem_range.mp (hkeys.subset hmem)

/-- Different replicas sign under different names. -/
theorem myId_injective (hkeys : GeneratedKeys allKeys) {i j : Nat} {ks ks' : KeyStore}
    (h : (distributeKeys allKeys)[i]? = some ks) (h' : (distributeKeys allKeys)[j]? = some ks')
    (he : ks.myId = ks'.myId) : i = j := by
  have hnodup : (allKeys.map Prod.fst).Nodup := hkeys.nodup_iff.mpr List.nodup_range
  have hi : (allKeys.map Prod.fst)[i]? = some ks.myId := by
    rw [List.getElem?_map, (distributeKeys_getElem? h).1]
    rfl
  have hj : (allKeys.map Prod.fst)[j]? = some ks.myId := by
    rw [List.getElem?_map, (distributeKeys_getElem? h').1, he]
    rfl
  obtain ⟨hlt, -⟩ := List.getElem?_eq_some_iff.mp hi
  exact (List.getElem?_inj hlt hnodup).mp (hi.trans hj.symm)

/-- What one replica signs, every replica verifies. -/
theorem verify_sign [LawfulEd25519] [Sha256] (hkeys : GeneratedKeys allKeys) {i j : Nat}
    {ks ks' : KeyStore} (h : (distributeKeys allKeys)[i]? = some ks)
    (h' : (distributeKeys allKeys)[j]? = some ks') (blockHash view epoch : Nat) :
    ks'.verify (ks.sign blockHash view epoch) blockHash view epoch = true := by
  have hnodup : (allKeys.map Prod.fst).Nodup := hkeys.nodup_iff.mpr List.nodup_range
  have hnodup' : ((allKeys.map fun k => (k.1, Ed25519.verifyingKey k.2)).map Prod.fst).Nodup := by
    rw [List.map_map]
    exact hnodup
  have hkey : ks'.publicKeys.get? ks.myId = some (Ed25519.verifyingKey ks.mySigningKey) := by
    rw [(distributeKeys_getElem? h').2, OrdMap.get?_ofList hnodup']
    exact List.mem_map.mpr ⟨_, List.mem_of_getElem? (distributeKeys_getElem? h).1, rfl⟩
  simp only [verify, sign, hkey]
  exact LawfulEd25519.verify_sign _ _

end KeyStore

namespace Replica

variable {σ : Type}

theorem dynamicQuorumSize_default {r : Replica σ} {n : Nat} (hn : 0 < n)
    (h : r.activeValidators = defaultValidators n) :
    r.dynamicQuorumSize = 2 * ((n - 1) / 3) + 1 := by
  rw [dynamicQuorumSize, dynamicF, dynamicN, h, length_defaultValidators, if_neg hn.ne']

/-- A replica in its place: configured and with its keys. -/
structure Placed [Ed25519] (allKeys : List (ReplicaId × Bytes)) (i : Nat) (r : Replica σ) :
    Prop where
  size : r.config.n = allKeys.length
  id : r.config.id = i
  validators : r.activeValidators = defaultValidators allKeys.length
  keystore : (KeyStore.distributeKeys allKeys)[i]? = some r.keystore

/-- A replica in its place between two rounds, with no votes pending. -/
structure OnDuty [Ed25519] (allKeys : List (ReplicaId × Bytes)) (i : Nat) (r : Replica σ) : Prop
    extends Placed allKeys i r where
  pool : r.votePool = OrdMap.empty

/-- Two replicas in one view with one tree, certificate and membership. -/
structure Agrees (r s : Replica σ) : Prop where
  view : r.currentView = s.currentView
  tree : r.blockTree = s.blockTree
  highQc : r.highQc = s.highQc
  epoch : r.configEpoch = s.configEpoch
  validators : r.activeValidators = s.activeValidators

/-- A block built on the certificate of a replica passes the checks on parent and certificate. -/
structure Usable [Ed25519] [Sha256] (r : Replica σ) : Prop where
  parent : ∀ parent ∈ r.nextParent, r.blockTree.contains parent = true
  certificate : ∀ qc ∈ r.highQc, qc.epoch = r.configEpoch ∧
    r.keystore.verifyQc qc r.dynamicQuorumSize = true

section Duty

variable [Ed25519] [Sha256] {allKeys : List (ReplicaId × Bytes)} {i j : Nat} {r s : Replica σ}

omit [Sha256] in
theorem OnDuty.publicKeys (hr : r.OnDuty allKeys i) (hs : s.OnDuty allKeys j) :
    r.keystore.publicKeys = s.keystore.publicKeys :=
  (KeyStore.distributeKeys_getElem? hr.keystore).2.trans
    (KeyStore.distributeKeys_getElem? hs.keystore).2.symm

omit [Sha256] in
theorem OnDuty.pos (hr : r.OnDuty allKeys i) : 0 < allKeys.length := by
  obtain ⟨hlt, -⟩ :=
    List.getElem?_eq_some_iff.mp (KeyStore.distributeKeys_getElem? hr.keystore).1
  omega

/-- A replica that agrees with the leader accepts its block exactly when the certificate of the
leader is usable. -/
theorem acceptsProposal_iff_usable (hr : r.OnDuty allKeys i) (hs : s.OnDuty allKeys j)
    (hagrees : s.Agrees r) {view : Nat} (hleads : r.isLeader view = true) (hash : Hash)
    (command : ConsensusCommand) :
    s.acceptsProposal (r.nextBlock view hash command) = true ↔ r.Usable := by
  have hleader : r.config.id = s.dynamicLeaderForView view := by
    rw [dynamicLeaderForView_default hr.pos hs.validators,
      ← dynamicLeaderForView_default hr.pos hr.validators]
    exact (beq_iff_eq.mp hleads).symm
  have hverify : ∀ qc, s.keystore.verifyQc qc s.dynamicQuorumSize =
      r.keystore.verifyQc qc r.dynamicQuorumSize := by
    intro qc
    rw [KeyStore.verifyQc_congr (hs.publicKeys hr), dynamicQuorumSize_congr hagrees.validators]
  rw [acceptsProposal_iff]
  simp only [nextBlock, hleader, hagrees.epoch, hagrees.tree, hverify, true_and]
  constructor
  · rintro ⟨hparent, hqc⟩
    exact ⟨hparent, fun qc hin => ⟨(hqc qc hin).1, (hqc qc hin).2.1⟩⟩
  · rintro ⟨hparent, hqc⟩
    refine ⟨hparent, fun qc hin => ⟨(hqc qc hin).1, (hqc qc hin).2, hparent _ ?_⟩⟩
    rw [nextParent, Option.mem_def.mp hin]
    rfl

/-- The vote of a replica that agrees with a proposer is countable for it. -/
theorem countable_voteFor [LawfulEd25519] (hkeys : GeneratedKeys allKeys)
    (hr : r.OnDuty allKeys i) (hs : s.OnDuty allKeys j) {block : Block}
    (hblock : r.blockTree.get? block.hash = some block) (hepoch : block.epoch = r.configEpoch) :
    r.Countable (s.voteFor block) := by
  have hlt : s.keystore.myId < allKeys.length := KeyStore.myId_lt hkeys hs.keystore
  refine ⟨hepoch, ?_, KeyStore.verify_sign hkeys hs.keystore hr.keystore _ _ _, ?_,
    block, hblock, rfl⟩
  · show r.activeValidators.contains s.keystore.myId = true
    rw [hr.validators, ← OrdMap.mem_keys, keys_defaultValidators]
    exact List.mem_range.mpr hlt
  · show s.keystore.myId < r.config.n
    rw [hr.size]
    exact hlt

end Duty

end Replica

namespace Simulation

variable {σ : Type} [Ed25519] [Sha256]

/-- A simulation whose leader has just proposed a block: the others are in their places, and the
available ones agree with what the leader was. -/
structure Proposed (allKeys : List (ReplicaId × Bytes)) (now leaderId : Nat) (leader : Replica σ)
    (block : Block) (sim : Simulation σ) : Prop where
  count : sim.replicas.length = allKeys.length
  network : sim.network.numReplicas = allKeys.length
  quiet : sim.network.messageQueue = []
  available : sim.available leaderId = true
  leads : leader.isLeader leader.currentView = true
  leaderDuty : leader.OnDuty allKeys leaderId
  built : ∃ hash command, block = leader.nextBlock leader.currentView hash command
  proposer : ∃ nextHash clientQueue,
    sim.replicas[leaderId]? = some (leader.afterProposal now block nextHash clientQueue)
  duty : ∀ j r, j ≠ leaderId → sim.replicas[j]? = some r → r.OnDuty allKeys j
  agrees : ∀ j r, j ≠ leaderId → sim.replicas[j]? = some r → sim.available j = true →
    r.Agrees leader

variable {allKeys : List (ReplicaId × Bytes)} {now leaderId : Nat} {leader : Replica σ}
  {block : Block} {sim : Simulation σ}

/-- A vote that reaches the leader is that of an available replica in its place. -/
theorem Proposed.reply_eq_some (h : Proposed allKeys now leaderId leader block sim) {j : Nat}
    (hj : j ∈ others sim.network.numReplicas leaderId) {vote : Vote}
    (hreply : sim.reply block j = some vote) :
    ∃ r, sim.replicas[j]? = some r ∧ r.OnDuty allKeys j ∧ vote = r.voteFor block := by
  rw [reply] at hreply
  cases hr : sim.replicas[j]? with
  | none =>
    rw [hr] at hreply
    cases hreply
  | some r =>
    simp only [hr] at hreply
    split at hreply
    · exact ⟨r, rfl, h.duty j r (mem_others.mp hj).2 hr, (Option.some.inj hreply).symm⟩
    · cases hreply

/-- The available replicas all vote, or none does. -/
theorem Proposed.reply_isSome (h : Proposed allKeys now leaderId leader block sim) {j : Nat}
    (hj : j ∈ others sim.network.numReplicas leaderId) :
    (sim.reply block j).isSome = true ↔ sim.available j = true ∧ leader.Usable := by
  obtain ⟨hlt, hne⟩ := mem_others.mp hj
  have hlt' : j < sim.replicas.length := by
    rw [h.count, ← h.network]
    exact hlt
  obtain ⟨hash, command, hblock⟩ := h.built
  have hr := List.getElem?_eq_getElem hlt'
  simp only [reply, hr]
  by_cases ha : sim.available j = true
  · have haccepts := Replica.acceptsProposal_iff_usable h.leaderDuty (h.duty j _ hne hr)
      (h.agrees j _ hne hr ha) h.leads hash command
    rw [← hblock] at haccepts
    rw [← haccepts]
    by_cases hacc : sim.replicas[j].acceptsProposal block = true
    · simp [ha, hacc]
    · simp [hacc]
  · simp [ha]

/-- The leader gets one vote for each available replica but itself if its certificate is usable, and
none if it is not. -/
theorem Proposed.length_ballots (h : Proposed allKeys now leaderId leader block sim) :
    (leader.Usable → (sim.ballots leaderId block).length =
        (others allKeys.length leaderId).countP fun j => sim.available j) ∧
      (¬ leader.Usable → sim.ballots leaderId block = []) := by
  constructor
  · intro husable
    rw [ballots, List.length_filterMap_eq_countP, h.network]
    refine List.countP_congr fun j hj => ?_
    rw [h.reply_isSome (h.network ▸ hj)]
    exact ⟨And.left, fun ha => ⟨ha, husable⟩⟩
  · intro hno
    rw [ballots, List.filterMap_eq_nil_iff]
    intro j hj
    rw [← Option.not_isSome_iff_eq_none, h.reply_isSome hj]
    exact fun hboth => hno hboth.2

/-- The votes the leader gets are signed by different replicas. -/
theorem Proposed.nodup_ballots (hkeys : GeneratedKeys allKeys)
    (h : Proposed allKeys now leaderId leader block sim) :
    ((sim.ballots leaderId block).map fun vote => vote.signature.signer).Nodup := by
  rw [List.Nodup, List.pairwise_map, ballots, List.pairwise_filterMap]
  refine (nodup_others sim.network.numReplicas leaderId).imp_of_mem ?_
  intro i j hi hj hne vote hvote vote' hvote' he
  obtain ⟨r, -, hr, rfl⟩ := h.reply_eq_some hi hvote
  obtain ⟨s, -, hs, rfl⟩ := h.reply_eq_some hj hvote'
  exact hne (KeyStore.myId_injective hkeys hr.keystore hs.keystore he)

/-- The certificate the votes form, if they are a quorum. -/
def outcome (sim : Simulation σ) (leaderId : Nat) (block : Block) (leader : Replica σ) :
    Option QuorumCert :=
  leader.quorumQc block.hash block.view block.epoch
    ((sim.ballots leaderId block).map Vote.signature)

variable [LawfulEd25519]

/-- A certificate formed verifies at every replica in its place. -/
theorem Proposed.verifyQc_outcome (hkeys : GeneratedKeys allKeys)
    (h : Proposed allKeys now leaderId leader block sim) {qc : QuorumCert}
    (hqc : sim.outcome leaderId block leader = some qc) {i : Nat} {r : Replica σ}
    (hr : r.OnDuty allKeys i) :
    qc.pointer = (block.hash, block.view, block.epoch) ∧
      r.keystore.verifyQc qc r.dynamicQuorumSize = true := by
  rw [outcome, Replica.quorumQc] at hqc
  split at hqc
  · rename_i hquorum
    cases hqc
    refine ⟨rfl, KeyStore.verifyQc_of_verified ?_ ?_ ?_⟩
    · intro sig hsig
      obtain ⟨vote, hvote, rfl⟩ := List.mem_map.mp hsig
      obtain ⟨j, hj, hreply⟩ := List.mem_filterMap.mp hvote
      obtain ⟨s, -, hs, rfl⟩ := h.reply_eq_some hj hreply
      exact KeyStore.verify_sign hkeys hs.keystore hr.keystore _ _ _
    · rw [List.map_map]
      exact h.nodup_ballots hkeys
    · rw [Replica.dynamicQuorumSize_congr (hr.validators.trans h.leaderDuty.validators.symm)]
      exact hquorum
  · cases hqc

variable [Bincode LogEntry] [Crc32]

/-- The leader counts every vote it gets. -/
theorem Proposed.collect_eq (hkeys : GeneratedKeys allKeys)
    (h : Proposed allKeys now leaderId leader block sim) (nextHash : Hash)
    (clientQueue : List ConsensusCommand) :
    (sim.collect now leaderId block (leader.afterProposal now block nextHash clientQueue)).2 =
        sim.outcome leaderId block leader ∧
      ∃ pool wal,
        (sim.collect now leaderId block (leader.afterProposal now block nextHash clientQueue)).1 =
          { leader.afterProposal now block nextHash clientQueue with
            votePool := pool
            wal := wal
            highQc := (sim.outcome leaderId block leader).or leader.highQc } := by
  obtain ⟨hash, command, hblock⟩ := h.built
  have hduty : (leader.afterProposal now block nextHash clientQueue).OnDuty allKeys leaderId :=
    ⟨⟨h.leaderDuty.size, h.leaderDuty.id, h.leaderDuty.validators, h.leaderDuty.keystore⟩,
      h.leaderDuty.pool⟩
  have hepoch : block.epoch = leader.configEpoch := by
    rw [hblock]
    rfl
  have hempty : (leader.afterProposal now block nextHash clientQueue).votePool.get? block.hash =
      none := by
    rw [hduty.pool]
    rfl
  have hvotes : ∀ vote ∈ sim.ballots leaderId block,
      vote.blockHash = block.hash ∧ vote.view = block.view ∧ vote.epoch = block.epoch ∧
        (leader.afterProposal now block nextHash clientQueue).Countable vote := by
    intro vote hvote
    obtain ⟨j, hj, hreply⟩ := List.mem_filterMap.mp hvote
    obtain ⟨r, -, hr, rfl⟩ := h.reply_eq_some hj hreply
    exact ⟨rfl, rfl, rfl, Replica.countable_voteFor hkeys hduty hr
      (OrdMap.get?_insert_self ..) hepoch⟩
  obtain ⟨hformed, -, hrest⟩ := Replica.handleVotes_eq now hempty hvotes (h.nodup_ballots hkeys)
  exact ⟨hformed, _, _, hrest⟩

end Simulation

end PersistHotStuff
