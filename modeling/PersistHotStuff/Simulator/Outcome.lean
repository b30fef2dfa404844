import PersistHotStuff.Simulator.Collect

/-!
# The outcome of a round

A round of replicas that agree, seen from its end: the leader proposes a block,
the certificate the votes form reaches every available replica for which it is
newer, and everyone commits and moves on.
-/

namespace PersistHotStuff

open Basis

namespace Replica

variable {σ : Type}

/-- What no call changes of a replica: its name, its signing name and its signing key. -/
def identity (r : Replica σ) : ReplicaId × ReplicaId × Bytes :=
  (r.config.id, r.keystore.myId, r.keystore.mySigningKey)

/-- A replica stays in its place as long as its membership and identity stay. -/
theorem Placed.congr [Ed25519] {allKeys : List (ReplicaId × Bytes)} {i : Nat} {r s : Replica σ}
    (h : r.Placed allKeys i) (hm : s.membership = r.membership) (hid : s.identity = r.identity) :
    s.Placed allKeys i := by
  simp only [identity, Prod.mk.injEq] at hid
  obtain ⟨hid, hmyId, hkey⟩ := hid
  have hpublic : s.keystore.publicKeys = r.keystore.publicKeys := congrArg Membership.publicKeys hm
  refine ⟨(congrArg Membership.n hm).trans h.size, hid.trans h.id,
    (congrArg Membership.activeValidators hm).trans h.validators, ?_⟩
  have hks : s.keystore = r.keystore := by
    cases hs : s.keystore
    cases hr : r.keystore
    rw [hs, hr] at hmyId hkey hpublic
    simp only at hmyId hkey hpublic
    rw [hmyId, hkey, hpublic]
  rw [hks]
  exact h.keystore

section Calls

variable [Ed25519] [Bincode LogEntry] [Crc32] [App σ]

theorem commitAll_identity (now : Nat) (r : Replica σ) :
    (r.commitAll now).identity = r.identity := by
  refine commitAll_field now r identity fun s block => ?_
  rw [executeAndCommit_eq]
  rfl

variable [Sha256]

/-- No call changes the identity of a replica. -/
theorem step_identity (r : Replica σ) (c : Nat × Call) : (r.step c).identity = r.identity := by
  obtain ⟨now, call⟩ := c
  cases call with
  | commitAll => exact commitAll_identity now r
  | _ => exact step_frame identity (by intros; rfl) r (by simp)

end Calls

/-- One replica keeps what another one had, apart from tree, certificate, votes and log file. -/
structure Keeps (r c : Replica σ) : Prop where
  view : c.currentView = r.currentView
  membership : c.membership = r.membership
  identity : c.identity = r.identity
  log : c.committedLog = r.committedLog

/-- The high certificate after a certificate was offered. -/
def newest (highQc offered : Option QuorumCert) : Option QuorumCert :=
  match offered, highQc with
  | some qc, some current => if newerQc qc current then some qc else some current
  | some qc, none => some qc
  | none, highQc => highQc

end Replica

namespace Simulation

variable {σ : Type}

section Learn

variable [Bincode LogEntry] [Crc32]

/-- A replica that learns of a certificate takes it if it is newer. -/
theorem learn_fields (now : Nat) (formed : Option QuorumCert) (r : Replica σ) :
    r.Keeps (learn now formed r) ∧ (learn now formed r).blockTree = r.blockTree ∧
      (learn now formed r).votePool = r.votePool ∧
      (learn now formed r).highQc = Replica.newest r.highQc formed := by
  cases formed with
  | none => exact ⟨⟨rfl, rfl, rfl, rfl⟩, rfl, rfl, rfl⟩
  | some qc =>
    have htake : ∀ s : Replica σ, s = { r with highQc := some qc }.record
          (.highQcUpdated qc.blockHash qc.view qc.epoch now) →
        r.Keeps s ∧ s.blockTree = r.blockTree ∧ s.votePool = r.votePool ∧ s.highQc = some qc := by
      rintro s rfl
      exact ⟨⟨rfl, rfl, rfl, rfl⟩, rfl, rfl, rfl⟩
    cases hq : r.highQc with
    | none =>
      have hlearn : learn now (some qc) r = { r with highQc := some qc }.record
          (.highQcUpdated qc.blockHash qc.view qc.epoch now) := by
        simp only [learn, Replica.applyHighQcFromNetwork, hq, if_true]
      exact htake _ hlearn
    | some current =>
      by_cases hnewer : Replica.newerQc qc current = true
      · have hlearn : learn now (some qc) r = { r with highQc := some qc }.record
            (.highQcUpdated qc.blockHash qc.view qc.epoch now) := by
          simp only [learn, Replica.applyHighQcFromNetwork, hq, hnewer, if_true]
        rw [Replica.newest, if_pos hnewer]
        exact htake _ hlearn
      · have hlearn : learn now (some qc) r = r := by
          simp only [learn, Replica.applyHighQcFromNetwork, hq, hnewer, if_false,
            Bool.false_eq_true]
        rw [Replica.newest, if_neg hnewer, hlearn]
        exact ⟨⟨rfl, rfl, rfl, rfl⟩, rfl, rfl, hq⟩

end Learn

section Close

variable [Ed25519] [Bincode LogEntry] [Crc32] [App σ]

/-- The end of a round, field by field. -/
theorem Closes.fields {now : Nat} {r r' : Replica σ} (h : Closes now r r') :
    r'.currentView = saturatingAdd r.currentView 1 ∧ r'.blockTree = r.blockTree ∧
      r'.highQc = r.highQc ∧ r'.votePool = OrdMap.empty ∧ r'.identity = r.identity ∧
      r'.membership = (r.commitAll now).membership ∧
      r'.committedLog = (r.commitAll now).committedLog := by
  obtain ⟨wal, counter, rfl⟩ := h
  refine ⟨?_, Replica.commitAll_blockTree now r, Replica.commitAll_highQc now r, rfl,
    Replica.commitAll_identity now r, rfl, rfl⟩
  show saturatingAdd (r.commitAll now).currentView 1 = _
  rw [Replica.commitAll_currentView]

end Close

/-- The timeout sweep crashes some of the unresponsive replicas. -/
theorem processTimeoutCrashes_eq (now : Nat) (sim : Simulation σ) :
    ∃ ids : List Nat, (∀ i ∈ ids, i ∈ sim.unresponsiveReplicas) ∧
      sim.processTimeoutCrashes now = ids.foldl (fun sim id =>
        match sim.crashReplica now id with
        | .ok sim => sim
        | .error _ => sim) sim := by
  refine ⟨_, fun i hi => ?_, rfl⟩
  have hi := (List.mem_filter.mp hi).2
  cases hr : sim.replicas[i]? with
  | none => simp [hr] at hi
  | some r =>
    simp only [hr, Bool.and_eq_true, decide_eq_true_eq] at hi
    exact hi.1.2

/-- The leader of a simulation is available and leads its view, and every available replica agrees
with it. -/
structure InStep (sim : Simulation σ) (leader : Replica σ) : Prop where
  leaderAt : sim.replicas[sim.currentLeader]? = some leader
  available : sim.available sim.currentLeader = true
  leads : leader.isLeader leader.currentView = true
  agrees : ∀ (j : Nat) r, sim.replicas[j]? = some r → sim.available j = true → r.Agrees leader

variable [Ed25519]

/-- A simulation between two rounds: every replica is in its place, no message is under way. -/
structure Staffed (allKeys : List (ReplicaId × Bytes)) (sim : Simulation σ) : Prop where
  count : sim.replicas.length = allKeys.length
  network : sim.network.numReplicas = allKeys.length
  quiet : sim.network.messageQueue = []
  crashed : ∀ i ∈ sim.crashedReplicas, i < allKeys.length
  duty : ∀ (i : Nat) r, sim.replicas[i]? = some r → r.OnDuty allKeys i

variable {allKeys : List (ReplicaId × Bytes)} {sim : Simulation σ} {leader : Replica σ}

/-- The block an in-step simulation proposes next. -/
def nextProposal (sim : Simulation σ) (leader : Replica σ) : Block :=
  leader.nextBlock leader.currentView sim.network.nextGlobalHash .noOp

/-- The simulation after the leader has proposed it. -/
def afterProposal (now : Nat) (sim : Simulation σ) (leader : Replica σ) : Simulation σ :=
  ({ sim with network := sim.network.generateUniqueHash.2 }.setReplica sim.currentLeader
    (leader.afterProposal now (sim.nextProposal leader) leader.nextHash
      leader.clientQueue)).markResponded sim.currentLeader

omit [Ed25519] in
theorem afterProposal_frame (now : Nat) (sim : Simulation σ) (leader : Replica σ) :
    (sim.afterProposal now leader).frame =
      { sim.frame with nextGlobalHash := sim.network.nextGlobalHash + 1 } := by
  simp only [afterProposal, markResponded, setReplica, frame, List.length_set,
    Network.generateUniqueHash]

omit [Ed25519] in
theorem afterProposal_available (now : Nat) (sim : Simulation σ) (leader : Replica σ) (j : Nat) :
    (sim.afterProposal now leader).available j = sim.available j := rfl

/-- A simulation in step with steps left opens its round with a proposal. -/
theorem Staffed.plainOpening_eq (h : Staffed allKeys sim) (hstep : sim.InStep leader)
    (hleft : sim.step < sim.maxSteps) (now : Nat) :
    plainOpening now sim =
      .proposed (sim.afterProposal now leader) sim.currentLeader (sim.nextProposal leader) := by
  have hlive : sim.crashedReplicas.card ≠ sim.replicas.length := by
    have hsub : sim.crashedReplicas ⊆ (Finset.range allKeys.length).erase sim.currentLeader := by
      intro i hi
      refine Finset.mem_erase.mpr ⟨?_, Finset.mem_range.mpr (h.crashed i hi)⟩
      rintro rfl
      exact not_crashed_of_available hstep.available hi
    have hlt : sim.currentLeader < allKeys.length :=
      h.count ▸ (List.getElem?_eq_some_iff.mp hstep.leaderAt).1
    have hcard := Finset.card_le_card hsub
    rw [Finset.card_erase_of_mem (Finset.mem_range.mpr hlt), Finset.card_range] at hcard
    rw [h.count]
    omega
  have hpropose : leader.proposeWithHash now leader.currentView sim.network.nextGlobalHash =
      (leader.afterProposal now (sim.nextProposal leader) leader.nextHash leader.clientQueue,
        some (sim.nextProposal leader)) := by
    rw [Replica.proposeWithHash, if_pos hstep.leads]
    rfl
  simp only [plainOpening, openRound]
  rw [if_neg (not_or.mpr ⟨not_le.mpr hleft, hlive⟩)]
  simp only [hstep.leaderAt, hstep.available, Bool.not_true, Bool.false_eq_true, if_false,
    Network.generateUniqueHash, hpropose]
  rfl

omit [Ed25519] in
/-- After the proposal the others are as they were. -/
theorem afterProposal_elsewhere (now : Nat) (sim : Simulation σ) (leader : Replica σ) {j : Nat}
    (hj : j ≠ sim.currentLeader) :
    (sim.afterProposal now leader).replicas[j]? = sim.replicas[j]? :=
  List.getElem?_set_ne (Ne.symm hj)

/-- What the certifying phases of a round start from. -/
theorem Staffed.proposed (h : Staffed allKeys sim) (hstep : sim.InStep leader) (now : Nat) :
    Proposed allKeys now sim.currentLeader leader (sim.nextProposal leader)
      (sim.afterProposal now leader) where
  count := (List.length_set ..).trans h.count
  network := h.network
  quiet := h.quiet
  available := hstep.available
  leads := hstep.leads
  leaderDuty := h.duty _ _ hstep.leaderAt
  built := ⟨_, _, rfl⟩
  proposer := ⟨_, _, List.getElem?_set_self (List.getElem?_eq_some_iff.mp hstep.leaderAt).1⟩
  duty j r hj hr := h.duty j r ((afterProposal_elsewhere now sim leader hj) ▸ hr)
  agrees j r hj hr ha := hstep.agrees j r ((afterProposal_elsewhere now sim leader hj) ▸ hr) ha

variable [Sha256] [LawfulEd25519] [Bincode LogEntry] [Crc32] {now leaderId : Nat} {block : Block}

/-- The high certificate of an available replica after the certifying phases. -/
def certifiedQc (sim : Simulation σ) (leaderId : Nat) (block : Block) (leader : Replica σ)
    (id : Nat) : Option QuorumCert :=
  if id = leaderId then (sim.outcome leaderId block leader).or leader.highQc
  else Replica.newest leader.highQc (sim.outcome leaderId block leader)

/-- The certifying phases, for an available replica. -/
theorem Proposed.certified_fields (hkeys : GeneratedKeys allKeys)
    (h : Proposed allKeys now leaderId leader block sim) {leader' : Replica σ}
    (hleader : sim.replicas[leaderId]? = some leader') {j : Nat} {r : Replica σ}
    (hr : sim.replicas[j]? = some r) (ha : sim.available j = true) :
    r.Keeps (sim.certified now leaderId block leader' j r) ∧
      (sim.certified now leaderId block leader' j r).highQc =
        sim.certifiedQc leaderId block leader j ∧
      (leader.Usable → (sim.certified now leaderId block leader' j r).blockTree =
        leader.blockTree.insert block.hash block) := by
  obtain ⟨nextHash, clientQueue, hproposer⟩ := h.proposer
  rw [hleader, Option.some.injEq] at hproposer
  subst hproposer
  obtain ⟨hformed, pool, wal, hcollect⟩ := h.collect_eq hkeys nextHash clientQueue
  by_cases hj : j = leaderId
  · subst hj
    rw [hleader, Option.some.injEq] at hr
    subst hr
    simp only [certified, certifiedQc, if_true, hcollect]
    exact ⟨⟨rfl, rfl, rfl, rfl⟩, trivial, fun _ => rfl⟩
  · obtain ⟨hash, command, hblock⟩ := h.built
    have hagrees := h.agrees j r hj hr ha
    have haccepts := Replica.acceptsProposal_iff_usable h.leaderDuty (h.duty j r hj hr) hagrees
      h.leads hash command
    rw [← hblock] at haccepts
    simp only [certified, certifiedQc, hj, if_false, hformed]
    obtain ⟨hkeeps, htree, -, hqc⟩ := learn_fields now (sim.outcome leaderId block leader)
      (r.validateAndInsertProposal now block).1
    rcases r.validateAndInsertProposal_cases now block with ⟨hacc, hv⟩ | ⟨hacc, hv⟩
    · rw [hv] at hkeeps htree hqc ⊢
      refine ⟨hkeeps, hqc.trans (by rw [hagrees.highQc]), fun husable => ?_⟩
      rw [haccepts.mpr husable] at hacc
      cases hacc
    · rw [hv] at hkeeps htree hqc ⊢
      refine ⟨⟨hkeeps.view, hkeeps.membership, hkeeps.identity, hkeeps.log⟩,
        hqc.trans (congrArg (Replica.newest · _) hagrees.highQc), fun _ => ?_⟩
      rw [htree, ← hagrees.tree]

variable [Bincode Snapshot] [App σ]

/-- The simulation at the end of a round that opens with a proposal. -/
def roundEnd (now : Nat) (sim : Simulation σ) (leader : Replica σ) : Simulation σ :=
  advanceViews now .commit true
    (commitPhase now (certifyPhases now sim.currentLeader false (sim.nextProposal leader)
      (sim.afterProposal now leader)).1)

omit [LawfulEd25519] in
/-- A round of a simulation in step with steps left. -/
theorem Staffed.runOneRound_eq (h : Staffed allKeys sim) (hstep : sim.InStep leader)
    (hleft : sim.step < sim.maxSteps) {before : Simulation σ}
    (hbefore : before.roundStart now = sim) :
    before.runOneRound now =
      ((sim.roundEnd now leader).bumpStep.processTimeoutCrashes now, true) := by
  simp only [runOneRound, hbefore, h.plainOpening_eq hstep hleft]
  rfl

/-- The end of a round, replica by replica: every available replica keeps what it had, has the
certificate of the round if that is newer, commits and moves on. -/
theorem Staffed.roundEnd_visits (hkeys : GeneratedKeys allKeys) (h : Staffed allKeys sim)
    (hstep : sim.InStep leader) (now : Nat) :
    (sim.roundEnd now leader).frame = (sim.afterProposal now leader).frame ∧
      (sim.roundEnd now leader).network.messageQueue = [] ∧
      ∀ j r, sim.replicas[j]? = some r →
        ∃ r', (sim.roundEnd now leader).replicas[j]? = some r' ∧
          if sim.available j = true then
            ∃ c, r.Keeps c ∧
              c.highQc = (sim.afterProposal now leader).certifiedQc sim.currentLeader
                (sim.nextProposal leader) leader j ∧
              (leader.Usable → c.blockTree =
                leader.blockTree.insert (sim.nextProposal leader).hash (sim.nextProposal leader)) ∧
              Closes now c r'
          else r' = r := by
  have hproposed := h.proposed hstep now
  obtain ⟨nextHash, clientQueue, hproposer⟩ := hproposed.proposer
  obtain ⟨hframe, hqueue, -, hcertified⟩ := certifyPhases_visits now false _ hproposed.quiet
    (hproposed.network.trans hproposed.count.symm) hproposer hproposed.available
  obtain ⟨hclose, hend⟩ := close_visits now (certifyPhases now sim.currentLeader false
    (sim.nextProposal leader) (sim.afterProposal now leader)).1
  refine ⟨hclose.trans hframe, ?_, fun j r hr => ?_⟩
  · rw [roundEnd, advanceViews_network, commitPhase_network]
    exact hqueue
  · -- the replica after the proposal
    have hafter : ∃ r₁, (sim.afterProposal now leader).replicas[j]? = some r₁ ∧ r.Keeps r₁ ∧
        (j ≠ sim.currentLeader → r₁ = r) := by
      by_cases hj : j = sim.currentLeader
      · subst hj
        rw [hstep.leaderAt, Option.some.injEq] at hr
        subst hr
        exact ⟨_, hproposer, ⟨rfl, rfl, rfl, rfl⟩, fun hne => absurd rfl hne⟩
      · exact ⟨r, (afterProposal_elsewhere now sim leader hj).trans hr, ⟨rfl, rfl, rfl, rfl⟩,
          fun _ => rfl⟩
    obtain ⟨r₁, hr₁, hkeeps₁, hsame⟩ := hafter
    obtain ⟨r', hr', hG⟩ := hend j _ (hcertified j r₁ hr₁)
    rw [available_congr hframe, afterProposal_available] at hG
    refine ⟨r', hr', ?_⟩
    cases ha : sim.available j with
    | false =>
      have hj : j ≠ sim.currentLeader := by
        rintro rfl
        rw [hstep.available] at ha
        cases ha
      rw [ha, if_neg Bool.false_ne_true, if_neg Bool.false_ne_true] at hG
      rw [if_neg Bool.false_ne_true, hG]
      exact hsame hj
    | true =>
      rw [ha, if_pos rfl, if_pos rfl] at hG
      rw [if_pos rfl]
      obtain ⟨hkeeps, hqc, htree⟩ := hproposed.certified_fields hkeys hproposer hr₁ ha
      exact ⟨_, ⟨hkeeps.view.trans hkeeps₁.view, hkeeps.membership.trans hkeeps₁.membership,
        hkeeps.identity.trans hkeeps₁.identity, hkeeps.log.trans hkeeps₁.log⟩, hqc, htree, hG⟩

end Simulation

end PersistHotStuff
