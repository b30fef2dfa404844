import PersistHotStuff.Simulator.FaultFree
import PersistHotStuff.Simulator.Integrity

/-!
# Rounds in which the leader may propose

Both kinds of rounds ask the leader to propose, each in its own way. If it does,
the round certifies the block, commits and moves on; if not, it only moves on.
-/

namespace PersistHotStuff

open Basis

/-- A command that changes nothing in a membership of the first `n` validators. -/
def Inert [Ed25519] (n : Nat) (command : ConsensusCommand) : Prop :=
  Membership.effective ⟨defaultValidators n, 0, n, Membership.faults n, OrdMap.empty⟩ command =
    false

instance [Ed25519] (n : Nat) : DecidablePred (Inert n) := fun _ =>
  inferInstanceAs (Decidable (_ = _))

/-- Whether a command changes the membership depends on the validators alone. -/
theorem Inert.not_effective [Ed25519] {n : Nat} {command : ConsensusCommand} (h : Inert n command)
    {m : Membership} (hm : m.activeValidators = defaultValidators n) :
    m.effective command = false := by
  rw [← h]
  cases command <;> simp only [Membership.effective, hm]

namespace Replica

variable {σ : Type} [Ed25519] [Sha256] [Bincode LogEntry] [Crc32] [App σ] {r : Replica σ}
  {now view : Nat} {how : ProposeCall}

/-- A replica asked to propose inserts its next block or stays as it is. -/
theorem step_propose_cases (now : Nat) (r : Replica σ) (view : Nat) (how : ProposeCall) :
    (r.proposes now view how = true ∧
        r.inserted (now, .propose how view) =
          some (r.nextBlock view (r.proposedHash how) (r.proposedCommand how)) ∧
        r.step (now, .propose how view) =
          r.afterProposal now (r.nextBlock view (r.proposedHash how) (r.proposedCommand how))
            (r.nextHashAfter how) (r.queueAfter how)) ∨
      r.proposes now view how = false ∧ r.inserted (now, .propose how view) = none ∧
        r.step (now, .propose how view) = r := by
  simp only [inserted, step, proposeBy_eq]
  cases r.proposes now view how with
  | true => exact Or.inl ⟨rfl, rfl, rfl⟩
  | false => exact Or.inr ⟨rfl, rfl, rfl⟩

omit [Ed25519] [Sha256] [Bincode LogEntry] [Crc32] [App σ] in
theorem Keeps.refl (r : Replica σ) : r.Keeps r := ⟨rfl, rfl, rfl, rfl⟩

omit [Ed25519] [Sha256] [Bincode LogEntry] [Crc32] [App σ] in
theorem Keeps.trans {r s c : Replica σ} (h : r.Keeps s) (h' : s.Keeps c) : r.Keeps c :=
  ⟨h'.view.trans h.view, h'.membership.trans h.membership, h'.identity.trans h.identity,
    h'.log.trans h.log⟩

end Replica

namespace Simulation

variable {σ : Type} [Ed25519] {allKeys : List (ReplicaId × Bytes)} {sim : Simulation σ}
  {leader : Replica σ}

section Proposing

variable [Sha256] [Bincode LogEntry] [Crc32] [App σ]

/-- A simulation in step with steps left opens its round with what its leader proposes. -/
theorem Staffed.openRound_eq (h : Staffed allKeys sim) (hstep : sim.InStep leader)
    (hleft : sim.step < sim.maxSteps) (now : Nat) (how : Hash → ProposeCall) :
    openRound (fun leader view hash => leader.proposeBy now view (how hash)) sim =
      match leader.inserted (now, .propose (how sim.network.nextGlobalHash) leader.currentView) with
      | some block => .proposed ((sim.led now how leader).markResponded sim.currentLeader)
          sim.currentLeader block
      | none => .silent (sim.led now how leader) := by
  have hlive : sim.crashedReplicas.card ≠ sim.replicas.length := by
    have hsub : sim.crashedReplicas ⊆ (Finset.range allKeys.length).erase sim.currentLeader := by
      intro i hi
      refine Finset.mem_erase.mpr ⟨?_, Finset.mem_range.mpr (h.crashed i hi)⟩
      rintro rfl
      exact not_crashed_of_available hstep.available hi
    have hlt : sim.currentLeader < allKeys.length :=
      h.count ▸ (List.getElem?_eq_some_iff.mp hstep.leaderAt).1
    have hcard := Finset.card_le_card hsub
    rw [Finset.card_erase_of_mem (Finset.mem_range.mpr hlt), Finset.card_range] at hcard
    rw [h.count]
    omega
  simp only [openRound]
  rw [if_neg (not_or.mpr ⟨not_le.mpr hleft, hlive⟩)]
  simp only [hstep.leaderAt, hstep.available, Bool.not_true, Bool.false_eq_true, if_false,
    Network.generateUniqueHash]
  cases hp : leader.proposeBy now leader.currentView (how sim.network.nextGlobalHash) with
  | mk leader' proposal =>
    have hafter : leader.step (now, .propose (how sim.network.nextGlobalHash)
        leader.currentView) = leader' := congrArg Prod.fst hp
    have hins : leader.inserted (now, .propose (how sim.network.nextGlobalHash)
        leader.currentView) = proposal := congrArg Prod.snd hp
    rw [hins, led, hafter]
    cases proposal <;> rfl

omit [Sha256] [Bincode LogEntry] [Crc32] [App σ] in
/-- A simulation whose leader does not respond passes over its turn. -/
theorem Staffed.openRound_leaderless (h : Staffed allKeys sim) (hn : 0 < allKeys.length)
    (hcrashed : sim.crashedReplicas = ∅) (hlead : sim.currentLeader < allKeys.length)
    (ha : sim.available sim.currentLeader = false) (hleft : sim.step < sim.maxSteps)
    (proposeWith : Replica σ → Nat → Hash → Replica σ × Option Block) :
    openRound proposeWith sim = .leaderless := by
  have hlive : sim.crashedReplicas.card ≠ sim.replicas.length := by
    rw [hcrashed, h.count, Finset.card_empty]
    omega
  have hleader := List.getElem?_eq_getElem (h.count.symm ▸ hlead)
  simp only [openRound]
  rw [if_neg (not_or.mpr ⟨not_le.mpr hleft, hlive⟩), hleader]
  simp only [ha, Bool.not_false, if_true]

/-- What the certifying phases start from when the leader has proposed. -/
theorem Staffed.led_proposed (h : Staffed allKeys sim) (hstep : sim.InStep leader) {now : Nat}
    {how : Hash → ProposeCall} {block : Block}
    (hins : leader.inserted (now, .propose (how sim.network.nextGlobalHash) leader.currentView) =
      some block) :
    Proposed allKeys now sim.currentLeader leader block
      ((sim.led now how leader).markResponded sim.currentLeader) := by
  obtain ⟨hash, command, nextHash, clientQueue, rfl, hafter⟩ :
      ∃ hash command nextHash clientQueue,
        block = leader.nextBlock leader.currentView hash command ∧
          leader.step (now, .propose (how sim.network.nextGlobalHash) leader.currentView) =
            leader.afterProposal now block nextHash clientQueue := by
    rcases leader.step_propose_cases now leader.currentView (how sim.network.nextGlobalHash) with
      ⟨-, hblock, hafter⟩ | ⟨-, hnone, -⟩
    · rw [hins, Option.some.injEq] at hblock
      exact ⟨_, _, _, _, hblock, hblock ▸ hafter⟩
    · rw [hins] at hnone
      cases hnone
  have helsewhere : ∀ j, j ≠ sim.currentLeader →
      (sim.led now how leader).replicas[j]? = sim.replicas[j]? :=
    fun j hj => List.getElem?_set_ne (Ne.symm hj)
  exact {
    count := (List.length_set ..).trans h.count
    network := h.network
    quiet := h.quiet
    available := hstep.available
    leads := hstep.leads
    leaderDuty := h.duty _ _ hstep.leaderAt
    built := ⟨_, _, rfl⟩
    proposer := ⟨_, _,
      (List.getElem?_set_self (List.getElem?_eq_some_iff.mp hstep.leaderAt).1).trans
        (congrArg some hafter)⟩
    duty := fun j r hj hr => h.duty j r (helsewhere j hj ▸ hr)
    agrees := fun j r hj hr ha => hstep.agrees j r (helsewhere j hj ▸ hr) ha }

/-- The simulation right after the leader was asked to propose, seat by seat. -/
theorem led_seats (how : Hash → ProposeCall) (hstep : sim.InStep leader) (now : Nat) (i : Nat)
    (r : Replica σ) (hr : sim.replicas[i]? = some r) :
    ∃ s, (sim.led now how leader).replicas[i]? = some s ∧ r.Keeps s ∧
      (i ≠ sim.currentLeader → s = r) ∧
      s.clientQueue = if i = sim.currentLeader ∧ leader.proposes now leader.currentView
          (how sim.network.nextGlobalHash) = true
        then r.queueAfter (how sim.network.nextGlobalHash) else r.clientQueue := by
  by_cases hi : i = sim.currentLeader
  · subst hi
    obtain rfl : leader = r := Option.some.inj (hstep.leaderAt.symm.trans hr)
    refine ⟨_, List.getElem?_set_self (List.getElem?_eq_some_iff.mp hr).1, ?_⟩
    rcases leader.step_propose_cases now leader.currentView (how sim.network.nextGlobalHash) with
      ⟨hproposes, -, hafter⟩ | ⟨hsilent, -, hafter⟩
    · rw [hafter, if_pos ⟨rfl, hproposes⟩]
      exact ⟨⟨rfl, rfl, rfl, rfl⟩, fun hne => absurd rfl hne, rfl⟩
    · rw [hafter, hsilent]
      simp [Replica.Keeps.refl]
  · refine ⟨r, (List.getElem?_set_ne (Ne.symm hi)).trans hr, .refl r, fun _ => rfl, ?_⟩
    rw [if_neg fun hboth => hi hboth.1]

theorem led_frame (now : Nat) (how : Hash → ProposeCall) (sim : Simulation σ)
    (leader : Replica σ) : (sim.led now how leader).frame =
      { sim.frame with nextGlobalHash := sim.network.nextGlobalHash + 1 } := by
  simp only [led, setReplica, frame, List.length_set, Network.generateUniqueHash]

omit [Ed25519] [Sha256] [Bincode LogEntry] [Crc32] [App σ] in
/-- A proposal puts no command into the queue. -/
theorem queueAfter_subset (r : Replica σ) (how : ProposeCall) :
    r.queueAfter how ⊆ r.clientQueue := by
  intro cmd hcmd
  cases how with
  | proposeNext => exact List.mem_of_mem_dropLast hcmd
  | proposeNextWithHash uniqueHash => exact List.mem_of_mem_dropLast hcmd
  | _ => exact hcmd

variable [LawfulEd25519] [Bincode Snapshot] {now leaderId : Nat} {block : Block}

/-- The end of a round in which the leader has proposed, replica by replica. -/
theorem Proposed.close_visits (hkeys : GeneratedKeys allKeys)
    (h : Proposed allKeys now leaderId leader block sim) (always : Bool) {closed : Simulation σ}
    (hclosed : closed = advanceViews now .commit true
      (commitPhase now (certifyPhases now leaderId always block sim).1)) :
    closed.frame = sim.frame ∧ closed.network.messageQueue = [] ∧
      ∀ (j : Nat) r, sim.replicas[j]? = some r → ∃ r', closed.replicas[j]? = some r' ∧
        r'.clientQueue = r.clientQueue ∧
        if sim.available j = true then
          ∃ c, r.Keeps c ∧ c.highQc = sim.certifiedQc leaderId block leader j ∧
            (leader.Usable → c.blockTree = leader.blockTree.insert block.hash block) ∧
            Closes now c r'
        else r' = r := by
  obtain ⟨nextHash, clientQueue, hproposer⟩ := h.proposer
  obtain ⟨hframe, hqueue, -, hcertified⟩ := certifyPhases_visits now always block h.quiet
    (h.network.trans h.count.symm) hproposer h.available
  obtain ⟨hclose, hend⟩ := Simulation.close_visits now
    (certifyPhases now leaderId always block sim).1
  rw [hclosed]
  refine ⟨hclose.trans hframe, ?_, fun j r hr => ?_⟩
  · rw [advanceViews_network, commitPhase_network]
    exact hqueue
  · obtain ⟨r', hr', hG⟩ := hend j _ (hcertified j r hr)
    rw [available_congr hframe] at hG
    refine ⟨r', hr', ?_⟩
    cases ha : sim.available j with
    | false =>
      rw [ha, if_neg Bool.false_ne_true, if_neg Bool.false_ne_true] at hG
      exact ⟨congrArg Replica.clientQueue hG, by rw [if_neg Bool.false_ne_true, hG]⟩
    | true =>
      rw [ha, if_pos rfl, if_pos rfl] at hG
      rw [if_pos rfl]
      obtain ⟨hkeeps, hqc, htree⟩ := h.certified_fields hkeys hproposer hr ha
      refine ⟨hG.clientQueue.trans (clientQueue_certified now block fun he => ?_), _, hkeeps, hqc,
        htree, hG⟩
      subst he
      exact Option.some.inj (hr.symm.trans hproposer)

end Proposing

end Simulation

end PersistHotStuff
