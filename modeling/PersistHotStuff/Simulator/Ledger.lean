import PersistHotStuff.Simulator.Minting
import PersistHotStuff.Simulator.TraceRule

/-!
# What is kept relative to the blocks proposed

Some properties of a simulation hold relative to the blocks that have been
proposed in it: a tree or a directory holds nothing else. Every operation keeps
such a property relative to the blocks proposed by then.
-/

namespace PersistHotStuff

open Basis

namespace Simulation

variable {σ : Type} [Ed25519] [Sha256] [Bincode LogEntry] [Bincode Snapshot] [Crc32] [App σ]

/-- A property of simulations relative to the blocks proposed so far that every step of a round
keeps, as long as only such blocks are inserted, and every operation between rounds. -/
structure LedgerRule (I : List Block → Simulation σ → Prop) : Prop where
  mono : ∀ {blocks more : List Block} {sim}, (∀ b ∈ blocks, b ∈ more) → I blocks sim → I more sim
  rule : ∀ blocks, RuleFor (fun b => b ∈ blocks) (I blocks)
  clock : ∀ blocks sim, I blocks sim → I blocks sim.advanceSimulatedTime
  bump : ∀ blocks sim, I blocks sim → I blocks sim.bumpStep
  crash : ∀ blocks now sim id sim', I blocks sim → sim.crashReplica now id = .ok sim' →
    I blocks sim'
  recover : ∀ blocks now sim id sim', I blocks sim → sim.recoverReplica now id = .ok sim' →
    I blocks sim'
  interrupt : ∀ blocks sim id unresponsive sim', I blocks sim →
    sim.setReplicaUnresponsive id unresponsive = .ok sim' → I blocks sim'
  configure : ∀ blocks now sim call replicas, I blocks sim →
    (∀ r : Replica σ, r.inserted (now, call) = none) →
    (∀ (i : Nat) r', replicas[i]? = some r' →
      ∃ r, sim.replicas[i]? = some r ∧ (r' = r ∨ r' = r.step (now, call))) →
    I blocks { sim with replicas := replicas }

namespace LedgerRule

variable {I : List Block → Simulation σ → Prop} {blocks : List Block} {sim : Simulation σ}

theorem sweep (h : LedgerRule I) (hI : I blocks sim) (now : Nat) :
    I blocks (sim.processTimeoutCrashes now) :=
  processTimeoutCrashes_preserves (I := I blocks)
    (fun s id s' hs hok => h.crash blocks now s id s' hs hok) hI

/-- A round up to its last view change, relative to the history after it. -/
theorem simAfter (h : LedgerRule I) {history : History} (hI : I history.blocks sim)
    (hquiet : sim.network.messageQueue = []) {now : Nat} {how : Hash → ProposeCall}
    {opening : Opening σ} (hopen : Opens now how sim opening) (always : Bool) :
    I (historyAfter history now always opening).blocks (sim.simAfter now always opening) := by
  refine (h.rule _).simAfter (h.mono (le_historyAfter ..).blocks hI) hopen ?_ ?_ always
  · rintro s leaderId block rfl
    exact List.mem_append_right _ (List.mem_singleton_self _)
  · rw [hquiet]
    exact fun _ _ _ hnone => absurd hnone List.not_mem_nil

/-- Every operation keeps what the rule keeps. -/
theorem step (h : LedgerRule I) {t : Trace σ} (hI : I t.history.blocks t.sim)
    (hquiet : t.sim.network.messageQueue = []) (op : Nat × SimulationOp) :
    I (t.step op).history.blocks (t.step op).sim := by
  have hkept := h.mono (le_historyAfter t.history op.1 (Trace.always op) (t.opening op)).blocks hI
  have hstart : I t.history.blocks (t.sim.roundStart op.1) := h.sweep (h.clock _ _ hI) op.1
  have hquiet' : (t.sim.roundStart op.1).network.messageQueue = [] :=
    processTimeoutCrashes_preserves (I := fun s : Simulation σ => s.network.messageQueue = [])
      (fun s id s' hs hok => by
        have hsame : s'.network = s.network :=
          congrArg Surroundings.network (crashReplica_surroundings hok)
        rwa [hsame]) hquiet
  obtain ⟨now, op⟩ := op
  have hdoes := t.step_does now op
  generalize hsim : (t.step (now, op)).sim = sim' at hdoes ⊢
  cases hdoes with
  | runOneRound =>
    refine runOneRound_closes (I := I (t.step (now, .runOneRound)).history.blocks)
      (fun s reason responds hs => (h.rule _).advanceViews hs now reason responds)
      (fun s hs => h.sweep (h.bump _ s hs) now) t.sim (fun _ => ?_) fun _ => ?_
    · exact h.mono (le_historyAfter ..).blocks hstart
    · exact h.simAfter hstart hquiet' (openRound_opens now .proposeWithHash _) false
  | runOneRoundWithPacemaker =>
    refine runOneRoundWithPacemaker_closes
      (I := I (t.step (now, .runOneRoundWithPacemaker)).history.blocks)
      (fun s reason responds hs => (h.rule _).advanceViews hs now reason responds)
      (fun s hs => h.bump _ s hs) t.sim (fun _ => ?_) fun _ => ?_
    · exact h.mono (le_historyAfter ..).blocks hstart
    · exact h.simAfter hstart hquiet' (openRound_opens now .proposeNextWithHash _) true
  | configured hsetting _ hreplicas =>
    exact h.configure _ now _ _ _ hkept
      (fun r => (SimulationOp.setting_quiet hsetting now r).1) hreplicas
  | interrupted hok => exact h.interrupt _ _ _ _ _ hkept hok
  | crashed hok => exact h.crash _ now _ _ _ hkept hok
  | recovered hok => exact h.recover _ now _ _ _ hkept hok
  | refused _ => exact hkept

end LedgerRule

end Simulation

end PersistHotStuff
