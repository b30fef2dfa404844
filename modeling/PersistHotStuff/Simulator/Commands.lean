import PersistHotStuff.Simulator.Custody
import PersistHotStuff.Simulator.Synchrony
import PersistHotStuff.Simulator.TraceRule

/-!
# Client commands in a run

A round under the pacemaker in which nobody crashes advances the clock, lets the
leader propose and collects the votes. A run whose rounds all secure the
commands keeps account of every command that was ever enqueued.
-/

namespace PersistHotStuff

open Basis

namespace Simulation

section Round

variable {σ : Type} [Ed25519] [Sha256] [Bincode LogEntry] [Bincode Snapshot] [Crc32] [App σ]
  {sim : Simulation σ}

omit [Ed25519] [Sha256] [Bincode LogEntry] [Bincode Snapshot] [Crc32] [App σ] in
/-- The start of a round that crashes nobody advances the clock only. -/
theorem roundStart_of_calm {now : Nat} (hcalm : (sim.roundStart now).crashedReplicas = ∅) :
    sim.roundStart now = sim.advanceSimulatedTime :=
  processTimeoutCrashes_of_calm hcalm

/-- What comes after the start of a round crashes nobody. -/
theorem crashed_rule (ids : Finset Nat) :
    RoundRule fun sim : Simulation σ => sim.crashedReplicas = ids :=
  ⟨fun _ _ _ _ h _ _ => h, fun _ _ _ _ _ h _ _ _ => h, fun _ _ h => h, fun _ _ h _ => h⟩

theorem crashed_runOneRoundWithPacemaker (now : Nat) (sim : Simulation σ) :
    (sim.runOneRoundWithPacemaker now).1.crashedReplicas =
      (sim.roundStart now).crashedReplicas := by
  have hrule := crashed_rule (σ := σ) (sim.roundStart now).crashedReplicas
  exact runOneRoundWithPacemaker_closes
    (I := fun s : Simulation σ => s.crashedReplicas = (sim.roundStart now).crashedReplicas)
    (J := fun s : Simulation σ => s.crashedReplicas = (sim.roundStart now).crashedReplicas)
    (fun s reason responds hs => hrule.advanceViews hs now reason responds) (fun _ hs => hs) sim
    (fun _ => rfl) fun _ => hrule.ruleFor.simAfter rfl (openRound_opens now .proposeNextWithHash _)
      (fun _ _ _ _ => trivial) (fun _ _ _ _ => trivial) true

/-- Whatever leader proposes in a round under the pacemaker, its commands are secured. -/
def SecuresRound (sim : Simulation σ) (now : Nat) : Prop :=
  ∀ leader ∈ sim.replicas[sim.currentLeader]?, sim.step < sim.maxSteps →
    sim.available sim.currentLeader = true →
    leader.proposes now leader.currentView
      (.proposeNextWithHash sim.network.nextGlobalHash) = true → sim.Secured leader

omit [Bincode LogEntry] [Bincode Snapshot] [Crc32] [App σ] in
theorem SecuresRound.advanceSimulatedTime {now : Nat} (h : sim.SecuresRound now) :
    sim.advanceSimulatedTime.SecuresRound now := by
  intro leader hr hsteps ha hproposes
  obtain ⟨hunused, hbacked, hextended⟩ := h leader hr hsteps ha hproposes
  exact ⟨hunused, hbacked, hextended⟩

/-- Once the clock has advanced, a secured round keeps account of every command. -/
theorem AccountsFor.simAfter {id : Nat} {cmd : ConsensusCommand}
    (hbefore : sim.AccountsFor id cmd) {now : Nat} (hquiet : sim.network.messageQueue = [])
    (hcount : sim.network.numReplicas = sim.replicas.length)
    (hpools : ∀ r ∈ sim.replicas, r.PoolsKnown) (hsecures : sim.SecuresRound now)
    {opening : Opening σ} (hopen : Opens now .proposeNextWithHash sim opening)
    (hsteps : opening ≠ .finished → sim.step < sim.maxSteps) :
    (sim.simAfter now true opening).AccountsFor id cmd := by
  cases hopen with
  | finished => exact hbefore
  | leaderless => exact hbefore
  | @silent leader hr ha hins =>
    refine hbefore.retain fun i r hi => ?_
    -- the leader has nothing to propose and stays as it is
    have hsame : leader.step (now, .propose (.proposeNextWithHash sim.network.nextGlobalHash)
        leader.currentView) = leader := by
      simp only [Replica.inserted, Replica.step, Replica.proposeBy_eq] at hins ⊢
      split at hins
      · cases hins
      · next hno => rw [if_neg hno]
    refine ⟨r, ?_, .refl r⟩
    simp only [Simulation.simAfter, led, setReplica, hsame]
    by_cases he : sim.currentLeader = i
    · subst he
      rw [List.getElem?_set_self (List.getElem?_eq_some_iff.mp hr).1, ← hr, hi]
    · rw [List.getElem?_set_ne he, hi]
  | @proposed leader block hr ha hins =>
    simp only [Replica.inserted, Replica.proposeBy_snd] at hins
    split at hins
    · next hproposes =>
      cases hins
      have hsecured := hsecures leader hr (hsteps (by simp)) ha hproposes
      obtain ⟨formed, hvote⟩ := putToVote_proposed now true hquiet hcount hr ha hproposes
        hsecured.unused (hpools leader (List.mem_of_getElem? hr))
      exact hvote.accountsFor hr ha hsecured hbefore
    · cases hins

/-- A secured round in which nobody crashes keeps account of every command. -/
theorem AccountsFor.runOneRoundWithPacemaker {id : Nat} {cmd : ConsensusCommand}
    (hbefore : sim.AccountsFor id cmd) {now : Nat} (hquiet : sim.network.messageQueue = [])
    (hcount : sim.network.numReplicas = sim.replicas.length)
    (hpools : ∀ r ∈ sim.replicas, r.PoolsKnown)
    (hcalm : (sim.runOneRoundWithPacemaker now).1.crashedReplicas = ∅)
    (hsecures : sim.SecuresRound now) :
    (sim.runOneRoundWithPacemaker now).1.AccountsFor id cmd := by
  rw [crashed_runOneRoundWithPacemaker] at hcalm
  have hstart := roundStart_of_calm hcalm
  have hclock : sim.advanceSimulatedTime.AccountsFor id cmd := hbefore
  refine runOneRoundWithPacemaker_closes (I := fun s : Simulation σ => s.AccountsFor id cmd)
    (J := fun s : Simulation σ => s.AccountsFor id cmd)
    (fun s reason responds hs => hs.retain (retainsAll_advanceViews now reason responds s))
    (fun _ hs => hs) sim (fun _ => hstart ▸ hclock) fun hgoes => ?_
  rw [hstart] at hgoes ⊢
  exact hclock.simAfter hquiet hcount hpools hsecures.advanceSimulatedTime
    (openRound_opens now .proposeNextWithHash _) fun _ => step_lt_of_openRound hgoes

end Round

section Pools

variable {σ : Type} [Ed25519] [Sha256] [Bincode LogEntry] [Bincode Snapshot] [Crc32] [App σ]
  {sim : Simulation σ}

omit [Ed25519] [Sha256] [Bincode LogEntry] [Bincode Snapshot] [Crc32] [App σ] in
theorem poolsKnown_freshReplica (now : Nat) (config : Config) (keystore : KeyStore) :
    (freshReplica (σ := σ) now config keystore).PoolsKnown := by
  refine Replica.poolsKnown_of_empty ?_
  simp only [freshReplica, Replica.ensureDefaultValidators]
  split <;> rfl

/-- Whatever arises pools votes for known blocks only. -/
theorem Arises.poolsKnown (h : Arises sim) : ∀ (i : Nat) r, sim.replicas[i]? = some r →
    r.PoolsKnown := by
  induction h with
  | new now f maxSteps allKeys =>
    intro i r hr
    simp only [Simulation.new, start, List.getElem?_mapIdx, Option.map_eq_some_iff] at hr
    obtain ⟨ks, -, rfl⟩ := hr
    exact poolsKnown_freshReplica now _ ks
  | restart _ hrestarts =>
    obtain ⟨now, f, maxSteps, allKeys, dirs, -, -, hok⟩ := hrestarts
    obtain ⟨replicas, rfl, -, hslots⟩ := newWithPersistence_slots hok
    intro i r hr
    obtain ⟨ks, dir, -, -, hopened⟩ := hslots i r hr
    exact Replica.poolsKnown_of_empty (openReplica_fields hopened).2.2
  | step op _ ih =>
    have hrule := traceRule_of_seats (σ := σ) (P := fun _ r => r.PoolsKnown)
      (fun _ _ c hr => hr.step c) (fun _ _ _ _ hr => hr)
      (fun _ r now keystore _ => poolsKnown_freshReplica now r.config keystore)
      fun _ _ now _ dir opened others _ hopened => Replica.poolsKnown_of_empty
        (rejoin_fields now others (openReplica_fields hopened).2.2 dir).2.2
    exact hrule.step ih op

/-- No operation adds or removes replicas. -/
theorem length_rule (n : Nat) : TraceRule fun sim : Simulation σ => sim.replicas.length = n where
  call _ _ _ _ h _ _ := (List.length_set ..).trans h
  snapshot _ _ _ _ _ h _ _ _ := (List.length_set ..).trans h
  respond _ _ h := h
  network _ _ h _ := h
  clock _ h := h
  bump _ h := h
  crash now sim id sim' h hok := by
    obtain ⟨r, keystore, -, -, -, -, rfl⟩ := crashReplica_ok_iff.mp hok
    exact (List.length_set ..).trans h
  recover now sim id sim' h hok := by
    obtain ⟨r, keystore, dir, opened, -, -, -, -, -, -, rfl⟩ := recoverReplica_ok_iff.mp hok
    exact (List.length_set ..).trans h
  interrupt sim id unresponsive sim' h hok := by
    obtain ⟨-, -, rfl⟩ := setReplicaUnresponsive_ok_iff.mp hok
    cases unresponsive <;> exact h
  configure now sim call replicas h hlen _ := hlen.trans h

end Pools

end Simulation

/-- Whether an operation is a round under the pacemaker, a new client command, an interruption or a
change of the dummy setting. -/
def SimulationOp.isClientRun : SimulationOp → Bool
  | runOneRoundWithPacemaker => true
  | enqueueClientCommand _ => true
  | enableDummyProposals _ => true
  | disableDummyProposals => true
  | setReplicaUnresponsive _ _ => true
  | _ => false

namespace Trace

section Commands

variable {σ : Type} [Ed25519] [Sha256] [Bincode LogEntry] [Bincode Snapshot] [Crc32] [App σ]
  {t : Trace σ} {id : Nat} {cmd : ConsensusCommand}

omit [Ed25519] [Sha256] [Bincode LogEntry] [Bincode Snapshot] [Crc32] [App σ] in
/-- The command an operation enqueues, with the replica it is enqueued on. -/
def enqueued (t : Trace σ) (op : Nat × SimulationOp) : List (Nat × ConsensusCommand) :=
  match op.2 with
  | .enqueueClientCommand cmd => [(t.sim.currentLeader, cmd)]
  | _ => []

/-- A round proposes no command that it does not secure. -/
def Secures (t : Trace σ) (op : Nat × SimulationOp) : Prop :=
  op.2 = .runOneRoundWithPacemaker → t.sim.SecuresRound op.1

/-- No replica is crashed. -/
def Calm (t : Trace σ) : Prop := t.sim.crashedReplicas = ∅

omit [Bincode Snapshot] in
/-- A setting loses no command. -/
theorem retains_setting {op : SimulationOp} {call : Call} (h : op.setting = some call) (now : Nat)
    (r : Replica σ) : Replica.Retains r (r.step (now, call)) := by
  cases op <;> cases h
  · exact ⟨⟨fun _ _ => id, List.Subset.refl _⟩, List.subset_append_left .., rfl⟩
  · exact ⟨⟨fun _ _ => id, List.Subset.refl _⟩, List.Subset.refl _, rfl⟩
  · exact ⟨⟨fun _ _ => id, List.Subset.refl _⟩, List.Subset.refl _, rfl⟩

/-- A command that is enqueued waits in the queue of the leader. -/
theorem accountsFor_enqueued (hpos : 0 < t.sim.replicas.length) {op : Nat × SimulationOp}
    {p : Nat × ConsensusCommand} (hp : p ∈ t.enqueued op) :
    (t.step op).sim.AccountsFor p.1 p.2 := by
  obtain ⟨now, op⟩ := op
  cases op with
  | enqueueClientCommand cmd =>
    obtain rfl := List.mem_singleton.mp hp
    have hlt := Simulation.currentLeader_lt hpos
    have hr := List.getElem?_eq_getElem hlt
    refine .inl ⟨(t.sim.replicas[t.sim.currentLeader]).enqueueCommand cmd, ?_,
      List.mem_append_right _ (List.mem_singleton_self cmd)⟩
    show (t.sim.replicas.modify _ _)[_]? = _
    rw [List.getElem?_modify_eq, hr]
    rfl
  | _ => cases hp

variable [LawfulBincode LogEntry] [StrictBincode LogEntry] [LawfulBincode Snapshot]

/-- One operation keeps account of every command. -/
theorem accountsFor_step (harises : t.sim.Arises) {op : Nat × SimulationOp}
    (hop : op.2.isClientRun = true) (hcalm : (t.step op).Calm) (hsecures : t.Secures op)
    (hbefore : t.sim.AccountsFor id cmd) : (t.step op).sim.AccountsFor id cmd := by
  obtain ⟨now, op⟩ := op
  have hdoes := t.step_does now op
  rw [Calm] at hcalm
  generalize (t.step (now, op)).sim = sim' at hdoes hcalm ⊢
  cases hdoes with
  | runOneRound => cases hop
  | runOneRoundWithPacemaker =>
    obtain ⟨old, maxSteps, blocks, hminted⟩ := harises.minted
    refine hbefore.runOneRoundWithPacemaker hminted.quiet hminted.count (fun r hr => ?_) hcalm
      (hsecures rfl)
    obtain ⟨i, hi⟩ := List.mem_iff_getElem?.mp hr
    exact harises.poolsKnown i r hi
  | configured hsetting hlen hreplicas =>
    refine hbefore.retain fun i r hr => ?_
    have hlt := (List.getElem?_eq_some_iff.mp hr).1
    obtain ⟨s, hs, hcase⟩ := hreplicas i _ (List.getElem?_eq_getElem (hlen ▸ hlt))
    obtain rfl : r = s := Option.some.inj (hr.symm.trans hs)
    refine ⟨_, List.getElem?_eq_getElem (hlen ▸ hlt), ?_⟩
    rcases hcase with he | he
    · rw [he]
      exact .refl r
    · rw [he]
      exact retains_setting hsetting now r
  | interrupted hok =>
    obtain ⟨-, -, rfl⟩ := Simulation.setReplicaUnresponsive_ok_iff.mp hok
    refine hbefore.retain (Simulation.retainsAll_of_eq ?_)
    split <;> rfl
  | crashed hok => cases hop
  | recovered hok => cases hop
  | refused _ => exact hbefore

/-- In a run whose rounds secure the commands, and in which nobody crashes, every command enqueued
so far is accounted for whenever the run is stopped. -/
theorem accountsFor_run (harises : t.sim.Arises) (hpos : 0 < t.sim.replicas.length)
    {ops : List (Nat × SimulationOp)} (hops : ∀ op ∈ ops, op.2.isClientRun = true)
    (hcalm : Throughout step Calm t ops) (hsecures : Along step Secures t ops) :
    ∀ pre, pre <+: ops → ∀ p ∈ outputs step enqueued t pre,
      (run step t pre).sim.AccountsFor p.1 p.2 := by
  have halong : Along step (fun t op => op.2.isClientRun = true ∧ (t.step op).Calm ∧ t.Secures op)
      t ops := by
    rw [along_and, along_and]
    exact ⟨along_of_mem (fun op hop _ => hops op hop) t, (throughout_iff_after.mp hcalm).2,
      hsecures⟩
  intro pre hpre
  refine outputs_invariant
    (I := fun s : Trace σ => s.sim.Arises ∧ s.sim.replicas.length = t.sim.replicas.length)
    (Q := fun (p : Nat × ConsensusCommand) (s : Trace σ) => s.sim.AccountsFor p.1 p.2)
    (fun s op hs _ => ⟨.step op hs.1, (Simulation.length_rule _).step hs.2 op⟩)
    (fun s op hs _ p hp => accountsFor_enqueued (hs.2 ▸ hpos) hp)
    (fun s op p hs hc hp => accountsFor_step hs.1 hc.1 hc.2.1 hc.2.2 hp) ⟨harises, rfl⟩
    (halong.initial hpre)

end Commands

instance {σ : Type} (t : Trace σ) : Decidable t.Calm :=
  inferInstanceAs (Decidable (t.sim.crashedReplicas = ∅))

section Samples

open Sample SimulationOp

/-- Four sample replicas that propose dummies at once. -/
def fourDummies : Trace NoOpApp := fourVolatile.step (0, enableDummyProposals 0)

/-- A client command and two rounds. -/
def servedOps : List (Nat × SimulationOp) :=
  [(1, enqueueClientCommand (.clientTx "SET key value")), (1, runOneRoundWithPacemaker),
    (2, runOneRoundWithPacemaker)]

/-- With everyone there the command is proposed, certified and extended. -/
theorem accountsFor_served :
    (run step fourDummies servedOps).sim.AccountsFor 0 (.clientTx "SET key value") := by
  have hconcerted : Along step (fun t op => op.2 = runOneRoundWithPacemaker →
      ∀ leader ∈ t.sim.replicas[t.sim.currentLeader]?, t.sim.Concerted leader)
      fourDummies servedOps := by decide +kernel
  have hsecures : Along step Secures fourDummies servedOps :=
    hconcerted.mono fun t op h hround leader hr _ _ _ => (h hround leader hr).secured
  exact accountsFor_run (.step _ fourVolatile_start.starting.arises) (by decide +kernel)
    (by decide +kernel) (throughout_iff_after.mpr (by decide +kernel)) hsecures servedOps
    (List.prefix_refl _) (0, .clientTx "SET key value") (by decide +kernel)

/-- One replica does not respond while a command is proposed. -/
def droppedOps : List (Nat × SimulationOp) :=
  [(1, setReplicaUnresponsive 3 true), (1, enqueueClientCommand (.clientTx "SET key value")),
    (1, runOneRoundWithPacemaker)]

/-- The block gets two votes, and its command is nowhere. -/
theorem command_dropped : ∃ t : Trace NoOpApp, t.sim.Arises ∧ t.sim.replicas.length = 3 * 1 + 1 ∧
    (∀ r ∈ t.sim.replicas, r.dummyProposalEnabled = true) ∧ ∃ ops,
      (∀ op ∈ ops, op.2.isClientRun = true) ∧
      Throughout step (fun t => t.Calm ∧ t.sim.unresponsiveReplicas.card ≤ 1) t ops ∧
      ∃ p ∈ outputs step enqueued t ops, ¬ (run step t ops).sim.AccountsFor p.1 p.2 := by
  refine ⟨fourDummies, .step _ fourVolatile_start.starting.arises, by decide +kernel,
    by decide +kernel, droppedOps, by decide +kernel, throughout_iff_after.mpr (by decide +kernel),
    (0, .clientTx "SET key value"), by decide +kernel, ?_⟩
  have hnowhere : ∀ r ∈ (run step fourDummies droppedOps).sim.replicas,
      r.clientQueue = [] ∧ r.highQc = none ∧ r.committedLog = [] := by decide +kernel
  rintro (⟨r, hr, hwaits⟩ | ⟨r, hr, qc, hqc, -⟩ | ⟨r, hr, block, hblock, -⟩)
  · rw [(hnowhere r (List.mem_of_getElem? hr)).1] at hwaits
    cases hwaits
  · rw [(hnowhere r hr).2.1] at hqc
    cases hqc
  · rw [(hnowhere r hr).2.2] at hblock
    cases hblock

end Samples

end Trace

end PersistHotStuff
