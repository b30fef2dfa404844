import Mathlib.Logic.Function.Basic
import PersistHotStuff.Simulator.FreshHash
import PersistHotStuff.Simulator.Sweep
import PersistHotStuff.Simulator.TraceRule

/-!
# Detection of crashes

The sweep reckons from the last response of an unresponsive replica. That is the
time for which it has been unresponsive as long as every replica that is marked
has responded just then. Rounds that end early, and pacemaker rounds without a
proposal, leave the available replicas without a response.
-/

namespace PersistHotStuff

open Basis

/-- The timeout of a replica is configured once. -/
theorem Replica.step_timeoutMs {σ : Type} [Ed25519] [Sha256] [Bincode LogEntry] [Crc32] [App σ]
    (r : Replica σ) (c : Nat × Call) : (r.step c).timeoutMs = r.timeoutMs := by
  obtain ⟨now, call⟩ := c
  cases call with
  | commitAll =>
    refine commitAll_field now r timeoutMs fun s block => ?_
    rw [executeAndCommit_eq]
    rfl
  | _ => exact step_frame timeoutMs (by intros; rfl) r (by simp)

namespace Simulation

section Turn

variable {σ : Type}

/-- Within a round: replicas keep their timeouts while they live, an unresponsive replica has
responded at the given time at the earliest, and the replicas crashed since have been unresponsive
for their timeout. -/
structure Watched (before : Simulation σ) (since : Nat → Nat) (sim : Simulation σ) : Prop where
  clock : sim.simulatedTimeMs ≤ 2 ^ 128 - 1
  started : ∀ i, since i ≤ sim.simulatedTimeMs
  heard : ∀ i ∈ sim.unresponsiveReplicas, since i ≤ (sim.lastResponseMs[i]?).getD 0
  marked : sim.unresponsiveReplicas ⊆ before.unresponsiveReplicas
  timeouts : ∀ i, i ∉ sim.crashedReplicas →
    (sim.replicas[i]?).map Replica.timeoutMs = (before.replicas[i]?).map Replica.timeoutMs
  due : ∀ (i : Nat) r, before.replicas[i]? = some r → i ∉ before.crashedReplicas →
    i ∈ sim.crashedReplicas → i ∈ before.unresponsiveReplicas ∧
      since i + r.timeoutMs ≤ sim.simulatedTimeMs

variable {before sim : Simulation σ} {since : Nat → Nat}

/-- A replica with the same timeout. -/
theorem Watched.setReplica (h : Watched before since sim) {i : Nat} {r r' : Replica σ}
    (hr : sim.replicas[i]? = some r) (htimeout : r'.timeoutMs = r.timeoutMs) :
    Watched before since (sim.setReplica i r') := by
  refine ⟨h.clock, h.started, h.heard, h.marked, fun j hj => ?_, h.due⟩
  rw [← h.timeouts j hj]
  by_cases hij : i = j
  · subst hij
    have hi := (List.getElem?_eq_some_iff.mp hr).1
    show ((sim.replicas.set i r')[i]?).map _ = _
    rw [List.getElem?_set_self hi, hr, Option.map_some, Option.map_some, htimeout]
  · show ((sim.replicas.set i r')[j]?).map _ = _
    rw [List.getElem?_set_ne hij]

/-- A response is never earlier than a time that has passed. -/
theorem Watched.markResponded (h : Watched before since sim) (i : Nat) :
    Watched before since (sim.markResponded i) := by
  refine ⟨h.clock, h.started, fun j hj => ?_, h.marked, h.timeouts, h.due⟩
  rcases getElem?_markResponded sim i j with hsame | hnow
  · rw [hsame]
    exact h.heard j hj
  · rw [hnow]
    exact h.started j

/-- An overdue replica that is crashed has been unresponsive for its timeout. -/
theorem Watched.crash (h : Watched before since sim) {now i : Nat} {sim' : Simulation σ}
    (hunresponsive : i ∈ sim.unresponsiveReplicas)
    (hover : ∀ r, sim.replicas[i]? = some r →
      r.timeoutMs ≤ sim.simulatedTimeMs - (sim.lastResponseMs[i]?).getD 0)
    (hok : sim.crashReplica now i = .ok sim') : Watched before since sim' := by
  obtain ⟨r, keystore, -, hr, -, hi, rfl⟩ := crashReplica_ok_iff.mp hok
  refine ⟨h.clock, h.started, fun j hj => h.heard j (Finset.mem_of_mem_erase hj),
    (Finset.erase_subset _ _).trans h.marked, fun j hj => ?_, fun j old hold hlive hj => ?_⟩
  · rw [Finset.mem_insert, not_or] at hj
    rw [← h.timeouts j hj.2, List.getElem?_set_ne (Ne.symm hj.1)]
  · rcases Finset.mem_insert.mp hj with rfl | hj
    · have htimeout := h.timeouts j hi
      rw [hr, hold, Option.map_some, Option.map_some, Option.some.injEq] at htimeout
      have hheard := h.heard j hunresponsive
      have hstarted := h.started j
      have hdue := hover r hr
      refine ⟨h.marked hunresponsive, ?_⟩
      show since j + old.timeoutMs ≤ sim.simulatedTimeMs
      omega
    · exact h.due j old hold hlive hj

/-- A timeout sweep crashes the overdue only. -/
theorem Watched.processTimeoutCrashes (h : Watched before since sim) (now : Nat) :
    Watched before since (sim.processTimeoutCrashes now) := by
  -- what is still to be crashed has not changed since the sweep began
  refine (foldl_tryCrash (P := fun ids s => Watched before since s ∧ ids.Nodup ∧
    ∀ i ∈ ids, i ∈ s.unresponsiveReplicas ∧ ∀ r, s.replicas[i]? = some r →
      r.timeoutMs ≤ s.simulatedTimeMs - (s.lastResponseMs[i]?).getD 0) (fun i ids s hs => ?_)
    ⟨h, List.nodup_range.filter _, fun i hi => ?_⟩).1
  · obtain ⟨hwatched, hnodup, hids⟩ := hs
    obtain ⟨hi, hnodup⟩ := List.nodup_cons.mp hnodup
    obtain ⟨⟨hunresponsive, hover⟩, hids⟩ := List.forall_mem_cons.mp hids
    rcases tryCrash_cases now s i with hsame | hok
    · rw [hsame]
      exact ⟨hwatched, hnodup, hids⟩
    · refine ⟨hwatched.crash hunresponsive hover hok, hnodup, fun j hj => ?_⟩
      obtain ⟨hmarked, hdue⟩ := hids j hj
      have hne : j ≠ i := fun he => hi (he ▸ hj)
      obtain ⟨r, keystore, -, -, -, -, heq⟩ := crashReplica_ok_iff.mp hok
      rw [heq]
      refine ⟨Finset.mem_erase.mpr ⟨hne, hmarked⟩, fun r' hr' => hdue r' ?_⟩
      rwa [List.getElem?_set_ne (Ne.symm hne)] at hr'
  · obtain ⟨-, hover⟩ := List.mem_filter.mp hi
    split at hover
    · cases hover
    · next r hr =>
      simp only [Bool.and_eq_true, decide_eq_true_eq] at hover
      refine ⟨hover.1.2, fun r' hr' => ?_⟩
      rw [hr] at hr'
      cases hr'
      exact hover.2

variable [Ed25519] [Sha256] [Bincode LogEntry] [Bincode Snapshot] [Crc32] [App σ]

/-- The steps of a round keep watch. -/
theorem watched_rule (before : Simulation σ) (since : Nat → Nat) :
    TurnRule (Watched before since) := by
  refine { call := fun sim i r c h hr _ => h.setReplica hr (r.step_timeoutMs c),
           snapshot := fun sim i r dir now h hr _ _ => ?_,
           respond := fun sim i h => h.markResponded i,
           network := fun sim net h _ => ⟨h.clock, h.started, h.heard, h.marked, h.timeouts, h.due⟩,
           bump := fun sim h => ⟨h.clock, h.started, h.heard, h.marked, h.timeouts, h.due⟩,
           sweep := fun now sim h => h.processTimeoutCrashes now }
  have hset : Watched before since (sim.setReplica i (r.takeSnapshot now dir).2.1) :=
    h.setReplica hr (by rw [takeSnapshot_replica])
  exact ⟨hset.clock, hset.started, hset.heard, hset.marked, hset.timeouts, hset.due⟩

end Turn

section Operations

variable {σ : Type} {sim : Simulation σ} {since : Nat → Nat}

/-- Between rounds: an unresponsive replica has responded at the given time at the earliest. -/
theorem watched_self (hclock : sim.simulatedTimeMs ≤ 2 ^ 128 - 1)
    (hstarted : ∀ i, since i ≤ sim.simulatedTimeMs)
    (hheard : ∀ i ∈ sim.unresponsiveReplicas, since i ≤ (sim.lastResponseMs[i]?).getD 0) :
    Watched sim since sim :=
  ⟨hclock, hstarted, hheard, subset_rfl, fun _ _ => rfl, fun _ _ _ hi hi' => absurd hi' hi⟩

theorem Watched.rebase {before : Simulation σ} (h : Watched before since sim) :
    Watched sim since sim := watched_self h.clock h.started h.heard

/-- Between rounds, replicas may cease to be unresponsive. -/
theorem Watched.release {before sim' : Simulation σ} (h : Watched before since sim)
    (hsub : sim'.unresponsiveReplicas ⊆ sim.unresponsiveReplicas)
    (hresponses : sim'.lastResponseMs = sim.lastResponseMs)
    (hclock : sim'.simulatedTimeMs = sim.simulatedTimeMs) : Watched sim' since sim' := by
  refine watched_self (hclock ▸ h.clock) (fun i => hclock ▸ h.started i) fun i hi => ?_
  rw [hresponses]
  exact h.heard i (hsub hi)

theorem Watched.advanceSimulatedTime {before : Simulation σ} (h : Watched before since sim) :
    Watched before since sim.advanceSimulatedTime := by
  have hle : sim.simulatedTimeMs ≤ sim.advanceSimulatedTime.simulatedTimeMs :=
    le_min (Nat.le_add_right _ _) h.clock
  refine ⟨min_le_right _ _, fun i => (h.started i).trans hle, h.heard, h.marked, h.timeouts,
    fun i r hr hi hi' => ?_⟩
  obtain ⟨hmarked, hdue⟩ := h.due i r hr hi hi'
  exact ⟨hmarked, hdue.trans hle⟩

end Operations

end Simulation

section Marks

variable {σ : Type} {sim : Simulation σ}

/-- The replica an operation marks unresponsive. -/
def Simulation.marks (sim : Simulation σ) : SimulationOp → Option Nat
  | .setReplicaUnresponsive id true =>
      if (sim.setReplicaUnresponsive id true).isOk then some id else none
  | _ => none

theorem Simulation.marks_eq_some {op : SimulationOp} {id : Nat} (h : sim.marks op = some id) :
    op = .setReplicaUnresponsive id true ∧ sim.setReplicaUnresponsive id true =
      .ok { sim with unresponsiveReplicas := insert id sim.unresponsiveReplicas } := by
  simp only [marks] at h
  split at h
  · next id' =>
    cases hok : sim.setReplicaUnresponsive id' true with
    | error e =>
      rw [hok] at h
      cases h
    | ok sim' =>
      rw [hok] at h
      cases h
      obtain ⟨-, -, rfl⟩ := setReplicaUnresponsive_ok_iff.mp hok
      exact ⟨rfl, hok⟩
  · cases h

theorem Simulation.marks_of_ok {id : Nat} {sim' : Simulation σ}
    (hok : sim.setReplicaUnresponsive id true = .ok sim') :
    sim.marks (.setReplicaUnresponsive id true) = some id := by
  simp only [marks, hok]
  rfl

/-- Marking a replica that has responded just now. -/
theorem Simulation.watched_mark {since : Nat → Nat} (h : Watched sim since sim) {id : Nat}
    (hresponded : (sim.lastResponseMs[id]?).getD 0 = sim.simulatedTimeMs) :
    Watched { sim with unresponsiveReplicas := insert id sim.unresponsiveReplicas }
      (Function.update since id sim.simulatedTimeMs)
      { sim with unresponsiveReplicas := insert id sim.unresponsiveReplicas } := by
  refine watched_self h.clock (fun i => ?_) fun i hi => ?_
  · by_cases he : i = id
    · rw [he, Function.update_self]
    · rw [Function.update_of_ne he]
      exact h.started i
  · by_cases he : i = id
    · rw [he, Function.update_self]
      exact hresponded.ge
    · rw [Function.update_of_ne he]
      exact h.heard i (Finset.mem_of_mem_insert_of_ne hi he)

end Marks

/-- A run with the times at which each replica became unresponsive last, and was last marked so. -/
structure Watch (σ : Type) where
  trace : Trace σ
  since : Nat → Nat
  marked : Nat → Nat

namespace Watch

variable {σ : Type}

/-- The start of a run. -/
def start (t : Trace σ) : Watch σ := ⟨t, fun _ => 0, fun _ => 0⟩

/-- A replica that becomes unresponsive has responded just then. -/
def RespondsBefore (w : Watch σ) (op : Nat × SimulationOp) : Prop :=
  ∀ id ∈ w.trace.sim.marks op.2, id ∉ w.trace.sim.unresponsiveReplicas →
    (w.trace.sim.lastResponseMs[id]?).getD 0 = w.trace.sim.simulatedTimeMs

/-- A replica that is marked unresponsive, be it for the first time or again, has responded just
then. -/
def RespondsBeforeEach (w : Watch σ) (op : Nat × SimulationOp) : Prop :=
  ∀ id ∈ w.trace.sim.marks op.2,
    (w.trace.sim.lastResponseMs[id]?).getD 0 = w.trace.sim.simulatedTimeMs

instance (w : Watch σ) : DecidablePred w.RespondsBefore := fun op =>
  inferInstanceAs (Decidable (∀ id ∈ w.trace.sim.marks op.2,
    id ∉ w.trace.sim.unresponsiveReplicas →
    (w.trace.sim.lastResponseMs[id]?).getD 0 = w.trace.sim.simulatedTimeMs))

instance (w : Watch σ) : DecidablePred w.RespondsBeforeEach := fun op =>
  inferInstanceAs (Decidable (∀ id ∈ w.trace.sim.marks op.2,
    (w.trace.sim.lastResponseMs[id]?).getD 0 = w.trace.sim.simulatedTimeMs))

variable [Ed25519] [Sha256] [Bincode LogEntry] [Bincode Snapshot] [Crc32] [App σ]

/-- One operation. The time since which a replica is unresponsive stays when it is marked again. -/
def step (w : Watch σ) (op : Nat × SimulationOp) : Watch σ where
  trace := w.trace.step op
  since :=
    match w.trace.sim.marks op.2 with
    | some id =>
        if id ∈ w.trace.sim.unresponsiveReplicas then w.since
        else Function.update w.since id w.trace.sim.simulatedTimeMs
    | none => w.since
  marked :=
    match w.trace.sim.marks op.2 with
    | some id => Function.update w.marked id w.trace.sim.simulatedTimeMs
    | none => w.marked

/-- Every replica that a round crashes has been unresponsive for its timeout, reckoned from the
given times. -/
def Accurate (reckoned : Watch σ → Nat → Nat) (w : Watch σ) (op : Nat × SimulationOp) : Prop :=
  op.2.isRound = true → ∀ p ∈ w.trace.sim.replicas.zipIdx,
    p.2 ∉ w.trace.sim.crashedReplicas → p.2 ∈ (w.step op).trace.sim.crashedReplicas →
    p.2 ∈ w.trace.sim.unresponsiveReplicas ∧
      reckoned w p.2 + p.1.timeoutMs ≤ (w.step op).trace.sim.simulatedTimeMs

instance (reckoned : Watch σ → Nat → Nat) (w : Watch σ) : DecidablePred (w.Accurate reckoned) :=
  fun op => inferInstanceAs (Decidable (op.2.isRound = true → ∀ p ∈ w.trace.sim.replicas.zipIdx,
    p.2 ∉ w.trace.sim.crashedReplicas → p.2 ∈ (w.step op).trace.sim.crashedReplicas →
    p.2 ∈ w.trace.sim.unresponsiveReplicas ∧
      reckoned w p.2 + p.1.timeoutMs ≤ (w.step op).trace.sim.simulatedTimeMs))

open Simulation

/-- Without a mark every operation keeps watch, and a round crashes accurately. -/
theorem watched_step {t : Trace σ} {since : Nat → Nat} (h : Watched t.sim since t.sim)
    (op : Nat × SimulationOp) (hmarks : t.sim.marks op.2 = none) :
    Watched (t.step op).sim since (t.step op).sim ∧
      (op.2.isRound = true → Watched t.sim since (t.step op).sim) := by
  obtain ⟨now, op⟩ := op
  have hdoes := t.step_does now op
  generalize (t.step (now, op)).sim = sim' at hdoes ⊢
  have hround : Watched t.sim since sim' → Watched sim' since sim' ∧
      (op.isRound = true → Watched t.sim since sim') := fun hw => ⟨hw.rebase, fun _ => hw⟩
  cases hdoes with
  | runOneRound => exact hround ((watched_rule _ _).runOneRound h.advanceSimulatedTime now)
  | runOneRoundWithPacemaker =>
    exact hround ((watched_rule _ _).runOneRoundWithPacemaker h.advanceSimulatedTime now)
  | configured hsetting _ _ =>
    exact ⟨watched_self h.clock h.started h.heard,
      fun hr => absurd (SimulationOp.isRound_of_setting hsetting) (by simp [hr])⟩
  | @interrupted id unresponsive _ hok =>
    refine ⟨?_, fun hr => absurd hr (by simp [SimulationOp.isRound])⟩
    cases unresponsive with
    | true =>
      have hmarked := marks_of_ok hok
      rw [hmarks] at hmarked
      cases hmarked
    | false =>
      obtain ⟨-, -, rfl⟩ := setReplicaUnresponsive_ok_iff.mp hok
      rw [if_neg Bool.false_ne_true]
      exact (h.markResponded id).release (Finset.erase_subset id _) rfl rfl
  | @crashed id _ hok =>
    refine ⟨?_, fun hr => absurd hr (by simp [SimulationOp.isRound])⟩
    obtain ⟨r, keystore, -, -, -, -, rfl⟩ := crashReplica_ok_iff.mp hok
    exact h.release (Finset.erase_subset id _) rfl rfl
  | @recovered id _ hok =>
    refine ⟨?_, fun hr => absurd hr (by simp [SimulationOp.isRound])⟩
    obtain ⟨r, keystore, dir, opened, -, -, -, -, -, -, rfl⟩ := recoverReplica_ok_iff.mp hok
    exact (h.markResponded id).release (Finset.erase_subset id _) rfl rfl
  | refused hr => exact ⟨h, fun hr' => absurd hr (by simp [hr'])⟩

/-- What is reckoned from the given times is accurate, and stays so if a replica that is marked
keeps its time or has responded just now. -/
theorem accurate_step {w : Watch σ} {op : Nat × SimulationOp} {reckoned : Watch σ → Nat → Nat}
    (h : Watched w.trace.sim (reckoned w) w.trace.sim)
    (hnone : w.trace.sim.marks op.2 = none → reckoned (w.step op) = reckoned w)
    (hsome : ∀ id ∈ w.trace.sim.marks op.2,
      id ∈ w.trace.sim.unresponsiveReplicas ∧ reckoned (w.step op) = reckoned w ∨
        (w.trace.sim.lastResponseMs[id]?).getD 0 = w.trace.sim.simulatedTimeMs ∧
          reckoned (w.step op) =
            Function.update (reckoned w) id w.trace.sim.simulatedTimeMs) :
    Accurate reckoned w op ∧
      Watched (w.step op).trace.sim (reckoned (w.step op)) (w.step op).trace.sim := by
  cases hmarks : w.trace.sim.marks op.2 with
  | none =>
    obtain ⟨hself, hround⟩ := watched_step h op hmarks
    rw [hnone hmarks]
    refine ⟨fun hisRound p hp hlive hcrashed => ?_, hself⟩
    exact (hround hisRound).due p.2 p.1 (List.mem_zipIdx_iff_getElem?.mp hp) hlive hcrashed
  | some id =>
    obtain ⟨hop, hok⟩ := marks_eq_some hmarks
    have hsim : (w.step op).trace.sim = { w.trace.sim with
        unresponsiveReplicas := insert id w.trace.sim.unresponsiveReplicas } := by
      simp only [step, Trace.step, Trace.nextSim, hop, hok]
    refine ⟨fun hisRound => ?_, ?_⟩
    · rw [hop] at hisRound
      cases hisRound
    · rw [hsim]
      rcases hsome id hmarks with ⟨hin, hsame⟩ | ⟨hresponded, hnew⟩
      · rw [hsame]
        refine watched_self h.clock h.started fun i hi => h.heard i ?_
        rwa [Finset.insert_eq_of_mem hin] at hi
      · rw [hnew]
        exact watched_mark h hresponded

/-- From a state without unresponsive replicas, crashes are detected accurately as long as every
replica that becomes unresponsive has responded just then; and if that is so for every replica that
is marked, also when it is marked again, they are accurate reckoned from the last mark. -/
theorem accurate_of_responding {t : Trace σ} (hclock : t.sim.simulatedTimeMs ≤ 2 ^ 128 - 1)
    (hnobody : t.sim.unresponsiveReplicas = ∅) (ops : List (Nat × SimulationOp)) :
    (Along step RespondsBefore (start t) ops → Along step (Accurate since) (start t) ops) ∧
      (Along step RespondsBeforeEach (start t) ops →
        Along step (Accurate marked) (start t) ops) := by
  have hstart : Watched t.sim (fun _ => 0) t.sim := by
    refine watched_self hclock (fun _ => Nat.zero_le _) fun i hi => ?_
    rw [hnobody] at hi
    exact absurd hi (Finset.notMem_empty i)
  constructor
  · intro h
    refine along_of_step (I := fun w : Watch σ => Watched w.trace.sim w.since w.trace.sim)
      (fun w op hw hc => accurate_step hw (fun hmarks => ?_) fun id hmarks => ?_) hstart h
    · simp only [step, hmarks]
    · simp only [step, Option.mem_def.mp hmarks]
      by_cases hin : id ∈ w.trace.sim.unresponsiveReplicas
      · exact .inl ⟨hin, if_pos hin⟩
      · exact .inr ⟨hc id hmarks hin, if_neg hin⟩
  · intro h
    refine along_of_step (I := fun w : Watch σ => Watched w.trace.sim w.marked w.trace.sim)
      (fun w op hw hc => accurate_step hw (fun hmarks => ?_) fun id hmarks => ?_) hstart h
    · simp only [step, hmarks]
    · simp only [step, Option.mem_def.mp hmarks]
      exact .inr ⟨hc id hmarks, trivial⟩

end Watch

namespace Watch

section Samples

open Sample SimulationOp Trace

/-- Replica 3 becomes unresponsive after a round that it has voted in, for five idle rounds. -/
def heardOps : List (Nat × SimulationOp) :=
  [(1, runOneRound), (1, setReplicaUnresponsive 3 true), (1, runOneRoundWithPacemaker),
    (1, runOneRoundWithPacemaker), (1, runOneRoundWithPacemaker), (1, runOneRoundWithPacemaker),
    (1, runOneRoundWithPacemaker)]

/-- Replica 3 becomes unresponsive after five idle rounds, for one more. -/
def idleOps : List (Nat × SimulationOp) :=
  [(1, runOneRoundWithPacemaker), (1, runOneRoundWithPacemaker), (1, runOneRoundWithPacemaker),
    (1, runOneRoundWithPacemaker), (1, runOneRoundWithPacemaker),
    (1, setReplicaUnresponsive 3 true), (1, runOneRoundWithPacemaker)]

/-- The replica that has been heard is crashed after its timeout of five rounds. -/
theorem accurate_heard :
    3 ∈ (run Watch.step (start fourDurable) heardOps).trace.sim.crashedReplicas ∧
      Along Watch.step (Accurate since) (start fourDurable) heardOps ∧
      Along Watch.step (Accurate marked) (start fourDurable) heardOps := by
  have hclock : fourDurable.sim.simulatedTimeMs ≤ 2 ^ 128 - 1 := by decide +kernel
  have hnobody : fourDurable.sim.unresponsiveReplicas = ∅ := by decide +kernel
  obtain ⟨hsince, hmarked⟩ := accurate_of_responding hclock hnobody heardOps
  exact ⟨by decide +kernel, hsince (by decide +kernel), hmarked (by decide +kernel)⟩

/-- After idle rounds a replica is crashed in the round in which it becomes unresponsive. -/
theorem inaccurate_idle :
    ¬ Along Watch.step (Accurate since) (start fourDurable) idleOps ∧
      ¬ Along Watch.step (Accurate marked) (start fourDurable) idleOps ∧
      3 ∈ (run Watch.step (start fourDurable) idleOps).trace.sim.crashedReplicas ∧
      (run Watch.step (start fourDurable) idleOps).since 3 + 1000 =
        (run Watch.step (start fourDurable) idleOps).trace.sim.simulatedTimeMs := by
  decide +kernel

end Samples

end Watch

end PersistHotStuff
