import PersistHotStuff.Simulator.Reopening
import PersistHotStuff.Simulator.Silence
import PersistHotStuff.Source.Scenario

/-!
# The scenario

The built-in scenario lets one replica fall silent, be crashed by its timeout,
recover and rejoin. Five rounds of silence are enough whatever has happened
before; only a log that cannot be read back makes it fail.
-/

namespace PersistHotStuff

open Basis

namespace Simulation

section Rounds

variable {σ : Type} [Ed25519] [Sha256] [Bincode LogEntry] [Bincode Snapshot] [Crc32] [App σ]
  {sim : Simulation σ} {id timeout since : Nat}

theorem runRounds_cons (now : Nat) (times : List Nat) (sim : Simulation σ) :
    sim.runRounds (now :: times) =
      if (sim.runOneRound now).2 then (sim.runOneRound now).1.runRounds times
      else (sim.runOneRound now).1 := by
  rw [runRounds]
  cases hgoes : (sim.runOneRound now).2 <;> simp [hgoes]

theorem runUntilCrashed_cons (id now : Nat) (times : List Nat) (sim : Simulation σ) :
    sim.runUntilCrashed id (now :: times) =
      if (sim.runOneRound now).2 ∧ id ∉ (sim.runOneRound now).1.crashedReplicas then
        (sim.runOneRound now).1.runUntilCrashed id times
      else (sim.runOneRound now).1 := by
  rw [runUntilCrashed]
  by_cases hcrashed : id ∈ (sim.runOneRound now).1.crashedReplicas
  · cases hgoes : (sim.runOneRound now).2 <;> simp [hgoes, hcrashed]
  · cases hgoes : (sim.runOneRound now).2 <;> simp [hgoes, hcrashed]

/-- What every round keeps, a number of rounds keeps. -/
theorem runRounds_preserves {I : Simulation σ → Prop}
    (hround : ∀ s now, I s → I (s.runOneRound now).1) (times : List Nat) (h : I sim) :
    I (sim.runRounds times) := by
  induction times generalizing sim with
  | nil => exact h
  | cons now times ih =>
    rw [runRounds_cons]
    split
    · exact ih (hround sim now h)
    · exact hround sim now h

theorem runUntilCrashed_preserves {I : Simulation σ → Prop}
    (hround : ∀ s now, I s → I (s.runOneRound now).1) (id : Nat) (times : List Nat) (h : I sim) :
    I (sim.runUntilCrashed id times) := by
  induction times generalizing sim with
  | nil => exact h
  | cons now times ih =>
    rw [runUntilCrashed_cons]
    split
    · exact ih (hround sim now h)
    · exact hround sim now h

/-- The rounds that wait for a crash end with the one that crashes the replica. -/
theorem crash_of_runUntilCrashed {I : Simulation σ → Prop} {id : Nat}
    (hround : ∀ s now, I s → id ∉ (s.runOneRound now).1.crashedReplicas → I (s.runOneRound now).1)
    {times : List Nat} (h : I sim) (hlive : id ∉ sim.crashedReplicas)
    (hcrashed : id ∈ (sim.runUntilCrashed id times).crashedReplicas) :
    ∃ s, ∃ now ∈ times, I s ∧ sim.runUntilCrashed id times = (s.runOneRound now).1 := by
  induction times generalizing sim with
  | nil => exact absurd hcrashed hlive
  | cons now times ih =>
    rw [runUntilCrashed_cons] at hcrashed ⊢
    split at hcrashed
    · next hgoes =>
      rw [if_pos hgoes]
      obtain ⟨s, later, hlater, hs⟩ := ih (hround sim now h hgoes.2) hgoes.2 hcrashed
      exact ⟨s, later, List.mem_cons_of_mem now hlater, hs⟩
    · next hends =>
      rw [if_neg hends]
      exact ⟨sim, now, List.mem_cons_self .., h, rfl⟩

/-- A property that operations keep is kept by a round. -/
theorem TraceRule.runOneRound {I : Simulation σ → Prop} (h : TraceRule I) (hI : I sim) (now : Nat) :
    I (sim.runOneRound now).1 :=
  h.step (t := ⟨sim, History.genesis⟩) hI (now, .runOneRound)

theorem TraceRule.runRounds {I : Simulation σ → Prop} (h : TraceRule I) (hI : I sim)
    (times : List Nat) : I (sim.runRounds times) :=
  runRounds_preserves (I := I) (fun _ now hs => h.runOneRound hs now) times hI

/-- Steps are counted at the end of a round only. -/
theorem steps_rule (step maxSteps : Nat) :
    RoundRule fun sim : Simulation σ => sim.step = step ∧ sim.maxSteps = maxSteps :=
  ⟨fun _ _ _ _ h _ _ => h, fun _ _ _ _ _ h _ _ _ => h, fun _ _ h => h, fun _ _ h _ => h⟩

omit [Ed25519] [Sha256] [Bincode LogEntry] [Bincode Snapshot] [Crc32] [App σ] in
theorem processTimeoutCrashes_surroundings (sim : Simulation σ) (now : Nat) :
    (sim.processTimeoutCrashes now).surroundings = sim.surroundings :=
  processTimeoutCrashes_preserves (I := fun s => s.surroundings = sim.surroundings)
    (fun _ _ _ hs hok => (crashReplica_surroundings hok).trans hs) rfl

/-- Neither the number of replicas nor their persistence changes. -/
theorem installed_rule (persistent : Bool) (count : Nat) : TraceRule fun sim : Simulation σ =>
    sim.persistenceEnabled = persistent ∧ sim.replicas.length = count where
  call sim i r c h _ _ := ⟨h.1, (List.length_set ..).trans h.2⟩
  snapshot sim i r dir now h _ _ _ := ⟨h.1, (List.length_set ..).trans h.2⟩
  respond sim i h := h
  network sim net h _ := h
  clock sim h := h
  bump sim h := h
  crash now sim i sim' h hok := by
    have hsame := crashReplica_surroundings hok
    exact ⟨(congrArg Surroundings.persistenceEnabled hsame).trans h.1,
      (congrArg Surroundings.count hsame).trans h.2⟩
  recover now sim i sim' h hok := by
    have hsame := recoverReplica_surroundings hok
    exact ⟨(congrArg Surroundings.persistenceEnabled hsame).trans h.1,
      (congrArg Surroundings.count hsame).trans h.2⟩
  interrupt sim i unresponsive sim' h hok := by
    have hsame := setReplicaUnresponsive_surroundings hok
    exact ⟨(congrArg Surroundings.persistenceEnabled hsame).trans h.1,
      (congrArg Surroundings.count hsame).trans h.2⟩
  configure now sim call replicas h hlen _ := ⟨h.1, hlen.trans h.2⟩

/-- A round that is refused ends with its opening, and one that is not is counted once. -/
theorem runOneRound_steps (sim : Simulation σ) (now : Nat) :
    (sim.runOneRound now).1.maxSteps = sim.maxSteps ∧
      ((sim.runOneRound now).2 = true ∧ (sim.runOneRound now).1.step = sim.step + 1 ∨
        (sim.runOneRound now).2 = false ∧ (sim.runOneRound now).1.step = sim.step ∧
          (sim.runOneRound now).1 = sim.roundStart now ∧
          plainOpening now (sim.roundStart now) = .finished) := by
  have hswept := fun s : Simulation σ => processTimeoutCrashes_surroundings s now
  have hstart : (sim.roundStart now).step = sim.step ∧
      (sim.roundStart now).maxSteps = sim.maxSteps :=
    ⟨congrArg Surroundings.step (hswept sim.advanceSimulatedTime),
      congrArg Surroundings.maxSteps (hswept sim.advanceSimulatedTime)⟩
  by_cases hfinished : plainOpening now (sim.roundStart now) = .finished
  · have hsame : (sim.runOneRound now).1 = sim.roundStart now := by
      simp only [runOneRound, hfinished]
    rw [hsame]
    exact ⟨hstart.2, .inr ⟨by simp only [runOneRound, hfinished], hstart.1, rfl, hfinished⟩⟩
  · have hcounted := runOneRound_closes
      (I := fun s => s.step = sim.step ∧ s.maxSteps = sim.maxSteps)
      (J := fun s => s.step = sim.step + 1 ∧ s.maxSteps = sim.maxSteps)
      (fun s reason responds hs => (steps_rule _ _).advanceViews hs now reason responds)
      (fun s hs => ⟨(congrArg Surroundings.step (hswept s.bumpStep)).trans (congrArg (· + 1) hs.1),
        (congrArg Surroundings.maxSteps (hswept s.bumpStep)).trans hs.2⟩) sim
      (fun h => absurd h hfinished) fun _ =>
        (steps_rule _ _).ruleFor.simAfter hstart (openRound_opens now .proposeWithHash _)
          (fun _ _ _ _ => trivial) (fun _ _ _ _ => trivial) false
    refine ⟨hcounted.2, .inl ⟨?_, hcounted.1⟩⟩
    simp only [runOneRound]
    cases ho : plainOpening now (sim.roundStart now) with
    | finished => exact absurd ho hfinished
    | leaderless => rfl
    | silent _ => rfl
    | proposed _ _ _ => rfl

/-- A round is refused when the steps are used up or everyone is crashed. -/
theorem crashed_of_refused (hopen : Reopenable sim) {now : Nat}
    (hrefused : (sim.runOneRound now).2 = false) (hsteps : sim.step < sim.maxSteps)
    (hseat : id < sim.replicas.length) : id ∈ (sim.runOneRound now).1.crashedReplicas := by
  rcases (runOneRound_steps sim now).2 with ⟨hgoes, -⟩ | ⟨-, -, heq, hfinished⟩
  · rw [hrefused] at hgoes
    cases hgoes
  · rw [heq]
    have hsame := processTimeoutCrashes_surroundings sim.advanceSimulatedTime now
    have hcount : (sim.roundStart now).replicas.length = sim.replicas.length :=
      congrArg Surroundings.count hsame
    have hopen' : Reopenable (sim.roundStart now) :=
      reopenable_rule.turnRule.sweep now _ (reopenable_rule.clock _ hopen)
    have hsub : (sim.roundStart now).crashedReplicas ⊆ Finset.range sim.replicas.length :=
      fun i hi => Finset.mem_range.mpr (hcount ▸ (hopen'.crashed i hi).2)
    have hall : (sim.roundStart now).crashedReplicas = Finset.range sim.replicas.length := by
      refine Finset.eq_of_subset_of_card_le hsub (le_of_eq ?_)
      rw [Finset.card_range, ← hcount]
      by_contra hcard
      have hgo : ¬ ((sim.roundStart now).maxSteps ≤ (sim.roundStart now).step ∨
          (sim.roundStart now).crashedReplicas.card = (sim.roundStart now).replicas.length) := by
        rintro (hused | hcrashed)
        · have hstep : (sim.roundStart now).step = sim.step := congrArg Surroundings.step hsame
          have hmax : (sim.roundStart now).maxSteps = sim.maxSteps :=
            congrArg Surroundings.maxSteps hsame
          omega
        · exact hcard hcrashed.symm
      have hlt : (sim.roundStart now).currentLeader < (sim.roundStart now).replicas.length :=
        currentLeader_lt (hcount ▸ Nat.zero_lt_of_lt hseat)
      have hleader := List.getElem?_eq_getElem hlt
      simp only [plainOpening, openRound, if_neg hgo, hleader] at hfinished
      split at hfinished
      · cases hfinished
      · split at hfinished <;> cases hfinished
    rw [hall, Finset.mem_range]
    exact hseat

/-- Rounds use up no more steps and no more time than they are. -/
theorem runRounds_bounds (times : List Nat) (sim : Simulation σ) :
    (sim.runRounds times).maxSteps = sim.maxSteps ∧
      (sim.runRounds times).step ≤ sim.step + times.length ∧
      (sim.runRounds times).roundTimeMs = sim.roundTimeMs ∧
      (sim.runRounds times).simulatedTimeMs ≤
        sim.simulatedTimeMs + times.length * sim.roundTimeMs := by
  induction times generalizing sim with
  | nil => exact ⟨rfl, Nat.le_refl _, rfl, Nat.le_add_right _ _⟩
  | cons now times ih =>
    obtain ⟨hmax, hsteps⟩ := runOneRound_steps sim now
    have hstep : (sim.runOneRound now).1.step ≤ sim.step + 1 := by
      rcases hsteps with ⟨-, hstep⟩ | ⟨-, hstep, -⟩ <;> omega
    obtain ⟨hpace, hclock⟩ := (⟨sim, History.genesis⟩ : Trace σ).step_times (now, .runOneRound)
    change (sim.runOneRound now).1.roundTimeMs = sim.roundTimeMs at hpace
    change (sim.runOneRound now).1.simulatedTimeMs =
      min (sim.simulatedTimeMs + sim.roundTimeMs) (2 ^ 128 - 1) at hclock
    have hclock' : (sim.runOneRound now).1.simulatedTimeMs ≤
        sim.simulatedTimeMs + sim.roundTimeMs := hclock.trans_le (min_le_left _ _)
    rw [runRounds_cons, List.length_cons, Nat.succ_mul]
    split
    · obtain ⟨hmax', hstep', hpace', hclock''⟩ := ih (sim.runOneRound now).1
      rw [hpace] at hclock''
      exact ⟨hmax'.trans hmax, by omega, hpace'.trans hpace, by omega⟩
    · exact ⟨hmax, by omega, hpace, by omega⟩

/-- Rounds crash nobody who takes part. -/
theorem takesPart_rule (id : Nat) :
    TurnRule fun sim : Simulation σ => WellTimed sim ∧ sim.available id = true where
  call sim i r c h hr ha := ⟨wellTimed_rule.call sim i r c h.1 hr ha, h.2⟩
  snapshot sim i r dir now h hr ha hdir :=
    ⟨wellTimed_rule.snapshot sim i r dir now h.1 hr ha hdir, h.2⟩
  respond sim i h := ⟨wellTimed_rule.respond sim i h.1, h.2⟩
  network sim net h hnet := ⟨wellTimed_rule.network sim net h.1 hnet, h.2⟩
  bump sim h := ⟨wellTimed_rule.bump sim h.1, h.2⟩
  sweep now sim h := by
    refine ⟨wellTimed_rule.turnRule.sweep now sim h.1, ?_⟩
    rw [(processTimeoutCrashes_swept h.1.keystores now).available fun i hi => (mem_timedOut hi).2.2]
    exact h.2

theorem takesPart_runRounds (times : List Nat) (htimed : WellTimed sim)
    (ha : sim.available id = true) : (sim.runRounds times).available id = true :=
  (runRounds_preserves (I := fun s => WellTimed s ∧ s.available id = true)
    (fun s now hs => (takesPart_rule id).runOneRound ⟨wellTimed_rule.clock s hs.1, hs.2⟩ now)
    times ⟨htimed, ha⟩).2

/-- A missing replica is crashed within so many rounds as its timeout takes. -/
theorem crashed_runUntilCrashed (hopen : Reopenable sim) (htimed : WellTimed sim)
    (h : Missing id timeout since sim) (hseat : id < sim.replicas.length) {needed : Nat}
    {times : List Nat} (hpos : 0 < needed) (hneeded : needed ≤ times.length)
    (hsteps : sim.step + needed ≤ sim.maxSteps + 1)
    (hdue : since + timeout ≤
      min (sim.simulatedTimeMs + needed * sim.roundTimeMs) (2 ^ 128 - 1)) :
    id ∈ (sim.runUntilCrashed id times).crashedReplicas := by
  induction times generalizing sim needed with
  | nil => exact absurd (hpos.trans_le hneeded) (Nat.lt_irrefl 0)
  | cons now times ih =>
    obtain ⟨hmissing, hsettled⟩ := (h.round htimed.range now).1
    have hcount := ((installed_rule sim.persistenceEnabled sim.replicas.length).runOneRound
      ⟨rfl, rfl⟩ now).2
    obtain ⟨hpace, hclock⟩ := (⟨sim, History.genesis⟩ : Trace σ).step_times (now, .runOneRound)
    change (sim.runOneRound now).1.roundTimeMs = sim.roundTimeMs at hpace
    change (sim.runOneRound now).1.simulatedTimeMs =
      min (sim.simulatedTimeMs + sim.roundTimeMs) (2 ^ 128 - 1) at hclock
    have hfirst : needed = 1 → id ∈ (sim.runOneRound now).1.crashedReplicas := by
      rintro rfl
      rw [Nat.one_mul, ← hclock] at hdue
      exact hsettled.mpr hdue
    obtain ⟨more, rfl⟩ := Nat.exists_eq_succ_of_ne_zero hpos.ne'
    rw [runUntilCrashed_cons]
    split
    · next hgoes =>
      -- the first round has not been enough
      have hmore : 0 < more := Nat.pos_of_ne_zero fun hnone =>
        hgoes.2 (hfirst (congrArg Nat.succ hnone))
      obtain ⟨hmax, ⟨-, hstep⟩ | ⟨hrefused, -⟩⟩ := runOneRound_steps sim now
      · refine ih (reopenable_rule.runOneRound hopen now) (wellTimed_rule.runOneRound htimed now)
          hmissing ?_ hmore (Nat.le_of_succ_le_succ hneeded) ?_ ?_
        · rw [hcount]
          exact hseat
        · omega
        · rw [hpace, hclock]
          rw [Nat.succ_mul] at hdue
          omega
      · rw [hrefused] at hgoes
        cases hgoes.1
    · next hends =>
      by_contra hlive
      have hrefused : (sim.runOneRound now).2 = false := by
        rw [← Bool.not_eq_true]
        exact fun hgoes => hends ⟨hgoes, hlive⟩
      rcases Nat.eq_zero_or_pos more with rfl | hmore
      · exact hlive (hfirst rfl)
      · exact hlive (crashed_of_refused hopen hrefused (by omega) hseat)

end Rounds

section Configured

variable {σ : Type} [Ed25519] [Sha256] [Bincode LogEntry] [Bincode Snapshot] [Crc32] [App σ]

/-- Every replica waits as long as it is configured to, which is five seconds. -/
def Waits (r : Replica σ) : Prop := r.timeoutMs = 5000 ∧ r.config.timeoutMs = 5000

omit [Bincode Snapshot] in
theorem Waits.step {r : Replica σ} (h : Waits r) (c : Nat × Call) : Waits (r.step c) := by
  have hconfig : (r.step c).config.timeoutMs = r.config.timeoutMs := by
    obtain ⟨now, call⟩ := c
    cases call with
    | commitAll =>
      refine Replica.commitAll_field now r (fun s : Replica σ => s.config.timeoutMs) ?_
      intro s block
      rw [Replica.executeAndCommit_eq]
      rfl
    | _ =>
      exact Replica.step_frame (fun s : Replica σ => s.config.timeoutMs) (by intros; rfl) r
        (by simp)
  exact ⟨(r.step_timeoutMs c).trans h.1, hconfig.trans h.2⟩

/-- Recovered replicas wait as long as the others. -/
theorem waits_rule :
    TraceRule fun sim : Simulation σ => ∀ (i : Nat) r, sim.replicas[i]? = some r → Waits r := by
  refine traceRule_of_seats (P := fun _ r => Waits r) (fun _ _ c h => h.step c)
    (fun _ _ _ _ h => h) ?_ ?_
  · intro i r now keystore h
    simp only [freshReplica, Replica.ensureDefaultValidators]
    split <;> exact ⟨rfl, h.2⟩
  · intro i r now keystore dir opened others h hopen
    obtain ⟨disk, wal, log, hrec, -, rfl⟩ := Node.openReplica_ok_iff.mp hopen
    obtain ⟨base, st, -, -, rfl⟩ := recover_ok_iff.mp hrec
    rw [rejoin_eq, takeSnapshot_replica]
    refine synced_preserves (I := Waits) (fun _ hs => hs) ⟨h.2, h.2⟩ fun donor _ => ?_
    rw [syncFrom_eq]
    exact ⟨h.2, h.2⟩

/-- Whatever arises, replicas wait for five seconds and rounds take one. -/
theorem Arises.waits {sim : Simulation σ} (h : Arises sim) :
    (∀ (i : Nat) r, sim.replicas[i]? = some r → Waits r) ∧ sim.roundTimeMs = 1000 := by
  induction h with
  | new now f maxSteps allKeys =>
    refine ⟨fun i r hr => ?_, rfl⟩
    simp only [Simulation.new, start, List.getElem?_mapIdx, Option.map_eq_some_iff] at hr
    obtain ⟨ks, -, rfl⟩ := hr
    simp only [freshReplica, Replica.ensureDefaultValidators]
    split <;> exact ⟨rfl, rfl⟩
  | restart _ hrestarts _ =>
    obtain ⟨now, f, maxSteps, allKeys, dirs, -, -, hok⟩ := hrestarts
    obtain ⟨replicas, rfl, -, hslots⟩ := newWithPersistence_slots hok
    refine ⟨fun i r hr => ?_, rfl⟩
    obtain ⟨ks, dir, -, -, hopened⟩ := hslots i r hr
    obtain ⟨disk, wal, log, hrec, -, rfl⟩ := Node.openReplica_ok_iff.mp hopened
    obtain ⟨base, st, -, -, rfl⟩ := recover_ok_iff.mp hrec
    exact ⟨rfl, rfl⟩
  | step op _ ih => exact ⟨waits_rule.step ih.1 op, (Trace.step_times _ op).1.trans ih.2⟩

end Configured

section Outcome

variable {σ : Type} [Ed25519] [Sha256] [Bincode LogEntry] [Bincode Snapshot] [Crc32] [App σ]
  [LawfulBincode LogEntry] [StrictBincode LogEntry] [LawfulBincode Snapshot]
  {sim : Simulation σ} {id : Nat}

omit [LawfulBincode LogEntry] [StrictBincode LogEntry] [LawfulBincode Snapshot] in
theorem Continues.runOneRound {sim' : Simulation σ} (h : Continues sim sim') (now : Nat) :
    Continues sim (sim'.runOneRound now).1 :=
  h.step (t := ⟨sim', History.genesis⟩) (now, .runOneRound)

omit [LawfulBincode LogEntry] [StrictBincode LogEntry] [LawfulBincode Snapshot] in
theorem Continues.interrupt {s s' : Simulation σ} (h : Continues sim s) {unresponsive : Bool}
    (hok : s.setReplicaUnresponsive id unresponsive = .ok s') : Continues sim s' := by
  have hstep := h.step (t := ⟨s, History.genesis⟩) (0, .setReplicaUnresponsive id unresponsive)
  simpa only [Trace.step, Trace.nextSim, hok] using hstep

omit [LawfulBincode LogEntry] [StrictBincode LogEntry] [LawfulBincode Snapshot] in
theorem Continues.recover {s s' : Simulation σ} (h : Continues sim s) {now : Nat}
    (hok : s.recoverReplica now id = .ok s') : Continues sim s' := by
  have hstep := h.step (t := ⟨s, History.genesis⟩) (now, .recoverReplica id)
  simpa only [Trace.step, Trace.nextSim, hok] using hstep

/-- A round has crashed the replica, which was live but silent, and it takes part again. -/
def CameBack (id : Nat) (during : List Nat) (sim sim' : Simulation σ) : Prop :=
  sim'.available id = true ∧
    ∃ s, ∃ now ∈ during, Continues sim s ∧ id ∈ s.unresponsiveReplicas ∧
      id ∉ s.crashedReplicas ∧ id ∈ (s.runOneRound now).1.crashedReplicas ∧
      Continues (s.runOneRound now).1 sim'

/-- The replica is crashed with a log that cannot be read back. -/
def Lost (id : Nat) (sim : Simulation σ) : Prop :=
  id ∈ sim.crashedReplicas ∧ ∃ dir ∈ sim.replicaDataDirs[id]?, ¬ FramesFit dir

/-- A crashed replica that does not recover is lost. -/
theorem Arises.lost (harises : Arises sim) {now : Nat} {e : SimulationError}
    (hcrashed : id ∈ sim.crashedReplicas) (herror : sim.recoverReplica now id = .error e) :
    Lost id sim := by
  refine ⟨hcrashed, ?_⟩
  by_contra hfit
  push Not at hfit
  obtain ⟨sim', hok⟩ := harises.exists_recoverReplica now hcrashed hfit
  rw [herror] at hok
  cases hok

omit [Ed25519] [LawfulBincode LogEntry] [StrictBincode LogEntry] [LawfulBincode Snapshot] in
/-- A recovered replica takes part. -/
theorem available_recoverReplica {now : Nat} {sim' : Simulation σ}
    (hok : sim.recoverReplica now id = .ok sim') : sim'.available id = true := by
  obtain ⟨r, keystore, dir, opened, -, -, -, -, -, -, rfl⟩ :=
    recoverReplica_ok_iff.mp hok
  exact available_iff.mpr ⟨Finset.notMem_erase id _, Finset.notMem_erase id _⟩

/-- Five rounds after it has fallen silent a replica is crashed, and then it comes back, unless its
log cannot be read back. -/
theorem Arises.crashRecoverRejoin_comesBack (harises : Arises sim)
    (hpersistent : sim.persistenceEnabled = true) (hseat : id < sim.replicas.length)
    (ha : sim.available id = true) {before during : List Nat} (rejoinAt : Nat) (after : List Nat)
    (hrounds : 5 ≤ during.length) (hsteps : sim.step + before.length + 4 ≤ sim.maxSteps)
    (hclock : sim.simulatedTimeMs + (before.length + 5) * 1000 ≤ 2 ^ 128 - 1) :
    let out := sim.crashRecoverRejoin id before during rejoinAt after
    out.2 = .ok () ∧ CameBack id during sim out.1 ∨
      out.2 ≠ .ok () ∧ Continues sim out.1 ∧ Lost id out.1 := by
  have hround : ∀ s (s' : Simulation σ) now, Continues s s' → Continues s (s'.runOneRound now).1 :=
    fun _ _ now hs => hs.runOneRound now
  have hpace := harises.waits.2
  obtain ⟨hmax, hstep, hpace', htime⟩ := sim.runRounds_bounds before
  have hmid : Continues sim (sim.runRounds before) :=
    runRounds_preserves (hround sim) before .refl
  have hinstalled := (installed_rule sim.persistenceEnabled sim.replicas.length).runRounds
    ⟨rfl, rfl⟩ before
  have hamid := takesPart_runRounds before harises.wellTimed ha
  generalize hgen : sim.runRounds before = mid at *
  have hmidArises := hmid.arises harises
  have htimed := hmidArises.wellTimed
  have hseat' : id < mid.replicas.length := hinstalled.2.symm ▸ hseat
  have hlive := (available_iff.mp hamid).1
  have hset : mid.setReplicaUnresponsive id true =
      .ok { mid with unresponsiveReplicas := insert id mid.unresponsiveReplicas } :=
    setReplicaUnresponsive_ok_iff.mpr ⟨hseat', hlive, rfl⟩
  have hsilent := hmid.interrupt hset
  have hr := List.getElem?_eq_getElem hseat'
  have hfallen : SilentSince id 5000 ((mid.lastResponseMs[id]?).getD 0)
      { mid with unresponsiveReplicas := insert id mid.unresponsiveReplicas } :=
    ⟨Finset.mem_insert_self .., hlive, ⟨_, hr, (hmidArises.waits.1 id _ hr).1⟩, rfl,
      htimed.past id, hinstalled.1.trans hpersistent, htimed.keystores⟩
  simp only [Simulation.crashRecoverRejoin, hgen, hset]
  generalize hsim : ({ mid with unresponsiveReplicas := insert id mid.unresponsiveReplicas } :
    Simulation σ) = silent at hsilent hfallen
  have hsame : silent.replicas = mid.replicas ∧ silent.step = mid.step ∧
      silent.maxSteps = mid.maxSteps ∧ silent.roundTimeMs = mid.roundTimeMs ∧
      silent.simulatedTimeMs = mid.simulatedTimeMs := by
    rw [← hsim]
    exact ⟨rfl, rfl, rfl, rfl, rfl⟩
  obtain ⟨hreplicas, hstep', hmax', hpace'', htime'⟩ := hsame
  have hsilentArises := hsilent.arises harises
  have hcrashed : id ∈ (silent.runUntilCrashed id during).crashedReplicas := by
    have hpast := htimed.past id
    refine crashed_runUntilCrashed hsilentArises.reopenable hsilentArises.wellTimed (.inr hfallen)
      (hreplicas ▸ hseat') (by decide) hrounds (by omega) ?_
    rw [hpace'', htime', hpace', hpace]
    rw [hpace] at htime
    have hdue : (mid.lastResponseMs[id]?).getD 0 + 5000 ≤
        sim.simulatedTimeMs + (before.length + 5) * 1000 := by omega
    exact le_min (by omega) (hdue.trans hclock)
  have hwaited : Continues sim (silent.runUntilCrashed id during) :=
    runUntilCrashed_preserves (hround sim) id during hsilent
  -- until the round that crashes it the replica stays silent
  have hsilentRound : ∀ (s : Simulation σ) now, Continues sim s ∧ SilentSince id 5000
      ((mid.lastResponseMs[id]?).getD 0) s → id ∉ (s.runOneRound now).1.crashedReplicas →
      Continues sim (s.runOneRound now).1 ∧ SilentSince id 5000
        ((mid.lastResponseMs[id]?).getD 0) (s.runOneRound now).1 := by
    rintro s now ⟨hs, hsince⟩ hstays
    have hrange := (hs.arises harises).wellTimed.range
    have hafter := (Missing.round (.inr hsince) hrange now).1.1
    exact ⟨hs.runOneRound now, hafter.resolve_left fun hleft => hstays hleft.1⟩
  obtain ⟨s, now, hnow, ⟨hs, hsince⟩, hends⟩ :=
    crash_of_runUntilCrashed hsilentRound ⟨hsilent, hfallen⟩ hfallen.live hcrashed
  rw [hends] at hcrashed hwaited ⊢
  rw [if_neg (not_not.mpr hcrashed)]
  cases hrecover : (s.runOneRound now).1.recoverReplica rejoinAt id with
  | error e =>
    exact .inr ⟨fun h => (by cases h), hwaited, (hwaited.arises harises).lost hcrashed hrecover⟩
  | ok back =>
    have hback : Continues (s.runOneRound now).1 back := Continues.refl.recover hrecover
    refine .inl ⟨rfl, ?_, s, now, hnow, hs, hsince.unresponsive, hsince.live, hcrashed,
      runRounds_preserves (hround _) after hback⟩
    exact takesPart_runRounds after (hback.arises (hwaited.arises harises)).wellTimed
      (available_recoverReplica hrecover)

omit [LawfulBincode LogEntry] [StrictBincode LogEntry] [LawfulBincode Snapshot] in
theorem Continues.trans {s s' : Simulation σ} (h : Continues sim s) (h' : Continues s s') :
    Continues sim s' := by
  induction h' with
  | refl => exact h
  | step op _ ih => exact ih.step op
  | resume _ hresumes ih => exact ih.resume hresumes

/-- Whatever has happened before, the scenario crashes a replica that takes part, or is still
crashed, and brings it back, if it lets it fall silent for five rounds and there are steps left for
them. It fails only when the replica has left a log with a record of 4 GiB or more. -/
theorem Arises.scenario_comesBack (harises : Arises sim)
    (hpersistent : sim.persistenceEnabled = true) (hseat : id < sim.replicas.length)
    (hresponsive : id ∉ sim.unresponsiveReplicas) {before during : List Nat}
    (recoverAt rejoinAt : Nat) (after : List Nat) (hrounds : 5 ≤ during.length)
    (hsteps : sim.step + before.length + 4 ≤ sim.maxSteps)
    (hclock : sim.simulatedTimeMs + (before.length + 5) * 1000 ≤ 2 ^ 128 - 1) :
    let out := sim.runCrashRecoverRejoinScenario id recoverAt before during rejoinAt after
    out.2 = .ok () ∧ CameBack id during sim out.1 ∨
      out.2 ≠ .ok () ∧ Continues sim out.1 ∧ Lost id out.1 := by
  rw [Simulation.runCrashRecoverRejoinScenario]
  split
  · next hcrashed =>
    cases hrecover : sim.recoverReplica recoverAt id with
    | error e =>
      exact .inr ⟨fun h => (by cases h), .refl, harises.lost hcrashed hrecover⟩
    | ok back =>
      have hback : Continues sim back := Continues.refl.recover hrecover
      have hsame := recoverReplica_surroundings hrecover
      have hclock' : back.simulatedTimeMs = sim.simulatedTimeMs := by
        obtain ⟨r, keystore, dir, opened, -, -, -, -, -, -, rfl⟩ :=
          recoverReplica_ok_iff.mp hrecover
        rfl
      have hstep : back.step = sim.step := congrArg Surroundings.step hsame
      have hmax : back.maxSteps = sim.maxSteps := congrArg Surroundings.maxSteps hsame
      have hcount : back.replicas.length = sim.replicas.length :=
        congrArg Surroundings.count hsame
      rcases (hback.arises harises).crashRecoverRejoin_comesBack
        ((congrArg Surroundings.persistenceEnabled hsame).trans hpersistent) (hcount ▸ hseat)
        (available_recoverReplica hrecover) rejoinAt after hrounds (hstep ▸ hmax ▸ hsteps)
        (hclock' ▸ hclock) with ⟨hok, ha, s, now, hnow, hs, hcrash⟩ | ⟨herror, hs, hlost⟩
      · exact .inl ⟨hok, ha, s, now, hnow, hback.trans hs, hcrash⟩
      · exact .inr ⟨herror, hback.trans hs, hlost⟩
  · next hlive =>
    exact harises.crashRecoverRejoin_comesBack hpersistent hseat
      (available_iff.mpr ⟨hlive, hresponsive⟩) rejoinAt after hrounds hsteps hclock

end Outcome

section Samples

open Sample Trace

/-- Four sample replicas after a round, when replica 2 is crashed. -/
def oneCrashed : Simulation NoOpApp :=
  (run Trace.step fourDurable [(1, .runOneRound), (2, .crashReplica 2)]).sim

/-- Replica 2 is recovered, falls silent after a round, is crashed by its timeout and comes back. -/
theorem scenario_comesBack_oneCrashed :
    2 ∈ oneCrashed.crashedReplicas ∧
      (oneCrashed.runCrashRecoverRejoinScenario 2 3 [4] [5, 6, 7, 8, 9, 10] 11 [12]).2 = .ok () ∧
      CameBack 2 [5, 6, 7, 8, 9, 10] oneCrashed
        (oneCrashed.runCrashRecoverRejoinScenario 2 3 [4] [5, 6, 7, 8, 9, 10] 11 [12]).1 := by
  have harises : oneCrashed.Arises := fourDurable_start.starting.arises.run _
  have hsetting : oneCrashed.persistenceEnabled = true ∧ 2 < oneCrashed.replicas.length ∧
      2 ∉ oneCrashed.unresponsiveReplicas ∧ oneCrashed.step + [4].length + 4 ≤ oneCrashed.maxSteps ∧
      oneCrashed.simulatedTimeMs + ([4].length + 5) * 1000 ≤ 2 ^ 128 - 1 := by decide +kernel
  have hok : (oneCrashed.runCrashRecoverRejoinScenario 2 3 [4] [5, 6, 7, 8, 9, 10] 11 [12]).2 =
      .ok () := by decide +kernel
  obtain ⟨hpersistent, hseat, hresponsive, hsteps, hclock⟩ := hsetting
  refine ⟨by decide +kernel, hok, ?_⟩
  have hrounds : 5 ≤ [5, 6, 7, 8, 9, 10].length := by decide
  rcases harises.scenario_comesBack hpersistent hseat hresponsive 3 11 [12] hrounds hsteps hclock
    with ⟨-, hback⟩ | ⟨herror, -⟩
  · exact hback
  · exact absurd hok herror

end Samples

end Simulation

end PersistHotStuff
