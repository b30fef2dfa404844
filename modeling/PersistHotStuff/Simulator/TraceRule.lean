import PersistHotStuff.Simulator.Duty

/-!
# What a run preserves

What every step of a round keeps, and every operation between rounds, every run
keeps. Two kinds of such properties recur: of each replica in its seat, and of
each replica together with its directory.
-/

namespace PersistHotStuff

open Basis

namespace Simulation

variable {σ : Type} [Ed25519] [Sha256] [Bincode LogEntry] [Bincode Snapshot] [Crc32] [App σ]

/-- A property of simulations that every step of a round, a timeout sweep and the counting of a step
keep. -/
structure TurnRule (I : Simulation σ → Prop) : Prop extends RoundRule I where
  bump : ∀ sim, I sim → I sim.bumpStep
  sweep : ∀ now sim, I sim → I (sim.processTimeoutCrashes now)

namespace TurnRule

variable {I : Simulation σ → Prop} {sim : Simulation σ}

/-- A round up to its last view change. -/
theorem simAfter (h : TurnRule I) (hI : I sim) {now : Nat} {how : Hash → ProposeCall}
    {opening : Opening σ} (hopen : Opens now how sim opening) (always : Bool) :
    I (sim.simAfter now always opening) :=
  h.ruleFor.simAfter hI hopen (fun _ _ _ _ => trivial) (fun _ _ _ _ => trivial) always

/-- What holds once the clock has advanced holds after the round. -/
theorem runOneRound (h : TurnRule I) (hI : I sim.advanceSimulatedTime) (now : Nat) :
    I (sim.runOneRound now).1 := by
  have hstart : I (sim.roundStart now) := h.sweep now _ hI
  exact runOneRound_closes (I := I) (fun s reason responds hs =>
    h.toRoundRule.advanceViews hs now reason responds) (fun s hs => h.sweep now _ (h.bump s hs)) sim
    (fun _ => hstart) fun _ => h.simAfter hstart (openRound_opens now .proposeWithHash _) false

theorem runOneRoundWithPacemaker (h : TurnRule I) (hI : I sim.advanceSimulatedTime) (now : Nat) :
    I (sim.runOneRoundWithPacemaker now).1 := by
  have hstart : I (sim.roundStart now) := h.sweep now _ hI
  exact runOneRoundWithPacemaker_closes (I := I) (fun s reason responds hs =>
    h.toRoundRule.advanceViews hs now reason responds) (fun s hs => h.bump s hs) sim
    (fun _ => hstart) fun _ => h.simAfter hstart (openRound_opens now .proposeNextWithHash _) true

end TurnRule

/-- A property of simulations that every step of a round and every operation between rounds
keeps. -/
structure TraceRule (I : Simulation σ → Prop) : Prop extends RoundRule I where
  clock : ∀ sim, I sim → I sim.advanceSimulatedTime
  bump : ∀ sim, I sim → I sim.bumpStep
  crash : ∀ now sim id sim', I sim → sim.crashReplica now id = .ok sim' → I sim'
  recover : ∀ now sim id sim', I sim → sim.recoverReplica now id = .ok sim' → I sim'
  interrupt : ∀ sim id unresponsive sim', I sim →
    sim.setReplicaUnresponsive id unresponsive = .ok sim' → I sim'
  configure : ∀ now sim call replicas, I sim → replicas.length = sim.replicas.length →
    (∀ (i : Nat) r', replicas[i]? = some r' →
      ∃ r, sim.replicas[i]? = some r ∧ (r' = r ∨ r' = r.step (now, call))) →
    I { sim with replicas := replicas }

namespace TraceRule

variable {I : Simulation σ → Prop}

theorem turnRule (h : TraceRule I) : TurnRule I where
  toRoundRule := h.toRoundRule
  bump := h.bump
  sweep now _ hs :=
    processTimeoutCrashes_preserves (fun s id s' hI hok => h.crash now s id s' hI hok) hs

/-- Every operation keeps what the rule keeps. -/
theorem step (h : TraceRule I) {t : Trace σ} (hI : I t.sim) (op : Nat × SimulationOp) :
    I (t.step op).sim := by
  obtain ⟨now, op⟩ := op
  have hdoes := t.step_does now op
  generalize (t.step (now, op)).sim = sim' at hdoes ⊢
  cases hdoes with
  | runOneRound => exact h.turnRule.runOneRound (h.clock _ hI) now
  | runOneRoundWithPacemaker => exact h.turnRule.runOneRoundWithPacemaker (h.clock _ hI) now
  | configured _ hlen hreplicas => exact h.configure now _ _ _ hI hlen hreplicas
  | interrupted hok => exact h.interrupt _ _ _ _ hI hok
  | crashed hok => exact h.crash now _ _ _ hI hok
  | recovered hok => exact h.recover now _ _ _ hI hok
  | refused _ => exact hI

end TraceRule

section Seats

/-- What a replica says about its seat, whatever its log file and its snapshot counter, is kept if
calls, a fresh start and a rejoin keep it. -/
theorem traceRule_of_seats {P : Nat → Replica σ → Prop}
    (hcall : ∀ i r c, P i r → P i (r.step c))
    (hfile : ∀ i r wal counter, P i r → P i { r with wal := wal, snapshotCounter := counter })
    (hfresh : ∀ i r now keystore, P i r → P i (freshReplica now r.config keystore))
    (hrejoin : ∀ i r now keystore dir opened others, P i r →
      openReplica now i r.config keystore dir = .ok opened →
      P i (rejoin now others opened dir).1) :
    TraceRule (σ := σ) fun sim => ∀ (i : Nat) r, sim.replicas[i]? = some r → P i r := by
  have hset : ∀ (sim : Simulation σ) (i : Nat) (r' : Replica σ), P i r' →
      (∀ (j : Nat) r, sim.replicas[j]? = some r → P j r) →
      ∀ (j : Nat) r, (sim.replicas.set i r')[j]? = some r → P j r := by
    intro sim i r' hr' h j r hr
    by_cases he : i = j
    · subst he
      rw [List.getElem?_set_self'] at hr
      obtain ⟨-, -, rfl⟩ := Option.map_eq_some_iff.mp hr
      exact hr'
    · rw [List.getElem?_set_ne he] at hr
      exact h j r hr
  refine { call := ?_, snapshot := ?_, respond := fun _ _ h => h, network := fun _ _ h _ => h,
           clock := fun _ h => h, bump := fun _ h => h, crash := ?_, recover := ?_,
           interrupt := ?_, configure := ?_ }
  · intro sim i r c h hr _
    exact hset sim i _ (hcall i r c (h i r hr)) h
  · intro sim i r dir now h hr _ _
    refine hset sim i _ ?_ h
    rw [takeSnapshot_replica]
    exact hfile i r _ _ (h i r hr)
  · intro now sim i sim' h hok
    obtain ⟨r, keystore, -, hr, -, -, rfl⟩ := crashReplica_ok_iff.mp hok
    exact hset sim i _ (hfresh i r now keystore (h i r hr)) h
  · intro now sim i sim' h hok
    obtain ⟨r, keystore, dir, opened, -, hr, -, -, -, hopen, rfl⟩ := recoverReplica_ok_iff.mp hok
    exact hset sim i _ (hrejoin i r now keystore dir opened _ (h i r hr) hopen) h
  · intro sim i unresponsive sim' h hok
    obtain ⟨-, -, rfl⟩ := setReplicaUnresponsive_ok_iff.mp hok
    cases unresponsive <;> exact h
  · intro now sim call replicas h _ hreplicas i r' hr'
    obtain ⟨r, hr, rfl | rfl⟩ := hreplicas i r' hr'
    · exact h i _ hr
    · exact hcall i r _ (h i r hr)

/-- What is said of a live replica with its directory, and of a crashed one with what it has left,
is kept if calls, snapshots, crashes and rejoins keep it. -/
theorem traceRule_of_seated {Live Left : Replica σ → Option DataDir → Prop}
    (hcall : ∀ r c dir, Live r dir → Live (r.step c) dir)
    (hleft : ∀ r c dir, Left r dir → Left (r.step c) dir)
    (hsnapshot : ∀ r dir now, Live r (some dir) →
      Live (r.takeSnapshot now dir).2.1 (some (r.takeSnapshot now dir).2.2))
    (hcrash : ∀ r dir now keystore, Live r dir →
      Left (freshReplica now r.config keystore) (dir.map r.onDisk))
    (hrejoin : ∀ r dir now id keystore opened others, Left r (some dir) →
      openReplica now id r.config keystore dir = .ok opened →
      Live (rejoin now others opened dir).1 (some (rejoin now others opened dir).2)) :
    TraceRule (Seated Live Left) := by
  refine { call := ?_, snapshot := ?_, respond := fun _ _ h => ⟨h.live, h.left⟩,
           network := fun _ _ h _ => ⟨h.live, h.left⟩, clock := fun _ h => ⟨h.live, h.left⟩,
           bump := fun _ h => ⟨h.live, h.left⟩, crash := ?_, recover := ?_, interrupt := ?_,
           configure := ?_ }
  · intro sim i r c h hr ha
    have hi := not_crashed_of_available ha
    exact h.replace hi (fun _ _ => rfl) (hcall r c _ (h.live i r hr hi))
  · intro sim i r dir now h hr ha hdir
    have hi := not_crashed_of_available ha
    refine h.replace hi (fun j hj => List.getElem?_set_ne (Ne.symm hj)) ?_
    have hlive := h.live i r hr hi
    rw [hdir] at hlive
    rw [List.getElem?_set_self (List.getElem?_eq_some_iff.mp hdir).1]
    exact hsnapshot r dir now hlive
  · exact fun now sim i sim' h hok =>
      h.crash (fun _ r dir keystore hlive => hcrash r dir now keystore hlive) hok
  · intro now sim i sim' h hok
    refine h.recover (fun r keystore dir opened hr hi hdir hopen => ?_) hok
    have hleft := h.left i r hr hi
    rw [hdir] at hleft
    exact hrejoin r dir now i keystore opened _ hleft hopen
  · exact fun sim i unresponsive sim' h hok => h.setReplicaUnresponsive hok
  · intro now sim call replicas h _ hreplicas
    refine h.configure fun i r' hr' => ?_
    obtain ⟨r, hr, rfl | rfl⟩ := hreplicas i r' hr'
    · exact ⟨_, hr, fun dir => ⟨id, id⟩⟩
    · exact ⟨r, hr, fun dir => ⟨hcall r _ dir, hleft r _ dir⟩⟩

end Seats

end Simulation

end PersistHotStuff
