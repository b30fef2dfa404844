import PersistHotStuff.Source.Simulation

/-!
# Scenario

The loops over rounds: the main loop of the simulator, and the built-in scenario
in which one replica falls silent, is crashed by its timeout, recovers and
rejoins. Every round reads its own time. What is only printed is left out.
-/

namespace PersistHotStuff

open Basis

/-- Why the scenario ends early. -/
inductive ScenarioError
  /-- An operation on the replica is refused. -/
  | operation (e : SimulationError)
  /-- The replica has not been crashed within so many rounds. -/
  | noTimeout (id rounds : Nat)
  deriving DecidableEq, Repr

namespace Simulation

variable {σ : Type} [Ed25519] [Sha256] [Bincode LogEntry] [Bincode Snapshot] [Crc32] [App σ]

/-- Run one round at each of the given times, until one is refused. -/
def runRounds : List Nat → Simulation σ → Simulation σ
  | [], sim => sim
  | now :: times, sim =>
      let (sim, goesOn) := sim.runOneRound now
      if !goesOn then sim else runRounds times sim

/-- Run rounds until one is refused or a replica is crashed. -/
def runUntilCrashed (id : Nat) : List Nat → Simulation σ → Simulation σ
  | [], sim => sim
  | now :: times, sim =>
      let (sim, goesOn) := sim.runOneRound now
      if !goesOn then sim
      else if id ∈ sim.crashedReplicas then sim
      else runUntilCrashed id times sim

/-- The scenario from the rounds before the crash on. -/
def crashRecoverRejoin (id : Nat) (before during : List Nat) (rejoinAt : Nat) (after : List Nat)
    (sim : Simulation σ) : Simulation σ × Except ScenarioError Unit :=
  let sim := sim.runRounds before
  match sim.setReplicaUnresponsive id true with
  | .error e => (sim, .error (.operation e))
  | .ok sim =>
      let sim := sim.runUntilCrashed id during
      if id ∉ sim.crashedReplicas then (sim, .error (.noTimeout id during.length))
      else
        match sim.recoverReplica rejoinAt id with
        | .error e => (sim, .error (.operation e))
        | .ok sim => (sim.runRounds after, .ok ())

/-- Run the crash, recover and rejoin scenario for one replica, after recovering it if it is still
crashed. The rounds are given by their times. -/
def runCrashRecoverRejoinScenario (id recoverAt : Nat) (before during : List Nat) (rejoinAt : Nat)
    (after : List Nat) (sim : Simulation σ) : Simulation σ × Except ScenarioError Unit :=
  if id ∈ sim.crashedReplicas then
    match sim.recoverReplica recoverAt id with
    | .error e => (sim, .error (.operation e))
    | .ok sim => sim.crashRecoverRejoin id before during rejoinAt after
  else sim.crashRecoverRejoin id before during rejoinAt after

end Simulation

end PersistHotStuff
