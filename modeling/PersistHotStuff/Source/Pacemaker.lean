import PersistHotStuff.Source.Commit

/-!
# Pacemaker and client queue

Dummy proposals during idle periods and the queue of client commands.
-/

namespace PersistHotStuff

open Basis

namespace Replica

variable {σ : Type}

/-- Check if the current view has timed out. -/
def isViewTimeout (now : Nat) (r : Replica σ) : Bool := r.timeoutMs ≤ now - r.viewStartTime

/-- Enable dummy-proposal injection by the pacemaker. -/
def enableDummyProposals (r : Replica σ) (timeoutMs : Nat) : Replica σ :=
  { r with dummyProposalEnabled := true, dummyTimeoutMs := timeoutMs }

/-- Disable dummy-proposal injection. -/
def disableDummyProposals (r : Replica σ) : Replica σ := { r with dummyProposalEnabled := false }

/-- Enqueue a client command for a later proposal. -/
def enqueueCommand (r : Replica σ) (cmd : ConsensusCommand) : Replica σ :=
  { r with clientQueue := r.clientQueue ++ [cmd] }

/-- Check whether the pacemaker should inject a dummy block. -/
def shouldProposeDummy (now : Nat) (r : Replica σ) : Bool :=
  if !r.dummyProposalEnabled then false
  else if !r.amILeader then false
  else if !r.clientQueue.isEmpty then false
  else if now - r.lastProposedTime < r.dummyTimeoutMs then false
  else r.findCommittedBlock.isNone

/-- Propose the next block for this view: the newest queued command, else a dummy if one is
due. -/
def proposeNext (now : Nat) (r : Replica σ) (view : Nat) : Replica σ × Option Block :=
  if !r.isLeader view then (r, none)
  else
    match r.clientQueue.getLast? with
    | some cmd => { r with clientQueue := r.clientQueue.dropLast }.proposeCommand now view cmd
    | none => if r.shouldProposeDummy now then r.propose now view else (r, none)

/-- Like `proposeNext`, with a hash assigned by the network. -/
def proposeNextWithHash (now : Nat) (r : Replica σ) (view : Nat) (uniqueHash : Hash) :
    Replica σ × Option Block :=
  if !r.isLeader view then (r, none)
  else
    match r.clientQueue.getLast? with
    | some cmd =>
        { r with clientQueue := r.clientQueue.dropLast }.proposeBlock now view uniqueHash cmd
    | none =>
        if r.shouldProposeDummy now then r.proposeWithHash now view uniqueHash else (r, none)

end Replica

end PersistHotStuff
