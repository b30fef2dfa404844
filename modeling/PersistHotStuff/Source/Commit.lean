import PersistHotStuff.Source.Replica

/-!
# Commit rule and membership

The scan for a three-chain, the execution of a committed block with its
membership command, and the loop that commits all that can be committed.
-/

namespace PersistHotStuff

open Basis

/-- The child the commit scan looks at: the one with the least hash. -/
def firstChild (tree : OrdMap Hash Block) (hash : Hash) : Option Block :=
  tree.values.find? fun b => b.parent == some hash

/-- The scan's test of a candidate: its first child and that child's first child carry
certificates. -/
def threeChain (tree : OrdMap Hash Block) (b0 : Block) : Bool :=
  match firstChild tree b0.hash with
  | none => false
  | some b1 =>
      b1.qc.isSome &&
        match firstChild tree b1.hash with
        | none => false
        | some b2 => b2.qc.isSome

namespace Replica

variable {σ : Type}

/-- Whether a hash is in the committed log. -/
def isCommitted (r : Replica σ) (hash : Hash) : Bool :=
  r.committedLog.any fun b => b.hash == hash

/-- Detect if a three-chain exists and return the committed block. -/
def findCommittedBlock (r : Replica σ) : Option Block :=
  r.blockTree.values.find? fun b0 => !r.isCommitted b0.hash && threeChain r.blockTree b0

/-- The membership part of committing a command. -/
def applyMembershipCommand [Ed25519] (r : Replica σ) (command : ConsensusCommand) : Replica σ :=
  match command with
  | .joinValidator replicaId publicKey =>
      if r.activeValidators.contains replicaId then r
      else if !canApplyNewValidatorCount (r.activeValidators.length + 1) then r
      else
        match r.keystore.addPublicKey replicaId publicKey with
        | (_, false) => r
        | (keystore, true) =>
            let r := { r with
              keystore := keystore
              activeValidators := r.activeValidators.insert replicaId ()
              configEpoch := saturatingAdd r.configEpoch 1 }
            { r with
              config := { r.config with n := r.activeValidators.length, f := r.dynamicF }
              votePool := OrdMap.empty }
  | .removeValidator replicaId =>
      if !r.activeValidators.contains replicaId then r
      else if !canApplyNewValidatorCount (r.activeValidators.length - 1) then r
      else
        let r := { r with
          activeValidators := r.activeValidators.erase replicaId
          keystore := r.keystore.removePublicKey replicaId
          configEpoch := saturatingAdd r.configEpoch 1 }
        { r with
          config := { r.config with n := r.activeValidators.length, f := r.dynamicF }
          votePool := OrdMap.empty }
  | _ => r

/-- Forward a committed block to the attached application; its errors are only printed. -/
def applyToApp [App σ] (r : Replica σ) (block : Block) : Replica σ :=
  match r.app with
  | none => r
  | some app =>
      let cmd : CommittedCommand :=
        { blockHash := block.hash
          view := block.view
          epoch := block.epoch
          proposer := block.proposer
          command := block.command
          commitIndex := r.committedLog.length - 1 }
      { r with app := some (App.apply app cmd).2 }

/-- Reset the timer when a block is committed. -/
def onCommit (now : Nat) (r : Replica σ) : Replica σ := { r with viewStartTime := now }

section

variable [Ed25519] [Bincode LogEntry] [Crc32] [App σ]

/-- Execute and commit a block to the committed log. -/
def executeAndCommit (now : Nat) (r : Replica σ) (block : Block) : Replica σ :=
  let r := r.record (LogEntry.fromCommittedBlock now block r.committedLog.length)
  let r := { r with
    committedLog := r.committedLog ++ [block]
    committedUpTo := some block.hash }
  let r := r.applyMembershipCommand block.command
  (r.applyToApp block).onCommit now

/-- Attempt to commit one block using the three-chain rule. -/
def tryCommitOnce (now : Nat) (r : Replica σ) : Replica σ × Bool :=
  match r.findCommittedBlock with
  | some block => (r.executeAndCommit now block, true)
  | none => (r, false)

/-- `while self.try_commit_once() {}`, for a bounded number of rounds. -/
def commitLoop (now : Nat) : Nat → Replica σ → Replica σ
  | 0, r => r
  | fuel + 1, r =>
      match r.tryCommitOnce now with
      | (r, true) => commitLoop now fuel r
      | (r, false) => r

/-- Commit all committable blocks in sequence; no more commits happen than the tree has
blocks. -/
def commitAll (now : Nat) (r : Replica σ) : Replica σ := commitLoop now r.blockTree.length r

end

end Replica

end PersistHotStuff
