import PersistHotStuff.Source.App
import PersistHotStuff.Source.Snapshot

/-!
# Replica

The state of one replica and its protocol handlers: leader election, proposals,
votes and certificates. Every handler that reads the clock takes the time `now`.
-/

namespace PersistHotStuff

open Basis

/-- The state of a replica; `σ` is the state of the attached application. -/
structure Replica (σ : Type) where
  config : Config
  currentView : Nat
  blockTree : OrdMap Hash Block
  highQc : Option QuorumCert
  votePool : OrdMap Hash (List Signature)
  nextHash : Hash
  committedLog : List Block
  committedUpTo : Option Hash
  timeoutMs : Nat
  viewStartTime : Nat
  /-- Current active validator set used for leader election and quorum. -/
  activeValidators : OrdMap ReplicaId Unit
  /-- Membership configuration epoch. -/
  configEpoch : Nat
  keystore : KeyStore
  /-- Optional log handle; `none` means persistence is disabled. -/
  wal : Option WAL
  snapshotCounter : Nat
  app : Option σ
  /-- Application state loaded from a snapshot but not yet restored. -/
  pendingAppState : Option Bytes
  /-- Pending client commands waiting to be proposed. -/
  clientQueue : List ConsensusCommand
  dummyProposalEnabled : Bool
  lastProposedTime : Nat
  dummyTimeoutMs : Nat
  deriving DecidableEq

/-- The validator set `{0, .., n-1}`. -/
def defaultValidators (n : Nat) : OrdMap ReplicaId Unit :=
  OrdMap.ofList ((List.range n).map fun id => (id, ()))

namespace Replica

variable {σ : Type}

/-- Current validator count under active configuration. -/
def dynamicN (r : Replica σ) : Nat := r.activeValidators.length

/-- Current Byzantine fault threshold under active configuration. -/
def dynamicF (r : Replica σ) : Nat :=
  if r.dynamicN = 0 then 0 else (r.dynamicN - 1) / 3

/-- Dynamic quorum size for the active validator set. -/
def dynamicQuorumSize (r : Replica σ) : Nat := 2 * r.dynamicF + 1

/-- Dynamic leader selection over sorted active validator ids. -/
def dynamicLeaderForView (r : Replica σ) (view : Nat) : ReplicaId :=
  if r.activeValidators.isEmpty then r.config.id
  else
    let idx := view % r.activeValidators.length
    (r.activeValidators.keys[idx]?).getD r.config.id

/-- Set the initial validator set from the configuration if it is empty. -/
def ensureDefaultValidators (r : Replica σ) : Replica σ :=
  if r.activeValidators.isEmpty then { r with activeValidators := defaultValidators r.config.n }
  else r

/-- Whether a validator set may have this size after a change. -/
def canApplyNewValidatorCount (newN : Nat) : Bool :=
  if newN < 4 then false else newN % 3 == 1

/-- Check if this replica is the leader for a given view. -/
def isLeader (r : Replica σ) (view : Nat) : Bool := r.dynamicLeaderForView view == r.config.id

/-- The leader of the current view. -/
def currentLeader (r : Replica σ) : ReplicaId := r.dynamicLeaderForView r.currentView

/-- Check if this replica is the leader for the current view. -/
def amILeader (r : Replica σ) : Bool := r.dynamicLeaderForView r.currentView == r.config.id

/-- Find the hash of the latest block in the tree: greatest view, last of equals. -/
def latestBlockHash (r : Replica σ) : Option Hash :=
  (r.blockTree.values.foldl (fun best b =>
    match best with
    | none => some b
    | some a => if a.view ≤ b.view then some b else some a) none).map Block.hash

/-- The parent a new block gets: the certified block, or the latest one without a certificate. -/
def nextParent (r : Replica σ) : Option Hash :=
  match r.highQc with
  | some qc => some qc.blockHash
  | none => r.latestBlockHash

/-- Build a block on top of the current certificate and put it into the tree. -/
def proposeBlock (now : Nat) (r : Replica σ) (view : Nat) (hash : Hash)
    (command : ConsensusCommand) : Replica σ × Option Block :=
  let block : Block :=
    { hash := hash
      parent := r.nextParent
      view := view
      epoch := r.configEpoch
      proposer := r.config.id
      qc := r.highQc
      command := command }
  ({ r with blockTree := r.blockTree.insert hash block, lastProposedTime := now }, some block)

/-- Propose a command block under the next local hash. -/
def proposeCommand (now : Nat) (r : Replica σ) (view : Nat) (command : ConsensusCommand) :
    Replica σ × Option Block :=
  if r.isLeader view then
    { r with nextHash := wrappingAdd r.nextHash 1 }.proposeBlock now view r.nextHash command
  else (r, none)

/-- Propose a new block if this replica is the leader. -/
def propose (now : Nat) (r : Replica σ) (view : Nat) : Replica σ × Option Block :=
  if r.isLeader view then
    { r with nextHash := wrappingAdd r.nextHash 1 }.proposeBlock now view r.nextHash .noOp
  else (r, none)

/-- Propose a new block with a hash provided by the network. -/
def proposeWithHash (now : Nat) (r : Replica σ) (view : Nat) (uniqueHash : Hash) :
    Replica σ × Option Block :=
  if r.isLeader view then r.proposeBlock now view uniqueHash .noOp else (r, none)

/-- Append one record to the log, if one is attached; the outcome is discarded. -/
def record [Bincode LogEntry] [Crc32] (r : Replica σ) (entry : LogEntry) : Replica σ :=
  { r with wal := r.wal.map fun w => (w.append entry).2 }

/-- Reset the timer when a valid proposal is received. -/
def onInsertingBlockProposal (now : Nat) (r : Replica σ) : Replica σ :=
  { r with viewStartTime := now }

section Handlers

variable [Ed25519] [Sha256] [Bincode LogEntry] [Crc32]

/-- The checks an incoming proposal has to pass. -/
def acceptsProposal (r : Replica σ) (block : Block) : Bool :=
  if block.proposer ≠ r.dynamicLeaderForView block.view then false
  else if block.epoch ≠ r.configEpoch then false
  else if (match block.parent with
      | some parentHash => !r.blockTree.contains parentHash
      | none => false) then false
  else
    match block.qc with
    | none => true
    | some qc =>
        if qc.epoch ≠ r.configEpoch then false
        else if !r.keystore.verifyQc qc r.dynamicQuorumSize then false
        else r.blockTree.contains qc.blockHash

/-- Validate an incoming block proposal and, when it passes, log and insert it. -/
def validateAndInsertProposal (now : Nat) (r : Replica σ) (block : Block) : Replica σ × Bool :=
  if r.acceptsProposal block then
    let r := r.record (LogEntry.fromBlock now block)
    ({ r with blockTree := r.blockTree.insert block.hash block }.onInsertingBlockProposal now, true)
  else (r, false)

/-- Try to form a certificate if enough votes have been collected. -/
def tryFormQc (now : Nat) (r : Replica σ) (blockHash : Hash) (view epoch : Nat) :
    Replica σ × Option QuorumCert :=
  match r.votePool.get? blockHash with
  | none => (r, none)
  | some sigs =>
      if r.dynamicQuorumSize ≤ sigs.length then
        let qc : QuorumCert := { blockHash, view, epoch, signatures := sigs }
        let r := { r with highQc := some qc }
        let r := r.record (.qcFormed blockHash view epoch sigs.length now)
        let r := r.record (.highQcUpdated blockHash view epoch now)
        (r, some qc)
      else (r, none)

/-- Handle an incoming vote from another replica. -/
def handleVote (now : Nat) (r : Replica σ) (vote : Vote) : Replica σ × Option QuorumCert :=
  if vote.epoch ≠ r.configEpoch then (r, none)
  else if !r.activeValidators.contains vote.signature.signer then (r, none)
  else if !r.keystore.verify vote.signature vote.blockHash vote.view vote.epoch then (r, none)
  else if r.config.n ≤ vote.signature.signer then (r, none)
  else
    match r.blockTree.get? vote.blockHash with
    | none => (r, none)
    | some b =>
        if b.epoch ≠ vote.epoch then (r, none)
        else
          let entry := (r.votePool.get? vote.blockHash).getD []
          if entry.any fun s => s.signer == vote.signature.signer then (r, none)
          else
            let r := { r with
              votePool := r.votePool.insert vote.blockHash (entry ++ [vote.signature]) }
            r.tryFormQc now vote.blockHash vote.view vote.epoch

/-- Vote with this replica's own key and process the vote. -/
def receiveVoteFromReplica (now : Nat) (r : Replica σ) (replicaId : ReplicaId)
    (blockHash : Hash) (view : Nat) : Replica σ × Option QuorumCert :=
  if replicaId ≠ r.config.id then (r, none)
  else
    let signature := r.keystore.sign blockHash view r.configEpoch
    r.handleVote now { blockHash, view, epoch := r.configEpoch, signature }

end Handlers

section Network

variable [Bincode LogEntry] [Crc32]

/-- Whether one certificate is newer than another: greater epoch, then greater view. -/
def newerQc (a b : QuorumCert) : Bool :=
  decide (b.epoch < a.epoch ∨ a.epoch = b.epoch ∧ b.view < a.view)

/-- Apply a high certificate learned from the network. -/
def applyHighQcFromNetwork (now : Nat) (r : Replica σ) (qc : QuorumCert) : Replica σ × Bool :=
  let shouldUpdate := match r.highQc with
    | some current => newerQc qc current
    | none => true
  if shouldUpdate then
    let r := { r with highQc := some qc }
    (r.record (.highQcUpdated qc.blockHash qc.view qc.epoch now), true)
  else (r, false)

/-- Advance to the next view and durably record the transition. -/
def advanceViewWithReason (now : Nat) (r : Replica σ) (reason : ViewChangeReason) : Replica σ :=
  let newView := saturatingAdd r.currentView 1
  let r := { r with currentView := newView }.record (.viewChanged r.currentView newView reason now)
  { r with viewStartTime := now, votePool := OrdMap.empty }

/-- Handle a view timeout by moving to the next view. -/
def onViewTimeout (now : Nat) (r : Replica σ) : Replica σ :=
  r.advanceViewWithReason now .timeout

end Network

end Replica

end PersistHotStuff
