import PersistHotStuff.Source.Types

/-!
# Network

The message queue of the simulator and its counter of block hashes. Message
statistics are only printed and are left out.
-/

namespace PersistHotStuff

/-- Message types for communication between replicas. -/
inductive Message
  | proposal (sender receiver : ReplicaId) (block : Block)
  | vote (sender receiver : ReplicaId) (vote : Vote)
  | quorumCertBroadcast (sender receiver : ReplicaId) (qc : QuorumCert) (blockHash : Hash)
  | newView (sender receiver : ReplicaId) (view : Nat) (highQc : Option QuorumCert)
  deriving DecidableEq, Repr

/-- Network simulator that manages message delivery between replicas. -/
structure Network where
  /-- Queue of pending messages, oldest first. -/
  messageQueue : List Message
  numReplicas : Nat
  /-- Counter for unique block hashes across all replicas. -/
  nextGlobalHash : Hash
  deriving DecidableEq

namespace Network

/-- An idle network; hash 0 is reserved for genesis. -/
def new (numReplicas : Nat) : Network where
  messageQueue := []
  numReplicas := numReplicas
  nextGlobalHash := 1

/-- Send one message. -/
def send (net : Network) (msg : Message) : Network :=
  { net with messageQueue := net.messageQueue ++ [msg] }

/-- Send a message to every replica but one. -/
def broadcast (net : Network) (sender : ReplicaId) (msg : ReplicaId → Message) : Network :=
  (List.range net.numReplicas).foldl
    (fun net receiver => if receiver ≠ sender then net.send (msg receiver) else net) net

/-- Broadcast a proposal to all other replicas. -/
def broadcastProposal (net : Network) (sender : ReplicaId) (block : Block) : Network :=
  net.broadcast sender fun receiver => .proposal sender receiver block

/-- Broadcast a certificate to all other replicas. -/
def broadcastQc (net : Network) (sender : ReplicaId) (qc : QuorumCert) (blockHash : Hash) :
    Network :=
  net.broadcast sender fun receiver => .quorumCertBroadcast sender receiver qc blockHash

/-- Send a vote from a replica to the leader. -/
def sendVote (net : Network) (sender receiver : ReplicaId) (vote : Vote) : Network :=
  net.send (.vote sender receiver vote)

/-- Receive messages until the queue is empty. -/
def drain (net : Network) : List Message × Network :=
  (net.messageQueue, { net with messageQueue := [] })

/-- Generate a globally unique hash for a new block. -/
def generateUniqueHash (net : Network) : Hash × Network :=
  (net.nextGlobalHash, { net with nextGlobalHash := net.nextGlobalHash + 1 })

end Network

end PersistHotStuff
