import PersistHotStuff.Basis.OrdMap
import PersistHotStuff.Basis.Frame
import PersistHotStuff.Basis.Run
import PersistHotStuff.Source.Types
import PersistHotStuff.Source.Crypto
import PersistHotStuff.Source.Wal
import PersistHotStuff.Source.Snapshot
import PersistHotStuff.Source.App
import PersistHotStuff.Source.Replica
import PersistHotStuff.Source.Commit
import PersistHotStuff.Source.Pacemaker
import PersistHotStuff.Source.Persistence
import PersistHotStuff.Source.Recovery
import PersistHotStuff.Source.Network
import PersistHotStuff.Source.Simulation
import PersistHotStuff.Basis.Chain
import PersistHotStuff.Basis.Codec
import PersistHotStuff.Handlers.Acceptance
import PersistHotStuff.Handlers.Certified
import PersistHotStuff.Handlers.LogChain
import PersistHotStuff.Basis.Crash
import PersistHotStuff.Basis.Register
import PersistHotStuff.Durability.Commands
import PersistHotStuff.Durability.Rejoin
import PersistHotStuff.Durability.Replay
import PersistHotStuff.Durability.SnapshotSurvival
import PersistHotStuff.Durability.Validators
import PersistHotStuff.Basis.Quorum
import PersistHotStuff.Cluster.Certificates
import PersistHotStuff.Basis.TwoChain
import PersistHotStuff.Cluster.Agreement
import PersistHotStuff.Simulator.Disk
import PersistHotStuff.Simulator.Rounds
import PersistHotStuff.Simulator.Trace
import PersistHotStuff.Basis.CutFrames
import PersistHotStuff.Basis.Forest
import PersistHotStuff.Durability.AppState
import PersistHotStuff.Durability.Blocks
import PersistHotStuff.Durability.Certificates
import PersistHotStuff.Handlers.HighQc
import PersistHotStuff.Handlers.VoteCount
import PersistHotStuff.Simulator.Collect
import PersistHotStuff.Simulator.FaultFree
import PersistHotStuff.Simulator.Faults
import PersistHotStuff.Durability.LogRefinement
import PersistHotStuff.Durability.Refusals
import PersistHotStuff.Handlers.ActiveKeys
import PersistHotStuff.Handlers.CommitSearch
import PersistHotStuff.Simulator.SafetyCheck
import PersistHotStuff.Simulator.FreshHash
import PersistHotStuff.Handlers.VotePool
import PersistHotStuff.Handlers.QuorumFormation
import PersistHotStuff.Durability.LogGrammar
import PersistHotStuff.Handlers.Drain
import PersistHotStuff.Durability.RoundTrip
import PersistHotStuff.Simulator.Identity
import PersistHotStuff.Durability.HashCounter
import PersistHotStuff.Simulator.Join
import PersistHotStuff.Simulator.Rejoining
import PersistHotStuff.Simulator.Leaders
import PersistHotStuff.Simulator.Loops
import PersistHotStuff.Handlers.KeyValue
import PersistHotStuff.Durability.SnapshotFiles
import PersistHotStuff.Simulator.Detection
import PersistHotStuff.Simulator.Synchrony
import PersistHotStuff.Durability.Import
import PersistHotStuff.Simulator.Commands
import PersistHotStuff.Simulator.Vouched
import PersistHotStuff.Basis.Tally
import PersistHotStuff.Cluster.StateMachine
import PersistHotStuff.Durability.Host
import PersistHotStuff.Durability.RemoteNode
import PersistHotStuff.Simulator.Broadcast
import PersistHotStuff.Simulator.Silence
import PersistHotStuff.Simulator.Reopening
import PersistHotStuff.Source.Scenario
import PersistHotStuff.Simulator.Scenario
