import ShardProxy.Lib.ByteField
import ShardProxy.Lib.Chunks
import ShardProxy.Lib.ForkJoin
import ShardProxy.Lib.TicketLog
import ShardProxy.Lib.Dispenser
import ShardProxy.Lib.Interleaving
import ShardProxy.Wire
import ShardProxy.RateLimit
import ShardProxy.Emission
import ShardProxy.Lib.PairFold
import ShardProxy.Coalesce
import ShardProxy.SubtreeRoot
import ShardProxy.Forwarder
import ShardProxy.Beef
import ShardProxy.Dispatch
import ShardProxy.Outgoing
import ShardProxy.SeqIntegrity
import ShardProxy.Lib.Digest
import ShardProxy.Reference
import ShardProxy.Fragments
import ShardProxy.ClaimDiscipline
import ShardProxy.Routing
import ShardProxy.Squatting
import ShardProxy.ControlIsolation
import ShardProxy.SourceIdentity
import ShardProxy.DualEmission
import ShardProxy.SubtreePin
import ShardProxy.OfflineBeef
import ShardProxy.PreFraming
import ShardProxy.LaneBounds
import ShardProxy.CoalescedBatch
import ShardProxy.VerbatimRelay
import ShardProxy.Numbering
import ShardProxy.RetryKeys
import ShardProxy.GapFreedom
import ShardProxy.ObjectClaims
import ShardProxy.DeliverCount
import ShardProxy.Egress
import ShardProxy.AsyncSender
import ShardProxy.TeeShutdown
import ShardProxy.AutoConfig
import ShardProxy.RateBudget
import ShardProxy.PlaneBudget
import ShardProxy.RateCharges
import ShardProxy.SourceFairness
import ShardProxy.RateKeys
import ShardProxy.SubtreeWorkers
import ShardProxy.EgressDrain
import ShardProxy.EgressFlush
import ShardProxy.TcpConnection
import ShardProxy.FramedItems
import ShardProxy.BlockingReads
import ShardProxy.FramedStream
import ShardProxy.TeeProgress
import ShardProxy.BucketAccount
import ShardProxy.SourceTable
import ShardProxy.FlowAccount
import ShardProxy.EmittingPaths
import ShardProxy.Destinations
import ShardProxy.StampedTee
import ShardProxy.Lib.AtomicOps
import ShardProxy.LaneScripts
import ShardProxy.LaneDiscipline
import ShardProxy.LaneRaces
import ShardProxy.Lib.SliceHeap
import ShardProxy.Lib.Stateful
import ShardProxy.MemoryLane
import ShardProxy.MemoryOwners
import ShardProxy.MemoryRefines
import ShardProxy.MemoryFlush
import ShardProxy.WorkerRun
import ShardProxy.StreamMemory
import ShardProxy.LimiterRaces
import ShardProxy.PushLanes
import ShardProxy.Lib.Crew
import ShardProxy.Lifecycle
