import Fibers.Config.Basic
import Fibers.Config.Decode
import Fibers.Context
import Fibers.Document.Basic
import Fibers.Document.Binary64
import Fibers.Document.Literal
import Fibers.Document.Read
import Fibers.Document.Write
import Fibers.Error
import Fibers.Keyed
import Fibers.Main
import Fibers.Plan
import Fibers.Pool.Basic
import Fibers.Pool.Script
import Fibers.Program.Demo
import Fibers.Program.Layout
import Fibers.Program.Output
import Fibers.Reply
import Fibers.Scenario.Decode
import Fibers.Scenario.Step
import Fibers.Sched.Basic
import Fibers.Sched.Bench
import Fibers.Sched.Entity
import Fibers.Sched.Injector
import Fibers.Sched.Parking
import Fibers.Sched.Shared
import Fibers.Sched.Stealing
import Fibers.Sched.Victim
import Fibers.Stack.Basic
import Fibers.Sync.Bench
import Fibers.Sync.Contention
import Fibers.Sync.Crowd
import Fibers.Sync.Latch
import Fibers.Sync.Mutex
import Fibers.Sync.Solo
import Fibers.Sync.Waitable
import Fibers.Text.Blank
import Fibers.Text.Duration
import Fibers.Text.Listing
import Fibers.Text.Printable
import Fibers.Text.Quoted
import Fibers.Text.Shortest
import Fibers.Timer.Basic
import Fibers.Timer.Script
import Fibers.Topology.Basic
import Fibers.Topology.CpuList
import Fibers.World.Basic
import Fibers.World.Clock
import Fibers.World.Queue
import Fibers.World.Run
import Fibers.World.Spawn
import Fibers.World.Step
import Fibers.World.Wait
import Fibers.World.Worker
import Fibers.Proofs.MutexExclusion
import Fibers.Proofs.MutexHandoff
import Fibers.Proofs.MutexRounds
import Fibers.Proofs.WaitQueue
import Fibers.Proofs.MonitorView
import Fibers.Proofs.MonitorInvariant
import Fibers.Proofs.MonitorSteps
import Fibers.Proofs.LostWakeup
import Fibers.Proofs.TimedWait
import Fibers.Sync.Monitor
import Fibers.Proofs.LifecycleSteps
import Fibers.Proofs.QueueClasses
import Fibers.Proofs.LatchOpening
import Fibers.Proofs.ExactlyOnce
import Fibers.Proofs.StackConservation
import Fibers.Proofs.ParkingShared
import Fibers.Proofs.ParkingStealing
import Fibers.Proofs.Census
import Fibers.Proofs.LiveInvariant
import Fibers.Proofs.WaitRefinement
import Fibers.Proofs.SingleWorker
import Fibers.Proofs.YieldFairness
import Fibers.Timer.Protocol
import Fibers.Proofs.TimerPlaces
import Fibers.Proofs.TimerRemoval
import Fibers.Proofs.TimerWatermark
import Fibers.Proofs.GroupPlanning
import Fibers.Proofs.StackSizing
import Fibers.Proofs.TimerArithmetic
import Fibers.Proofs.TopologyBuild
import Fibers.Proofs.CpuListGrammar
import Fibers.Proofs.ReactorPolling
import Fibers.Proofs.BatchSubmission
import Fibers.Proofs.LiveSteps
import Fibers.Proofs.LiveAccounting
import Fibers.Proofs.StealSchedule
import Fibers.Proofs.SharedAwake
import Fibers.Proofs.StealingAwake
import Fibers.Proofs.TimerOrder
