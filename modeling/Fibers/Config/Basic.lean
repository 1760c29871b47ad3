import Fibers.Error
import Fibers.Document.Basic
/-!
# Settings of a runtime

`Config` holds the twelve settings of a runtime, each with its default. `Config.validate`
checks them in a fixed order and reports the first fault: a stack below 16 KiB, a group
size outside `1..=64`, an empty queue, a run queue too large to round up to a power of two,
and last an unknown scheduling algorithm.
-/

namespace Fibers

/-- The settings of a runtime. Counts are machine words, so each is below `2^64`. -/
structure Config where
  /-- Bytes of stack per fiber. -/
  stackSize : Nat := 131072
  /-- Most stacks the pool carves. -/
  stackPoolLimit : Nat := 16384
  /-- Whether each stack has an inaccessible page below it. -/
  guardPage : Bool := true
  /-- Capacity asked for the shared run queue. -/
  runQueueCapacity : Nat := 65536
  /-- Capacity of a worker's own queue. -/
  localQueueCapacity : Nat := 256
  /-- Name of the scheduling algorithm. -/
  scheduling : String := "v1"
  /-- Number of workers; `0` asks the machine. -/
  concurrency : Nat := 0
  /-- Most workers in one scheduling group. -/
  workersPerGroup : Nat := 8
  /-- Cpus the workers may run on; empty means all. -/
  cpuAffinity : List Nat := []
  /-- Whether groups follow the machine's memory nodes. -/
  numaAware : Bool := false
  /-- How often a worker steals from its group. -/
  workStealingRatio : Nat := 16
  /-- How often a worker steals across memory nodes. -/
  crossNumaWorkStealingRatio : Nat := 0
  deriving Inhabited, Repr

namespace Config

/-- The smallest stack a fiber may have: 16 KiB. -/
def minStackSize : Nat := 16384

/-- The largest run queue capacity that rounds up to a power of two in a word. -/
def maxRunQueueCapacity : Nat := Nat.pow 2 63

/-- The algorithms a runtime knows. -/
def knownScheduling (name : String) : Bool := name == "v1" || name == "v2"

/-- The first fault of a configuration, in the order: stack size, group size, queue
capacities, run queue size, scheduling algorithm. -/
def validate (c : Config) : Except Error Unit :=
  if c.stackSize < minStackSize then
    .error (.invalidConfig s!"stack_size {c.stackSize} is below the 16KB minimum")
  else if c.workersPerGroup = 0 ∨ c.workersPerGroup > 64 then
    .error (.invalidConfig s!"workers_per_group must be within 1..=64, got {c.workersPerGroup}")
  else if c.runQueueCapacity = 0 ∨ c.localQueueCapacity = 0 then
    .error (.invalidConfig "queue capacities must be non-zero")
  else if c.runQueueCapacity > maxRunQueueCapacity then
    .error (.invalidConfig s!"run_queue_capacity {c.runQueueCapacity} is too large")
  else if !knownScheduling c.scheduling then
    .error (.unknownScheduling c.scheduling)
  else .ok ()

/-- The worker count a configuration fixes: none when it leaves the count to the machine. -/
def fixedConcurrency (c : Config) : Option Nat :=
  if c.concurrency = 0 then none else some c.concurrency

/-- The settings as a document, under their field names. -/
def toDocument (c : Config) : Document :=
  .record [
    ("concurrency", .nat c.concurrency),
    ("cpu_affinity", .arr (c.cpuAffinity.map .nat)),
    ("cross_numa_work_stealing_ratio", .nat c.crossNumaWorkStealingRatio),
    ("guard_page", .bool c.guardPage),
    ("local_queue_capacity", .nat c.localQueueCapacity),
    ("numa_aware", .bool c.numaAware),
    ("run_queue_capacity", .nat c.runQueueCapacity),
    ("scheduling", .str c.scheduling),
    ("stack_pool_limit", .nat c.stackPoolLimit),
    ("stack_size", .nat c.stackSize),
    ("work_stealing_ratio", .nat c.workStealingRatio),
    ("workers_per_group", .nat c.workersPerGroup)]

end Config

end Fibers
