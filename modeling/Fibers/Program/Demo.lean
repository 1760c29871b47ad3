import Fibers.World.Run
import Fibers.Sync.Crowd
import Fibers.Text.Duration
import Fibers.Program.Output
/-!
# The demonstration program

The demonstration starts a runtime of four workers with the scheduling algorithm its first
argument names (`v1` when it has none; later arguments are ignored), says how many workers
and groups it started, and walks through five examples:

1. one fiber that prints a greeting, joined;
2. a hundred fibers that each yield and then add their index to a number behind a fiber
   mutex, all joined, and the number compared with the sum it should be;
3. a thousand fibers that each sleep their index modulo ten milliseconds, all joined;
4. ten detached producers of a hundred items each and one consumer that takes items off a
   queue behind a mutex, waiting on a condition variable while the queue is empty;
5. ten thousand detached fibers started in one batch, each counting itself, while the main
   thread looks at the count every 100 µs until it is complete.

A runtime that does not start ends the program with status 1 and the reason on standard
error, after the banner.

*The clock.* Durations are read on the runtime's clock (`World.run`), which moves only
when no thread can act. Spawning, yielding, locking and joining take no time on it, so the
hundred fibers of example 2 finish at the instant they were started. A sleeping fiber
wakes when its sleep ends, so the joins of example 3 are done when the longest sleep, 9 ms,
is. The main thread keeps acting while it can, so in example 5 it looks at the count
before any fiber of the batch has run, finds it short, and sleeps one interval, in which
the workers run the whole batch: the batch takes exactly one interval.

*The results.* The number behind the mutex is built by the mutex's own additions; the
producers and the consumer are the crowd of `CrowdKind.condvar`, whose consumer takes every
item once in every interleaving.
-/

namespace Fibers

namespace Demo

/-- The first line the program prints. -/
def banner : String := "fiberrt - M:N Fiber Runtime"

/-- The configuration the program starts: four workers and the named algorithm. -/
def config (scheduling : String) : Config := { concurrency := 4, scheduling }

/-- The scenario of a runtime that only starts and shuts down. -/
def idle : Scenario := { bodies := [], root := false, finish := .shutdown }

/-- The number of workers and of groups of a runtime started with `c` on a machine of
`machine` cpus whose system answers as `k`, or why it did not start. -/
def start (k : Kernel) (c : Config) (machine : Nat) : Except Failure (Nat × Nat) := do
  let w ← World.start k c idle machine
  return (w.workers.length, w.groups.length)

/-! ## Example 2: parallel computation -/

/-- The fibers of example 2. -/
def parallelFibers : Nat := 100

/-- The number behind the mutex once every fiber of example 2 has added its index. -/
def parallelSum : Except Abort Int := do
  let m ← (List.range parallelFibers).foldlM (fun (m : Mutex) (i : Nat) => m.add i) {}
  return m.value

/-- The sum example 2 should reach. -/
def expectedSum : Nat := (List.range parallelFibers).foldr (· + ·) 0

/-- Example 2 on the clock: spawning, yielding, locking and joining take no time. -/
def parallelElapsed : Nat := 0

/-! ## Example 3: sleeping fibers -/

/-- The fibers of example 3. -/
def sleepingFibers : Nat := 1000

/-- The milliseconds fiber `i` of example 3 sleeps. -/
def sleepOf (i : Nat) : Nat := i % 10

/-- Example 3 on the clock: the joins are done when the longest sleep is. -/
def sleepingElapsed : Nat :=
  World.millis ((List.range sleepingFibers).foldl (fun m i => max m (sleepOf i)) 0)

/-! ## Example 4: producers and a consumer -/

/-- The producers of example 4. -/
def producers : Nat := 10

/-- The items each producer of example 4 queues. -/
def itemsEach : Nat := 100

/-- The items the consumer of example 4 takes. -/
def consumed : Except Abort Nat := do
  let c ← (CrowdKind.condvar.crowd producers itemsEach).run
  return c.consumed.length

/-! ## Example 5: a batch -/

/-- The fibers of example 5. -/
def batchFibers : Nat := 10000

/-- How long the main thread sleeps between looks at the count: 100 µs. -/
def pollInterval : Nat := 100000

/-- Example 5 on the clock: one look before the batch runs, then one interval. -/
def batchElapsed : Nat := pollInterval

/-! ## The program -/

/-- The lines of the five examples, each ending with a blank line. -/
def examples : List (Except Abort (List String)) :=
  [ .ok ["Example 1: Spawn and join", "  Hello from a fiber!", "  Fiber completed", ""],
    (fun sum => ["Example 2: Parallel computation",
      "  Executed " ++ toString parallelFibers ++ " fibers in " ++ Text.durationText parallelElapsed,
      "  Sum result: " ++ toString sum ++ " (expected: " ++ toString expectedSum ++ ")", ""])
      <$> parallelSum,
    .ok ["Example 3: " ++ toString sleepingFibers ++ " sleeping fibers",
      "  All woke up after " ++ Text.durationText sleepingElapsed, ""],
    (fun n => ["Example 4: Producer / consumer", "  Consumed " ++ toString n ++ " items", ""])
      <$> consumed,
    .ok ["Example 5: High-throughput benchmark",
      "  Executed " ++ toString batchFibers ++ " fibers in " ++ Text.durationText batchElapsed,
      "  Throughput: " ++ Text.rateText batchFibers batchElapsed ++ " fibers/second", ""] ]

/-- The lines after the examples. -/
def closing : List String := ["Shutting down runtime...", "Done!"]

/-- The program run with `args`, the arguments after its name, on a machine of `machine`
cpus whose system answers as `k`. -/
def run (k : Kernel) (args : List String) (machine : Nat) : Output :=
  let scheduling := args.head?.getD "v1"
  let intro := [banner, ""]
  match start k (config scheduling) machine with
  | .error (.error e) =>
    { status := 1, stdout := intro, stderr := ["Failed to start runtime: " ++ e.message] }
  | .error (.abort a) => Output.aborted intro a
  | .ok (workers, groups) =>
    let header := "Started " ++ toString workers ++ " workers in " ++ toString groups ++
      " scheduling groups (" ++ scheduling ++ ")"
    Output.sections (intro ++ [header, ""]) closing examples

end Demo

end Fibers
