import Fibers.World.Worker
/-!
# Runs

A run starts the runtime of a configuration, runs the scenario and reports what it saw.

*Starting.* The configuration is checked, the workers are planned into groups, the stack
pool is made, and every group gets its scheduler; the first failure is the answer. Each
worker of a group may steal from every other group, from those on its own node with the
work-stealing ratio and from the others with the cross-node ratio, when the ratio is not
zero. Before the main thread does anything, every worker has gone idle and parked.

*Running.* At every moment one thread acts. The thread that acted last goes on while it
can; otherwise the first that can act is taken, workers first, then the plain thread, the
main thread, and last the timer threads. When no thread can act, the clock moves to the
first instant at which one can: the end of a sleep, the end of a timed park or wait, the
expiry of a timer, or the end of the main thread's watch.

*Reporting.* The main thread watches the run for 300 ms of clock time: if by then every
fiber has finished and the plain thread is done, the runtime is shut down, otherwise the
run is stuck. Asked to shut down instead, it waits for the fibers however long that takes.
-/

namespace Fibers

namespace World

/-! ## Who can act -/

/-- Whether a sleep is over. -/
def awake (w : World) : Option Nat → Bool
  | some t => t ≤ w.now
  | none => true

/-- Whether worker `k` can act. -/
def workerReady (w : World) (k : Nat) : Bool :=
  let x := w.worker k
  w.awake x.sleepUntil &&
    (!x.chores.isEmpty ||
      match x.phase with
      | .parked (some d) => d ≤ w.now
      | .parked none => false
      | _ => true)

/-- Whether the first task of a plain thread can be carried out now. -/
def taskReady (w : World) : List Task → Bool
  | [] => false
  | .observe d :: _ => w.quiet || d ≤ w.now
  | .shutdown :: _ => w.live == 0
  | _ :: _ => true

/-- Whether plain thread `t` can act. -/
def threadReady (w : World) (t : Nat) : Bool :=
  let x := w.thread t
  x.started && w.awake x.sleepUntil &&
    (!x.chores.isEmpty ||
      match x.wait with
      | some tw => match tw.deadline with
        | some d => d ≤ w.now
        | none => false
      | none => w.taskReady x.tasks)

/-- Whether the timer thread of group `g` can act. -/
def timerReady (w : World) (g : Nat) : Bool :=
  w.awake (w.group g).timerSleep && (!(w.group g).timerChores.isEmpty || w.timerDue g)

/-- Whether an actor can act. -/
def canAct (w : World) : Actor → Bool
  | .worker k => w.workerReady k
  | .thread t => w.threadReady t
  | .timer g => w.timerReady g

/-- Every actor, in the order they are taken. -/
def actors (w : World) : List Actor :=
  (List.range w.workers.length).map Actor.worker ++
    ((List.range w.threads.length).reverse.map Actor.thread) ++
    (List.range w.groups.length).map Actor.timer

/-- The actor that acts next, if one can. -/
def pick (w : World) : Option Actor :=
  match w.current with
  | some a => if w.canAct a then some a else w.actors.find? w.canAct
  | none => w.actors.find? w.canAct

/-! ## The clock -/

/-- The instants at which an actor can next act, later than now. -/
def wakeTimes (w : World) : Actor → List Nat
  | .worker k =>
    let x := w.worker k
    x.sleepUntil.toList ++ (match x.phase with
      | .parked (some d) => [d]
      | _ => [])
  | .thread t =>
    let x := w.thread t
    if !x.started then []
    else x.sleepUntil.toList ++ (match x.wait with
      | some tw => tw.deadline.toList
      | none => match x.tasks with
        | .observe d :: _ => [d]
        | _ => [])
  | .timer g => (w.group g).timerSleep.toList ++ (w.nextExpiry g).toList

/-- The next instant at which some actor can act. -/
def nextInstant (w : World) : Option Nat :=
  ((w.actors.map w.wakeTimes).flatten.filter (w.now < ·)).min?

/-! ## Acting -/

/-- One action of plain thread `t`. -/
def threadStep (w : World) (t : Nat) : Except Abort World :=
  let w := w.modifyThread t (fun x => { x with sleepUntil := none })
  let x := w.thread t
  if !x.chores.isEmpty then .ok (w.choreStep (.thread t))
  else
    match x.wait with
    | some tw =>
      match w.claim tw.block with
      | (w, true) =>
        let w := w.withdraw tw.block
        .ok (w.modifyThread t (fun x =>
          { x with wait := none, tasks := .settled tw.sequel false :: x.tasks }))
      | (w, false) => .ok (w.modifyThread t (fun x => { x with wait := some { tw with deadline := none } }))
    | none => (·.1) <$> w.perform (.thread t)

/-- One action of an actor. -/
def act (w : World) (a : Actor) : Except Abort World :=
  let w := { w with current := some a }
  match a with
  | .worker k => w.workerStep k
  | .thread t => w.threadStep t
  | .timer g =>
    let w := w.modifyGroup g (fun gs => { gs with timerSleep := none })
    .ok (w.timerStep g)

/-- Runs for at most `fuel` actions or clock moves, until the main thread has an ending or
nothing can happen any more. -/
def run : Nat → World → Except Abort World
  | 0, w => .ok w
  | fuel + 1, w =>
    if w.ending.isSome then .ok w
    else
      match w.pick with
      | some a => do run fuel (← w.act a)
      | none =>
        match w.nextInstant with
        | some t => run fuel { w with now := t, current := none }
        | none => .ok w

end World

/-! ## Starting -/

/-- What the runtime reports of a group. -/
structure GroupInfo where
  id : Nat
  nodeId : Nat
  size : Nat
  affinity : List Nat
  queued : Nat
  deriving Inhabited, Repr

/-- What a run reports. -/
structure RunReport where
  workers : Nat
  groups : Nat
  /-- Log lines, in order when the run has one worker and no other thread acting (no plain
  thread and no calls of the main thread), sorted otherwise. -/
  trace : List String
  counters : List Int
  stuck : Bool
  live : Nat
  groupInfo : List GroupInfo
  /-- Stacks handed out and not returned, unless the run is stuck. -/
  stacksOutstanding : Option Nat
  /-- Stacks the pool carved, for a run of one worker that is not stuck. -/
  stacksCreated : Option Nat
  deriving Inhabited, Repr

/-- The clock at the start of a run: one second after the timer epoch. -/
def startInstant : Nat := 1000000000

/-- The groups of a plan with their schedulers, in order; the first failure wins. -/
def createGroups (c : Config) (plans : List GroupPlan) : Except Failure (List GroupState) :=
  (plans.zipIdx).mapM (fun (p, id) => do
    if p.workers = 0 then
      throw (Failure.error (.invalidConfig s!"scheduling group {id} has no workers"))
    let sched ← Scheduler.create c p.workers
    return ({ plan := p, sched, timer := { id } } : GroupState))

/-- The workers of the groups, each entered into its group's scheduler, each with its
foreign groups to steal from. -/
def createWorkers (c : Config) (groups : List GroupState) : Except Failure (List GroupState × List Worker) := do
  let slots := (groups.zipIdx).flatMap (fun (gs, g) => (List.range gs.plan.workers).map (fun i => (g, i)))
  let workers := (slots.zipIdx).map (fun ((g, i), k) =>
    let victims := (groups.zipIdx).foldl (fun q (v, vg) =>
      if vg = g then q
      else
        let ratio := if v.plan.nodeId = (groups.getD g default).plan.nodeId then c.workStealingRatio
          else c.crossNumaWorkStealingRatio
        if ratio = 0 then q else q.add vg ratio 0) ({} : VictimQueue)
    ({ group := g, index := i, thread := 2 + k, victims } : Worker))
  let groups ← workers.foldlM (fun (gs : List GroupState) (x : Worker) => do
    let st := gs.getD x.group default
    let sched ← match st.sched.enter x.thread x.index with
      | .ok s => pure s
      | .error a => throw (Failure.abort a)
    return gs.set x.group { st with sched }) groups
  return (groups, workers)

/-- The main thread's tasks: the root, the plain thread, the calls, then the end. -/
def mainTasks (s : Scenario) : List Task :=
  (if s.root then [Task.call (.startDetached 0)] else []) ++
    (if s.plain.isSome then [Task.startPlain] else []) ++
    (s.calls.getD []).map Task.call ++
    (match s.finish with
      | .observe => [Task.watch]
      | .shutdown => [Task.shutdown])

/-- Starts the runtime of configuration `c` on a machine of `machine` cpus, whose system
answers as `k`, for a scenario. -/
def World.start (k : Kernel) (c : Config) (s : Scenario) (machine : Nat) : Except Failure World := do
  match c.validate with
  | .error e => throw (Failure.error e)
  | .ok () => pure ()
  let planned := { c with concurrency := effectiveConcurrency c machine }
  let plans ← match planGroups planned (Topology.uniform machine) with
    | .ok p => pure p
    | .error a => throw (Failure.abort a)
  if plans.isEmpty then throw (Failure.error (.invalidConfig "no workers to start"))
  let pool ← match Pool.create k c.stackSize c.guardPage c.stackPoolLimit with
    | .ok p => pure p
    | .error a => throw (Failure.abort a)
  let groups ← createGroups c plans
  let (groups, workers) ← createWorkers c groups
  let main : Thread := { label := "M", thread := 0, tasks := mainTasks s, started := true }
  let plain : List Thread := match s.plain with
    | some steps => [{ label := "T", thread := 1, tasks := steps.map Task.step ++ [.finish] }]
    | none => []
  return { now := startInstant, config := c, scenario := s, groups, workers,
           threads := main :: plain, pool,
           latches := s.barriers.map (fun n => ⟨n, {}⟩) }

/-- The most actions a run takes. -/
def runFuel : Nat := 3000000

/-- Runs a scenario on the runtime of configuration `c`, on a machine of `machine` cpus whose
system answers as `k`. -/
def runScenario (k : Kernel) (c : Config) (s : Scenario) (machine : Nat) : Except Failure RunReport := do
  let w ← World.start k c s machine
  let w ← match World.run runFuel w with
    | .ok w => pure w
    | .error a => throw (Failure.abort a)
  let stuck ← match w.ending, s.finish with
    | some .quiet, _ => pure false
    | some .stuck, _ => pure true
    | none, .observe => pure true
    | none, .shutdown => throw (Failure.abort .hang)
  let inOrder := w.workers.length == 1 && s.plain.isNone && (s.calls.getD []).isEmpty &&
    s.finish == .observe
  let trace := if inOrder then w.trace.reverse
    else w.trace.mergeSort (fun a b => decide (a ≤ b))
  return {
    workers := w.workers.length
    groups := w.groups.length
    trace
    counters := w.counters
    stuck
    live := w.live
    groupInfo := (w.groups.zipIdx).map (fun (gs, id) =>
      { id, nodeId := gs.plan.nodeId, size := gs.plan.workers, affinity := gs.plan.affinity,
        queued := gs.sched.queued })
    stacksOutstanding := if stuck then none else some w.pool.outstanding
    stacksCreated := if w.workers.length == 1 && !stuck then some w.pool.created else none }

end Fibers
