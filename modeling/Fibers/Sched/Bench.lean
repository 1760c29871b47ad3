import Fibers.Sched.Basic
import Fibers.Pool.Basic
import Fibers.Keyed
/-!
# A scheduler on the bench

A group that is never started, driven directly: threads enter and leave as workers, start
fibers and batches, take work for another group, and count what is queued. Once the group
is stopped, a fresh worker thread can run one worker until no work is left for it.

Every fiber on the bench records its name when it starts, then yields a given number of
times, recording `name.i` after its `i`-th yield.
-/

namespace Fibers

/-- A fiber of the bench. -/
structure BenchFiber where
  name : String
  yields : Nat := 0
  groupLocal : Bool := false
  reactor : Bool := false
  deriving Inhabited, Repr

/-- A command on the bench; a thread `some w` is the helper playing worker `w`, `none` the
bench's own thread. -/
inductive SchedCommand where
  | enter (thread : Option Nat) (index : Nat)
  | leave (thread : Option Nat)
  | start (thread : Option Nat) (f : BenchFiber)
  | startBatch (thread : Option Nat) (fs : List BenchFiber)
  | remoteAcquire (thread : Option Nat)
  | queued (thread : Option Nat)
  | stop (thread : Option Nat)
  | run (worker : Nat)
  deriving Inhabited, Repr

/-- What a command shows. -/
inductive SchedReply where
  | unit
  | accepted
  | rejected
  | rejectedNames (names : List String)
  | acquired (name : Option String)
  | count (n : Nat)
  | ran (entries : List String)
  | refused (reason : String)
  deriving Inhabited, Repr

/-- The bench: the group's scheduler, its fibers by number, how many yields each started
fiber began, and how many worker threads have run. -/
structure SchedBench where
  sched : Scheduler
  fibers : List BenchFiber := []
  progress : List (Nat × Nat) := []
  runs : Nat := 0
  deriving Inhabited

namespace SchedBench

/-- The thread number of a helper or of the bench's own thread. -/
def threadOf : Option Nat → Nat
  | some w => 2 * (w + 1)
  | none => 0

/-- Registers a fiber, giving its entity. -/
def register (b : SchedBench) (f : BenchFiber) : SchedBench × Entity :=
  ({ b with fibers := b.fibers ++ [f] },
    { id := b.fibers.length, groupLocal := f.groupLocal, reactor := f.reactor })

/-- The fiber of an entity. -/
def fiberOf (b : SchedBench) (e : Entity) : BenchFiber := b.fibers.getD e.id default

/-- Yields begun by a started fiber. -/
def begun (b : SchedBench) (e : Entity) : Nat := (b.progress.lookup e.id).getD 0

/-- Runs an entity on worker `w` up to its next yield or its end: what it records, the
number of yields begun, and whether it ended. -/
def segment (b : SchedBench) (e : Entity) : List String × Nat × Bool :=
  let f := b.fiberOf e
  let k := if e.started then b.begun e else 0
  let first := if e.started then f.name ++ "." ++ toString k else f.name
  (if k < f.yields then ([first], k + 1, false) else ([first], k, true))

/-- The entity after it ran on worker `w`: started, with its home fixed when group-local. -/
def afterRun (e : Entity) (w : Nat) : Entity :=
  { e with started := true, home := if e.groupLocal then some (e.home.getD w) else none }

/-- Runs a shared-queue worker until the queue is empty. A yield takes the next queued
entity and runs it at once, the yielding fiber going to the tail; with nothing queued the
fiber goes on. -/
def drainShared (b : SchedBench) (q : SharedQueue) (w : Nat) :
    Nat → Option Entity → List String → Except Abort (SchedBench × SharedQueue × List String)
  | 0, _, _ => .error .hang
  | fuel + 1, none, out =>
    match q.pop with
    | (q, some e) => drainShared b q w fuel (some e) out
    | (q, none) => .ok (b, q, out)
  | fuel + 1, some e, out =>
    let (rec_, k, ended) := b.segment e
    let out := out ++ rec_
    let e := afterRun e w
    let b := { b with progress := Keyed.set e.id k b.progress }
    if ended then drainShared b q w fuel none out
    else match q.pop with
      | (q, none) => drainShared b q w fuel (some e) out
      | (q, some n) =>
        match q.push e with
        | some q => drainShared b q w fuel (some n) out
        | none => .error .hang

/-- The work-stealing search of an idle worker `w` on thread `t`: steal from peers and the
global queue, then acquire again (a tick), then the reactor queue; a second look when
work remains. -/
def findWork (s : Stealing) (t w : Nat) : Stealing × Option Entity :=
  match s.stealFromPeers w with
  | (s, some e) => (s, some e)
  | (s, none) =>
    match s.stealGlobal t with
    | (s, some e) => (s, some e)
    | (s, none) =>
      match s.acquire t w with
      | (s, some e) => (s, some e)
      | (s, none) =>
        match s.acquireReactor with
        | (s, some e) => (s, some e)
        | (s, none) =>
          if s.hasWork w then
            match s.acquire t w with
            | (s, some e) => (s, some e)
            | (s, none) => s.acquireReactor
          else (s, none)

/-- Runs a work-stealing worker until it finds no work. A yield sends the fiber back to
the queues as a yielded entity. -/
def drainStealing (b : SchedBench) (s : Stealing) (t w : Nat) :
    Nat → List String → Except Abort (SchedBench × Stealing × List String)
  | 0, _ => .error .hang
  | fuel + 1, out =>
    let found := match s.acquire t w with
      | (s, some e) => (s, some e)
      | (s, none) => findWork s t w
    match found with
    | (s, none) => .ok (b, s, out)
    | (s, some e) =>
      let (rec_, k, ended) := b.segment e
      let e := afterRun e w
      let b := { b with progress := Keyed.set e.id k b.progress }
      let s := if ended then s else s.pushReady t e true
      drainStealing b s t w fuel (out ++ rec_)

/-- Enough steps to run every fiber of the bench to its end. -/
def fuel (b : SchedBench) : Nat :=
  4 * ((b.fibers.map (fun f => f.yields + 2)).foldr (· + ·) 0 + 4)

/-- Runs worker `w` on a fresh thread until it finds no work. -/
def run (b : SchedBench) (w : Nat) : Except Abort (SchedBench × List String) := do
  let t := 2 * b.runs + 1
  let b := { b with runs := b.runs + 1 }
  match b.sched with
  | .shared q =>
    if w ≥ q.size then throw (SharedQueue.notWorker (some w))
    let (b, q, out) ← drainShared b q w b.fuel none []
    return ({ b with sched := .shared q }, out)
  | .stealing s =>
    let s ← s.enter t w
    let (b, s, out) ← drainStealing b s t w b.fuel []
    return ({ b with sched := .stealing (s.leave t) }, out)

/-- The name of an acquired entity. -/
def nameOf (b : SchedBench) (e : Option Entity) : Option String := e.map (fun e => (b.fiberOf e).name)

/-- Runs one command. -/
def step (b : SchedBench) : SchedCommand → Except Abort (SchedBench × SchedReply)
  | .enter th index => do
    let sched ← b.sched.enter (threadOf th) index
    return ({ b with sched }, .unit)
  | .leave th => .ok ({ b with sched := b.sched.leave (threadOf th) }, .unit)
  | .start th f =>
    let (b, e) := b.register f
    let (sched, ok) := b.sched.startFiber (threadOf th) e
    .ok ({ b with sched }, if ok then .accepted else .rejected)
  | .startBatch th fs =>
    let (b, es) := fs.foldl (fun (b, es) f => let (b, e) := b.register f; (b, es ++ [e])) (b, [])
    let (sched, rest) := b.sched.startFibers (threadOf th) es
    .ok ({ b with sched },
      if rest.isEmpty then .accepted else .rejectedNames (rest.map (fun e => (b.fiberOf e).name)))
  | .remoteAcquire _ =>
    let (sched, e) := b.sched.remoteAcquire
    .ok ({ b with sched }, .acquired (b.nameOf e))
  | .queued _ => .ok (b, .count b.sched.queued)
  | .stop _ => .ok ({ b with sched := b.sched.stop }, .unit)
  | .run w =>
    if b.sched.stopped then do
      let (b, out) ← b.run w
      return (b, .ran out)
    else .ok (b, .refused "run needs a prior stop")

end SchedBench

/-- A bench for a group of `size` workers. The group's stack pool is made first, so a
stack size that does not round to a word panics before anything else; a group without
workers is refused. -/
def SchedBench.create (k : Kernel) (c : Config) (size : Nat) : Except Failure SchedBench := do
  match Pool.create k c.stackSize c.guardPage c.stackPoolLimit with
  | .error a => throw (Failure.abort a)
  | .ok _ => pure ()
  if size = 0 then throw (Failure.error (.invalidConfig "scheduling group 0 has no workers"))
  let sched ← Scheduler.create c size
  return { sched }

end Fibers
