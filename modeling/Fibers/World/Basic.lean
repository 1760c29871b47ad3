import Fibers.Scenario.Step
import Fibers.Sched.Basic
import Fibers.Sched.Victim
import Fibers.Sync.Mutex
import Fibers.Sync.Latch
import Fibers.Timer.Basic
import Fibers.Pool.Basic
import Fibers.Plan
/-!
# The world of a run

A run of the runtime is simulated as a world: every thread of the process with what it is
doing, every fiber with the work it has left, the synchronisation objects, the timers, the
stack pool and a clock in nanoseconds.

1. *Threads.* Each worker runs its group's scheduling loop; each group has a timer thread;
   besides them there are the main thread and, when the scenario has one, a plain thread.
   A thread number names each of them towards the pool, the schedulers and the timers:
   `0` the main thread, `1` the plain thread, `2 + k` worker `k`, and after the workers one
   number per timer thread.
2. *Fibers.* A fiber is created as a description when it is spawned and gets its stack when
   a worker first takes it. Its remaining work is a list of tasks: the steps of its body,
   and tasks the world inserts, such as "hold the mutex handed over" after a wait.
3. *Waits.* A party that blocks queues a wait block on the object's waitable; the block
   records who waits and where. A block is claimed once, by a waker or by a timeout.
4. *Chores.* Waking a fiber or requeueing one is a chore of the thread doing it; a thread
   does its chores before anything else, and a chore that finds the run queue full makes
   the thread sleep and try again.
-/

namespace Fibers

/-- Who waits on a wait block. -/
inductive Waiter where
  | fiber (f : Nat)
  /-- A plain thread, by its position among the world's threads. -/
  | thread (t : Nat)
  deriving Inhabited, BEq, Repr

/-- The waitable a block is queued on. -/
inductive Site where
  | mutex (m : Nat)
  | event (e : Nat)
  | condvar (c : Nat)
  | latch (b : Nat)
  deriving Inhabited, BEq, Repr

/-- A wait block: who waits, and where. -/
structure Block where
  waiter : Waiter
  site : Site
  deriving Inhabited, Repr

/-- What a waiter does with the outcome of its wait (woken or timed out). -/
inductive Sequel where
  | none
  /-- The mutex of this number was handed over: hold a guard of it. -/
  | own (m : Nat)
  /-- Log the outcome of a timed event wait. -/
  | reportWait (e : Nat)
  /-- Lock the mutex again after a condition wait. -/
  | relock (m : Nat)
  /-- Lock the mutex again, then log whether the timed condition wait timed out. -/
  | relockReport (c m : Nat)
  deriving Inhabited, Repr

/-- Work left for a fiber or a plain thread, the front first. -/
inductive Task where
  | step (s : Step)
  | call (c : Call)
  /-- A suspended fiber runs again; a timed wait carries its timeout record and timer. -/
  | resumed (sequel : Sequel) (timeout : Option (Nat × Nat))
  /-- A plain thread's wait ended, woken or not. -/
  | settled (sequel : Sequel) (woken : Bool)
  /-- The write of a read-yield-write step. -/
  | store (k : Nat) (v : Int)
  | note (text : String)
  /-- Logs a text followed by whether event `e` is set. -/
  | noteSet (text : String) (e : Nat)
  /-- Waits on event `e` of the world's list. -/
  | awaitEvent (e : Nat)
  /-- Waits until exit barrier `b` of the world's list opens. -/
  | awaitLatch (b : Nat)
  | dropTimer (t : Nat)
  /-- Logs the calls of a counting timer. -/
  | reportTally (c : Nat)
  /-- Attempt `n` to queue the described fiber `f` for a joinable spawn. -/
  | attempt (f n : Nat) (fatal : Bool)
  /-- Queues fiber `f` detached, trying until it fits. -/
  | startForever (f : Nat)
  /-- Queues the rest of a batch, trying until all fit. -/
  | startRest (fs : List Nat)
  /-- A joinable spawn gives up: the run queue stayed full, and the description is dropped. -/
  | giveUp (f : Nat) (fatal : Bool)
  /-- Gives a fiber started by a dispatch its stack and switches to it. -/
  | launch (f : Nat)
  /-- Keeps the handle of a fiber started by a dispatch, once the spawner runs again. -/
  | adopt (f : Nat)
  /-- The end of the body: handles are let go, then the guards released in order. -/
  | finish
  | release (m : Nat)
  | exit
  /-- The main thread starts the plain thread. -/
  | startPlain
  /-- The main thread starts watching the run. -/
  | watch
  /-- The main thread waits until the run is quiet or the deadline passes. -/
  | observe (deadline : Nat)
  /-- The main thread shuts the runtime down once no fiber is live. -/
  | shutdown
  deriving Inhabited, Repr

/-- What a body holds: handles of spawned fibers and guards of locked mutexes. -/
structure Frame where
  /-- Handles in spawn order: the body asked for, and the fiber's exit barrier. -/
  handles : List (Nat × Nat) := []
  /-- Mutex numbers in acquisition order. -/
  guards : List Nat := []
  deriving Inhabited, Repr

/-- A fiber: a description until a worker first takes it. -/
structure FiberRec where
  body : Nat
  groupLocal : Bool := false
  reactor : Bool := false
  /-- The exit barrier of a joinable fiber. -/
  latch : Option Nat := none
  /-- The group it was placed in, then the group of the worker that last ran it. -/
  group : Nat
  home : Option Nat := none
  stack : Option PoolStack := none
  tasks : List Task := []
  frame : Frame := {}
  deriving Inhabited, Repr

namespace FiberRec

/-- The scheduler entity of a fiber. -/
def entity (f : FiberRec) (id : Nat) : Entity :=
  { id, started := f.stack.isSome, groupLocal := f.groupLocal, reactor := f.reactor, home := f.home }

end FiberRec

/-- A chore of a thread. -/
inductive Chore where
  | wake (w : Waiter)
  /-- Puts a fiber that left the cpu back in a queue. -/
  | requeue (f : Nat) (yielded : Bool)
  deriving Inhabited, Repr

/-- Where a worker is in its scheduling loop. -/
inductive Phase where
  /-- At the top of the loop. -/
  | seek
  /-- At the top of the idle loop, about to park. -/
  | look
  /-- Parked until woken, or until the instant given. -/
  | parked (deadline : Option Nat)
  /-- Back from parking (shared queue). -/
  | roused
  /-- About to run an entity. -/
  | enter (e : Entity)
  | fiber (f : Nat)
  deriving Inhabited, Repr

/-- A worker thread. -/
structure Worker where
  group : Nat
  index : Nat
  thread : Nat
  phase : Phase := .seek
  chores : List Chore := []
  sleepUntil : Option Nat := none
  victims : VictimQueue := {}
  deriving Inhabited, Repr

/-- A plain thread blocked on a wait block. -/
structure ThreadWait where
  block : Nat
  deadline : Option Nat
  sequel : Sequel
  deriving Inhabited, Repr

/-- The main thread or the plain thread. -/
structure Thread where
  label : String
  thread : Nat
  tasks : List Task := []
  frame : Frame := {}
  chores : List Chore := []
  sleepUntil : Option Nat := none
  wait : Option ThreadWait := none
  started : Bool := false
  deriving Inhabited, Repr

namespace Thread

/-- Started and with work left. -/
def busy (t : Thread) : Bool := t.started && !(t.tasks.isEmpty && t.chores.isEmpty && t.wait.isNone)

end Thread

/-- A scheduling group. -/
structure GroupState where
  plan : GroupPlan
  sched : Scheduler
  /-- Parked workers: for the shared queue a set, for work stealing in the order they parked. -/
  idle : List Nat := []
  timer : TimerThread
  timerChores : List Chore := []
  timerSleep : Option Nat := none
  deriving Inhabited

/-- What a timer does when it fires. -/
inductive Callback where
  | setEvent (e : Nat)
  /-- The timeout of a timed wait, by its record. -/
  | timeout (r : Nat)
  /-- A counting timer, by its tally. -/
  | tally (c : Nat)
  deriving Inhabited, Repr

/-- The shared state of a timed fiber wait and its timeout. -/
structure Timeout where
  block : Nat
  /-- The waiter has moved on; the timeout does nothing. -/
  gone : Bool := false
  timedOut : Bool := false
  deriving Inhabited, Repr

/-- A counting timer: it sets its event once its calls reach `limit`, and a periodic one
then removes itself. -/
structure Tally where
  calls : Nat := 0
  limit : Nat
  event : Nat
  timer : Nat
  periodic : Bool
  deriving Inhabited, Repr

/-- An acting thread. -/
inductive Actor where
  | worker (k : Nat)
  | thread (t : Nat)
  | timer (g : Nat)
  deriving Inhabited, BEq, Repr

/-- How a run ended. -/
inductive Ending where
  /-- The main thread saw every fiber finish and shut the runtime down. -/
  | quiet
  /-- The fibers did not finish in time. -/
  | stuck
  deriving Inhabited, BEq, Repr

/-- The number of each kind of shared object. -/
def sharedObjects : Nat := 8

/-- The whole simulated process. -/
structure World where
  now : Nat
  config : Config
  scenario : Scenario
  groups : List GroupState
  workers : List Worker
  threads : List Thread
  fibers : List FiberRec := []
  mutexes : List Mutex := List.replicate sharedObjects {}
  /-- The shared events, then private ones of timers. -/
  events : List Event := List.replicate sharedObjects {}
  condvars : List CondVar := List.replicate sharedObjects {}
  /-- The scenario's barriers, then the exit barriers of joinable fibers. -/
  latches : List Barrier := []
  counters : List Int := List.replicate sharedObjects 0
  blocks : List Block := []
  claimed : List Nat := []
  timers : TimerTable := {}
  callbacks : List Callback := []
  timeouts : List Timeout := []
  tallies : List Tally := []
  pool : Pool
  live : Nat := 0
  /-- Log lines, the newest first. -/
  trace : List String := []
  current : Option Actor := none
  ending : Option Ending := none
  deriving Inhabited

namespace World

/-! ## Looking things up and putting them back -/

def worker (w : World) (k : Nat) : Worker := w.workers.getD k default
def setWorker (w : World) (k : Nat) (x : Worker) : World := { w with workers := w.workers.set k x }
def modifyWorker (w : World) (k : Nat) (f : Worker → Worker) : World :=
  { w with workers := w.workers.modify k f }

def group (w : World) (g : Nat) : GroupState := w.groups.getD g default
def modifyGroup (w : World) (g : Nat) (f : GroupState → GroupState) : World :=
  { w with groups := w.groups.modify g f }

def thread (w : World) (t : Nat) : Thread := w.threads.getD t default
def modifyThread (w : World) (t : Nat) (f : Thread → Thread) : World :=
  { w with threads := w.threads.modify t f }

def fiber (w : World) (f : Nat) : FiberRec := w.fibers.getD f default
def modifyFiber (w : World) (f : Nat) (g : FiberRec → FiberRec) : World :=
  { w with fibers := w.fibers.modify f g }

def mutex (w : World) (m : Nat) : Mutex := w.mutexes.getD m {}
def event (w : World) (e : Nat) : Event := w.events.getD e {}
def condvar (w : World) (c : Nat) : CondVar := w.condvars.getD c {}
def latch (w : World) (b : Nat) : Barrier := w.latches.getD b ⟨0, {}⟩
def counter (w : World) (k : Nat) : Int := w.counters.getD k 0
def block (w : World) (b : Nat) : Block := w.blocks.getD b default

/-- The number of the worker of a group at an index. -/
def workerOf (w : World) (g i : Nat) : Option Nat :=
  w.workers.findIdx? (fun x => x.group == g && x.index == i)

/-- Appends a log line. -/
def log (w : World) (line : String) : World := { w with trace := line :: w.trace }

/-- The thread number of a timer thread. -/
def timerThread (w : World) (g : Nat) : Nat := 2 + w.workers.length + g

/-- The thread number of an actor. -/
def threadOf (w : World) : Actor → Nat
  | .worker k => (w.worker k).thread
  | .thread t => (w.thread t).thread
  | .timer g => w.timerThread g

/-- The group and worker index of an actor that is a worker. -/
def workerSlot (w : World) : Actor → Option (Nat × Nat)
  | .worker k => some ((w.worker k).group, (w.worker k).index)
  | _ => none

/-- A new private event. -/
def newEvent (w : World) : World × Nat := ({ w with events := w.events ++ [{}] }, w.events.length)

/-- A new exit barrier of a count. -/
def newLatch (w : World) (count : Nat) : World × Nat :=
  ({ w with latches := w.latches ++ [⟨count, {}⟩] }, w.latches.length)

/-- A new wait block. -/
def newBlock (w : World) (b : Block) : World × Nat :=
  ({ w with blocks := w.blocks ++ [b] }, w.blocks.length)

/-- A new timer of group `g` with its callback. -/
def newTimer (w : World) (g expiresAt : Nat) (interval : Option Nat) (cb : Callback) : World × Nat :=
  let (timers, id) := w.timers.create g expiresAt interval
  ({ w with timers, callbacks := w.callbacks ++ [cb] }, id)

/-- Removes a timer: it never fires again. -/
def cancelTimer (w : World) (t : Nat) : World := { w with timers := w.timers.cancel t }

/-- Whether a scenario barrier of this number exists. -/
def hasBarrier (w : World) (b : Nat) : Bool := b < w.scenario.barriers.length

/-- The label a log line of an actor starts with. -/
def labelOf (w : World) (a : Actor) : String :=
  match a with
  | .worker k =>
    match (w.worker k).phase with
    | .fiber f => toString (w.fiber f).body
    | _ => "?"
  | .thread t => (w.thread t).label
  | .timer _ => "?"

end World

end Fibers
