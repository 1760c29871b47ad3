import Fibers.Sched.Basic
/-!
# Fibers at the grain of their scheduler's atomic steps

A scheduling group runs its fibers on masters, one per worker. A master takes an entity from
the group's scheduler and runs it: with the fiber's scheduler lock held it checks that the
fiber is ready, marks it running and releases the lock, then resumes the fiber's coroutine.
The fiber runs its body on the master's thread until it switches back with an action:

* *suspend.* To wait, the fiber takes its own scheduler lock, queues its wait block (from then
  on a waker may claim it), marks itself waiting and, with the shared queue, takes the next
  entity to run. It switches to its master with that entity and hands its lock over; the
  master releases the lock only once the switch is complete, then runs the entity;
* *yield.* With the shared queue the fiber takes the next entity and switches with it, or goes
  on at once when nothing is queued; with work stealing it always switches, with none. The
  master makes it ready again (from running) and queues it, then runs the entity;
* *switch to a fiber.* Launching a fiber by dispatch creates the fiber ready and switches to
  it: the master makes the launching fiber ready again, queues it, then runs the new one;
* *return.* The master marks the fiber dead.

A waker is a thread that is not a master, such as a timer thread or a plain thread: it claims
a queued wait block, makes the block's fiber ready (from waiting) under its scheduler lock and
queues it. Making a fiber ready, and running it, take the fiber's scheduler lock and wait while
another holds it; finding the fiber in any other state than expected is fatal.

A fiber's body is a list of operations: adding one to a shared counter, waiting, yielding, and
starting a fiber of a given body through the run queue or by dispatch. Starting a fiber retries
until the queue has room, as does queueing one made ready again: a step that would have to
retry is not taken. A master that finds no work takes no step either.

At each turn one master, or one waker, takes one atomic step; a waker that is free claims the
block of the fiber its turn names, if that block is queued.
-/

namespace Fibers

/-- The state word of a fiber. -/
inductive FiberState where
  | ready
  | running
  | waiting
  | dead
  deriving Inhabited, BEq, DecidableEq, Repr

namespace FiberState

/-- The name the runtime prints for a state. -/
def name : FiberState → String
  | .ready => "Ready"
  | .running => "Running"
  | .waiting => "Waiting"
  | .dead => "Dead"

end FiberState

/-- An operation of a fiber's body. -/
inductive FiberOp where
  /-- Adds one to the shared counter. -/
  | work
  /-- Waits until a waker claims its wait block and resumes it. -/
  | wait
  /-- Lets other ready fibers run. -/
  | yield
  /-- Starts a fiber of this body through the run queue. -/
  | spawn (groupLocal reactor : Bool) (body : List FiberOp)
  /-- Starts a fiber of this body and switches to it at once. -/
  | dispatch (groupLocal reactor : Bool) (body : List FiberOp)
  deriving Inhabited, Repr

/-- A fiber: what is left of its body, and the words the runtime keeps for it. -/
structure FiberCell where
  program : List FiberOp
  state : FiberState := .ready
  /-- It has its stack and coroutine; before a master first runs it, it is a description. -/
  started : Bool := false
  /-- Its scheduler lock is held. -/
  locked : Bool := false
  /-- Its wait block is queued and not yet claimed. -/
  published : Bool := false
  groupLocal : Bool := false
  reactor : Bool := false
  /-- The worker a group-local fiber first ran on. -/
  home : Option Nat := none
  deriving Inhabited, Repr

namespace FiberCell

/-- The entity that queues the fiber of this number. -/
def entity (c : FiberCell) (id : Nat) : Entity :=
  { id, started := c.started, groupLocal := c.groupLocal, reactor := c.reactor, home := c.home }

end FiberCell

/-- What a fiber asks its master to do once it has switched away. -/
inductive SwitchAction where
  /-- It is waiting: release its scheduler lock, then run `next`. -/
  | suspend (next : Option Entity)
  /-- Make it ready and queue it, then run `next`. -/
  | yield (next : Option Entity)
  /-- Make it ready and queue it, then run the fiber `target`. -/
  | switchTo (target : Nat)
  deriving Inhabited, Repr

/-- Where a suspending fiber stands, its scheduler lock held. -/
inductive SuspendStage where
  /-- About to queue its wait block. -/
  | publish
  /-- About to mark itself waiting. -/
  | mark
  /-- Waiting: about to take the next entity to run. -/
  | pop
  deriving Inhabited, BEq, DecidableEq, Repr

/-- Where a master is in its scheduling loop. -/
inductive MasterPhase where
  /-- At the top of the loop. -/
  | idle
  /-- About to run an entity. -/
  | run (e : Entity)
  /-- The fiber runs on it. -/
  | running (f : Nat)
  /-- The fiber is suspending on it. -/
  | suspending (f : Nat) (stage : SuspendStage)
  /-- The fiber switched to it with an action. -/
  | switched (f : Nat) (action : SwitchAction)
  /-- The fiber was made ready again: about to queue it, then run `next`. -/
  | requeue (f : Nat) (yielded : Bool) (next : Option Entity)
  deriving Inhabited, Repr

/-- A worker thread running the scheduling loop. -/
structure Master where
  thread : Nat
  index : Nat
  phase : MasterPhase := .idle
  deriving Inhabited, Repr

/-- Where a waker stands. -/
inductive WakerPhase where
  | idle
  /-- It claimed the fiber's wait block: about to make the fiber ready. -/
  | resume (f : Nat)
  /-- It made the fiber ready: about to queue it. -/
  | push (e : Entity)
  deriving Inhabited, Repr

/-- A thread that resumes fibers. -/
structure Waker where
  thread : Nat
  phase : WakerPhase := .idle
  deriving Inhabited, Repr

/-- A scheduling group with its fibers, its masters and the threads that resume its fibers. -/
structure Lifecycle where
  sched : Scheduler
  masters : List Master
  wakers : List Waker
  fibers : List FiberCell
  counter : Nat := 0
  deriving Inhabited

/-- Who takes the next step: a master, or a waker with the fiber whose block it claims when
free. -/
inductive Lifecycle.Turn where
  | master (i : Nat)
  | waker (r f : Nat)
  deriving Inhabited, Repr

namespace Scheduler

/-- Thread `t` queues an entity (`yielded` when it comes from a yield); none when the shared
queue is full. -/
def push (s : Scheduler) (t : Nat) (e : Entity) (yielded : Bool) : Option Scheduler :=
  match s with
  | .shared q => (q.push e).map Scheduler.shared
  | .stealing st => some (.stealing (st.pushReady t e yielded))

/-- Worker `i` on thread `t` looks for an entity: the shared queue's front; with work
stealing an acquisition, then the peers' deques, then the reactor queue. -/
def take (s : Scheduler) (t i : Nat) : Scheduler × Option Entity :=
  match s with
  | .shared q =>
    let (q, e) := q.pop
    (.shared q, e)
  | .stealing st =>
    match st.acquire t i with
    | (st, some e) => (.stealing st, some e)
    | (st, none) =>
      match st.stealFromPeers i with
      | (st, some e) => (.stealing st, some e)
      | (st, none) =>
        let (st, e) := st.acquireReactor
        (.stealing st, e)

/-- A suspending fiber takes the next entity to run: the shared queue's front; with work
stealing none. -/
def handOff (s : Scheduler) : Scheduler × Option Entity :=
  match s with
  | .shared q =>
    let (q, e) := q.pop
    (.shared q, e)
  | .stealing st => (.stealing st, none)

end Scheduler

namespace Lifecycle

/-! ## Looking things up and putting them back -/

def fiber (l : Lifecycle) (f : Nat) : FiberCell := l.fibers.getD f default

def master (l : Lifecycle) (i : Nat) : Master := l.masters.getD i default

def waker (l : Lifecycle) (r : Nat) : Waker := l.wakers.getD r default

def updateFiber (l : Lifecycle) (f : Nat) (g : FiberCell → FiberCell) : Lifecycle :=
  { l with fibers := l.fibers.modify f g }

def setPhase (l : Lifecycle) (i : Nat) (p : MasterPhase) : Lifecycle :=
  { l with masters := l.masters.modify i (fun m => { m with phase := p }) }

def setWakerPhase (l : Lifecycle) (r : Nat) (p : WakerPhase) : Lifecycle :=
  { l with wakers := l.wakers.modify r (fun w => { w with phase := p }) }

def setSched (l : Lifecycle) (s : Scheduler) : Lifecycle := { l with sched := s }

/-- Adds a fiber; its number is the count of fibers before it. -/
def addFiber (l : Lifecycle) (c : FiberCell) : Lifecycle := { l with fibers := l.fibers ++ [c] }

/-- The phase that runs what a switch handed over, if anything. -/
def after : Option Entity → MasterPhase
  | some e => .run e
  | none => .idle

/-! ## The checks under the scheduler lock -/

/-- The fatal text of making a fiber ready from a state other than the expected one. -/
def madeReadyWhile (state expected : FiberState) : Abort :=
  .fatal ("fiber Fiber(0x_) made ready while " ++ state.name ++ ", expected " ++ expected.name)

/-- The fatal text of a master resuming a fiber that is not ready. -/
def resumedWhile (state : FiberState) : Abort :=
  .fatal ("master resuming fiber Fiber(0x_) in state " ++ state.name)

/-- Makes fiber `f` ready under its scheduler lock, from state `expected`: no step while the
lock is held by another, fatal from any other state. -/
def markReady (l : Lifecycle) (f : Nat) (expected : FiberState) : Except Abort (Option Lifecycle) :=
  let c := l.fiber f
  if c.locked then .ok none
  else if c.state = expected then .ok (some (l.updateFiber f (fun c => { c with state := .ready })))
  else .error (madeReadyWhile c.state expected)

/-! ## A master's steps -/

/-- Master `i` looks for work. -/
def seek (l : Lifecycle) (i : Nat) : Option Lifecycle :=
  match l.sched.take (l.master i).thread (l.master i).index with
  | (s, some e) => some ((l.setSched s).setPhase i (.run e))
  | (_, none) => none

/-- Master `i` starts running an entity: under the fiber's scheduler lock a ready fiber
becomes running (a description gets its coroutine, a group-local one its home), and any other
state is fatal. -/
def launch (l : Lifecycle) (i : Nat) (e : Entity) : Except Abort (Option Lifecycle) :=
  let c := l.fiber e.id
  if c.locked then .ok none
  else if c.state = .ready then
    let home := if c.groupLocal && c.home.isNone then some (l.master i).index else c.home
    .ok (some ((l.updateFiber e.id (fun c => { c with state := .running, started := true, home })).setPhase
      i (.running e.id)))
  else .error (resumedWhile c.state)

/-- Fiber `f`, running on master `i`, carries out its next operation. -/
def perform (l : Lifecycle) (i f : Nat) : Option Lifecycle :=
  let c := l.fiber f
  match c.program with
  | [] => some ((l.updateFiber f (fun c => { c with state := .dead })).setPhase i .idle)
  | .work :: rest => some { l.updateFiber f (fun c => { c with program := rest }) with counter := l.counter + 1 }
  | .wait :: rest =>
    if c.locked then none
    else some ((l.updateFiber f (fun c => { c with program := rest, locked := true })).setPhase
      i (.suspending f .publish))
  | .yield :: rest =>
    let l := l.updateFiber f (fun c => { c with program := rest })
    match l.sched with
    | .shared q =>
      match q.pop with
      | (q, some e) => some ((l.setSched (.shared q)).setPhase i (.switched f (.yield (some e))))
      | (_, none) => some l
    | .stealing _ => some (l.setPhase i (.switched f (.yield none)))
  | .spawn gl rc body :: rest =>
    let cell : FiberCell := { program := body, groupLocal := gl, reactor := rc }
    match l.sched.push (l.master i).thread (cell.entity l.fibers.length) false with
    | some s => some (((l.updateFiber f (fun c => { c with program := rest })).setSched s).addFiber cell)
    | none => none
  | .dispatch gl rc body :: rest =>
    let cell : FiberCell := { program := body, started := true, groupLocal := gl, reactor := rc }
    some (((l.updateFiber f (fun c => { c with program := rest })).addFiber cell).setPhase
      i (.switched f (.switchTo l.fibers.length)))

/-- Fiber `f`, suspending on master `i` with its scheduler lock held, goes on. -/
def suspendStep (l : Lifecycle) (i f : Nat) : SuspendStage → Lifecycle
  | .publish => (l.updateFiber f (fun c => { c with published := true })).setPhase i (.suspending f .mark)
  | .mark => (l.updateFiber f (fun c => { c with state := .waiting })).setPhase i (.suspending f .pop)
  | .pop =>
    let (s, next) := l.sched.handOff
    (l.setSched s).setPhase i (.switched f (.suspend next))

/-- Master `i` carries out the action fiber `f` switched to it with. -/
def afterSwitch (l : Lifecycle) (i f : Nat) : SwitchAction → Except Abort (Option Lifecycle)
  | .suspend next => .ok (some ((l.updateFiber f (fun c => { c with locked := false })).setPhase i (after next)))
  | .yield next => (l.markReady f .running).map (Option.map (·.setPhase i (.requeue f true next)))
  | .switchTo t =>
    (l.markReady f .running).map (Option.map (·.setPhase i (.requeue f false (some ((l.fiber t).entity t)))))

/-- Master `i` queues fiber `f`, made ready again, then runs `next`. -/
def requeue (l : Lifecycle) (i f : Nat) (yielded : Bool) (next : Option Entity) : Option Lifecycle :=
  match l.sched.push (l.master i).thread ((l.fiber f).entity f) yielded with
  | some s => some ((l.setSched s).setPhase i (after next))
  | none => none

/-- One atomic step of master `i`. -/
def masterStep (l : Lifecycle) (i : Nat) : Except Abort (Option Lifecycle) :=
  if i < l.masters.length then
    match (l.master i).phase with
    | .idle => .ok (l.seek i)
    | .run e => l.launch i e
    | .running f => .ok (l.perform i f)
    | .suspending f stage => .ok (some (l.suspendStep i f stage))
    | .switched f action => l.afterSwitch i f action
    | .requeue f yielded next => .ok (l.requeue i f yielded next)
  else .ok none

/-! ## A waker's steps -/

/-- One atomic step of waker `r`; when free it claims the block of fiber `f`, if queued. -/
def wakerStep (l : Lifecycle) (r f : Nat) : Except Abort (Option Lifecycle) :=
  if r < l.wakers.length then
    match (l.waker r).phase with
    | .idle =>
      if (l.fiber f).published then
        .ok (some ((l.updateFiber f (fun c => { c with published := false })).setWakerPhase r (.resume f)))
      else .ok none
    | .resume g => (l.markReady g .waiting).map (Option.map (·.setWakerPhase r (.push ((l.fiber g).entity g))))
    | .push e =>
      match l.sched.push (l.waker r).thread e false with
      | some s => .ok (some ((l.setSched s).setWakerPhase r .idle))
      | none => .ok none
  else .ok none

/-! ## Runs -/

/-- One atomic step: none while the actor can take none, an abort where the runtime aborts. -/
def step (l : Lifecycle) : Turn → Except Abort (Option Lifecycle)
  | .master i => l.masterStep i
  | .waker r f => l.wakerStep r f

/-- A turn: the step, or nothing when the actor can take none. -/
def next (l : Lifecycle) (a : Turn) : Except Abort Lifecycle :=
  match l.step a with
  | .ok (some l') => .ok l'
  | .ok none => .ok l
  | .error e => .error e

/-- The turns of a schedule, until an abort. -/
def run (l : Lifecycle) (schedule : List Turn) : Except Abort Lifecycle :=
  schedule.foldlM next l

/-- A group of `workers` masters and `wakers` wakers for configuration `c`, with the root
fiber of the given body queued by the main thread. Master `i` is worker `i` on thread
`2 + i`; the wakers are on thread `1`. -/
def start (c : Config) (workers wakers : Nat) (root : List FiberOp) : Except Failure Lifecycle := do
  let sched ← Scheduler.create c workers
  let sched ← match (List.range workers).foldlM (fun s i => s.enter (2 + i) i) sched with
    | .ok s => pure s
    | .error a => throw (Failure.abort a)
  let cell : FiberCell := { program := root }
  return { sched := (sched.startFiber 0 (cell.entity 0)).1,
           masters := (List.range workers).map (fun i => { thread := 2 + i, index := i }),
           wakers := List.replicate wakers { thread := 1 },
           fibers := [cell] }

end Lifecycle

end Fibers
