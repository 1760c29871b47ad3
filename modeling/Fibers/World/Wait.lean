import Fibers.World.Queue
/-!
# Waiting and waking inside the world

Every blocking primitive queues a wait block on its waitable, and every waker claims blocks
and wakes their waiters. Waking is a chore of the waking thread: a fiber is made ready in
the group that last ran it, a plain thread is let go with a successful outcome.

The shared mutexes, events and condition variables are named `0` to `7`; events past
those are private to timers.
-/

namespace Fibers

namespace World

/-! ## Chores of an actor -/

/-- The chores of an actor. -/
def choresOf (w : World) : Actor → List Chore
  | .worker k => (w.worker k).chores
  | .thread t => (w.thread t).chores
  | .timer g => (w.group g).timerChores

/-- Replaces the chores of an actor. -/
def setChores (w : World) (a : Actor) (cs : List Chore) : World :=
  match a with
  | .worker k => w.modifyWorker k (fun x => { x with chores := cs })
  | .thread t => w.modifyThread t (fun x => { x with chores := cs })
  | .timer g => w.modifyGroup g (fun x => { x with timerChores := cs })

/-- Adds chores after those an actor has. -/
def addChores (w : World) (a : Actor) (cs : List Chore) : World :=
  w.setChores a (w.choresOf a ++ cs)

/-- Sleeps an actor's thread for `ns` nanoseconds. -/
def sleepFor (w : World) (a : Actor) (ns : Nat) : World :=
  let t := some (w.now + ns)
  match a with
  | .worker k => w.modifyWorker k (fun x => { x with sleepUntil := t })
  | .thread i => w.modifyThread i (fun x => { x with sleepUntil := t })
  | .timer g => w.modifyGroup g (fun x => { x with timerSleep := t })

/-- The delay before a full run queue is tried again: 100 µs. -/
def retryDelay : Nat := 100000

/-! ## Waitables and blocks -/

/-- The waitable of a site. -/
def waitableOf (w : World) : Site → Waitable
  | .mutex m => (w.mutex m).waiters
  | .event e => (w.event e).waiters
  | .condvar c => (w.condvar c).waiters
  | .latch b => (w.latch b).waiters

/-- Replaces the waitable of a site. -/
def setWaitable (w : World) (s : Site) (q : Waitable) : World :=
  match s with
  | .mutex m => { w with mutexes := w.mutexes.modify m (fun x => { x with waiters := q }) }
  | .event e => { w with events := w.events.modify e (fun _ => ⟨q⟩) }
  | .condvar c => { w with condvars := w.condvars.modify c (fun _ => ⟨q⟩) }
  | .latch b => { w with latches := w.latches.modify b (fun x => { x with waiters := q }) }

/-- Queues a new block of `waiter` at a site; none when the waitable is awakened for good. -/
def enqueue (w : World) (waiter : Waiter) (s : Site) : World × Option Nat :=
  let (w', b) := w.newBlock ⟨waiter, s⟩
  match (w'.waitableOf s).add b with
  | (q, true) => (w'.setWaitable s q, some b)
  | (_, false) => (w, none)

/-- A waiter that gave up withdraws its block. -/
def withdraw (w : World) (b : Nat) : World :=
  let s := (w.block b).site
  w.setWaitable s ((w.waitableOf s).remove b).1

/-- Claims a block: true for the first claim only. -/
def claim (w : World) (b : Nat) : World × Bool :=
  let (claimed, ok) := Waitable.claim w.claimed b
  ({ w with claimed }, ok)

/-- The chores of waking the waiters of blocks. -/
def wakes (w : World) (bs : List Nat) : List Chore := bs.map (fun b => .wake (w.block b).waiter)

/-! ## Mutexes -/

/-- Locks mutex `m` for a waiter: none when taken at once, else the block it waits on. -/
def lockMutex (w : World) (m : Nat) (waiter : Waiter) : World × Option Nat :=
  let mx := w.mutex m
  if mx.count = 0 then
    ({ w with mutexes := w.mutexes.modify m (fun x => { x with count := 1 }) }, none)
  else
    let (w, b) := w.newBlock ⟨waiter, .mutex m⟩
    let (mx, _) := (w.mutex m).lock b
    ({ w with mutexes := w.mutexes.set m mx }, some b)

/-- Takes mutex `m` if it is idle. -/
def tryLockMutex (w : World) (m : Nat) : World × Bool :=
  let (mx, ok) := (w.mutex m).tryLock
  ({ w with mutexes := w.mutexes.set m mx }, ok)

/-- Releases mutex `m`, handing it to the first waiter: the chores of that. -/
def unlockMutex (w : World) (m : Nat) : World × List Chore :=
  let (mx, claimed, b) := (w.mutex m).unlock w.claimed
  let w := { w with mutexes := w.mutexes.set m mx, claimed }
  (w, w.wakes b.toList)

/-! ## Events, condition variables, barriers -/

/-- Sets event `e`: the chores of waking its waiters. -/
def setEvent (w : World) (e : Nat) : World × List Chore :=
  let (ev, claimed, woken) := (w.event e).set w.claimed
  let w := { w with events := w.events.set e ev, claimed }
  (w, w.wakes woken)

/-- Wakes the first waiter of condition variable `c`. -/
def notifyCondvar (w : World) (c : Nat) (all : Bool) : World × List Chore :=
  if all then
    let (cv, claimed, woken) := (w.condvar c).notifyAll w.claimed
    let w := { w with condvars := w.condvars.set c cv, claimed }
    (w, w.wakes woken)
  else
    let (cv, claimed, b) := (w.condvar c).notifyOne w.claimed
    let w := { w with condvars := w.condvars.set c cv, claimed }
    (w, w.wakes b.toList)

/-- Counts barrier `b` down: the chores of waking its waiters when it opens. -/
def countDownLatch (w : World) (b : Nat) : Except Abort (World × List Chore) := do
  let (l, claimed, woken) ← (w.latch b).countDown w.claimed
  let w := { w with latches := w.latches.set b l, claimed }
  return (w, w.wakes woken)

/-! ## Doing chores -/

/-- A plain thread's wait ends with a wake. -/
def wakeThread (w : World) (t : Nat) : World :=
  match (w.thread t).wait with
  | some tw => w.modifyThread t (fun x =>
      { x with wait := none, tasks := .settled tw.sequel true :: x.tasks })
  | none => w

/-- Does one chore for an actor: false when the run queue is full and it must wait. -/
def doChore (w : World) (a : Actor) : Chore → World × Bool
  | .wake (.fiber f) => w.ready (w.threadOf a) f false
  | .wake (.thread t) => (w.wakeThread t, true)
  | .requeue f yielded => w.ready (w.threadOf a) f yielded

/-- Does the first chore of an actor, or sleeps it when the run queue is full. -/
def choreStep (w : World) (a : Actor) : World :=
  match w.choresOf a with
  | [] => w
  | c :: rest =>
    match w.doChore a c with
    | (w, true) => w.setChores a rest
    | (w, false) => w.sleepFor a retryDelay

end World

end Fibers
