import Fibers.Sched.Shared
import Fibers.Sched.Stealing
import Fibers.Config.Basic
/-!
# Schedulers

A group schedules its fibers with one of two algorithms, chosen by name: `v1`, one shared
run queue, or `v2`, work stealing. Every operation names the calling thread, because the
work-stealing queues depend on which worker the caller entered as.
-/

namespace Fibers

/-- The scheduling state of a group. -/
inductive Scheduler where
  | shared (q : SharedQueue)
  | stealing (s : Stealing)
  deriving Inhabited

namespace Scheduler

/-- The scheduler a configuration names, for a group of `size` workers. -/
def create (c : Config) (size : Nat) : Except Failure Scheduler :=
  if c.scheduling = "v1" then
    match SharedQueue.create size c.runQueueCapacity with
    | .ok q => .ok (.shared q)
    | .error a => .error (Failure.abort a)
  else if c.scheduling = "v2" then
    if size = 0 then .error (Failure.abort (.fatal "v2 scheduling needs at least one worker"))
    else .ok (.stealing (Stealing.create size c.localQueueCapacity))
  else .error (Failure.error (.unknownScheduling c.scheduling))

/-- Whether this is the shared-queue algorithm. -/
def isShared : Scheduler → Bool
  | .shared _ => true
  | .stealing _ => false

/-- Thread `t` enters as worker `index`. -/
def enter (s : Scheduler) (t index : Nat) : Except Abort Scheduler :=
  match s with
  | .shared q => .ok (.shared q)
  | .stealing st => Scheduler.stealing <$> st.enter t index

/-- Thread `t` leaves. -/
def leave (s : Scheduler) (t : Nat) : Scheduler :=
  match s with
  | .shared q => .shared q
  | .stealing st => .stealing (st.leave t)

/-- Thread `t` starts an entity; false when the run queue is full. -/
def startFiber (s : Scheduler) (t : Nat) (e : Entity) : Scheduler × Bool :=
  match s with
  | .shared q =>
    match q.push e with
    | some q' => (.shared q', true)
    | none => (.shared q, false)
  | .stealing st => (.stealing (st.pushReady t e false), true)

/-- Thread `t` starts a batch; the entities that found no room come back in order. -/
def startFibers (s : Scheduler) (t : Nat) (es : List Entity) : Scheduler × List Entity :=
  match s with
  | .shared q =>
    let (q', rest) := q.pushAll es
    (.shared q', rest)
  | .stealing st => (.stealing (st.startAll t es), [])

/-- Takes an entity for another group. -/
def remoteAcquire (s : Scheduler) : Scheduler × Option Entity :=
  match s with
  | .shared q =>
    let (q', e) := q.remoteAcquire
    (.shared q', e)
  | .stealing st =>
    let (st', e) := st.remoteAcquire
    (.stealing st', e)

/-- Entities queued. -/
def queued : Scheduler → Nat
  | .shared q => q.queued
  | .stealing st => st.queued

/-- Stops the group. -/
def stop : Scheduler → Scheduler
  | .shared q => .shared { q with stopped := true }
  | .stealing st => .stealing { st with stopped := true }

/-- Whether the group was stopped. -/
def stopped : Scheduler → Bool
  | .shared q => q.stopped
  | .stealing st => st.stopped

end Scheduler

end Fibers
