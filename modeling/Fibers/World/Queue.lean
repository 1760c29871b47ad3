import Fibers.World.Basic
/-!
# Run queues inside the world

The scheduling models of `Fibers.Sched` hold the queues; this module adds what connects
them to the threads of the world: which parked worker a push wakes, and where the calling
thread stands.

* With the shared queue a push wakes the parked worker of the lowest index, and a batch of
  at least a group's size wakes all of them.
* With work stealing a push notifies one parked worker, the one that parked first, and a
  group-local entity pushed from a thread other than its pinned worker notifies all of them;
  a batch of at least a group's size notifies all.
* A pop that a thief makes for another group gives up nothing group-local: the shared queue
  puts a group-local head back at its tail, waking a worker as any push does.
-/

namespace Fibers

namespace World

/-! ## Waking parked workers -/

/-- A parked worker of group `g` at index `i` continues in phase `next`. -/
def unpark (w : World) (g i : Nat) (next : Phase) : World :=
  let w := w.modifyGroup g (fun gs => { gs with idle := gs.idle.erase i })
  match w.workerOf g i with
  | some k =>
    match (w.worker k).phase with
    | .parked _ => w.modifyWorker k (fun x => { x with phase := next })
    | _ => w
  | none => w

/-- The shared queue wakes one parked worker: the lowest index. -/
def wakeOneShared (w : World) (g : Nat) : World :=
  match (w.group g).idle.min? with
  | some i => w.unpark g i .roused
  | none => w

/-- The shared queue wakes every parked worker. -/
def wakeAllShared (w : World) (g : Nat) : World :=
  (w.group g).idle.foldl (fun w i => w.unpark g i .roused) w

/-- Work stealing notifies the worker that parked first. -/
def notifyOne (w : World) (g : Nat) : World :=
  match (w.group g).idle with
  | i :: _ => w.unpark g i .look
  | [] => w

/-- Work stealing notifies every parked worker. -/
def notifyAll (w : World) (g : Nat) : World :=
  (w.group g).idle.foldl (fun w i => w.unpark g i .look) w

/-- Replaces the scheduler of a group. -/
def setSched (w : World) (g : Nat) (s : Scheduler) : World :=
  w.modifyGroup g (fun gs => { gs with sched := s })

/-! ## Pushing -/

/-- Work stealing makes an entity ready, on behalf of thread `t`, and notifies. -/
def pushReady (w : World) (t g : Nat) (st : Stealing) (e : Entity) (yielded : Bool) : World :=
  let w := w.setSched g (.stealing (st.pushReady t e yielded))
  if e.reactor then w.notifyOne g
  else if e.groupLocal then
    if st.localIndex t = some (st.pinnedIndex t e) then w.notifyOne g else w.notifyAll g
  else w.notifyOne g

/-- Thread `t` makes an entity ready in group `g`: false when the shared queue is full. -/
def push (w : World) (t g : Nat) (e : Entity) (yielded : Bool) : World × Bool :=
  match (w.group g).sched with
  | .shared q =>
    match q.push e with
    | some q => ((w.setSched g (.shared q)).wakeOneShared g, true)
    | none => (w, false)
  | .stealing st => (w.pushReady t g st e yielded, true)

/-- Thread `t` starts entities in group `g`; those that found no room come back in order. -/
def pushAll (w : World) (t g : Nat) (es : List Entity) : World × List Entity :=
  match (w.group g).sched with
  | .shared q =>
    let (q, rest) := q.pushAll es
    let pushed := es.length - rest.length
    let w := w.setSched g (.shared q)
    let w := if pushed ≥ (w.group g).plan.workers then w.wakeAllShared g
      else (List.range pushed).foldl (fun w _ => w.wakeOneShared g) w
    (w, rest)
  | .stealing _ =>
    let w := es.foldl (fun w e =>
      match (w.group g).sched with
      | .stealing st =>
        if e.groupLocal ∨ e.reactor then w.pushReady t g st e false
        else w.setSched g (.stealing { st with global := st.global.push e })
      | .shared _ => w) w
    let w := if es.length ≥ (w.group g).plan.workers then w.notifyAll g
      else (List.range es.length).foldl (fun w _ => w.notifyOne g) w
    (w, [])

/-- Thread `t` makes fiber `f` ready in the group that last ran it: false when the shared
queue is full. -/
def ready (w : World) (t f : Nat) (yielded : Bool) : World × Bool :=
  w.push t (w.fiber f).group ((w.fiber f).entity f) yielded

/-! ## Taking -/

/-- Takes the front of a group's shared queue. -/
def popShared (w : World) (g : Nat) : World × Option Entity :=
  match (w.group g).sched with
  | .shared q =>
    let (q, e) := q.pop
    (w.setSched g (.shared q), e)
  | .stealing _ => (w, none)

/-- Applies a work-stealing operation of group `g`. -/
def withStealing (w : World) (g : Nat) (op : Stealing → Stealing × Option Entity) :
    World × Option Entity :=
  match (w.group g).sched with
  | .stealing st =>
    let (st, e) := op st
    (w.setSched g (.stealing st), e)
  | .shared _ => (w, none)

/-- A thief of another group takes from group `g`. -/
def remoteAcquire (w : World) (g : Nat) : World × Option Entity :=
  match (w.group g).sched with
  | .shared q =>
    let localHead := match q.queue with
      | e :: _ => e.groupLocal
      | [] => false
    let (q, e) := q.remoteAcquire
    let w := w.setSched g (.shared q)
    (if localHead then w.wakeOneShared g else w, e)
  | .stealing st =>
    let (st, e) := st.remoteAcquire
    (w.setSched g (.stealing st), e)

/-- Tries the due victims of a steal schedule, at most `fuel` of them. -/
def stealDue (k : Nat) : Nat → World → World × Option Entity
  | 0, w => (w, none)
  | fuel + 1, w =>
    let q := (w.worker k).victims
    match q.nextDue with
    | none => (w, none)
    | some i =>
      let w := w.modifyWorker k (fun x => { x with victims := q.reschedule i })
      match w.remoteAcquire (q.groupAt i) with
      | (w, some e) => (w, some e)
      | (w, none) => stealDue k fuel w

/-- Worker `k` steals from a foreign group when one is due. -/
def stealForeign (w : World) (k : Nat) : World × Option Entity :=
  let q := (w.worker k).victims
  if q.isEmpty then (w, none)
  else
    let w := w.modifyWorker k (fun x => { x with victims := q.tick })
    stealDue k q.victims.length w

end World

end Fibers
