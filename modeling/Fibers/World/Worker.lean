import Fibers.World.Step
/-!
# Workers

A worker runs its group's scheduling loop. One action of a worker is one of:

* a chore (waking or requeueing a fiber), which comes before anything else;
* a look for work at the top of the loop: the shared queue pops its front, then tries the
  foreign groups that are due; work stealing acquires (pinned queue, own deque, global
  queue, with the reactor queue first on every 61st acquisition);
* an idle round before parking: with the shared queue, a last pop; with work stealing, a
  round as a thief over the peers' deques and the global queue, the foreign groups, one
  more acquisition and the reactor queue, and a last check for work;
* parking, until a producer wakes the worker or, when it has foreign groups to steal from,
  for at most a millisecond;
* taking an entity: a description first gets its stack, then the fiber runs;
* a task of the running fiber. When the fiber yields, suspends, switches or returns, the
  worker does what the fiber asked: requeue it, run the entity handed over, or go back to
  the top of the loop.
-/

namespace Fibers

namespace World

/-- How long a worker with foreign groups to steal from stays parked: 1 ms. -/
def victimPoll : Nat := 1000000

/-- Whether group `g` schedules with the shared queue. -/
def sharedQueue (w : World) (g : Nat) : Bool := (w.group g).sched.isShared

/-- Worker `k` continues in a phase. -/
def setPhase (w : World) (k : Nat) (p : Phase) : World :=
  w.modifyWorker k (fun x => { x with phase := p })

/-- Worker `k` parks. -/
def park (w : World) (k : Nat) : World :=
  let x := w.worker k
  let deadline := if x.victims.isEmpty then none else some (w.now + victimPoll)
  let w := w.modifyGroup x.group (fun gs =>
    { gs with idle := if gs.idle.contains x.index then gs.idle else gs.idle ++ [x.index] })
  w.setPhase k (.parked deadline)

/-- One acquisition of work-stealing worker `k`. -/
def acquire (w : World) (k : Nat) : World × Option Entity :=
  let x := w.worker k
  w.withStealing x.group (fun st => st.acquire x.thread x.index)

/-- An acquisition, and failing that the reactor queue. -/
def acquireAny (w : World) (k : Nat) : World × Option Entity :=
  match w.acquire k with
  | (w, some e) => (w, some e)
  | (w, none) => w.withStealing (w.worker k).group Stealing.acquireReactor

/-- Worker `k` at the top of its loop. -/
def seek (w : World) (k : Nat) : World :=
  let g := (w.worker k).group
  if w.sharedQueue g then
    match w.popShared g with
    | (w, some e) => w.setPhase k (.enter e)
    | (w, none) =>
      match w.stealForeign k with
      | (w, some e) => w.setPhase k (.enter e)
      | (w, none) => w.setPhase k .look
  else
    match w.acquire k with
    | (w, some e) => w.setPhase k (.enter e)
    | (w, none) => w.setPhase k .look

/-- Worker `k`'s idle round. -/
def look (w : World) (k : Nat) : World :=
  let x := w.worker k
  let g := x.group
  if w.sharedQueue g then
    match w.popShared g with
    | (w, some e) => w.setPhase k (.enter e)
    | (w, none) => w.park k
  else
    let stolen := match w.withStealing g (fun st => st.stealFromPeers x.index) with
      | (w, some e) => (w, some e)
      | (w, none) => w.withStealing g (fun st => st.stealGlobal x.thread)
    match stolen with
    | (w, some e) => (w.notifyOne g).setPhase k (.enter e)
    | (w, none) =>
      let othersHold := match (w.group g).sched with
        | .stealing st => st.deques.any (!·.isEmpty)
        | .shared _ => false
      if othersHold then w
      else
        match w.stealForeign k with
        | (w, some e) => w.setPhase k (.enter e)
        | (w, none) =>
          match w.acquireAny k with
          | (w, some e) => w.setPhase k (.enter e)
          | (w, none) =>
            let hasWork := match (w.group g).sched with
              | .stealing st => st.hasWork x.index
              | .shared _ => false
            if hasWork then
              match w.acquireAny k with
              | (w, some e) => w.setPhase k (.enter e)
              | (w, none) => w
            else w.park k

/-- Worker `k` back from parking on the shared queue. -/
def roused (w : World) (k : Nat) : World :=
  let g := (w.worker k).group
  match w.popShared g with
  | (w, some e) => w.setPhase k (.enter e)
  | (w, none) =>
    match w.stealForeign k with
    | (w, some e) => w.setPhase k (.enter e)
    | (w, none) => w.setPhase k .look

/-- Worker `k`'s parking ran out. -/
def wakeUp (w : World) (k : Nat) : World :=
  let x := w.worker k
  let w := w.modifyGroup x.group (fun gs => { gs with idle := gs.idle.erase x.index })
  w.setPhase k (if w.sharedQueue x.group then .roused else .look)

/-- Worker `k` takes an entity: a description gets its stack first. -/
def enter (w : World) (k : Nat) (e : Entity) : Except Abort World := do
  if (w.fiber e.id).stack.isSome then return w.takeOn k e.id
  match ← w.instantiate k e.id with
  | (w, true) => return w.takeOn k e.id
  | (w, false) => return w.sleepFor (.worker k) stackRetryDelay

/-- Worker `k` runs a task of fiber `f` and does what the fiber asks. -/
def runFiber (w : World) (k f : Nat) : Except Abort World := do
  let g := (w.worker k).group
  let (w, outcome) ← w.perform (.fiber f k)
  match outcome with
  | .next => return w
  | .yield =>
    if w.sharedQueue g then
      match w.popShared g with
      | (w, some e) => return (w.addChores (.worker k) [.requeue f true]).setPhase k (.enter e)
      | (w, none) => return w
    else return (w.addChores (.worker k) [.requeue f true]).setPhase k .seek
  | .suspend =>
    if w.sharedQueue g then
      match w.popShared g with
      | (w, some e) => return w.setPhase k (.enter e)
      | (w, none) => return w.setPhase k .seek
    else return w.setPhase k .seek
  | .switchTo t =>
    return (w.addChores (.worker k) [.requeue f false]).setPhase k (.enter ((w.fiber t).entity t))
  | .exit =>
    let w ← w.retire k f
    return w.setPhase k .seek

/-- One action of worker `k`. -/
def workerStep (w : World) (k : Nat) : Except Abort World :=
  let w := w.modifyWorker k (fun x => { x with sleepUntil := none })
  let x := w.worker k
  if !x.chores.isEmpty then .ok (w.choreStep (.worker k))
  else
    match x.phase with
    | .seek => .ok (w.seek k)
    | .look => .ok (w.look k)
    | .parked _ => .ok (w.wakeUp k)
    | .roused => .ok (w.roused k)
    | .enter e => w.enter k e
    | .fiber f => w.runFiber k f

end World

end Fibers
