import Fibers.Sched.Shared
import Fibers.Sched.Stealing
import Fibers.Sync.Waitable
/-!
# Parking and stopping, at the grain of their atomic steps

A worker of a group runs a scheduling loop: it takes a runnable entity from the group's
queues and runs it; when it finds none, it parks until a producer wakes it; once the group
is stopped it leaves the loop. Producers (threads starting fibers, fibers made ready again)
put entities in the queues and wake parked workers. The two algorithms park differently.

*Shared run queue.* An idle worker first spins: at most two workers at once poll the queue,
sixty-three times, reading the stop flag after each poll that found nothing; a spinner that
keeps seeing work it could not take wakes a parked peer every fourth such poll. A spinner
that took an entity while more is queued wakes one worker. The idle worker then tries the
foreign groups it may steal from, and parks: it sets its bit in the parked mask, pops the
queue once more, reads the stop flag, and waits on its own wait slot. A producer that pushed
wakes one worker, unless a spinner is about, by clearing the lowest parked bit and counting a
wake on that worker's slot. Stopping sets the stop flag, then makes every wait slot
persistent.

*Work stealing.* An idle worker tries to become one of at most `max(size/2, 1)` thieves and
steals from its peers, then from the global queue; the last thief to leave notifies a
sleeper when it stole. The worker then tries foreign groups, acquires once more, and takes
the sleep lock: it counts itself a sleeper, looks whether there is work it could take, reads
the stop flag, and waits on the sleep condition variable, which releases the lock. A
producer notifies one sleeper after a push, unless there are no sleepers or a thief is about,
and all of them when the entity is pinned to another worker. Stopping sets the stop flag,
then notifies every sleeper under the sleep lock.

Every step of a party makes one access to the shared state, and the access's answer decides
the party's next stage. An access is one atomic operation: a queue operation (a pop, a push,
a steal, an acquisition), a load, store, read-modify-write or compare-and-swap loop on an
atomic, a wait slot's operation, or the sleep lock's. A wait that cannot return yet, a lock
that another party holds and a push that is retried while the queue is full make no step.
A fiber's run is one step of its worker; what the fiber pushes, a producer pushes. Time is
not modelled: a timed wait, which a worker with foreign groups to steal from makes, may end
at any of its turns, and the foreign groups are a list of entities they hand out. A
condition variable's wait ends when it is notified or times out, never spuriously.
-/

namespace Fibers

/-- Who takes a turn: a worker of the group, a producer, or the thread stopping the group. -/
inductive Party where
  | worker (w : Nat)
  | producer (p : Nat)
  | stopper
  deriving Inhabited, DecidableEq, Repr

/-- What an access to the shared state answers; each access fills the fields it answers. -/
structure Answer where
  entity : Option Entity := none
  flag : Bool := false
  count : Nat := 0
  /-- The workers whose parked bits an access cleared. -/
  woken : List Nat := []
  deriving Inhabited, DecidableEq, Repr

/-! ## 1. The shared run queue -/

/-- Polls of the run queue a spinner makes: one every sixteenth round of a thousand. -/
def spinPolls : Nat := 63

/-- Polls in a row that see work a spinner could not take before it wakes a parked peer. -/
def stallPolls : Nat := 4

/-- Most workers spinning at once. -/
def maxSpinners : Nat := 2

/-- The shared state of a group on one run queue; the queue carries the stop flag. -/
structure ShareHub where
  queue : SharedQueue
  spinning : Nat := 0
  /-- Each worker's bit of the parked mask. -/
  parked : List Bool
  /-- Each worker's wait slot. -/
  slots : List WaitSlot
  /-- What the foreign groups hand out, in order. -/
  foreign : List Entity := []
  deriving Inhabited, Repr

/-- One atomic access to the shared state of a shared run queue. -/
inductive ShareAccess where
  /-- Nothing shared: a fiber's run, or a party's own bookkeeping. -/
  | skip
  | pop
  /-- A push, which a full queue refuses; answers whether it went in. -/
  | push (e : Entity)
  /-- A push retried until there is room. -/
  | pushForever (e : Entity)
  | isEmpty
  | loadStopped
  | storeStopped
  /-- Adds one to the spinner count, answering the count before. -/
  | joinSpinners
  | leaveSpinners
  | loadSpinning
  /-- Clears the lowest set parked bit, answering its worker. -/
  | claimParked
  /-- Clears every parked bit, answering their workers. -/
  | takeParked
  | setParked (w : Nat) (b : Bool)
  | wake (w : Nat)
  | persist (w : Nat)
  /-- Worker `w`'s wait on its slot returns, taking a wake unless the slot is persistent; a
  timed wait also returns, with nothing, at its deadline. -/
  | wait (w : Nat) (timed : Bool)
  /-- A steal from the foreign groups, which only a worker that has some makes. -/
  | stealForeign (victims : Bool)
  deriving Inhabited, DecidableEq, Repr

namespace ShareHub

/-- The workers whose parked bits are set, lowest first. -/
def parkedWorkers (h : ShareHub) : List Nat :=
  (List.range h.parked.length).filter (fun i => h.parked.getD i false)

/-- Clears the parked bits of workers `ws`. -/
def clearParked (h : ShareHub) (ws : List Nat) : ShareHub :=
  { h with parked := ws.foldl (fun parked w => parked.set w false) h.parked }

/-- An access: the state after it and its answer, or none when it cannot be made now. -/
def access (h : ShareHub) : ShareAccess → Option (ShareHub × Answer)
  | .skip => some (h, {})
  | .pop => some ({ h with queue := h.queue.pop.1 }, { entity := h.queue.pop.2 })
  | .push e =>
    some ({ h with queue := (h.queue.push e).getD h.queue }, { flag := (h.queue.push e).isSome })
  | .pushForever e => (h.queue.push e).map (fun queue => ({ h with queue }, {}))
  | .isEmpty => some (h, { flag := h.queue.queue.isEmpty })
  | .loadStopped => some (h, { flag := h.queue.stopped })
  | .storeStopped => some ({ h with queue := { h.queue with stopped := true } }, {})
  | .joinSpinners => some ({ h with spinning := h.spinning + 1 }, { count := h.spinning })
  | .leaveSpinners => some ({ h with spinning := h.spinning - 1 }, {})
  | .loadSpinning => some (h, { count := h.spinning })
  | .claimParked =>
    let ws := h.parkedWorkers.take 1
    some (h.clearParked ws, { woken := ws })
  | .takeParked => some (h.clearParked h.parkedWorkers, { woken := h.parkedWorkers })
  | .setParked w b => some ({ h with parked := h.parked.set w b }, {})
  | .wake w => some ({ h with slots := h.slots.modify w WaitSlot.wake }, {})
  | .persist w => some ({ h with slots := h.slots.modify w WaitSlot.persistentWake }, {})
  | .wait w timed =>
    let r := (h.slots.getD w {}).poll
    if r.2 then some ({ h with slots := h.slots.set w r.1 }, { flag := true })
    else if timed then some (h, {})
    else none
  | .stealForeign victims =>
    if victims then some ({ h with foreign := h.foreign.tail }, { entity := h.foreign.head? })
    else some (h, {})

end ShareHub

/-- How a party wakes one worker: it reads the spinner count (a spinner will take the work),
clears the lowest parked bit, and counts a wake on that worker's slot. -/
inductive Rouse where
  | look
  | claim
  | slot (w : Nat)
  deriving Inhabited, DecidableEq, Repr

namespace Rouse

def access : Rouse → ShareAccess
  | .look => .loadSpinning
  | .claim => .claimParked
  | .slot w => .wake w

/-- The next stage of a wake, none once it is over. -/
def after : Rouse → Answer → Option Rouse
  | .look, a => if a.count = 0 then some .claim else none
  | .claim, a =>
    match a.woken with
    | w :: _ => some (.slot w)
    | [] => none
  | .slot _, _ => none

end Rouse

/-- Where a worker of a shared run queue stands between two of its steps. -/
inductive ShareStage where
  /-- At the top of its loop: about to pop the run queue. -/
  | top
  /-- About to join the spinners. -/
  | spinEnter
  /-- Spinning: about to poll the queue, with `left` polls after this one and `stalled`
  polls in a row that saw work it could not take. -/
  | poll (left stalled : Nat)
  /-- Its poll found nothing: about to read the stop flag. -/
  | stopRead (left stalled : Nat)
  /-- About to look whether the queue is empty. -/
  | stallLook (left stalled : Nat)
  /-- Waking a parked peer, then spinning on. -/
  | stall (left : Nat) (k : Rouse)
  /-- About to leave the spinners with what it took. -/
  | spinLeave (got : Option Entity)
  /-- Took `e` while spinning: about to look whether more is queued. -/
  | chainLook (e : Entity)
  /-- Waking one worker for the work queued behind `e`. -/
  | chain (e : Entity) (k : Rouse)
  /-- About to steal from the foreign groups. -/
  | foreign
  /-- About to set its parked bit. -/
  | publish
  /-- Its bit set: about to pop the queue again. -/
  | recheck
  /-- Popped `e`: about to clear its bit and run `e`. -/
  | retract (e : Entity)
  /-- Popped nothing: about to read the stop flag. -/
  | stopCheck
  /-- Read the flag set: about to clear its bit and leave the loop. -/
  | leave
  /-- Waiting on its slot. -/
  | wait
  /-- Its wait returned: about to clear its bit. -/
  | unpark
  /-- About to pop the queue after a wait. -/
  | repop
  /-- About to steal from the foreign groups after a wait. -/
  | refreign
  /-- Running `e`. -/
  | run (e : Entity)
  /-- Out of the loop. -/
  | exited
  deriving Inhabited, DecidableEq, Repr

namespace ShareStage

/-- The next poll of a spinner with `left` polls to go, or the end of its spinning. -/
def nextPoll : Nat → Nat → ShareStage
  | 0, _ => .spinLeave none
  | left + 1, stalled => .poll left stalled

/-- The access worker `w` makes at this stage, none out of the loop; `victims` says whether
it has foreign groups to steal from. -/
def access (w : Nat) (victims : Bool) : ShareStage → Option ShareAccess
  | .top | .poll _ _ | .recheck | .repop => some .pop
  | .spinEnter => some .joinSpinners
  | .stopRead _ _ | .stopCheck => some .loadStopped
  | .stallLook _ _ | .chainLook _ => some .isEmpty
  | .stall _ k | .chain _ k => some k.access
  | .spinLeave _ => some .leaveSpinners
  | .foreign | .refreign => some (.stealForeign victims)
  | .publish => some (.setParked w true)
  | .retract _ | .leave | .unpark => some (.setParked w false)
  | .wait => some (.wait w victims)
  | .run _ => some .skip
  | .exited => none

/-- The stage after the access answered `a`. -/
def after : ShareStage → Answer → ShareStage
  | .top, a =>
    match a.entity with
    | some e => .run e
    | none => .spinEnter
  | .spinEnter, a => if a.count < maxSpinners then .poll (spinPolls - 1) 0 else .spinLeave none
  | .poll left stalled, a =>
    match a.entity with
    | some e => .spinLeave (some e)
    | none => .stopRead left stalled
  | .stopRead left stalled, a => if a.flag then .spinLeave none else .stallLook left stalled
  | .stallLook left stalled, a =>
    -- an empty queue resets the stall count; work seen a fourth time wakes a parked peer
    if a.flag then nextPoll left 0
    else if stalled + 1 = stallPolls then .stall left .claim
    else nextPoll left (stalled + 1)
  | .stall left k, a =>
    match k.after a with
    | some k => .stall left k
    | none => nextPoll left 0
  | .spinLeave got, _ =>
    match got with
    | some e => .chainLook e
    | none => .foreign
  | .chainLook e, a => if a.flag then .run e else .chain e .look
  | .chain e k, a =>
    match k.after a with
    | some k => .chain e k
    | none => .run e
  | .foreign, a =>
    match a.entity with
    | some e => .run e
    | none => .publish
  | .publish, _ => .recheck
  | .recheck, a =>
    match a.entity with
    | some e => .retract e
    | none => .stopCheck
  | .retract e, _ => .run e
  | .stopCheck, a => if a.flag then .leave else .wait
  | .leave, _ => .exited
  | .wait, _ => .unpark
  | .unpark, _ => .repop
  | .repop, a =>
    match a.entity with
    | some e => .run e
    | none => .refreign
  | .refreign, a =>
    match a.entity with
    | some e => .run e
    | none => .publish
  | .run _, _ => .top
  | .exited, _ => .exited

end ShareStage

/-- A worker of a shared run queue: its stage, and whether it has foreign groups to steal
from. -/
structure ShareWorker where
  stage : ShareStage := .top
  victims : Bool := false
  deriving Inhabited, Repr

/-- A producer's call on a shared run queue. -/
inductive ShareOp where
  /-- Starts a fiber: a push, which a full queue refuses, and a wake when it went in. -/
  | start (e : Entity)
  /-- Makes a fiber ready again (a resume or a requeue): a push retried until it goes in,
  and a wake. -/
  | ready (e : Entity)
  /-- Starts a batch: pushes until the queue refuses one, then wakes as many workers as went
  in, or every parked one when that is the group's size or more. -/
  | batch (es : List Entity)
  deriving Inhabited, Repr

/-- Where a producer on a shared run queue stands. -/
inductive ShareFeed where
  | idle
  | start (e : Entity)
  | ready (e : Entity)
  /-- Pushing a batch: `es` to go, `pushed` in. -/
  | batch (es : List Entity) (pushed : Nat)
  /-- Waking one worker, then `more` others. -/
  | rouse (k : Rouse) (more : Nat)
  /-- About to clear every parked bit. -/
  | rouseAll
  /-- Counting a wake on each of these workers' slots. -/
  | wakeEach (ws : List Nat)
  deriving Inhabited, Repr

namespace ShareFeed

/-- The stage a call begins with. -/
def begin : ShareOp → ShareFeed
  | .start e => .start e
  | .ready e => .ready e
  | .batch es => .batch es 0

/-- Wakes `n` workers of a group of `size`: one by one, or every parked one at once. -/
def wakeWorkers (size n : Nat) : ShareFeed :=
  if size ≤ n then .rouseAll
  else
    match n with
    | 0 => .idle
    | n + 1 => .rouse .look n

def access : ShareFeed → ShareAccess
  | .idle | .batch [] _ | .wakeEach [] => .skip
  | .start e | .batch (e :: _) _ => .push e
  | .ready e => .pushForever e
  | .rouse k _ => k.access
  | .rouseAll => .takeParked
  | .wakeEach (w :: _) => .wake w

/-- The stage after the access answered `a`, in a group of `size` workers. -/
def after (size : Nat) : ShareFeed → Answer → ShareFeed
  | .idle, _ => .idle
  | .start _, a => if a.flag then .rouse .look 0 else .idle
  | .ready _, _ => .rouse .look 0
  | .batch (_ :: rest) pushed, a =>
    if a.flag then .batch rest (pushed + 1) else wakeWorkers size pushed
  | .batch [] pushed, _ => wakeWorkers size pushed
  | .rouse k more, a =>
    match k.after a with
    | some k => .rouse k more
    | none =>
      match more with
      | 0 => .idle
      | m + 1 => .rouse .look m
  | .rouseAll, a => .wakeEach a.woken
  | .wakeEach (_ :: rest), _ => .wakeEach rest
  | .wakeEach [], _ => .idle

end ShareFeed

/-- A producer: the calls it has still to make, and where it stands in the current one. -/
structure ShareProducer where
  program : List ShareOp
  feed : ShareFeed := .idle
  deriving Inhabited, Repr

/-- Where the thread stopping a shared run queue stands. -/
inductive ShareStop where
  /-- About to set the stop flag. -/
  | store
  /-- About to make worker `w`'s slot persistent. -/
  | persist (w : Nat)
  | done
  deriving Inhabited, DecidableEq, Repr

namespace ShareStop

def access : ShareStop → Option ShareAccess
  | .store => some .storeStopped
  | .persist w => some (.persist w)
  | .done => none

/-- The next stage, in a group of `size` workers. -/
def after (size : Nat) : ShareStop → ShareStop
  | .store => .persist 0
  | .persist w => if w + 1 < size then .persist (w + 1) else .done
  | .done => .done

end ShareStop

/-- A group on one run queue: its shared state and its parties. -/
structure ShareWorld where
  hub : ShareHub
  workers : List ShareWorker
  producers : List ShareProducer := []
  stopper : ShareStop := .store
  deriving Inhabited

namespace ShareWorld

/-- A group whose queue is `queue`, before any step: nobody spinning or parked, fresh wait
slots, every worker at the top of its loop. `victims` says which workers have foreign
groups to steal from, and `foreign` is what those hand out. -/
def start (queue : SharedQueue) (victims : List Bool) (foreign : List Entity)
    (programs : List (List ShareOp)) : ShareWorld :=
  { hub := { queue, parked := List.replicate queue.size false,
             slots := List.replicate queue.size {}, foreign },
    workers := (List.range queue.size).map (fun w => { victims := victims.getD w false }),
    producers := programs.map (fun program => { program }) }

/-- One step of a party: the state after it, with the access it made and the answer; none
while the party is blocked or has nothing left to do. -/
def step (s : ShareWorld) : Party → Option (ShareWorld × ShareAccess × Answer)
  | .worker w =>
    match s.workers[w]? with
    | none => none
    | some x =>
      (x.stage.access w x.victims).bind fun acc =>
        (s.hub.access acc).map fun (hub, a) =>
          ({ s with hub, workers := s.workers.set w { x with stage := x.stage.after a } }, acc, a)
  | .producer p =>
    match s.producers[p]? with
    | none => none
    | some x =>
      match x.feed, x.program with
      | .idle, [] => none
      | .idle, op :: rest =>
        some ({ s with producers :=
            s.producers.set p { program := rest, feed := ShareFeed.begin op } }, .skip, {})
      | feed, _ =>
        (s.hub.access feed.access).map fun (hub, a) =>
          let x := { x with feed := feed.after s.workers.length a }
          ({ s with hub, producers := s.producers.set p x }, feed.access, a)
  | .stopper =>
    s.stopper.access.bind fun acc =>
      (s.hub.access acc).map fun (hub, a) =>
        ({ s with hub, stopper := s.stopper.after s.workers.length }, acc, a)

/-- A turn of a party: its step, or nothing while it is blocked. -/
def next (s : ShareWorld) (p : Party) : ShareWorld :=
  match s.step p with
  | some (s', _) => s'
  | none => s

/-- The turns of a schedule. -/
def run (s : ShareWorld) (schedule : List Party) : ShareWorld := schedule.foldl next s

/-- The turns of a schedule, with every access made and its answer, in order. -/
def exec (s : ShareWorld) : List Party → ShareWorld × List (Party × ShareAccess × Answer)
  | [] => (s, [])
  | p :: rest =>
    match s.step p with
    | some (s', acc, a) =>
      let (t, log) := exec s' rest
      (t, (p, acc, a) :: log)
    | none => exec s rest

/-- The states a group reaches from its start, before it is stopped, by any schedule. -/
inductive Reachable : ShareWorld → Prop
  | start (queue : SharedQueue) (victims : List Bool) (foreign : List Entity)
      (programs : List (List ShareOp)) (h : queue.stopped = false) :
      Reachable (ShareWorld.start queue victims foreign programs)
  | next {s : ShareWorld} (p : Party) : Reachable s → Reachable (s.next p)

end ShareWorld

/-! ## 2. Work stealing -/

/-- The shared state of a work-stealing group; the queues carry the stop flag. -/
structure StealHub where
  queues : Stealing
  thieves : Nat := 0
  sleepers : Nat := 0
  /-- The party holding the sleep lock. -/
  holder : Option Party := none
  /-- The workers waiting on the sleep condition variable, in the order they began. -/
  waiters : List Nat := []
  /-- What the foreign groups hand out, in order. -/
  foreign : List Entity := []
  deriving Inhabited, Repr

/-- One atomic access to the shared state of a work-stealing group. -/
inductive StealAccess where
  /-- Nothing shared: a fiber's run, or a party's own bookkeeping. -/
  | skip
  /-- Worker `w`, on thread `t`, acquires: from the reactor queue when due, its pinned
  queue, its deque, the global queue. -/
  | acquire (t w : Nat)
  | acquireReactor
  | stealPeers (w : Nat)
  | stealGlobal (t : Nat)
  /-- Adds one to the thieves unless there are as many as may be; answers whether it did. -/
  | becomeThief
  /-- Takes one from the thieves, answering the count before. -/
  | leaveThieves
  /-- Whether any worker's deque holds an entity. -/
  | anyDeque
  | stealForeign (victims : Bool)
  /-- Takes the sleep lock, which no other party may hold. -/
  | lock (p : Party)
  | unlock
  | joinSleepers
  | leaveSleepers
  | hasWork (w : Nat)
  | loadStopped
  | storeStopped
  /-- Worker `w` begins waiting on the condition variable and releases the lock. -/
  | wait (w : Nat)
  /-- Worker `w`'s wait ends once it was notified; a timed one also at its deadline. -/
  | sleep (w : Nat) (timed : Bool)
  /-- Before notifying one sleeper: answers whether there are none, or thieves about, so
  that the notification is skipped. -/
  | lookSleepers
  /-- Under the lock: notifies every waiter, or the first one, and releases the lock. -/
  | notify (all : Bool)
  /-- Makes `e` ready from thread `t`, `yielded` when it comes from a yield; answers whether
  it is pinned to a worker other than the thread's, so that every sleeper is notified. -/
  | ready (t : Nat) (e : Entity) (yielded : Bool)
  | pushGlobal (e : Entity)
  deriving Inhabited, DecidableEq, Repr

namespace StealHub

/-- Whether `e`, made ready from thread `t`, is pinned to a worker other than the thread's. -/
def pinnedElsewhere (q : Stealing) (t : Nat) (e : Entity) : Bool :=
  !e.reactor && e.groupLocal && some (q.pinnedIndex t e) != q.localIndex t

/-- An access: the state after it and its answer, or none when it cannot be made now. -/
def access (h : StealHub) : StealAccess → Option (StealHub × Answer)
  | .skip => some (h, {})
  | .acquire t w =>
    some ({ h with queues := (h.queues.acquire t w).1 }, { entity := (h.queues.acquire t w).2 })
  | .acquireReactor =>
    some ({ h with queues := h.queues.acquireReactor.1 }, { entity := h.queues.acquireReactor.2 })
  | .stealPeers w =>
    some ({ h with queues := (h.queues.stealFromPeers w).1 },
      { entity := (h.queues.stealFromPeers w).2 })
  | .stealGlobal t =>
    some ({ h with queues := (h.queues.stealGlobal t).1 }, { entity := (h.queues.stealGlobal t).2 })
  | .becomeThief =>
    if h.thieves < h.queues.maxThieves then
      some ({ h with thieves := h.thieves + 1 }, { flag := true })
    else some (h, {})
  | .leaveThieves => some ({ h with thieves := h.thieves - 1 }, { count := h.thieves })
  | .anyDeque => some (h, { flag := h.queues.deques.any (!·.isEmpty) })
  | .stealForeign victims =>
    if victims then some ({ h with foreign := h.foreign.tail }, { entity := h.foreign.head? })
    else some (h, {})
  | .lock p => if h.holder = none then some ({ h with holder := some p }, {}) else none
  | .unlock => some ({ h with holder := none }, {})
  | .joinSleepers => some ({ h with sleepers := h.sleepers + 1 }, {})
  | .leaveSleepers => some ({ h with sleepers := h.sleepers - 1 }, {})
  | .hasWork w => some (h, { flag := h.queues.hasWork w })
  | .loadStopped => some (h, { flag := h.queues.stopped })
  | .storeStopped => some ({ h with queues := { h.queues with stopped := true } }, {})
  | .wait w => some ({ h with holder := none, waiters := h.waiters ++ [w] }, {})
  | .sleep w timed =>
    if w ∈ h.waiters then
      if timed then some ({ h with waiters := h.waiters.erase w }, {}) else none
    else some (h, {})
  | .lookSleepers => some (h, { flag := h.sleepers == 0 || h.thieves != 0 })
  | .notify all =>
    some ({ h with holder := none, waiters := if all then [] else h.waiters.drop 1 }, {})
  | .ready t e yielded =>
    some ({ h with queues := h.queues.pushReady t e yielded },
      { flag := pinnedElsewhere h.queues t e })
  | .pushGlobal e =>
    some ({ h with queues := { h.queues with global := h.queues.global.push e } }, {})

end StealHub

/-- How a party notifies sleepers: a single notification first looks whether to skip it;
then the party takes the sleep lock, notifies and releases the lock. -/
inductive Signal where
  | look
  | grab
  | send
  deriving Inhabited, DecidableEq, Repr

namespace Signal

/-- The access of party `p` notifying every sleeper, or one. -/
def access (all : Bool) (p : Party) : Signal → StealAccess
  | .look => .lookSleepers
  | .grab => .lock p
  | .send => .notify all

/-- The next stage of a notification, none once it is over. -/
def after : Signal → Answer → Option Signal
  | .look, a => if a.flag then none else some .grab
  | .grab, _ => some .send
  | .send, _ => none

end Signal

/-- Where a worker of a work-stealing group stands between two of its steps. -/
inductive StealStage where
  /-- At the top of its loop: about to acquire. -/
  | top
  /-- About to try to become a thief. -/
  | thief
  /-- A thief: about to steal from its peers. -/
  | stealPeers
  /-- A thief whose peers had nothing: about to steal from the global queue. -/
  | stealGlobal
  /-- About to leave the thieves with what it stole. -/
  | unthief (got : Option Entity)
  /-- The last thief, having stolen `e`: notifying one sleeper. -/
  | chain (e : Entity) (k : Signal)
  /-- The last thief, having stolen nothing: about to look whether a deque holds work. -/
  | recheck
  /-- About to steal from the foreign groups. -/
  | foreign
  | acquire
  | acquireReactor
  /-- About to take the sleep lock. -/
  | lock
  /-- Holds the lock: about to count itself a sleeper. -/
  | join
  /-- About to look whether there is work it could take. -/
  | look
  /-- There is: about to stop counting itself a sleeper. -/
  | backOff
  /-- About to release the lock, then acquire again. -/
  | release
  | reacquire
  | reacquireReactor
  /-- There is none: about to read the stop flag. -/
  | stopCheck
  /-- Read the flag set: about to stop counting itself a sleeper. -/
  | quit
  /-- About to release the lock and leave the loop. -/
  | leave
  /-- Read the flag clear: about to wait on the condition variable. -/
  | wait
  /-- Waiting. -/
  | sleep
  /-- Its wait ended: about to take the lock again. -/
  | relock
  /-- About to stop counting itself a sleeper. -/
  | unjoin
  /-- About to release the lock and go round again. -/
  | unlock
  /-- Running `e`. -/
  | run (e : Entity)
  /-- Out of the loop. -/
  | exited
  deriving Inhabited, DecidableEq, Repr

namespace StealStage

/-- The access worker `w`, on thread `t`, makes at this stage, none out of the loop. -/
def access (t w : Nat) (victims : Bool) : StealStage → Option StealAccess
  | .top | .acquire | .reacquire => some (.acquire t w)
  | .thief => some .becomeThief
  | .stealPeers => some (.stealPeers w)
  | .stealGlobal => some (.stealGlobal t)
  | .unthief _ => some .leaveThieves
  | .chain _ k => some (k.access false (.worker w))
  | .recheck => some .anyDeque
  | .foreign => some (.stealForeign victims)
  | .acquireReactor | .reacquireReactor => some .acquireReactor
  | .lock | .relock => some (.lock (.worker w))
  | .join => some .joinSleepers
  | .look => some (.hasWork w)
  | .backOff | .quit | .unjoin => some .leaveSleepers
  | .release | .leave | .unlock => some .unlock
  | .stopCheck => some .loadStopped
  | .wait => some (.wait w)
  | .sleep => some (.sleep w victims)
  | .run _ => some .skip
  | .exited => none

/-- The stage after the access answered `a`. -/
def after : StealStage → Answer → StealStage
  | .top, a =>
    match a.entity with
    | some e => .run e
    | none => .thief
  | .thief, a => if a.flag then .stealPeers else .foreign
  | .stealPeers, a =>
    match a.entity with
    | some e => .unthief (some e)
    | none => .stealGlobal
  | .stealGlobal, a => .unthief a.entity
  | .unthief got, a =>
    -- the count before leaving: one means this was the last thief
    match got with
    | some e => if a.count = 1 then .chain e .look else .run e
    | none => if a.count = 1 then .recheck else .foreign
  | .chain e k, a =>
    match k.after a with
    | some k => .chain e k
    | none => .run e
  | .recheck, a => if a.flag then .thief else .foreign
  | .foreign, a =>
    match a.entity with
    | some e => .run e
    | none => .acquire
  | .acquire, a =>
    match a.entity with
    | some e => .run e
    | none => .acquireReactor
  | .acquireReactor, a =>
    match a.entity with
    | some e => .run e
    | none => .lock
  | .lock, _ => .join
  | .join, _ => .look
  | .look, a => if a.flag then .backOff else .stopCheck
  | .backOff, _ => .release
  | .release, _ => .reacquire
  | .reacquire, a =>
    match a.entity with
    | some e => .run e
    | none => .reacquireReactor
  | .reacquireReactor, a =>
    match a.entity with
    | some e => .run e
    | none => .thief
  | .stopCheck, a => if a.flag then .quit else .wait
  | .quit, _ => .leave
  | .leave, _ => .exited
  | .wait, _ => .sleep
  | .sleep, _ => .relock
  | .relock, _ => .unjoin
  | .unjoin, _ => .unlock
  | .unlock, _ => .thief
  | .run _, _ => .top
  | .exited, _ => .exited

end StealStage

/-- A worker of a work-stealing group: the thread it runs on, its stage, and whether it has
foreign groups to steal from. -/
structure StealWorker where
  thread : Nat
  stage : StealStage := .top
  victims : Bool := false
  deriving Inhabited, Repr

/-- A producer's call on a work-stealing group. -/
inductive StealOp where
  /-- Makes an entity ready (a start, a resume, a requeue; `yielded` for a yield's). -/
  | ready (e : Entity) (yielded : Bool)
  /-- Starts a batch: group-local and reactor entities are made ready, each with its
  notification, the others go to the global queue; then one notification per entity, or
  one to all when the batch is the group's size or more. -/
  | batch (es : List Entity)
  deriving Inhabited, Repr

/-- Where a producer on a work-stealing group stands. -/
inductive StealFeed where
  | idle
  /-- About to put `e` in its queue, then to notify. -/
  | ready (e : Entity) (yielded : Bool)
  /-- Putting a batch's entities in their queues: `es` to go, `count` in the batch. -/
  | batch (es : List Entity) (count : Nat)
  /-- Notifying every sleeper, or one, then going on with `next`. -/
  | notify (all : Bool) (k : Signal) (next : StealFeed)
  deriving Inhabited, Repr

namespace StealFeed

/-- The stage a call begins with. -/
def begin : StealOp → StealFeed
  | .ready e yielded => .ready e yielded
  | .batch es => .batch es es.length

/-- The notification after making an entity ready: every sleeper when it is pinned to
another worker, otherwise one. -/
def readyNotify (all : Bool) (next : StealFeed) : StealFeed :=
  if all then .notify true .grab next else .notify false .look next

/-- `n` single notifications. -/
def notifyEach : Nat → StealFeed
  | 0 => .idle
  | n + 1 => .notify false .look (notifyEach n)

/-- The access of producer `p` on thread `t` at this stage. -/
def access (p t : Nat) : StealFeed → StealAccess
  | .idle | .batch [] _ => .skip
  | .ready e yielded => .ready t e yielded
  | .batch (e :: _) _ => if e.groupLocal || e.reactor then .ready t e false else .pushGlobal e
  | .notify all k _ => k.access all (.producer p)

/-- The stage after the access answered `a`, in a group of `size` workers. -/
def after (size : Nat) : StealFeed → Answer → StealFeed
  | .idle, _ => .idle
  | .ready _ _, a => readyNotify a.flag .idle
  | .batch (e :: rest) count, a =>
    if e.groupLocal || e.reactor then readyNotify a.flag (.batch rest count) else .batch rest count
  | .batch [] count, _ => if size ≤ count then .notify true .grab .idle else notifyEach count
  | .notify all k next, a =>
    match k.after a with
    | some k => .notify all k next
    | none => next

end StealFeed

/-- A producer: the thread it runs on, the calls it has still to make, and where it stands
in the current one. -/
structure StealProducer where
  thread : Nat
  program : List StealOp
  feed : StealFeed := .idle
  deriving Inhabited, Repr

/-- Where the thread stopping a work-stealing group stands. -/
inductive StealStop where
  /-- About to set the stop flag. -/
  | store
  /-- About to take the sleep lock. -/
  | grab
  /-- Holds the lock: about to notify every sleeper and release it. -/
  | send
  | done
  deriving Inhabited, DecidableEq, Repr

namespace StealStop

def access : StealStop → Option StealAccess
  | .store => some .storeStopped
  | .grab => some (.lock .stopper)
  | .send => some (.notify true)
  | .done => none

def after : StealStop → StealStop
  | .store => .grab
  | .grab => .send
  | .send | .done => .done

end StealStop

/-- A work-stealing group: its shared state and its parties. -/
structure StealWorld where
  hub : StealHub
  workers : List StealWorker
  producers : List StealProducer := []
  stopper : StealStop := .store
  deriving Inhabited

namespace StealWorld

/-- A group whose queues are `queues`, before any step: no thieves, no sleepers, the lock
free, every worker at the top of its loop. Worker `w` runs on thread `threads[w]` and has
foreign groups to steal from when `victims[w]`; `foreign` is what those hand out. -/
def start (queues : Stealing) (threads : List Nat) (victims : List Bool) (foreign : List Entity)
    (producers : List (Nat × List StealOp)) : StealWorld :=
  { hub := { queues, foreign },
    workers := (List.range queues.size).map
      (fun w => { thread := threads.getD w 0, victims := victims.getD w false }),
    producers := producers.map (fun (thread, program) => { thread, program }) }

/-- One step of a party: the state after it, with the access it made and the answer; none
while the party is blocked or has nothing left to do. -/
def step (s : StealWorld) : Party → Option (StealWorld × StealAccess × Answer)
  | .worker w =>
    match s.workers[w]? with
    | none => none
    | some x =>
      (x.stage.access x.thread w x.victims).bind fun acc =>
        (s.hub.access acc).map fun (hub, a) =>
          ({ s with hub, workers := s.workers.set w { x with stage := x.stage.after a } }, acc, a)
  | .producer p =>
    match s.producers[p]? with
    | none => none
    | some x =>
      match x.feed, x.program with
      | .idle, [] => none
      | .idle, op :: rest =>
        some ({ s with producers :=
            s.producers.set p { x with program := rest, feed := StealFeed.begin op } },
          .skip, {})
      | feed, _ =>
        (s.hub.access (feed.access p x.thread)).map fun (hub, a) =>
          let x := { x with feed := feed.after s.workers.length a }
          ({ s with hub, producers := s.producers.set p x }, feed.access p x.thread, a)
  | .stopper =>
    s.stopper.access.bind fun acc =>
      (s.hub.access acc).map fun (hub, a) => ({ s with hub, stopper := s.stopper.after }, acc, a)

/-- A turn of a party: its step, or nothing while it is blocked. -/
def next (s : StealWorld) (p : Party) : StealWorld :=
  match s.step p with
  | some (s', _) => s'
  | none => s

/-- The turns of a schedule. -/
def run (s : StealWorld) (schedule : List Party) : StealWorld := schedule.foldl next s

/-- The turns of a schedule, with every access made and its answer, in order. -/
def exec (s : StealWorld) : List Party → StealWorld × List (Party × StealAccess × Answer)
  | [] => (s, [])
  | p :: rest =>
    match s.step p with
    | some (s', acc, a) =>
      let (t, log) := exec s' rest
      (t, (p, acc, a) :: log)
    | none => exec s rest

/-- The states a group reaches from its start, before it is stopped, by any schedule. -/
inductive Reachable : StealWorld → Prop
  | start (queues : Stealing) (threads : List Nat) (victims : List Bool) (foreign : List Entity)
      (producers : List (Nat × List StealOp)) (h : queues.stopped = false) :
      Reachable (StealWorld.start queues threads victims foreign producers)
  | next {s : StealWorld} (p : Party) : Reachable s → Reachable (s.next p)

end StealWorld

end Fibers
