import Fibers.Timer.Basic
/-!
# The timer thread and its producers, at the grain of their atomic steps

Producers never touch the timer thread's heap. A thread enabling a timer sets the timer's
enabled flag, finds its own producer queue for the timer thread (registering a new one in the
producers list the first time), pushes the timer there, lowers the watermark
`next_expires_at` to the timer's expiry with a `fetch_min`, and, when that lowered it, takes
the sleep lock and notifies the timer thread. Removing a timer stores its cancelled flag;
detaching it only drops the handle. When a producer thread exits, its thread-local list goes,
and with it the thread's hold on its queues.

The timer thread loops. It resets the watermark to the largest word, then collects: holding
the producers list, it drains each queue in turn under the queue's lock, moving into its heap
every timer that is not cancelled, numbered in order; then it drops the queues whose owner
exited and that are empty. It reads the clock and pops the due timers in order, skipping the
cancelled ones; it fires each other one (counting the firing, then running the callback,
which may enable and remove timers in turn), and puts a periodic one back with its period
added unless it was cancelled meanwhile. It publishes the earliest expiry left in the heap
with a `fetch_min`. Under the sleep lock it reads the stop flag (and leaves when it is set)
and the watermark: at the largest word it waits untimed, otherwise until the watermark unless
that is already past. A wait ends when the thread is notified, at its deadline, or
spuriously, so it may end at any turn.

Every step of a party makes one access to the shared state, and its answer decides the
party's next stage; the timer thread's heap is its own. A lock that another party holds
makes no step: the producers list while the timer thread collects, a queue while it drains
it, the sleep lock while it holds it. A fatal error stops every party.
-/

namespace Fibers

/-- The watermark's value when no expiry is published: the largest 64-bit word. -/
def noDeadline : Nat := Nat.pow 2 64 - 1

/-- Marks a timer enabled. -/
def TimerTable.markEnabled (t : TimerTable) (i : Nat) : TimerTable :=
  { entries := t.entries.modify i (fun e => { e with enabled := true }) }

/-- A thread that enables and removes timers: a producer thread, or the timer thread itself
from inside a callback. -/
inductive Caller where
  | producer (p : Nat)
  | timer
  deriving Inhabited, DecidableEq, Repr

/-- What a thread does with a timer whose handle it holds. -/
inductive TimerOp where
  | enable (t : Nat)
  | remove (t : Nat)
  | detach (t : Nat)
  deriving Inhabited, DecidableEq, Repr

/-- A producer queue: the thread that owns it, whether that thread still holds it (it has
not exited), and the timers it enabled since the queue was last drained. -/
structure ProducerQueue where
  owner : Caller
  held : Bool := true
  timers : List Nat := []
  deriving Inhabited, DecidableEq, Repr

/-- The state the timer thread shares with the threads that use its timers. -/
structure TimerHub where
  /-- The timer thread's number, which each timer names as its worker. -/
  id : Nat := 0
  table : TimerTable
  /-- The producers list, in the order the queues registered. -/
  queues : List ProducerQueue := []
  /-- `next_expires_at`: the earliest expiry published since the timer thread reset it. -/
  next : Nat := noDeadline
  /-- The timer thread holds the producers list: it is collecting. -/
  collecting : Bool := false
  /-- The queue the timer thread is draining, whose lock it holds. -/
  draining : Option Nat := none
  /-- The timer thread holds the sleep lock. -/
  sleepHeld : Bool := false
  /-- The timer thread waits on the sleep condition variable. -/
  waiting : Bool := false
  /-- A notify reached the timer thread during its current wait. -/
  notified : Bool := false
  stopped : Bool := false
  /-- The clock, in nanoseconds since the epoch. -/
  clock : Nat := 0
  /-- The timers whose callbacks started, in order; the `fired` counter is its length. -/
  fires : List Nat := []
  /-- The fatal error that stopped everything, if any. -/
  abort : Option Abort := none
  deriving Inhabited

/-- One atomic access to the shared state. -/
inductive TimerAccess where
  /-- Nothing shared: a party's own bookkeeping. -/
  | skip
  /-- Enabling timer `t`: its worker is checked and its enabled flag swapped to true. -/
  | claim (t : Nat)
  /-- Looks the caller's queue up in its thread-local list, registering a new one in the
  producers list when it has none. -/
  | register (c : Caller)
  | push (c : Caller) (t : Nat)
  /-- `fetch_min` on the watermark, answering its value before. -/
  | lower (e : Nat)
  /-- `notify_one` under the sleep lock. -/
  | notify
  | cancel (t : Nat)
  /-- Producer thread `p` exits. -/
  | exit (p : Nat)
  /-- Stores the largest word into the watermark. -/
  | reset
  | lockProducers
  /-- Locks the `i`-th queue to drain it, answering whether there is one. -/
  | lockQueue (i : Nat)
  /-- Takes the next timer of the `i`-th queue and loads its cancelled flag, or unlocks the
  queue once it is empty. -/
  | take (i : Nat)
  /-- Drops the queues whose owner exited and that are empty, and unlocks the producers list. -/
  | retain
  | readClock
  | loadCancelled (t : Nat)
  /-- Loads the cancelled flag of periodic timer `t` before it goes back due at `e`: putting a
  live one back past the word panics the timer thread, as `TimerThread.rearm` does. -/
  | rearm (t e : Nat)
  /-- Counts a firing of timer `t`, answering how many of its callbacks started before. -/
  | countFire (t : Nat)
  | lockSleep
  | unlockSleep
  | loadStopped
  | loadNext
  /-- Waits on the condition variable, releasing the sleep lock: until `deadline`, or untimed. -/
  | wait (deadline : Option Nat)
  /-- The wait returns, retaking and releasing the sleep lock. -/
  | wake
  | storeStopped
  | notifyAll
  /-- The clock advances. -/
  | tick
  deriving Inhabited, DecidableEq, Repr

/-- What an access answers; each access fills the fields it answers. -/
structure TimerAnswer where
  flag : Bool := false
  value : Nat := 0
  timer : Option Nat := none
  deriving Inhabited, DecidableEq, Repr

namespace TimerHub

/-- The position of caller `c`'s queue in the producers list, if it has one it holds. -/
def ownQueue (h : TimerHub) (c : Caller) : Option Nat :=
  h.queues.findIdx? (fun q => q.owner == c && q.held)

/-- An access: the state after it and its answer, or none while a lock it needs is held. -/
def access (h : TimerHub) : TimerAccess → Option (TimerHub × TimerAnswer)
  | .skip => some (h, {})
  | .claim t =>
    let e := h.table.get t
    if e.worker ≠ h.id then some ({ h with abort := some TimerThread.wrongThread }, {})
    else if e.enabled then some ({ h with abort := some TimerThread.enabledTwice }, {})
    else some ({ h with table := h.table.markEnabled t }, { flag := true })
  | .register c =>
    if (h.ownQueue c).isSome then some (h, {})
    else if h.collecting then none
    else some ({ h with queues := h.queues ++ [{ owner := c }] }, {})
  | .push c t =>
    match h.ownQueue c with
    | none => some (h, {})
    | some i =>
      if h.draining = some i then none
      else some ({ h with queues := h.queues.modify i (fun q => { q with timers := q.timers ++ [t] }) }, {})
  | .lower e => some ({ h with next := min h.next e }, { value := h.next })
  | .notify => if h.sleepHeld then none else some ({ h with notified := h.notified || h.waiting }, {})
  | .cancel t => some ({ h with table := h.table.cancel t }, {})
  | .exit p =>
    some ({ h with queues := h.queues.map (fun q => if q.owner = .producer p then { q with held := false } else q) }, {})
  | .reset => some ({ h with next := noDeadline }, {})
  | .lockProducers => some ({ h with collecting := true }, {})
  | .lockQueue i =>
    if i < h.queues.length then some ({ h with draining := some i }, { flag := true }) else some (h, {})
  | .take i =>
    match (h.queues.getD i default).timers with
    | [] => some ({ h with draining := none }, {})
    | t :: rest =>
      some ({ h with queues := h.queues.modify i (fun q => { q with timers := rest }) },
        { flag := h.table.isCancelled t, timer := some t })
  | .retain =>
    some ({ h with queues := h.queues.filter (fun q => q.held || !q.timers.isEmpty), collecting := false }, {})
  | .readClock => some (h, { value := h.clock })
  | .loadCancelled t => some (h, { flag := h.table.isCancelled t })
  | .rearm t e =>
    if h.table.isCancelled t = false ∧ Nat.pow 2 64 ≤ e then
      some ({ h with abort := some Abort.addOverflow }, {})
    else some (h, { flag := h.table.isCancelled t })
  | .countFire t => some ({ h with fires := h.fires ++ [t] }, { value := h.fires.count t })
  | .lockSleep => some ({ h with sleepHeld := true }, {})
  | .unlockSleep => some ({ h with sleepHeld := false }, {})
  | .loadStopped => some (h, { flag := h.stopped })
  | .loadNext => some (h, { value := h.next })
  | .wait _ => some ({ h with sleepHeld := false, waiting := true, notified := false }, {})
  | .wake => some ({ h with waiting := false, notified := false }, {})
  | .storeStopped => some ({ h with stopped := true }, {})
  | .notifyAll => if h.sleepHeld then none else some ({ h with notified := h.notified || h.waiting }, {})
  | .tick => some ({ h with clock := h.clock + 1 }, {})

end TimerHub

/-- Where a thread stands in an operation on a timer, between two of its atomic steps. -/
inductive CallStage where
  /-- Between operations. -/
  | idle
  /-- Enabling `t`: about to swap its enabled flag. -/
  | claim (t : Nat)
  /-- About to find its queue. -/
  | register (t : Nat)
  | push (t : Nat)
  /-- Pushed `t`: about to lower the watermark to its expiry. -/
  | lower (t : Nat)
  /-- Lowered the watermark: about to notify the timer thread. -/
  | notify (t : Nat)
  /-- Removing `t`: about to store its cancelled flag. -/
  | cancel (t : Nat)
  deriving Inhabited, DecidableEq, Repr

namespace CallStage

/-- The first stage of an operation; detaching a timer only drops its handle. -/
def begin : TimerOp → CallStage
  | .enable t => .claim t
  | .remove t => .cancel t
  | .detach _ => .idle

/-- The access of a stage of caller `c`. -/
def access (c : Caller) (table : TimerTable) : CallStage → TimerAccess
  | .idle => .skip
  | .claim t => .claim t
  | .register _ => .register c
  | .push t => .push c t
  | .lower t => .lower (table.get t).expiresAt
  | .notify _ => .notify
  | .cancel t => .cancel t

/-- The next stage, from the answer. -/
def after (table : TimerTable) : CallStage → TimerAnswer → CallStage
  | .claim t, a => if a.flag then .register t else .idle
  | .register t, _ => .push t
  | .push t, _ => .lower t
  | .lower t, a => if (table.get t).expiresAt < a.value then .notify t else .idle
  | _, _ => .idle

/-- A step of caller `c` in its operation: the shared state after the access, and the next
stage; none while the access is blocked. -/
def step (call : CallStage) (h : TimerHub) (c : Caller) : Option (TimerHub × CallStage) :=
  (h.access (call.access c h.table)).map fun (h', a) => (h', call.after h.table a)

end CallStage

/-- A producer thread: the operations left, the one in progress, and whether it exited. -/
structure TimerProducer where
  program : List TimerOp
  call : CallStage := .idle
  exited : Bool := false
  deriving Inhabited, Repr

/-- The step of producer `p`: it begins its next operation, exits once it has none, or makes
the access of the operation in progress; none once it exited. -/
def TimerProducer.step (x : TimerProducer) (h : TimerHub) (p : Nat) : Option (TimerHub × TimerProducer) :=
  if x.exited then none
  else if x.call = .idle then
    match x.program with
    | op :: rest => some (h, { x with program := rest, call := CallStage.begin op })
    | [] => (h.access (.exit p)).map fun (h', _) => (h', { x with exited := true })
  else (x.call.step h (.producer p)).map fun (h', call) => (h', { x with call })

/-- Where the timer thread stands in its loop, between two of its atomic steps. -/
inductive LoopStage where
  /-- At the top of the loop: about to reset the watermark. -/
  | reset
  /-- About to take the producers list. -/
  | collect
  /-- About to lock the `i`-th queue. -/
  | drain (i : Nat)
  /-- Draining the `i`-th queue. -/
  | take (i : Nat)
  | retain
  /-- About to read the clock before popping. -/
  | clock
  /-- Popping the timers due at `now`. -/
  | pop (now : Nat)
  /-- Took pending timer `p`, not cancelled: about to count its firing. -/
  | fire (now : Nat) (p : Pending)
  /-- Running the callback of `p`: the operations left and the one in progress. -/
  | callback (now : Nat) (p : Pending) (ops : List TimerOp) (call : CallStage)
  /-- Fired periodic `p`: about to load its cancelled flag before putting it back one interval
  later. -/
  | recheck (now : Nat) (p : Pending) (interval : Nat)
  /-- About to publish the earliest expiry left in the heap. -/
  | publish
  | lockSleep
  | loadStopped
  /-- Stopped: about to release the sleep lock and leave. -/
  | leave
  | loadNext
  /-- About to read the clock against the watermark `next`. -/
  | compare (next : Nat)
  /-- About to wait, until `deadline` or untimed. -/
  | sleep (deadline : Option Nat)
  /-- The deadline has passed: about to release the sleep lock. -/
  | unlock
  | waiting (deadline : Option Nat)
  | done
  deriving Inhabited, Repr

/-- The timer thread: its heap in firing order, the last sequence number given, and its stage. -/
structure TimerLoop where
  heap : List Pending := []
  seq : Nat := 0
  stage : LoopStage := .reset
  deriving Inhabited, Repr

namespace TimerLoop

/-- The access of the timer thread's next step; none once it left. -/
def access (l : TimerLoop) (table : TimerTable) : Option TimerAccess :=
  match l.stage with
  | .reset => some .reset
  | .collect => some .lockProducers
  | .drain i => some (.lockQueue i)
  | .take i => some (.take i)
  | .retain => some .retain
  | .clock => some .readClock
  | .pop now =>
    match l.heap with
    | p :: _ => if p.expiresAt ≤ now then some (.loadCancelled p.timer) else some .skip
    | [] => some .skip
  | .fire _ p => some (.countFire p.timer)
  | .callback _ _ _ call => some (call.access .timer table)
  | .recheck _ p interval => some (.rearm p.timer (p.expiresAt + interval))
  | .publish =>
    match l.heap with
    | p :: _ => some (.lower p.expiresAt)
    | [] => some .skip
  | .lockSleep => some .lockSleep
  | .loadStopped => some .loadStopped
  | .leave => some .unlockSleep
  | .loadNext => some .loadNext
  | .compare _ => some .readClock
  | .sleep d => some (.wait d)
  | .unlock => some .unlockSleep
  | .waiting _ => some .wake
  | .done => none

/-- The stage after a callback: a periodic timer is checked before it goes back. -/
def afterCallback (table : TimerTable) (now : Nat) (p : Pending) : LoopStage :=
  match (table.get p.timer).interval with
  | some interval => .recheck now p interval
  | none => .pop now

/-- The timer thread after its step, from the answer; `callbacks t k` is what the callback of
timer `t` does on its call numbered `k`. -/
def after (l : TimerLoop) (table : TimerTable) (callbacks : Nat → Nat → List TimerOp)
    (a : TimerAnswer) : TimerLoop :=
  match l.stage with
  | .reset => { l with stage := .collect }
  | .collect => { l with stage := .drain 0 }
  | .drain i => { l with stage := if a.flag then .take i else .retain }
  | .take i =>
    match a.timer with
    | none => { l with stage := .drain (i + 1) }
    | some t =>
      if a.flag then l
      else { l with heap := Pending.insert ⟨(table.get t).expiresAt, l.seq + 1, t⟩ l.heap, seq := l.seq + 1 }
  | .retain => { l with stage := .clock }
  | .clock => { l with stage := .pop a.value }
  | .pop now =>
    match l.heap with
    | p :: rest =>
      if p.expiresAt ≤ now then { l with heap := rest, stage := if a.flag then .pop now else .fire now p }
      else { l with stage := .publish }
    | [] => { l with stage := .publish }
  | .fire now p => { l with stage := .callback now p (callbacks p.timer a.value) .idle }
  | .callback now p ops call =>
    if call = .idle then
      match ops with
      | op :: rest => { l with stage := .callback now p rest (CallStage.begin op) }
      | [] => { l with stage := afterCallback table now p }
    else { l with stage := .callback now p ops (call.after table a) }
  | .recheck now p interval =>
    if a.flag then { l with stage := .pop now }
    else { l with heap := Pending.insert { p with expiresAt := p.expiresAt + interval } l.heap, stage := .pop now }
  | .publish => { l with stage := .lockSleep }
  | .lockSleep => { l with stage := .loadStopped }
  | .loadStopped => { l with stage := if a.flag then .leave else .loadNext }
  | .leave => { l with stage := .done }
  | .loadNext => { l with stage := if a.value = noDeadline then .sleep none else .compare a.value }
  | .compare next => { l with stage := if a.value < next then .sleep (some next) else .unlock }
  | .sleep d => { l with stage := .waiting d }
  | .unlock => { l with stage := .reset }
  | .waiting _ => { l with stage := .reset }
  | .done => l

/-- The step of the timer thread: the shared state after its access, and the thread after it. -/
def step (l : TimerLoop) (h : TimerHub) (callbacks : Nat → Nat → List TimerOp) :
    Option (TimerHub × TimerLoop) :=
  (l.access h.table).bind fun acc => (h.access acc).map fun (h', a) => (h', l.after h.table callbacks a)

end TimerLoop

/-- How a thread stops the timer thread: it stores the stop flag, then notifies it under the
sleep lock. -/
inductive StopStage where
  | store
  | notify
  | done
  deriving Inhabited, DecidableEq, Repr

namespace StopStage

def access : StopStage → Option TimerAccess
  | .store => some .storeStopped
  | .notify => some .notifyAll
  | .done => none

def after : StopStage → StopStage
  | .store => .notify
  | _ => .done

end StopStage

/-- Who takes a turn: a producer thread, the timer thread, the thread stopping it, or the
clock. -/
inductive TimerParty where
  | producer (p : Nat)
  | timer
  | stopper
  | clock
  deriving Inhabited, DecidableEq, Repr

/-- A timer thread with its producers: the shared state and every party. -/
structure TimerWorld where
  hub : TimerHub
  loop : TimerLoop := {}
  producers : List TimerProducer := []
  stopper : StopStage := .store
  /-- What the callback of timer `t` does on its call numbered `k`, counting from zero. -/
  callbacks : Nat → Nat → List TimerOp

namespace TimerWorld

/-- Timer thread `id` before any step, with the timers created so far, each given by its
worker, expiry and period, none of them enabled; each producer runs its program. -/
def start (id : Nat) (timers : List (Nat × Nat × Option Nat)) (programs : List (List TimerOp))
    (callbacks : Nat → Nat → List TimerOp) : TimerWorld :=
  { hub := { id, table := { entries := timers.map fun (w, e, i) => { worker := w, expiresAt := e, interval := i } } },
    producers := programs.map (fun program => { program }),
    callbacks }

/-- One step of a party: the state after it; none while the party is blocked or done, and for
every party once a fatal error stopped the run. -/
def step (s : TimerWorld) (party : TimerParty) : Option TimerWorld :=
  if s.hub.abort.isSome then none
  else
    match party with
    | .producer p =>
      match s.producers[p]? with
      | none => none
      | some x => (x.step s.hub p).map fun (hub, x') => { s with hub, producers := s.producers.set p x' }
    | .timer => (s.loop.step s.hub s.callbacks).map fun (hub, loop) => { s with hub, loop }
    | .stopper =>
      s.stopper.access.bind fun acc =>
        (s.hub.access acc).map fun (hub, _) => { s with hub, stopper := s.stopper.after }
    | .clock => (s.hub.access .tick).map fun (hub, _) => { s with hub }

/-- A turn of a party: its step, or nothing while it is blocked. -/
def next (s : TimerWorld) (party : TimerParty) : TimerWorld := (s.step party).getD s

/-- The turns of a schedule. -/
def run (s : TimerWorld) (schedule : List TimerParty) : TimerWorld := schedule.foldl next s

/-- The states a timer thread and its producers reach from a start, by any schedule. -/
inductive Reachable : TimerWorld → Prop
  | start (id : Nat) (timers : List (Nat × Nat × Option Nat)) (programs : List (List TimerOp))
      (callbacks : Nat → Nat → List TimerOp) : Reachable (TimerWorld.start id timers programs callbacks)
  | next {s : TimerWorld} (party : TimerParty) : Reachable s → Reachable (s.next party)

end TimerWorld

end Fibers
