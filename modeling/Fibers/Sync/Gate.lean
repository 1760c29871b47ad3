import Fibers.Sync.Contention
import Fibers.Sync.Latch
/-!
# Events and exit barriers at the grain of their atomic steps

An event and an exit barrier are latches: a waitable behind a lock, which opens for good.
An event opens at its first set; an exit barrier opens at the count-down that brings its
count to zero, and a count-down past zero aborts. Opening awakens the waitable for good: the
waiters queued are claimed and woken, and later waiters are refused.

Each operation is a short run of atomic steps:

* *wait.* The waiter takes the latch's lock; an exit barrier that is open returns at once;
  otherwise it queues a fresh wait block, which an event refuses once set. It releases the
  lock, and when its block was queued it blocks until a wake arrives: a thread consumes a
  wake from its wait slot, a fiber is resumed;
* *signal* (an event's set, an exit barrier's count-down). The signaller takes the lock, and
  may hold it while others act, as an exiting fiber does between taking the lock on its own
  stack and its master's count-down; then, under the lock, it sets the event or counts down,
  releases the lock, and only then wakes the waiters it claimed, one per step;
* *probe* (`is_set`, `is_open`). Under the lock, it reads whether the latch is open.

A party runs a program of these operations; a party's wait block is named by its number. At
each turn the party named takes one atomic step, or none while it is blocked.
-/

namespace Fibers

/-- A latch: an event, or an exit barrier. -/
inductive Latch where
  | event (e : Event)
  | barrier (b : Barrier)
  deriving Inhabited, Repr

namespace Latch

/-- Whether the latch is open: an event is set, a barrier counted down to zero. -/
def isOpen : Latch → Bool
  | .event e => e.isSet
  | .barrier b => b.isOpen

/-- The latch's waitable. -/
def waitable : Latch → Waitable
  | .event e => e.waiters
  | .barrier b => b.waiters

/-- Under the lock, queues block `blk` (true), or returns at once (false): an open barrier
returns before queueing, an event that is set refuses the block. -/
def enqueue : Latch → Nat → Latch × Bool
  | .event e, blk =>
    let (e', queued) := e.wait blk
    (.event e', queued)
  | .barrier b, blk =>
    let (b', queued) := b.wait blk
    (.barrier b', queued)

/-- Under the lock, sets the event or counts the barrier down: the latch, the claims and the
blocks claimed. -/
def signal : Latch → List Nat → Except Abort (Latch × List Nat × List Nat)
  | .event e, claimed =>
    let (e', claimed', woken) := e.set claimed
    .ok (.event e', claimed', woken)
  | .barrier b, claimed =>
    (b.countDown claimed).map (fun (b', claimed', woken) => (.barrier b', claimed', woken))

end Latch

/-- An operation of a party's program. -/
inductive GateOp where
  /-- Waits, without a deadline, until the latch is open. -/
  | wait
  /-- Sets the event, or counts the barrier down. -/
  | signal
  /-- Reads whether the latch is open. -/
  | probe
  deriving Inhabited, BEq, DecidableEq, Repr

/-- Where a party stands between two of its atomic steps. -/
inductive GateStage where
  | idle
  /-- About to take the lock, look at the latch and queue its block. -/
  | enter
  /-- Holds the lock, its block queued or not: about to release it. -/
  | release (queued : Bool)
  /-- Blocked until a wake arrives. -/
  | sleep
  /-- About to take the lock in order to signal. -/
  | grab
  /-- Holds the lock: about to set or count down, and release it. -/
  | signal
  /-- Waking the waiters it claimed, one per step. -/
  | wake (ws : List Nat)
  /-- About to read, under the lock, whether the latch is open. -/
  | probe
  deriving Inhabited, BEq, DecidableEq, Repr

namespace GateStage

/-- The stages that hold the latch's lock. -/
def holdsLock : GateStage → Bool
  | .release _ | .signal => true
  | _ => false

/-- The stages of a wait whose block was queued. -/
def blocked : GateStage → Bool
  | .release true | .sleep => true
  | _ => false

/-- The waiters a signaller still has to wake. -/
def owes : GateStage → List Nat
  | .wake ws => ws
  | _ => []

end GateStage

/-- A party of a gate. -/
structure Gatekeeper where
  /-- A fiber, rather than a thread. -/
  fiber : Bool
  program : List GateOp
  stage : GateStage := .idle
  /-- How its current wait ends. -/
  wakeup : Wakeup := {}
  /-- The wakes delivered for its current wait. -/
  wakes : Nat := 0
  /-- What its last probe read. -/
  seen : Option Bool := none
  deriving Inhabited, Repr

/-- A latch, the party holding its lock, the claimed wait blocks and the parties. -/
structure Gate where
  latch : Latch
  holder : Option Nat := none
  claimed : List Nat := []
  parties : List Gatekeeper
  /-- How many signals took effect. -/
  signals : Nat := 0
  deriving Inhabited

namespace Gate

/-- A latch with parties of these kinds and programs, before any step. -/
def start (latch : Latch) (programs : List (Bool × List GateOp)) : Gate :=
  { latch, parties := programs.map (fun (fiber, program) => { fiber, program }) }

/-- Party `p`. -/
def party (g : Gate) (p : Nat) : Gatekeeper := g.parties.getD p default

/-- Changes party `p`. -/
def update (g : Gate) (p : Nat) (f : Gatekeeper → Gatekeeper) : Gate :=
  { g with parties := g.parties.modify p f }

/-- Moves party `p` to a stage. -/
def setStage (g : Gate) (p : Nat) (k : GateStage) : Gate := g.update p (fun x => { x with stage := k })

/-- Delivers a wake to party `q`: a fiber is resumed, a thread's slot counts a wake. -/
def deliver (g : Gate) (q : Nat) : Gate :=
  g.update q (fun x => { x with wakeup := x.wakeup.deliver x.fiber, wakes := x.wakes + 1 })

/-- One atomic step of party `p`: none while it is blocked or has nothing to do, an abort
where the runtime aborts. -/
def step (g : Gate) (p : Nat) : Except Abort (Option Gate) :=
  let x := g.party p
  match x.stage with
  | .idle =>
    match x.program with
    | [] => .ok none
    | .wait :: rest => .ok (some (g.update p (fun x => { x with program := rest, stage := .enter })))
    | .signal :: rest => .ok (some (g.update p (fun x => { x with program := rest, stage := .grab })))
    | .probe :: rest => .ok (some (g.update p (fun x => { x with program := rest, stage := .probe })))
  | .enter =>
    if g.holder.isNone then
      match g.latch.enqueue p with
      | (latch, true) =>
        -- a fresh block and a fresh wake-up
        .ok (some ({ g with latch, holder := some p, claimed := g.claimed.erase p }.update p
          (fun x => { x with stage := .release true, wakeup := {}, wakes := 0 })))
      | (latch, false) => .ok (some ({ g with latch, holder := some p }.setStage p (.release false)))
    else .ok none
  | .release queued => .ok (some ({ g with holder := none }.setStage p (if queued then .sleep else .idle)))
  | .sleep =>
    match x.wakeup.consume x.fiber with
    | some w => .ok (some (g.update p (fun x => { x with wakeup := w, stage := .idle })))
    | none => .ok none
  | .grab => if g.holder.isNone then .ok (some ({ g with holder := some p }.setStage p .signal)) else .ok none
  | .signal =>
    match g.latch.signal g.claimed with
    | .ok (latch, claimed, ws) =>
      .ok (some ({ g with latch, holder := none, claimed, signals := g.signals + 1 }.setStage p (.wake ws)))
    | .error a => .error a
  | .wake [] => .ok (some (g.setStage p .idle))
  | .wake (q :: ws) => .ok (some ((g.deliver q).setStage p (.wake ws)))
  | .probe =>
    if g.holder.isNone then
      .ok (some (g.update p (fun x => { x with stage := .idle, seen := some g.latch.isOpen })))
    else .ok none

/-- A turn of party `p`: the step, or nothing while it is blocked. -/
def next (g : Gate) (p : Nat) : Except Abort Gate :=
  match g.step p with
  | .ok (some g') => .ok g'
  | .ok none => .ok g
  | .error a => .error a

/-- The turns of a schedule, until an abort. -/
def run (g : Gate) (schedule : List Nat) : Except Abort Gate := schedule.foldlM next g

end Gate

end Fibers
