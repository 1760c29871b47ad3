import Fibers.Sync.Waitable
import Fibers.Error
/-!
# Events, exit barriers and condition variables

An event is a waitable that is set by awakening it for good: waiters queued before are
woken, and later waits return at once. An exit barrier opens at its `count`-th count-down
in the same way; one count-down too many aborts. A condition variable is a plain waitable:
notifying wakes the earliest unclaimed waiter, or all of them.
-/

namespace Fibers

/-- An event: set once its waitable is awakened for good. -/
structure Event where
  waiters : Waitable := {}
  deriving Inhabited, BEq, Repr

namespace Event

/-- Whether the event is set. -/
def isSet (e : Event) : Bool := e.waiters.persistent

/-- Sets the event, waking everyone queued. -/
def set (e : Event) (claimed : List Nat) : Event × List Nat × List Nat :=
  let (w, claimed', woken) := e.waiters.persist claimed
  (⟨w⟩, claimed', woken)

/-- Queues block `b` (true), or returns at once when set (false). -/
def wait (e : Event) (b : Nat) : Event × Bool :=
  let (w, queued) := e.waiters.add b
  (⟨w⟩, queued)

end Event

/-- An exit barrier: count-downs still needed, and its waiters. -/
structure Barrier where
  count : Nat
  waiters : Waitable := {}
  deriving Inhabited, BEq, Repr

namespace Barrier

/-- The text of a count-down past zero. -/
def belowZero : Abort := .fatal "exit barrier counted down below zero"

/-- Whether the barrier is open. -/
def isOpen (b : Barrier) : Bool := b.count = 0

/-- Counts down once; the last count-down wakes everyone queued. -/
def countDown (b : Barrier) (claimed : List Nat) : Except Abort (Barrier × List Nat × List Nat) :=
  if b.count = 0 then .error belowZero
  else if b.count = 1 then
    let (w, claimed', woken) := b.waiters.persist claimed
    .ok (⟨0, w⟩, claimed', woken)
  else .ok ({ b with count := b.count - 1 }, claimed, [])

/-- Queues block `blk` (true), or returns at once when open (false). -/
def wait (b : Barrier) (blk : Nat) : Barrier × Bool :=
  if b.count = 0 then (b, false)
  else
    let (w, queued) := b.waiters.add blk
    ({ b with waiters := w }, queued)

end Barrier

/-- A condition variable: its waiters. -/
structure CondVar where
  waiters : Waitable := {}
  deriving Inhabited, BEq, Repr

namespace CondVar

/-- Queues block `b`. -/
def wait (c : CondVar) (b : Nat) : CondVar := ⟨(c.waiters.add b).1⟩

/-- Wakes the earliest unclaimed waiter. -/
def notifyOne (c : CondVar) (claimed : List Nat) : CondVar × List Nat × Option Nat :=
  let (w, claimed', b) := c.waiters.wakeOne claimed
  (⟨w⟩, claimed', b)

/-- Wakes every unclaimed waiter. -/
def notifyAll (c : CondVar) (claimed : List Nat) : CondVar × List Nat × List Nat :=
  let (w, claimed', woken) := c.waiters.wakeAll claimed
  (⟨w⟩, claimed', woken)

end CondVar

end Fibers
