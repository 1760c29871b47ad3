/-!
# Wait queues

A waitable is a first-in first-out queue of wait blocks, named by number, and a flag that
is set once the waitable is awakened for good. A waiter may be queued only while the flag
is clear. Each block can be claimed once; a waker takes blocks from the front, skipping
those that are already claimed (a timeout claims its own block), until it claims one.

A wait slot is how a thread is woken: it counts wakes not yet consumed, and once made
persistent every wait on it returns at once.
-/

namespace Fibers

/-- A queue of wait blocks and its awakened-for-good flag. -/
structure Waitable where
  /-- Queued blocks, the front first; a block may appear more than once. -/
  queue : List Nat := []
  persistent : Bool := false
  deriving Inhabited, BEq, Repr

namespace Waitable

/-- Claims block `b`: true for the first claim only. -/
def claim (claimed : List Nat) (b : Nat) : List Nat × Bool :=
  if b ∈ claimed then (claimed, false) else (b :: claimed, true)

/-- Queues a block, unless the waitable is awakened for good. -/
def add (w : Waitable) (b : Nat) : Waitable × Bool :=
  if w.persistent then (w, false) else ({ w with queue := w.queue ++ [b] }, true)

/-- Removes the first occurrence of a block, telling whether there was one. -/
def remove (w : Waitable) (b : Nat) : Waitable × Bool :=
  if b ∈ w.queue then ({ w with queue := w.queue.erase b }, true) else (w, false)

/-- From a queue, the rest after the first block that can be claimed, the claims after
claiming it, and that block. -/
def popClaim (claimed : List Nat) : List Nat → List Nat × List Nat × Option Nat
  | [] => ([], claimed, none)
  | b :: rest =>
    if b ∈ claimed then popClaim claimed rest else (rest, b :: claimed, some b)

/-- Claims and removes the first unclaimed block, dropping the claimed ones before it. -/
def wakeOne (w : Waitable) (claimed : List Nat) : Waitable × List Nat × Option Nat :=
  let (rest, claimed', b) := popClaim claimed w.queue
  ({ w with queue := rest }, claimed', b)

/-- Every block of a queue that can be claimed, in order, and the claims after. -/
def claimAll (claimed : List Nat) : List Nat → List Nat × List Nat
  | [] => (claimed, [])
  | b :: rest =>
    if b ∈ claimed then claimAll claimed rest
    else
      let (claimed', woken) := claimAll (b :: claimed) rest
      (claimed', b :: woken)

/-- Claims every unclaimed block and empties the queue. -/
def wakeAll (w : Waitable) (claimed : List Nat) : Waitable × List Nat × List Nat :=
  let (claimed', woken) := claimAll claimed w.queue
  ({ w with queue := [] }, claimed', woken)

/-- Awakens for good: sets the flag, then wakes everyone queued. -/
def persist (w : Waitable) (claimed : List Nat) : Waitable × List Nat × List Nat :=
  wakeAll { w with persistent := true } claimed

/-- Whether no block is queued. -/
def isEmpty (w : Waitable) : Bool := w.queue.isEmpty

end Waitable

/-- How a thread is woken: wakes not yet consumed, and the persistent flag. -/
structure WaitSlot where
  wakeups : Nat := 0
  persistent : Bool := false
  deriving Inhabited, BEq, Repr

namespace WaitSlot

/-- One more wake. -/
def wake (s : WaitSlot) : WaitSlot := { s with wakeups := s.wakeups + 1 }

/-- Every later wait returns at once. -/
def persistentWake (s : WaitSlot) : WaitSlot := { s with persistent := true }

/-- A wait whose deadline has passed: true, consuming a wake if the slot is not
persistent, when there is something to take; false otherwise. -/
def poll (s : WaitSlot) : WaitSlot × Bool :=
  if s.persistent then (s, true)
  else if s.wakeups > 0 then ({ s with wakeups := s.wakeups - 1 }, true)
  else (s, false)

end WaitSlot

end Fibers
