import Fibers.Sync.Waitable
import Fibers.Error
/-!
# Mutexes

A mutex counts its contenders: the owner, if any, and every party queued for it. Locking
an idle mutex takes it at once; otherwise the caller joins the queue and waits. Unlocking
with nobody queued leaves the mutex idle; otherwise ownership passes to the earliest
queued waiter, so the count never drops to zero during the hand-off.

A mutex holds a signed 64-bit value; changing it past the word panics.
-/

namespace Fibers

/-- A mutex: its contenders, its queue of waiters, and the value it guards. -/
structure Mutex where
  count : Nat := 0
  waiters : Waitable := {}
  value : Int := 0
  deriving Inhabited, BEq, Repr

namespace Mutex

/-- Takes the mutex if it is idle. -/
def tryLock (m : Mutex) : Mutex × Bool :=
  if m.count = 0 then ({ m with count := 1 }, true) else (m, false)

/-- Takes the mutex if it is idle (true); otherwise queues block `b` (false). -/
def lock (m : Mutex) (b : Nat) : Mutex × Bool :=
  if m.count = 0 then ({ m with count := 1 }, true)
  else ({ m with count := m.count + 1, waiters := (m.waiters.add b).1 }, false)

/-- Releases the mutex: the block it passes to, if anybody is queued. -/
def unlock (m : Mutex) (claimed : List Nat) : Mutex × List Nat × Option Nat :=
  if m.count ≤ 1 then ({ m with count := 0 }, claimed, none)
  else
    let (w, claimed', b) := m.waiters.wakeOne claimed
    ({ m with count := m.count - 1, waiters := w }, claimed', b)

/-- The smallest and one more than the largest signed 64-bit value. -/
def intMin : Int := -(Int.pow 2 63)

/-- One more than the largest signed 64-bit value. -/
def intBound : Int := Int.pow 2 63

/-- Adds to the guarded value, panicking past the word. -/
def add (m : Mutex) (v : Int) : Except Abort Mutex :=
  let r := m.value + v
  if intMin ≤ r ∧ r < intBound then .ok { m with value := r } else .error Abort.addOverflow

/-- The debugging text, which shows the number of contenders. -/
def debug (m : Mutex) : String :=
  "Mutex \x7b contenders: " ++ toString m.count ++ ", .. \x7d"

end Mutex

end Fibers
