import Fibers.Sched.Entity
/-!
# Injector queues

An injector is a first-in first-out queue stored in blocks of 63 slots. A single steal
takes the front entity. A batch steal takes the front entity and moves more into the
thief's deque: up to the end of the front block when the tail lies in a later block,
otherwise half of what is queued, rounded up; at most 33 in all.

Block positions follow from the number of entities ever taken: with `h` taken and `t`
pushed, the front lies in block `h / 63` and the tail in block `t / 63`.
-/

namespace Fibers

/-- An injector queue: its entities, front first, and how many were ever taken. -/
structure Injector where
  items : List Entity := []
  taken : Nat := 0
  deriving Inhabited, BEq, Repr

namespace Injector

/-- Slots in a block. -/
def blockCap : Nat := 63

/-- Most entities a batch steal moves besides the one it returns. -/
def maxBatch : Nat := 32

/-- Adds at the tail. -/
def push (q : Injector) (e : Entity) : Injector := { q with items := q.items ++ [e] }

/-- Number of queued entities. -/
def size (q : Injector) : Nat := q.items.length

/-- Whether nothing is queued. -/
def isEmpty (q : Injector) : Bool := q.items.isEmpty

/-- Takes the front entity. -/
def steal (q : Injector) : Injector × Option Entity :=
  match q.items with
  | [] => (q, none)
  | e :: rest => (⟨rest, q.taken + 1⟩, some e)

/-- How many entities a batch steal takes, the returned one included. -/
def batchSize (q : Injector) : Nat :=
  let h := q.taken
  let t := q.taken + q.size
  if h / blockCap ≠ t / blockCap then min (blockCap - h % blockCap) (maxBatch + 1)
  else min ((q.size + 1) / 2) (maxBatch + 1)

/-- Takes the front entity and the batch behind it, which goes to the thief's deque. -/
def stealBatch (q : Injector) : Injector × List Entity × Option Entity :=
  match q.items with
  | [] => (q, [], none)
  | e :: rest =>
    let n := q.batchSize
    (⟨q.items.drop n, q.taken + n⟩, rest.take (n - 1), some e)

end Injector

end Fibers
