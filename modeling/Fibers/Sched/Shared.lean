import Fibers.Sched.Entity
import Fibers.Error
/-!
# Scheduling on one shared run queue

All workers of a group take entities from one bounded first-in first-out run queue whose
capacity is the configured one rounded up to a power of two. A yielding fiber hands its
worker the next queued entity and goes to the tail; with nothing queued it keeps running.
Taking work for another group never takes a group-local entity: it goes back to the tail.
-/

namespace Fibers

/-- The most workers a group may have. -/
def maxGroupSize : Nat := 64

/-- The least power of two at or above `n`, and 1 for 0. -/
def nextPowerOfTwo (n : Nat) : Nat := go n 1 64
where
  /-- Doubles `p` until it reaches `n`, at most `fuel` times. -/
  go (n p : Nat) : Nat → Nat
    | 0 => p
    | fuel + 1 => if p ≥ n then p else go n (2 * p) fuel

/-- A group's shared run queue. -/
structure SharedQueue where
  /-- Workers in the group. -/
  size : Nat
  capacity : Nat
  /-- Queued entities, the front first. -/
  queue : List Entity := []
  stopped : Bool := false
  deriving Inhabited, Repr

namespace SharedQueue

/-- A run queue for `size` workers; other sizes abort. -/
def create (size runQueueCapacity : Nat) : Except Abort SharedQueue :=
  if size = 0 ∨ size > maxGroupSize then
    .error (.fatal s!"v1 scheduling supports 1..=64 workers, got {size}")
  else if runQueueCapacity > Nat.pow 2 63 then .error Abort.addOverflow
  else .ok { size, capacity := nextPowerOfTwo runQueueCapacity }

/-- The fatal text of a call from a thread that is not one of the group's workers. -/
def notWorker (index : Option Nat) : Abort :=
  .fatal ("v1 scheduling used from non-worker thread (index " ++
    (match index with
      | some i => "Some(" ++ toString i ++ ")"
      | none => "None") ++ ")")

/-- Whether the queue is full. -/
def isFull (s : SharedQueue) : Bool := s.queue.length ≥ s.capacity

/-- Adds at the tail, or none when full. -/
def push (s : SharedQueue) (e : Entity) : Option SharedQueue :=
  if s.isFull then none else some { s with queue := s.queue ++ [e] }

/-- Takes the front entity. -/
def pop (s : SharedQueue) : SharedQueue × Option Entity :=
  match s.queue with
  | [] => (s, none)
  | e :: rest => ({ s with queue := rest }, some e)

/-- Pushes entities in order until the queue is full; the rest come back in order. -/
def pushAll (s : SharedQueue) : List Entity → SharedQueue × List Entity
  | [] => (s, [])
  | e :: rest =>
    match s.push e with
    | some s' => pushAll s' rest
    | none => (s, e :: rest)

/-- Takes the front entity for another group; a group-local one goes back to the tail. -/
def remoteAcquire (s : SharedQueue) : SharedQueue × Option Entity :=
  match s.pop with
  | (s', some e) =>
    if e.groupLocal then ({ s' with queue := s'.queue ++ [e] }, none) else (s', some e)
  | r => r

/-- Entities queued. -/
def queued (s : SharedQueue) : Nat := s.queue.length

end SharedQueue

end Fibers
