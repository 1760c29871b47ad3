import Fibers.Sched.Injector
import Fibers.Error
/-!
# Work-stealing scheduling

Each worker of a group owns a first-in first-out deque, claimed by the thread that enters
as that worker; besides there is a pinned queue per worker for group-local entities, a
global injector, and a reactor injector. A ready entity goes to the reactor queue if it is
a reactor entity, to the pinned queue of its home worker (else the caller's, else the
first) if it is group-local, to the global queue if it yielded, and otherwise to the
caller's deque while that holds fewer than `localCapacity` entities, else to the global
queue.

A worker takes work from the reactor queue on every 61st acquisition, and otherwise from
its pinned queue, its deque, and then the global queue, moving a batch into its deque.
An idle worker steals from its peers' deques, starting with the next worker.
-/

namespace Fibers

/-- The state a thread keeps once it entered as a worker: its index and its tick count. -/
structure WorkerSlot where
  index : Nat
  ticks : UInt32 := 0
  deriving Inhabited, BEq, Repr

/-- The queues of a work-stealing group. -/
structure Stealing where
  size : Nat
  localCapacity : Nat
  /-- Each worker's deque, the front first. -/
  deques : List (List Entity)
  /-- The thread holding each deque, none while unclaimed. -/
  owners : List (Option Nat)
  /-- The threads that entered, with their slots. -/
  threads : List (Nat × WorkerSlot) := []
  pinned : List (List Entity)
  global : Injector := {}
  reactor : Injector := {}
  stopped : Bool := false
  deriving Inhabited, Repr

namespace Stealing

/-- Acquisitions between two looks at the reactor queue. -/
def reactorInterval : UInt32 := 61

/-- A group of `size` workers. -/
def create (size localCapacity : Nat) : Stealing :=
  { size, localCapacity, deques := List.replicate size [], owners := List.replicate size none,
    pinned := List.replicate size [] }

/-- The fatal text of entering a claimed or missing worker. -/
def enteredTwice (index : Nat) : Abort :=
  .fatal s!"v2 worker {index} entered twice or out of range"

/-- The slot of a thread that entered. -/
def slotOf (s : Stealing) (t : Nat) : Option WorkerSlot := s.threads.lookup t

/-- The worker index of a thread that entered. -/
def localIndex (s : Stealing) (t : Nat) : Option Nat := (s.slotOf t).map WorkerSlot.index

/-- The deque of a worker. -/
def deque (s : Stealing) (i : Nat) : List Entity := s.deques.getD i []

/-- Thread `t` claims worker `index`'s deque, replacing any slot it had. -/
def enter (s : Stealing) (t index : Nat) : Except Abort Stealing :=
  if index < s.size ∧ s.owners.getD index none = none then
    .ok { s with owners := s.owners.set index (some t),
                 threads := (s.threads.filter (·.1 ≠ t)) ++ [(t, { index })] }
  else .error (enteredTwice index)

/-- Thread `t` leaves: its deque drains into the global queue and becomes unclaimed. -/
def leave (s : Stealing) (t : Nat) : Stealing :=
  match s.localIndex t with
  | none => s
  | some i =>
    { s with global := (s.deque i).foldl Injector.push s.global,
             deques := s.deques.set i [], owners := s.owners.set i none,
             threads := s.threads.filter (·.1 ≠ t) }

/-- The pinned queue for a group-local entity pushed by thread `t`. -/
def pinnedIndex (s : Stealing) (t : Nat) (e : Entity) : Nat :=
  match e.home with
  | some h => if h < s.size then h else (s.localIndex t).getD 0
  | none => (s.localIndex t).getD 0

/-- Thread `t` makes an entity ready; `yielded` when it comes from a yield. -/
def pushReady (s : Stealing) (t : Nat) (e : Entity) (yielded : Bool) : Stealing :=
  if e.reactor then { s with reactor := s.reactor.push e }
  else if e.groupLocal then
    let i := s.pinnedIndex t e
    { s with pinned := s.pinned.modify i (· ++ [e]) }
  else if yielded then { s with global := s.global.push e }
  else match s.localIndex t with
    | some i =>
      if (s.deque i).length < s.localCapacity then { s with deques := s.deques.modify i (· ++ [e]) }
      else { s with global := s.global.push e }
    | none => { s with global := s.global.push e }

/-- Thread `t` starts a batch: group-local and reactor entities are made ready, the others
go straight to the global queue. -/
def startAll (s : Stealing) (t : Nat) (es : List Entity) : Stealing :=
  es.foldl (fun s e =>
    if e.groupLocal ∨ e.reactor then s.pushReady t e false
    else { s with global := s.global.push e }) s

/-- Counts one acquisition of thread `t`: true when the reactor queue is due. -/
def tick (s : Stealing) (t : Nat) : Stealing × Bool :=
  match s.slotOf t with
  | none => (s, false)
  | some slot =>
    let ticks := slot.ticks + 1
    ({ s with threads := s.threads.map (fun (u, sl) => if u = t then (u, { sl with ticks }) else (u, sl)) },
      ticks % reactorInterval == 0)

/-- Takes the front of a worker's pinned queue. -/
def popPinned (s : Stealing) (i : Nat) : Stealing × Option Entity :=
  match s.pinned.getD i [] with
  | [] => (s, none)
  | e :: rest => ({ s with pinned := s.pinned.set i rest }, some e)

/-- Takes the front of a worker's deque. -/
def popDeque (s : Stealing) (i : Nat) : Stealing × Option Entity :=
  match s.deque i with
  | [] => (s, none)
  | e :: rest => ({ s with deques := s.deques.set i rest }, some e)

/-- Takes the front of thread `t`'s own deque. -/
def popLocal (s : Stealing) (t : Nat) : Stealing × Option Entity :=
  match s.localIndex t with
  | some i => s.popDeque i
  | none => (s, none)

/-- Takes from the global queue: with a deque, a batch goes into it. -/
def stealGlobal (s : Stealing) (t : Nat) : Stealing × Option Entity :=
  match s.localIndex t with
  | some i =>
    let (g, batch, e) := s.global.stealBatch
    ({ s with global := g, deques := s.deques.modify i (· ++ batch) }, e)
  | none =>
    let (g, e) := s.global.steal
    ({ s with global := g }, e)

/-- Takes from the reactor queue. -/
def acquireReactor (s : Stealing) : Stealing × Option Entity :=
  let (r, e) := s.reactor.steal
  ({ s with reactor := r }, e)

/-- One acquisition by thread `t` for worker `i`. -/
def acquire (s : Stealing) (t i : Nat) : Stealing × Option Entity :=
  let (s, due) := s.tick t
  let fromReactor := if due then s.acquireReactor else (s, none)
  match fromReactor with
  | (s, some e) => (s, some e)
  | (s, none) =>
    match s.popPinned i with
    | (s, some e) => (s, some e)
    | (s, none) =>
      match s.popLocal t with
      | (s, some e) => (s, some e)
      | (s, none) => s.stealGlobal t

/-- Whether worker `i` could find work. -/
def hasWork (s : Stealing) (i : Nat) : Bool :=
  !s.reactor.isEmpty || !(s.pinned.getD i []).isEmpty || !s.global.isEmpty ||
    s.deques.any (!·.isEmpty)

/-- Steals one entity from the peers of worker `i`, starting with the next one. -/
def stealFromPeers (s : Stealing) (i : Nat) : Stealing × Option Entity :=
  let victims := (List.range (s.size - 1)).map (fun off => (i + off + 1) % s.size)
  match victims.find? (fun v => !(s.deque v).isEmpty) with
  | some v => s.popDeque v
  | none => (s, none)

/-- Takes work for another group: the global queue, then the deques in order. -/
def remoteAcquire (s : Stealing) : Stealing × Option Entity :=
  match s.global.steal with
  | (g, some e) => ({ s with global := g }, some e)
  | (_, none) =>
    match (List.range s.size).find? (fun v => !(s.deque v).isEmpty) with
    | some v => s.popDeque v
    | none => (s, none)

/-- Entities queued anywhere. -/
def queued (s : Stealing) : Nat :=
  s.global.size + s.reactor.size + (s.deques.map List.length).foldr (· + ·) 0 +
    (s.pinned.map List.length).foldr (· + ·) 0

/-- Most workers stealing at once. -/
def maxThieves (s : Stealing) : Nat := max (s.size / 2) 1

end Stealing

end Fibers
