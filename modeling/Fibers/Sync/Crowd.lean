import Fibers.Sync.Mutex
import Fibers.Sync.Latch
/-!
# Threads sharing primitives

A crowd is a group of plain threads, the main thread among them, sharing one mutex (that
guards a number), one event, one exit barrier, one condition variable with a queue of items
and a flag. Each thread runs a program of operations; the threads take turns, one
operation each, skipping those that are blocked, until every program is done.

A blocked thread waits on a wait block of its own; the waker claims the block and makes
the thread runnable again. No wait of a crowd has a deadline, so a block leaves its queue
exactly when it is claimed and is never looked at again: the claims need not be kept. A
mutex handed over on unlock is owned by the woken thread when it runs. A condition wait
queues its block, releases the mutex, and on waking takes the mutex back before it checks
its condition again. The queue of items is first in, first out.

The five crowds of the runtime's tests, each of whose results is the same in every
interleaving: `n` threads adding one `k` times under the mutex with a yield between read
and write; `n` threads waiting for the event the main thread sets; `n` threads counting
down a barrier of count `n` the main thread waits on; `n` producers of `k` items each and
one consumer of all of them; `n` threads waiting for a flag the main thread raises.
-/

namespace Fibers

/-- An operation of a thread of a crowd. -/
inductive CrowdOp where
  | lock
  | unlock
  /-- Remembers the guarded number. -/
  | read
  | yield
  /-- Stores the remembered number plus one. -/
  | writeNext
  | wait
  | set
  | countDown
  | barrierWait
  | push (item : Nat)
  | notifyOne
  | notifyAll
  /-- With the mutex held, waits on the condition variable until an item is queued. -/
  | awaitItem
  | pop
  /-- With the mutex held, waits on the condition variable until the flag is raised. -/
  | awaitFlag
  | raise
  /-- Counts the thread as woken. -/
  | woke
  deriving Inhabited, BEq, Repr

/-- A thread of a crowd. -/
structure Member where
  program : List CrowdOp
  /-- The number remembered by `read`. -/
  held : Int := 0
  /-- The block it waits on, if blocked. -/
  blocked : Option Nat := none
  deriving Inhabited, Repr

/-- A first-in, first-out queue of items: the front in order, then the back reversed. -/
structure ItemQueue where
  front : List Nat := []
  back : List Nat := []
  deriving Inhabited, Repr

namespace ItemQueue

/-- The items, the front first. -/
def toList (q : ItemQueue) : List Nat := q.front ++ q.back.reverse

/-- Queues an item at the back. -/
def push (q : ItemQueue) (x : Nat) : ItemQueue := { q with back := x :: q.back }

/-- Takes the front item, if there is one. -/
def pop? (q : ItemQueue) : Option (Nat × ItemQueue) :=
  match q.front with
  | x :: rest => some (x, { q with front := rest })
  | [] =>
    match q.back.reverse with
    | x :: rest => some (x, { front := rest, back := [] })
    | [] => none

/-- Whether no item is queued. -/
def isEmpty (q : ItemQueue) : Bool := q.front.isEmpty && q.back.isEmpty

end ItemQueue

/-- The shared state of a crowd. -/
structure Crowd where
  members : List Member
  mutex : Mutex := {}
  event : Event := {}
  barrier : Barrier
  condvar : CondVar := {}
  /-- The number of the next wait block. -/
  nextBlock : Nat := 0
  items : ItemQueue := {}
  /-- The items taken, the latest first. -/
  taken : List Nat := []
  flag : Bool := false
  woken : Nat := 0
  deriving Inhabited

namespace Crowd

/-- The items taken, in the order they were taken. -/
def consumed (c : Crowd) : List Nat := c.taken.reverse

/-- A new wait block. -/
def newBlock (c : Crowd) : Crowd × Nat := ({ c with nextBlock := c.nextBlock + 1 }, c.nextBlock)

/-- The members blocked on these blocks become runnable. -/
def release (c : Crowd) (bs : List Nat) : Crowd :=
  if bs.isEmpty then c
  else { c with members := c.members.map (fun m =>
    match m.blocked with
    | some b => if bs.contains b then { m with blocked := none } else m
    | none => m) }

/-- Member `i` blocks on block `b`, with `rest` left to run once woken. -/
def block (c : Crowd) (i b : Nat) (rest : List CrowdOp) : Crowd :=
  { c with members := c.members.modify i (fun m => { m with blocked := some b, program := rest }) }

/-- Member `i` goes on with `rest`. -/
def continueWith (c : Crowd) (i : Nat) (rest : List CrowdOp) : Crowd :=
  { c with members := c.members.modify i (fun m => { m with program := rest }) }

/-- Member `i` waits on the condition variable for `retry`: its block is queued, the mutex
released, and once woken it takes the mutex back and tries again. -/
def condWait (c : Crowd) (i : Nat) (retry : CrowdOp) (rest : List CrowdOp) : Crowd :=
  let (c, b) := c.newBlock
  let c := { c with condvar := c.condvar.wait b }
  let (mx, _, handed) := c.mutex.unlock []
  let c := ({ c with mutex := mx }).release handed.toList
  c.block i b (.lock :: retry :: rest)

/-- One operation of member `i`. -/
def stepMember (c : Crowd) (i : Nat) : Except Abort Crowd :=
  let m := c.members.getD i default
  match m.program with
  | [] => .ok c
  | op :: rest =>
    match op with
    | .lock =>
      let (c, b) := c.newBlock
      match c.mutex.lock b with
      | (mx, true) => .ok ({ c with mutex := mx }.continueWith i rest)
      | (mx, false) => .ok ({ c with mutex := mx }.block i b rest)
    | .unlock =>
      let (mx, _, handed) := c.mutex.unlock []
      .ok (({ c with mutex := mx }).release handed.toList |>.continueWith i rest)
    | .read =>
      .ok { c with members := c.members.modify i (fun m => { m with held := c.mutex.value, program := rest }) }
    | .yield => .ok (c.continueWith i rest)
    | .writeNext => do
      let mx ← ({ c.mutex with value := 0 } : Mutex).add (m.held + 1)
      return { c with mutex := mx }.continueWith i rest
    | .wait =>
      let (c, b) := c.newBlock
      match c.event.wait b with
      | (ev, true) => .ok ({ c with event := ev }.block i b rest)
      | (ev, false) => .ok ({ c with event := ev }.continueWith i rest)
    | .set =>
      let (ev, _, woken) := c.event.set []
      .ok (({ c with event := ev }).release woken |>.continueWith i rest)
    | .countDown => do
      let (bar, _, woken) ← c.barrier.countDown []
      return ({ c with barrier := bar }).release woken |>.continueWith i rest
    | .barrierWait =>
      let (c, b) := c.newBlock
      match c.barrier.wait b with
      | (bar, true) => .ok ({ c with barrier := bar }.block i b rest)
      | (bar, false) => .ok ({ c with barrier := bar }.continueWith i rest)
    | .push item => .ok ({ c with items := c.items.push item }.continueWith i rest)
    | .notifyOne =>
      let (cv, _, b) := c.condvar.notifyOne []
      .ok (({ c with condvar := cv }).release b.toList |>.continueWith i rest)
    | .notifyAll =>
      let (cv, _, woken) := c.condvar.notifyAll []
      .ok (({ c with condvar := cv }).release woken |>.continueWith i rest)
    | .awaitItem =>
      if c.items.isEmpty then .ok (c.condWait i .awaitItem rest) else .ok (c.continueWith i rest)
    | .pop =>
      match c.items.pop? with
      | some (x, q) => .ok ({ c with items := q, taken := x :: c.taken }.continueWith i rest)
      | none => .ok (c.continueWith i rest)
    | .awaitFlag =>
      if c.flag then .ok (c.continueWith i rest) else .ok (c.condWait i .awaitFlag rest)
    | .raise => .ok ({ c with flag := true }.continueWith i rest)
    | .woke => .ok ({ c with woken := c.woken + 1 }.continueWith i rest)

/-- Whether member `i` can run. -/
def runnable (c : Crowd) (i : Nat) : Bool :=
  let m := c.members.getD i default
  m.blocked.isNone && !m.program.isEmpty

/-- Whether every program is done. -/
def finished (c : Crowd) : Bool := c.members.all (·.program.isEmpty)

/-- Takes turns from member `i` on, for at most `fuel` turns; a crowd whose runnable
members have all finished while others stay blocked hangs. -/
def turns : Nat → Nat → Crowd → Except Abort Crowd
  | 0, _, _ => .error .hang
  | fuel + 1, i, c =>
    if c.finished then .ok c
    else
      let n := c.members.length
      match (List.range n).map (fun d => (i + d) % n) |>.find? c.runnable with
      | none => .error .hang
      | some j => do turns fuel (j + 1) (← c.stepMember j)

/-- Runs every program to its end. -/
def run (c : Crowd) : Except Abort Crowd :=
  turns (4 * ((c.members.map (·.program.length)).foldr (· + ·) 0 + 1) * (c.members.length + 1)) 0 c

end Crowd

/-- The kinds of crowd the runtime's tests run. -/
inductive CrowdKind where
  | mutex
  | event
  | barrier
  | condvar
  | condvarAll
  deriving Inhabited, BEq, Repr

/-- What a crowd shows. -/
inductive CrowdResult where
  | total (value : Int) (debug : String)
  | woken (count : Nat) (isSet : Bool)
  | opened (isOpen : Bool)
  | consumed (count : Nat) (distinct : Bool)
  | wokenAll (count : Nat)
  deriving Inhabited, Repr

namespace CrowdKind

/-- The crowd of a kind with `n` threads besides the main thread and `k` iterations; the
main thread is the last member. -/
def crowd (kind : CrowdKind) (n k : Nat) : Crowd :=
  let threads (p : Nat → List CrowdOp) := (List.range n).map (fun i => ({ program := p i } : Member))
  let times (ops : List CrowdOp) := (List.replicate k ops).flatten
  match kind with
  | .mutex =>
    { members := threads (fun _ => times [.lock, .read, .yield, .writeNext, .unlock]) ++
        [{ program := [] }], barrier := ⟨0, {}⟩ }
  | .event =>
    { members := threads (fun _ => [.wait, .woke]) ++ [{ program := [.set] }], barrier := ⟨0, {}⟩ }
  | .barrier =>
    { members := threads (fun _ => [.countDown]) ++ [{ program := [.barrierWait] }],
      barrier := ⟨n, {}⟩ }
  | .condvar =>
    { members := threads (fun i => ((List.range k).map (fun j =>
          [CrowdOp.lock, .push (i * k + j), .notifyOne, .unlock])).flatten) ++
        [{ program := (List.replicate (n * k) [CrowdOp.lock, .awaitItem, .pop, .unlock]).flatten }],
      barrier := ⟨0, {}⟩ }
  | .condvarAll =>
    { members := threads (fun _ => [.lock, .awaitFlag, .woke, .unlock]) ++
        [{ program := [.lock, .raise, .notifyAll, .unlock] }], barrier := ⟨0, {}⟩ }

/-- Whether no number occurs twice: after sorting, no two neighbours are equal. -/
def distinct (xs : List Nat) : Bool :=
  let sorted := xs.mergeSort (fun a b => decide (a ≤ b))
  (sorted.zip sorted.tail).all (fun (a, b) => a != b)

/-- Runs the crowd of a kind and reads what it shows. -/
def outcome (kind : CrowdKind) (n k : Nat) : Except Abort CrowdResult := do
  let c ← (kind.crowd n k).run
  return match kind with
    | .mutex => .total c.mutex.value c.mutex.debug
    | .event => .woken c.woken c.event.isSet
    | .barrier => .opened c.barrier.isOpen
    | .condvar => .consumed c.taken.length (distinct c.taken)
    | .condvarAll => .wokenAll c.woken

end CrowdKind

end Fibers
