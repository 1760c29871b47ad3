import Fibers.Sync.Waitable
import Fibers.Reply
/-!
# A waitable on the bench

One waitable with `n` wait blocks, each block's waiter a thread with its own wait slot.
Commands queue, remove and claim blocks, wake waiters (optionally delivering the wakes to
their slots), and wake or poll slots directly.
-/

namespace Fibers

/-- A command on the bench. -/
inductive BenchCommand where
  | add (b : Nat)
  | remove (b : Nat)
  | claim (b : Nat)
  | wakeOne (deliver : Bool)
  | wakeAll (deliver : Bool)
  | persist (deliver : Bool)
  | isEmpty
  | isPersistent
  | slotWake (b : Nat)
  | slotPersist (b : Nat)
  | slotPoll (b : Nat)
  deriving Inhabited, Repr

/-- One waitable, the claims of its blocks, and each block's slot. -/
structure Bench where
  waitable : Waitable
  claimed : List Nat
  slots : List WaitSlot
  deriving Inhabited

namespace Bench

/-- A bench of `n` blocks. -/
def create (n : Nat) : Bench := ⟨{}, [], List.replicate n {}⟩

/-- Adds a wake to the slot of each woken block when asked to deliver. -/
def deliver (bench : Bench) (yes : Bool) (woken : List Nat) : Bench :=
  if yes then
    { bench with slots := woken.foldl (fun ss b => ss.modify b WaitSlot.wake) bench.slots }
  else bench

/-- Runs a command on block `b`, refusing a block that does not exist. -/
def onBlock (bench : Bench) (b : Nat) (f : Bench → Bench × Reply) : Bench × Reply :=
  if b < bench.slots.length then f bench else (bench, .refused "no such block")

/-- Runs one command. -/
def step (bench : Bench) : BenchCommand → Bench × Reply
  | .add b => bench.onBlock b fun bench =>
    let (w, ok) := bench.waitable.add b
    ({ bench with waitable := w }, .flag ok)
  | .remove b => bench.onBlock b fun bench =>
    let (w, ok) := bench.waitable.remove b
    ({ bench with waitable := w }, .flag ok)
  | .claim b => bench.onBlock b fun bench =>
    let (claimed, ok) := Waitable.claim bench.claimed b
    ({ bench with claimed }, .flag ok)
  | .wakeOne yes =>
    let (w, claimed, b) := bench.waitable.wakeOne bench.claimed
    (({ bench with waitable := w, claimed }).deliver yes b.toList, .ofIndex b)
  | .wakeAll yes =>
    let (w, claimed, woken) := bench.waitable.wakeAll bench.claimed
    (({ bench with waitable := w, claimed }).deliver yes woken, .indices woken)
  | .persist yes =>
    let (w, claimed, woken) := bench.waitable.persist bench.claimed
    (({ bench with waitable := w, claimed }).deliver yes woken, .indices woken)
  | .isEmpty => (bench, .flag bench.waitable.isEmpty)
  | .isPersistent => (bench, .flag bench.waitable.persistent)
  | .slotWake b => bench.onBlock b fun bench =>
    ({ bench with slots := bench.slots.modify b WaitSlot.wake }, .unit)
  | .slotPersist b => bench.onBlock b fun bench =>
    ({ bench with slots := bench.slots.modify b WaitSlot.persistentWake }, .unit)
  | .slotPoll b => bench.onBlock b fun bench =>
    let (s, ok) := (bench.slots.getD b {}).poll
    ({ bench with slots := bench.slots.set b s }, .flag ok)

/-- Runs commands one after another: their replies in order. -/
def replies (bench : Bench) : List BenchCommand → List Reply
  | [] => []
  | c :: cs => (bench.step c).2 :: (bench.step c).1.replies cs

end Bench

end Fibers
