import Fibers.Sync.Mutex
import Fibers.Sync.Latch
import Fibers.Reply
/-!
# Primitives driven by one thread

Eight mutexes, eight events, eight condition variables and a list of exit barriers, all
used by a single thread that keeps a stack of the mutex guards it holds. Nothing else can
wake that thread, so a wait that would block forever hangs, a timed wait on an unset event
or on a condition variable times out, and a timed condition wait gives its guard back
re-taken.
-/

namespace Fibers

/-- A command of the single thread. -/
inductive SoloCommand where
  | mutexLock (i : Nat)
  | mutexTryLock (i : Nat)
  | mutexUnlock (i : Nat)
  | mutexAdd (i : Nat) (v : Int)
  | mutexDebug (i : Nat)
  | eventSet (i : Nat)
  | eventIsSet (i : Nat)
  | eventWaitFor (i : Nat)
  | eventWait (i : Nat)
  | cvNotifyOne (i : Nat)
  | cvNotifyAll (i : Nat)
  | cvWaitFor (i m : Nat)
  | barrierCountDown (i : Nat)
  | barrierIsOpen (i : Nat)
  | barrierWait (i : Nat)
  deriving Inhabited, Repr

/-- The primitives and the guards held, the most recent first. -/
structure Solo where
  mutexes : List Mutex := List.replicate 8 {}
  events : List Event := List.replicate 8 {}
  condVars : List CondVar := List.replicate 8 {}
  barriers : List Barrier
  guards : List Nat := []
  claimed : List Nat := []
  deriving Inhabited

namespace Solo

/-- Primitives with barriers of these counts. -/
def create (counts : List Nat) : Solo := { barriers := counts.map (fun c => ⟨c, {}⟩) }

/-- The refusal of an index out of range. -/
def noSuchObject : Reply := .refused "no such object"

/-- The refusal of a guard not held. -/
def notHeld : Reply := .refused "not held"

/-- Runs `f` on the object at index `i`, refusing an index out of range. -/
def onIndex {α : Type} [Inhabited α] (xs : List α) (i : Nat) (s : Solo)
    (f : α → Except Abort (Solo × Reply)) : Except Abort (Solo × Reply) :=
  if h : i < xs.length then f (xs.get ⟨i, h⟩) else .ok (s, noSuchObject)

/-- Runs one command; a wait that can never end hangs, a barrier counted below zero and an
addition past the word abort. -/
def step (s : Solo) : SoloCommand → Except Abort (Solo × Reply)
  | .mutexLock i => onIndex s.mutexes i s fun m =>
    if m.count = 0 then
      .ok ({ s with mutexes := s.mutexes.set i { m with count := 1 }, guards := i :: s.guards },
        .unit)
    else .error .hang
  | .mutexTryLock i => onIndex s.mutexes i s fun m =>
    let (m', ok) := m.tryLock
    .ok ({ s with mutexes := s.mutexes.set i m',
                  guards := if ok then i :: s.guards else s.guards }, .flag ok)
  | .mutexUnlock i => onIndex s.mutexes i s fun m =>
    if i ∈ s.guards then
      let (m', claimed, _) := m.unlock s.claimed
      .ok ({ s with mutexes := s.mutexes.set i m', guards := s.guards.erase i, claimed }, .unit)
    else .ok (s, notHeld)
  | .mutexAdd i v => onIndex s.mutexes i s fun m =>
    if i ∈ s.guards then
      match m.add v with
      | .ok m' => .ok ({ s with mutexes := s.mutexes.set i m' }, .number m'.value)
      | .error a => .error a
    else .ok (s, notHeld)
  | .mutexDebug i => onIndex s.mutexes i s fun m => .ok (s, .text m.debug)
  | .eventSet i => onIndex s.events i s fun e =>
    let (e', claimed, _) := e.set s.claimed
    .ok ({ s with events := s.events.set i e', claimed }, .unit)
  | .eventIsSet i => onIndex s.events i s fun e => .ok (s, .flag e.isSet)
  | .eventWaitFor i => onIndex s.events i s fun e => .ok (s, .flag e.isSet)
  | .eventWait i => onIndex s.events i s fun e =>
    if e.isSet then .ok (s, .unit) else .error .hang
  | .cvNotifyOne i => onIndex s.condVars i s fun c =>
    let (c', claimed, _) := c.notifyOne s.claimed
    .ok ({ s with condVars := s.condVars.set i c', claimed }, .unit)
  | .cvNotifyAll i => onIndex s.condVars i s fun c =>
    let (c', claimed, _) := c.notifyAll s.claimed
    .ok ({ s with condVars := s.condVars.set i c', claimed }, .unit)
  | .cvWaitFor i m => onIndex s.condVars i s fun _ => onIndex s.mutexes m s fun _ =>
    if m ∈ s.guards then .ok ({ s with guards := m :: s.guards.erase m }, .flag true)
    else .ok (s, notHeld)
  | .barrierCountDown i => onIndex s.barriers i s fun b => do
    let (b', claimed, _) ← b.countDown s.claimed
    return ({ s with barriers := s.barriers.set i b', claimed }, .unit)
  | .barrierIsOpen i => onIndex s.barriers i s fun b => .ok (s, .flag b.isOpen)
  | .barrierWait i => onIndex s.barriers i s fun b =>
    if b.isOpen then .ok (s, .unit) else .error .hang

end Solo

end Fibers
