import Fibers.Sync.Contention
import Fibers.Sync.Latch
/-!
# Waiting on a condition variable, at the grain of its atomic steps

A wait on a condition variable, or on any primitive built on a waitable, blocks through the
same protocol. The waiter takes the primitive's internal lock and queues a fresh wait block;
a condition variable's waiter then drops its guard of the user mutex, still under the
internal lock; it releases the internal lock and blocks until a waker claims its block and
wakes it. A waker takes the internal lock, claims blocks (the first unclaimed one, every
unclaimed one, or every one while awakening the waitable for good, as an event's set does),
releases the lock and only then wakes the waiters it claimed. A condition variable's waiter
locks the user mutex again before its wait returns.

A wait may have a deadline. A thread past its deadline takes the internal lock and claims its
own block: when that succeeds it unlinks the block and the wait returns false; when a waker
claimed first it waits for the wake on its way and returns true. A fiber arms a timeout
callback on its group's timer thread instead. Under the waiter-gone lock the callback claims
the block and resumes the fiber, unless the fiber has gone; the resumed fiber marks itself
gone, removes the timer, and, when the callback claimed its block, unlinks it and returns
false.

The user mutex is the mutex at the grain of its steps (`Fibers.Sync.Contention`): a party
hands it one operation at a time, and while that operation runs the party's turns are the
mutex's steps. Besides the wait blocks claimed, a party's side carries what the proofs count
of its current wait: whether its block was linked, how often it was claimed and by whom, and
how many wakes were delivered to it.

The steps that hold the internal lock only for what they do to the queue (queueing, a
notification, a thread's retraction, a fiber's unlinking) take it, act and release it in
one step: nobody else reads the queue meanwhile. A callback that finds its waiter gone
touches nothing but its own lock, so a later timed wait of the same fiber arms a fresh
callback in its place.
-/

namespace Fibers

/-- What a waker does to a waitable: wake its first unclaimed waiter, wake all of them, or
awaken it for good and wake all of them. -/
inductive Notify where
  | one
  | all
  | forever
  deriving Inhabited, BEq, DecidableEq, Repr

namespace Notify

/-- The waitable, the claims and the blocks claimed after a waker's turn under the lock. -/
def apply : Notify → Waitable → List Nat → Waitable × List Nat × List Nat
  | .one, w, claimed =>
    let (w', claimed', b) := w.wakeOne claimed
    (w', claimed', b.toList)
  | .all, w, claimed => w.wakeAll claimed
  | .forever, w, claimed => w.persist claimed

end Notify

/-- An operation of a party's program. -/
inductive MonitorOp where
  /-- An operation on the user mutex or the value it guards. -/
  | mutex (op : MutexOp)
  /-- A wait on the waitable: a condition variable's when `guarded`, which drops the user
  mutex's guard once queued and locks the mutex again at the end; with a deadline when
  `timed`. -/
  | wait (guarded timed : Bool)
  /-- A condition variable's wait while the guarded value is below `n`. -/
  | waitBelow (n : Int)
  | notify (kind : Notify)
  deriving Inhabited, BEq, DecidableEq, Repr

/-- Where a party stands in a wait or a notification. -/
inductive WaitStage where
  | idle
  /-- About to take the internal lock and queue its block. -/
  | enter
  /-- Holds the internal lock, its block queued or not: its guard is being dropped, then it
  releases the lock. -/
  | release (queued : Bool)
  /-- Blocked until woken, or until its deadline passes. -/
  | sleep
  /-- A thread past its deadline: about to claim its own block under the internal lock. -/
  | retract
  /-- A thread that lost the claim: waiting for the wake on its way. -/
  | drain
  /-- A fiber resumed from a timed wait: about to mark itself gone. -/
  | gone
  /-- About to remove its timer and read whether the timer claimed its block. -/
  | disarm
  /-- Timed out: about to unlink its block under the internal lock. -/
  | withdraw
  /-- The wait is over with this result: the user mutex is being locked again. -/
  | relock (woken : Bool)
  /-- About to take the internal lock and claim waiters. -/
  | notify (kind : Notify)
  /-- Waking the waiters it claimed, one per step. -/
  | wake (ws : List Nat)
  deriving Inhabited, BEq, DecidableEq, Repr

/-- Where a fiber's timeout callback stands. -/
inductive TimerStage where
  | off
  /-- Armed: it may fire at any time. -/
  | armed
  /-- Fired and holds the waiter-gone lock: about to look whether the waiter is gone and
  claim its block. -/
  | check
  /-- Claimed the block: about to resume the fiber. -/
  | wakeUp
  deriving Inhabited, BEq, DecidableEq, Repr

/-- A party's dealings with the waitable. -/
structure Side where
  program : List MonitorOp
  stage : WaitStage := .idle
  /-- The current wait drops and retakes the user mutex. -/
  guarded : Bool := false
  /-- The current wait has a deadline. -/
  timed : Bool := false
  wakeup : Wakeup := {}
  timer : TimerStage := .off
  /-- The waiter-gone flag the fiber shares with its callback. -/
  gone : Bool := false
  /-- Set by the callback when it claimed the block. -/
  timedOut : Bool := false
  /-- What the last wait returned. -/
  result : Option Bool := none
  /-- Whether the current wait's block was queued. -/
  linked : Bool := false
  /-- How often the current wait's block was claimed. -/
  claims : Nat := 0
  /-- Whether the last claim of the block was its timeout's. -/
  byTimeout : Bool := false
  /-- The wakes delivered for the current wait. -/
  wakes : Nat := 0
  deriving Inhabited, Repr

namespace Side

/-- The side once its block is queued: a fresh wake-up, the callback armed when `armed`. -/
def fresh (x : Side) (armed : Bool) : Side :=
  { x with
    stage := .release true, wakeup := {}, timer := (if armed then .armed else .off),
    gone := false, timedOut := false, linked := true, claims := 0, byTimeout := false,
    wakes := 0 }

/-- Records a claim of the block. -/
def claim (x : Side) (byTimeout : Bool) : Side :=
  { x with claims := x.claims + 1, byTimeout }

/-- Delivers a wake. -/
def deliver (x : Side) (fiber : Bool) : Side :=
  { x with wakeup := x.wakeup.deliver fiber, wakes := x.wakes + 1 }

/-- Consumes the delivered wake, when there is one. -/
def consume (x : Side) (fiber : Bool) : Option Side :=
  (x.wakeup.consume fiber).map (fun w => { x with wakeup := w })

end Side

/-- A user mutex, a waitable, and the parties using them. -/
structure Monitor where
  lock : Contention
  waitable : Waitable := {}
  /-- The party holding the waitable's internal lock. -/
  inner : Option Nat := none
  /-- The claimed wait blocks. -/
  claimed : List Nat := []
  sides : List Side
  deriving Inhabited

/-- Who takes a turn: a party, or the timeout callback of a party's current wait. -/
inductive Turn where
  | party (p : Nat)
  | timer (p : Nat)
  deriving Inhabited, BEq, DecidableEq, Repr

namespace Monitor

/-- Parties with these kinds (a fiber or not) and programs, before any step. -/
def start (programs : List (Bool × List MonitorOp)) : Monitor :=
  { lock := Contention.start (programs.map (fun (fiber, _) => (fiber, [])))
    sides := programs.map (fun (_, program) => { program }) }

/-- Party `p`'s side. -/
def side (m : Monitor) (p : Nat) : Side := m.sides.getD p default

/-- Whether party `p` is a fiber. -/
def fiber (m : Monitor) (p : Nat) : Bool := (m.lock.party p).fiber

/-- Whether party `p` is in the middle of an operation on the user mutex. -/
def busy (m : Monitor) (p : Nat) : Bool :=
  (m.lock.party p).stage != .idle || !(m.lock.party p).program.isEmpty

/-- Changes party `p`'s side. -/
def updateSide (m : Monitor) (p : Nat) (f : Side → Side) : Monitor :=
  { m with sides := m.sides.modify p f }

def setLock (m : Monitor) (l : Contention) : Monitor := { m with lock := l }

def setWaitable (m : Monitor) (w : Waitable) : Monitor := { m with waitable := w }

def setInner (m : Monitor) (o : Option Nat) : Monitor := { m with inner := o }

def setClaimed (m : Monitor) (c : List Nat) : Monitor := { m with claimed := c }

/-- Hands party `p` an operation on the user mutex. -/
def give (m : Monitor) (p : Nat) (op : MutexOp) : Monitor :=
  m.setLock (m.lock.update p (fun x => { x with program := [op] }))

/-- Party `p`'s wait is over with result `r`: a condition variable's waiter locks the user
mutex again. -/
def relock (m : Monitor) (p : Nat) (r : Bool) : Monitor :=
  let m := if (m.side p).guarded then m.give p .lock else m
  m.updateSide p (fun x => { x with stage := .relock r })

/-- Delivers the wake of party `q`'s current wait. -/
def deliver (m : Monitor) (q : Nat) : Monitor :=
  m.updateSide q (fun x => x.deliver (m.fiber q))

/-- Records the claims of the blocks `ws` by a waker. -/
def claimAll (m : Monitor) (ws : List Nat) : Monitor :=
  { m with sides := m.sides.mapIdx (fun q x => if q ∈ ws then x.claim false else x) }

section Access

variable {m : Monitor} {p q : Nat} {f : Side → Side}

@[simp] theorem length_updateSide : (m.updateSide p f).sides.length = m.sides.length := by
  simp [updateSide]

theorem side_updateSide (hp : p < m.sides.length) :
    (m.updateSide p f).side q = if q = p then f (m.side p) else m.side q := by
  simp only [side, updateSide, List.getD_eq_getElem?_getD, List.getElem?_modify]
  by_cases hq : q = p
  · subst hq
    simp [hp]
  · simp [hq, Ne.symm hq]

@[simp] theorem side_updateSide_self (hp : p < m.sides.length) :
    (m.updateSide p f).side p = f (m.side p) := by
  simp [side_updateSide hp]

@[simp] theorem side_updateSide_ne (hq : q ≠ p) : (m.updateSide p f).side q = m.side q := by
  simp only [side, updateSide, List.getD_eq_getElem?_getD, List.getElem?_modify]
  simp [Ne.symm hq]

theorem side_eq_default (h : m.sides.length ≤ q) : m.side q = default := by
  simp [side, List.getD_eq_getElem?_getD, List.getElem?_eq_none h]

theorem side_claimAll (ws : List Nat) :
    (m.claimAll ws).side q = if q ∈ ws ∧ q < m.sides.length then (m.side q).claim false
      else m.side q := by
  by_cases hq : q < m.sides.length
  · simp [claimAll, side, List.getD_eq_getElem?_getD, hq]
  · simp [claimAll, side, List.getD_eq_getElem?_getD, hq]

@[simp] theorem length_claimAll (ws : List Nat) : (m.claimAll ws).sides.length = m.sides.length := by
  simp [claimAll]

@[simp] theorem lock_updateSide : (m.updateSide p f).lock = m.lock := rfl
@[simp] theorem waitable_updateSide : (m.updateSide p f).waitable = m.waitable := rfl
@[simp] theorem inner_updateSide : (m.updateSide p f).inner = m.inner := rfl
@[simp] theorem claimed_updateSide : (m.updateSide p f).claimed = m.claimed := rfl
@[simp] theorem fiber_updateSide : (m.updateSide p f).fiber q = m.fiber q := rfl
@[simp] theorem lock_claimAll (ws : List Nat) : (m.claimAll ws).lock = m.lock := rfl
@[simp] theorem waitable_claimAll (ws : List Nat) : (m.claimAll ws).waitable = m.waitable := rfl
@[simp] theorem inner_claimAll (ws : List Nat) : (m.claimAll ws).inner = m.inner := rfl
@[simp] theorem claimed_claimAll (ws : List Nat) : (m.claimAll ws).claimed = m.claimed := rfl
@[simp] theorem fiber_claimAll (ws : List Nat) : (m.claimAll ws).fiber q = m.fiber q := rfl

variable {l : Contention} {w : Waitable} {o : Option Nat} {c : List Nat} {op : MutexOp}

@[simp] theorem lock_setLock : (m.setLock l).lock = l := rfl
@[simp] theorem sides_setLock : (m.setLock l).sides = m.sides := rfl
@[simp] theorem side_setLock : (m.setLock l).side q = m.side q := rfl
@[simp] theorem waitable_setLock : (m.setLock l).waitable = m.waitable := rfl
@[simp] theorem inner_setLock : (m.setLock l).inner = m.inner := rfl
@[simp] theorem claimed_setLock : (m.setLock l).claimed = m.claimed := rfl
@[simp] theorem sides_setWaitable : (m.setWaitable w).sides = m.sides := rfl
@[simp] theorem side_setWaitable : (m.setWaitable w).side q = m.side q := rfl
@[simp] theorem lock_setWaitable : (m.setWaitable w).lock = m.lock := rfl
@[simp] theorem waitable_setWaitable : (m.setWaitable w).waitable = w := rfl
@[simp] theorem inner_setWaitable : (m.setWaitable w).inner = m.inner := rfl
@[simp] theorem claimed_setWaitable : (m.setWaitable w).claimed = m.claimed := rfl
@[simp] theorem fiber_setWaitable : (m.setWaitable w).fiber q = m.fiber q := rfl
@[simp] theorem sides_setInner : (m.setInner o).sides = m.sides := rfl
@[simp] theorem side_setInner : (m.setInner o).side q = m.side q := rfl
@[simp] theorem lock_setInner : (m.setInner o).lock = m.lock := rfl
@[simp] theorem waitable_setInner : (m.setInner o).waitable = m.waitable := rfl
@[simp] theorem inner_setInner : (m.setInner o).inner = o := rfl
@[simp] theorem claimed_setInner : (m.setInner o).claimed = m.claimed := rfl
@[simp] theorem fiber_setInner : (m.setInner o).fiber q = m.fiber q := rfl
@[simp] theorem sides_setClaimed : (m.setClaimed c).sides = m.sides := rfl
@[simp] theorem side_setClaimed : (m.setClaimed c).side q = m.side q := rfl
@[simp] theorem lock_setClaimed : (m.setClaimed c).lock = m.lock := rfl
@[simp] theorem waitable_setClaimed : (m.setClaimed c).waitable = m.waitable := rfl
@[simp] theorem inner_setClaimed : (m.setClaimed c).inner = m.inner := rfl
@[simp] theorem claimed_setClaimed : (m.setClaimed c).claimed = c := rfl
@[simp] theorem fiber_setClaimed : (m.setClaimed c).fiber q = m.fiber q := rfl
@[simp] theorem sides_give : (m.give p op).sides = m.sides := rfl
@[simp] theorem side_give : (m.give p op).side q = m.side q := rfl
@[simp] theorem lock_give : (m.give p op).lock = m.lock.update p (fun x => { x with program := [op] }) := rfl
@[simp] theorem waitable_give : (m.give p op).waitable = m.waitable := rfl
@[simp] theorem inner_give : (m.give p op).inner = m.inner := rfl
@[simp] theorem claimed_give : (m.give p op).claimed = m.claimed := rfl

@[simp] theorem fiber_give : (m.give p op).fiber q = m.fiber q := by
  unfold fiber give
  by_cases hq : q = p
  · subst hq
    by_cases hp : q < m.lock.parties.length
    · simp [hp]
    · simp [Contention.party_update, hp]
  · simp [hq]

end Access

/-- A step of party `p` outside the user mutex: none while it is blocked or has nothing left
to do. -/
def sideStep (m : Monitor) (p : Nat) : Option Monitor :=
  let x := m.side p
  let fiber := m.fiber p
  match x.stage with
  | .idle =>
    match x.program with
    | [] => none
    | .mutex op :: rest => some ((m.give p op).updateSide p (fun x => { x with program := rest }))
    | .wait guarded timed :: rest =>
      some (m.updateSide p (fun x => { x with program := rest, stage := .enter, guarded, timed }))
    | .waitBelow n :: rest =>
      -- the condition is read under the guard; the operation stays in front while it holds
      if m.lock.mutex.value < n then
        some (m.updateSide p (fun x => { x with stage := .enter, guarded := true, timed := false }))
      else some (m.updateSide p (fun x => { x with program := rest }))
    | .notify kind :: rest =>
      some (m.updateSide p (fun x => { x with program := rest, stage := .notify kind }))
  | .enter =>
    if m.inner.isNone then
      let m' := (m.setInner (some p))
      let m' := if x.guarded then m'.give p .unlock else m'
      match m.waitable.add p with
      | (w, true) =>
        some (((m'.setWaitable w).setClaimed (m.claimed.erase p)).updateSide p
          (fun x => x.fresh (fiber && x.timed)))
      | (_, false) =>
        some (m'.updateSide p (fun x => { x with stage := .release false, linked := false }))
    else none
  | .release queued =>
    let m := m.setInner none
    if queued then some (m.updateSide p (fun x => { x with stage := .sleep }))
    else some (m.relock p true)
  | .sleep =>
    match x.consume fiber with
    | some x' =>
      if fiber && x.timed then some (m.updateSide p (fun _ => { x' with stage := .gone }))
      else some ((m.updateSide p (fun _ => x')).relock p true)
    | none =>
      -- a thread's deadline may pass whenever no wake has arrived
      if !fiber && x.timed then some (m.updateSide p (fun x => { x with stage := .retract }))
      else none
  | .retract =>
    if m.inner.isNone then
      match Waitable.claim m.claimed p with
      | (claimed, true) =>
        some ((((m.setClaimed claimed).setWaitable (m.waitable.remove p).1).updateSide p
          (fun x => x.claim true)).relock p false)
      | (_, false) => some (m.updateSide p (fun x => { x with stage := .drain }))
    else none
  | .drain =>
    match x.consume fiber with
    | some x' => some ((m.updateSide p (fun _ => x')).relock p true)
    | none => none
  | .gone =>
    -- blocked while the callback holds the waiter-gone lock
    if x.timer == .check then none
    else some (m.updateSide p (fun x => { x with gone := true, stage := .disarm }))
  | .disarm =>
    let m := m.updateSide p (fun x => { x with timer := (if x.timer == .armed then .off else x.timer) })
    if x.timedOut then some (m.updateSide p (fun x => { x with stage := .withdraw }))
    else some (m.relock p true)
  | .withdraw =>
    if m.inner.isNone then some ((m.setWaitable (m.waitable.remove p).1).relock p false)
    else none
  | .relock r => some (m.updateSide p (fun x => { x with stage := .idle, result := some r }))
  | .notify kind =>
    if m.inner.isNone then
      let (w, claimed, ws) := kind.apply m.waitable m.claimed
      some ((((m.setWaitable w).setClaimed claimed).claimAll ws).updateSide p
        (fun x => { x with stage := .wake ws }))
    else none
  | .wake [] => some (m.updateSide p (fun x => { x with stage := .idle }))
  | .wake (q :: ws) => some ((m.deliver q).updateSide p (fun x => { x with stage := .wake ws }))

/-- A step of the timeout callback of party `p`'s current wait. -/
def timerStep (m : Monitor) (p : Nat) : Option Monitor :=
  let x := m.side p
  match x.timer with
  | .off => none
  | .armed => some (m.updateSide p (fun x => { x with timer := .check }))
  | .check =>
    if x.gone then some (m.updateSide p (fun x => { x with timer := .off }))
    else
      match Waitable.claim m.claimed p with
      | (claimed, true) =>
        some ((m.setClaimed claimed).updateSide p
          (fun x => { x.claim true with timer := .wakeUp, timedOut := true }))
      | (_, false) => some (m.updateSide p (fun x => { x with timer := .off }))
  | .wakeUp => some ((m.deliver p).updateSide p (fun x => { x with timer := .off }))

/-- One atomic step of an actor: none while it is blocked or has nothing to do. A party in
the middle of an operation on the user mutex takes the mutex's step. -/
def step (m : Monitor) : Turn → Option Monitor
  | .party p => if m.busy p then (m.lock.step p).map m.setLock else m.sideStep p
  | .timer p => m.timerStep p

/-- The state after an actor's turn: unchanged while it is blocked. -/
def next (m : Monitor) (a : Turn) : Monitor := (m.step a).getD m

/-- The state after the turns of a schedule. -/
def run (m : Monitor) (schedule : List Turn) : Monitor := schedule.foldl next m

end Monitor

end Fibers
