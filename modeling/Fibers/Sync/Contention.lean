import Fibers.Sync.Mutex
/-!
# A mutex at the grain of its atomic steps

`Mutex.lock` and `Mutex.unlock` change the mutex in one step. Underneath, each is a short
run of atomic steps, and other parties act between them:

* locking first tries to move the count from 0 to 1. Failing that, the party takes the
  mutex's internal lock and counts itself in; when others were counted before it, it queues
  its wait block, releases the internal lock and waits until a hand-off wakes it;
* unlocking counts the party out. When others are still counted, it takes the internal
  lock, claims the first queued block, releases the internal lock, and only then wakes that
  waiter, which owns the mutex from the claim on.

A party is a fiber or a thread. A thread waits on a wait slot that counts the wakes
delivered to it; a fiber is suspended and goes on once it is resumed. A party's wait block
is named by the party's number. Every wait uses a fresh block and a fresh wake-up, so
queueing clears the party's old claim and wake-up.

A party runs a program of operations on the mutex and on the value it guards; reading and
writing the value need a guard, as the guard is the only way to reach it. A contention runs
by a schedule: at each turn the party named takes one atomic step, or none while it is
blocked.
-/

namespace Fibers

/-- Where a party stands between two of its atomic steps on the mutex. -/
inductive LockStage where
  /-- Between operations. -/
  | idle
  /-- The fast path failed: about to take the internal lock. -/
  | slow
  /-- Holds the internal lock: about to count itself in. -/
  | count
  /-- Counted in as the only contender: about to release the internal lock, owning. -/
  | enter
  /-- Counted in behind others: about to queue its wait block. -/
  | queue
  /-- Queued: about to release the internal lock. -/
  | park
  /-- Waiting for the hand-off. -/
  | sleep
  /-- Counted out while others are counted: about to take the internal lock. -/
  | handoff
  /-- Holds the internal lock: about to claim the first queued waiter. -/
  | pop
  /-- About to release the internal lock, with the waiter it claimed, if any. -/
  | unpin (b : Option Nat)
  /-- About to wake the waiter it claimed. -/
  | wake (b : Nat)
  deriving Inhabited, BEq, DecidableEq, Repr

namespace LockStage

/-- The stages in which a party holds the internal lock. -/
def holdsInner : LockStage → Bool
  | .count | .enter | .queue | .park | .pop | .unpin _ => true
  | _ => false

/-- The stages in which a party is counted in without owning: it passed the count and was
not first. -/
def counted : LockStage → Bool
  | .queue | .park | .sleep => true
  | _ => false

end LockStage

/-- An operation of a party's program. -/
inductive MutexOp where
  | lock
  | tryLock
  /-- Drops the guard, when one is held. -/
  | unlock
  /-- Remembers the guarded value. -/
  | read
  | yield
  /-- Stores the remembered value plus one. -/
  | write
  deriving Inhabited, BEq, DecidableEq, Repr

/-- How a waiter learns that its wait is over: a thread's wait slot counts the wakes
delivered to it, a suspended fiber is resumed. -/
structure Wakeup where
  slot : WaitSlot := {}
  resumed : Bool := false
  deriving Inhabited, Repr

namespace Wakeup

variable (fiber : Bool)

/-- Whether a wake has been delivered and not yet consumed. -/
def woken (w : Wakeup) : Bool :=
  if fiber then w.resumed else w.slot.persistent || decide (0 < w.slot.wakeups)

/-- Delivers a wake: a fiber is resumed, a thread's slot counts one more wake. -/
def deliver (w : Wakeup) : Wakeup :=
  if fiber then { w with resumed := true } else { w with slot := w.slot.wake }

/-- Consumes a delivered wake, when there is one. -/
def consume (w : Wakeup) : Option Wakeup :=
  if fiber then (if w.resumed then some { w with resumed := false } else none)
  else
    match w.slot.poll with
    | (slot, true) => some { w with slot }
    | (_, false) => none

variable {fiber}

@[simp] theorem woken_deliver (w : Wakeup) : (w.deliver fiber).woken fiber = true := by
  unfold deliver woken
  cases fiber <;> simp [WaitSlot.wake]

@[simp] theorem woken_default : (({} : Wakeup)).woken fiber = false := by
  cases fiber <;> rfl

/-- Only a delivered wake can be consumed. -/
theorem woken_of_consume {w w' : Wakeup} (h : w.consume fiber = some w') : w.woken fiber = true := by
  unfold consume at h
  unfold woken
  cases fiber
  · -- a thread: its slot's poll succeeded
    simp only [Bool.false_eq_true, if_false, WaitSlot.poll] at h ⊢
    by_cases hpers : w.slot.persistent <;> by_cases hw : 0 < w.slot.wakeups <;> simp_all
  · simp only [if_true] at h ⊢
    by_cases hres : w.resumed <;> simp_all

/-- A delivered wake can be consumed. -/
theorem consume_of_woken {w : Wakeup} (h : w.woken fiber = true) : ∃ w', w.consume fiber = some w' := by
  unfold consume
  unfold woken at h
  cases fiber
  · simp only [Bool.false_eq_true, if_false, WaitSlot.poll] at h ⊢
    by_cases hpers : w.slot.persistent <;> by_cases hw : 0 < w.slot.wakeups <;> simp_all
  · simp only [if_true] at h ⊢
    simp [h]

end Wakeup

/-- A party contending for the mutex. -/
structure Contender where
  /-- A fiber, rather than a thread. -/
  fiber : Bool
  program : List MutexOp
  stage : LockStage := .idle
  /-- Whether it holds a guard. -/
  owns : Bool := false
  /-- How its current wait for a hand-off ends. -/
  wakeup : Wakeup := {}
  /-- The value remembered by `read`. -/
  held : Int := 0
  deriving Inhabited, Repr

namespace Contender

/-- Whether the wake of its current wait has been delivered and not yet consumed. -/
def woken (x : Contender) : Bool := x.wakeup.woken x.fiber

/-- Delivers the wake of its current wait. -/
def deliver (x : Contender) : Contender := { x with wakeup := x.wakeup.deliver x.fiber }

/-- Consumes the wake of its wait, when there is one. -/
def consume (x : Contender) : Option Contender :=
  (x.wakeup.consume x.fiber).map (fun w => { x with wakeup := w })

@[simp] theorem stage_deliver (x : Contender) : x.deliver.stage = x.stage := rfl
@[simp] theorem owns_deliver (x : Contender) : x.deliver.owns = x.owns := rfl
@[simp] theorem program_deliver (x : Contender) : x.deliver.program = x.program := rfl
@[simp] theorem held_deliver (x : Contender) : x.deliver.held = x.held := rfl

@[simp] theorem woken_deliver (x : Contender) : x.deliver.woken = true :=
  Wakeup.woken_deliver x.wakeup

/-- Only a delivered wake can be consumed. -/
theorem woken_of_consume {x x' : Contender} (h : x.consume = some x') : x.woken = true := by
  unfold consume at h
  obtain ⟨w, hw, -⟩ := Option.map_eq_some_iff.mp h
  exact Wakeup.woken_of_consume hw

/-- Consuming a wake changes nothing but the wake itself. -/
theorem consume_keeps {x x' : Contender} (h : x.consume = some x') :
    x'.program = x.program ∧ x'.held = x.held := by
  unfold consume at h
  obtain ⟨w, -, rfl⟩ := Option.map_eq_some_iff.mp h
  exact ⟨rfl, rfl⟩

/-- A delivered wake can be consumed. -/
theorem consume_of_woken {x : Contender} (h : x.woken = true) : ∃ x', x.consume = some x' := by
  obtain ⟨w, hw⟩ := Wakeup.consume_of_woken h
  exact ⟨{ x with wakeup := w }, by simp [consume, hw]⟩

@[simp] theorem woken_with_stage (x : Contender) (k : LockStage) :
    { x with stage := k }.woken = x.woken := rfl

@[simp] theorem woken_with_stage_owns (x : Contender) (k : LockStage) (o : Bool) :
    { x with stage := k, owns := o }.woken = x.woken := rfl

/-- A fresh wait has no wake delivered. -/
@[simp] theorem woken_fresh (x : Contender) (k : LockStage) :
    { x with stage := k, wakeup := {} }.woken = false :=
  Wakeup.woken_default

@[simp] theorem stage_default : (default : Contender).stage = .idle := rfl
@[simp] theorem owns_default : (default : Contender).owns = false := rfl
@[simp] theorem program_default : (default : Contender).program = [] := rfl

end Contender

/-- A mutex and the parties contending for it. -/
structure Contention where
  mutex : Mutex := {}
  /-- The party holding the mutex's internal lock. -/
  inner : Option Nat := none
  /-- The claimed wait blocks. -/
  claimed : List Nat := []
  parties : List Contender
  deriving Inhabited

namespace Contention

/-- A contention of parties with these kinds (a fiber or not) and programs, before any
step. -/
def start (programs : List (Bool × List MutexOp)) : Contention :=
  { parties := programs.map (fun (fiber, program) => { fiber, program }) }

/-- Party `p`. -/
def party (s : Contention) (p : Nat) : Contender := s.parties.getD p default

/-- Changes party `p`. -/
def update (s : Contention) (p : Nat) (f : Contender → Contender) : Contention :=
  { s with parties := s.parties.modify p f }

section Access

variable {s : Contention} {p q : Nat} {f : Contender → Contender}

@[simp] theorem length_update : (s.update p f).parties.length = s.parties.length := by
  simp [update]

@[simp] theorem mutex_update : (s.update p f).mutex = s.mutex := rfl

@[simp] theorem inner_update : (s.update p f).inner = s.inner := rfl

@[simp] theorem claimed_update : (s.update p f).claimed = s.claimed := rfl

theorem party_eq_default (h : s.parties.length ≤ p) : s.party p = default := by
  simp [party, List.getD_eq_getElem?_getD, List.getElem?_eq_none h]

theorem party_update :
    (s.update p f).party q = if q = p ∧ p < s.parties.length then f (s.party p) else s.party q := by
  simp only [party, update, List.getD_eq_getElem?_getD, List.getElem?_modify]
  by_cases hq : q = p
  · subst hq
    by_cases hp : q < s.parties.length
    · simp [hp]
    · simp [hp]
  · simp [hq, Ne.symm hq]

@[simp] theorem party_update_self (hp : p < s.parties.length) :
    (s.update p f).party p = f (s.party p) := by
  simp [party_update, hp]

theorem party_update_eq (hp : p < s.parties.length) :
    (s.update p f).party q = if q = p then f (s.party p) else s.party q := by
  simp [party_update, hp]

@[simp] theorem party_update_ne (hq : q ≠ p) : (s.update p f).party q = s.party q := by
  simp [party_update, hq]

/-- Counting parties after one of them changed. -/
theorem countP_update (g : Contender → Bool) (hp : p < s.parties.length) :
    (s.update p f).parties.countP g + (if g (s.party p) then 1 else 0) =
      s.parties.countP g + (if g (f (s.party p)) then 1 else 0) := by
  have hget : s.party p = s.parties[p] := by
    simp [party, List.getD_eq_getElem?_getD, List.getElem?_eq_getElem hp]
  have hle := List.boole_getElem_le_countP (p := g) hp
  simp only [update, List.modify_eq_set, List.countP_set (by simpa using hp),
    List.getElem?_eq_getElem hp, Option.getD_some, hget]
  omega

end Access

/-- Moves party `p` to a stage. -/
def setStage (s : Contention) (p : Nat) (k : LockStage) : Contention :=
  s.update p (fun x => { x with stage := k })

section Stage

variable {s : Contention} {p r : Nat} {k : LockStage}

theorem party_setStage (hp : p < s.parties.length) :
    (s.setStage p k).party r = if r = p then { s.party p with stage := k } else s.party r := by
  unfold setStage
  by_cases h : r = p
  · subst h
    simp [hp]
  · simp [h]

@[simp] theorem length_setStage : (s.setStage p k).parties.length = s.parties.length := by
  simp [setStage]

@[simp] theorem mutex_setStage : (s.setStage p k).mutex = s.mutex := rfl

@[simp] theorem inner_setStage : (s.setStage p k).inner = s.inner := rfl

@[simp] theorem claimed_setStage : (s.setStage p k).claimed = s.claimed := rfl

end Stage

/-- Sets the count. -/
def setCount (s : Contention) (n : Nat) : Contention := { s with mutex := { s.mutex with count := n } }

/-- Sets the guarded value. -/
def setValue (s : Contention) (v : Int) : Contention := { s with mutex := { s.mutex with value := v } }

/-- Sets the mutex's queue. -/
def setWaiters (s : Contention) (w : Waitable) : Contention :=
  { s with mutex := { s.mutex with waiters := w } }

/-- Sets who holds the internal lock. -/
def setInner (s : Contention) (o : Option Nat) : Contention := { s with inner := o }

/-- Sets the claimed blocks. -/
def setClaimed (s : Contention) (c : List Nat) : Contention := { s with claimed := c }

section Setters

variable {s : Contention} {n : Nat} {v : Int} {w : Waitable} {o : Option Nat} {c : List Nat}
  {r : Nat}

@[simp] theorem party_setCount : (s.setCount n).party r = s.party r := rfl
@[simp] theorem party_setValue : (s.setValue v).party r = s.party r := rfl
@[simp] theorem party_setWaiters : (s.setWaiters w).party r = s.party r := rfl
@[simp] theorem party_setInner : (s.setInner o).party r = s.party r := rfl
@[simp] theorem party_setClaimed : (s.setClaimed c).party r = s.party r := rfl
@[simp] theorem parties_setCount : (s.setCount n).parties = s.parties := rfl
@[simp] theorem parties_setValue : (s.setValue v).parties = s.parties := rfl
@[simp] theorem parties_setWaiters : (s.setWaiters w).parties = s.parties := rfl
@[simp] theorem parties_setInner : (s.setInner o).parties = s.parties := rfl
@[simp] theorem parties_setClaimed : (s.setClaimed c).parties = s.parties := rfl
@[simp] theorem count_setCount : (s.setCount n).mutex.count = n := rfl
@[simp] theorem count_setValue : (s.setValue v).mutex.count = s.mutex.count := rfl
@[simp] theorem count_setWaiters : (s.setWaiters w).mutex.count = s.mutex.count := rfl
@[simp] theorem value_setCount : (s.setCount n).mutex.value = s.mutex.value := rfl
@[simp] theorem value_setValue : (s.setValue v).mutex.value = v := rfl
@[simp] theorem value_setWaiters : (s.setWaiters w).mutex.value = s.mutex.value := rfl
@[simp] theorem waiters_setCount : (s.setCount n).mutex.waiters = s.mutex.waiters := rfl
@[simp] theorem waiters_setValue : (s.setValue v).mutex.waiters = s.mutex.waiters := rfl
@[simp] theorem waiters_setWaiters : (s.setWaiters w).mutex.waiters = w := rfl
@[simp] theorem mutex_setInner : (s.setInner o).mutex = s.mutex := rfl
@[simp] theorem mutex_setClaimed : (s.setClaimed c).mutex = s.mutex := rfl
@[simp] theorem inner_setCount : (s.setCount n).inner = s.inner := rfl
@[simp] theorem inner_setValue : (s.setValue v).inner = s.inner := rfl
@[simp] theorem inner_setWaiters : (s.setWaiters w).inner = s.inner := rfl
@[simp] theorem inner_setInner : (s.setInner o).inner = o := rfl
@[simp] theorem inner_setClaimed : (s.setClaimed c).inner = s.inner := rfl
@[simp] theorem claimed_setCount : (s.setCount n).claimed = s.claimed := rfl
@[simp] theorem claimed_setValue : (s.setValue v).claimed = s.claimed := rfl
@[simp] theorem claimed_setWaiters : (s.setWaiters w).claimed = s.claimed := rfl
@[simp] theorem claimed_setInner : (s.setInner o).claimed = s.claimed := rfl
@[simp] theorem claimed_setClaimed : (s.setClaimed c).claimed = c := rfl

end Setters

/-- Party `p` starts the next operation of its program, `rest` being what follows it. -/
def begin (s : Contention) (p : Nat) (op : MutexOp) (rest : List MutexOp) : Contention :=
  let x := s.party p
  let s := s.update p (fun x => { x with program := rest })
  match op with
  | .lock =>
    if s.mutex.count = 0 then (s.setCount 1).update p (fun x => { x with owns := true })
    else s.setStage p .slow
  | .tryLock =>
    if s.mutex.count = 0 then (s.setCount 1).update p (fun x => { x with owns := true }) else s
  | .unlock =>
    if x.owns then
      let old := s.mutex.count
      let s := (s.setCount (old - 1)).update p (fun x => { x with owns := false })
      if old = 1 then s else s.setStage p .handoff
    else s
  | .read => if x.owns then s.update p (fun x => { x with held := s.mutex.value }) else s
  | .yield => s
  | .write => if x.owns then s.setValue (x.held + 1) else s

/-- One atomic step of party `p`: none while it is blocked or has nothing left to do. -/
def step (s : Contention) (p : Nat) : Option Contention :=
  let x := s.party p
  match x.stage with
  | .idle =>
    match x.program with
    | [] => none
    | op :: rest => some (s.begin p op rest)
  | .slow => if s.inner.isNone then some ((s.setInner (some p)).setStage p .count) else none
  | .count =>
    let old := s.mutex.count
    if old = 0 then
      some ((s.setCount (old + 1)).update p (fun x => { x with stage := .enter, owns := true }))
    else some ((s.setCount (old + 1)).setStage p .queue)
  | .enter => some ((s.setInner none).setStage p .idle)
  | .queue =>
    some (((s.setWaiters (s.mutex.waiters.add p).1).setClaimed (s.claimed.erase p)).update p
      (fun x => { x with stage := .park, wakeup := {} }))
  | .park => some ((s.setInner none).setStage p .sleep)
  | .sleep =>
    match x.consume with
    | some x' => some (s.update p (fun _ => { x' with stage := .idle, owns := true }))
    | none => none
  | .handoff => if s.inner.isNone then some ((s.setInner (some p)).setStage p .pop) else none
  | .pop =>
    let r := s.mutex.waiters.wakeOne s.claimed
    some (((s.setWaiters r.1).setClaimed r.2.1).setStage p (.unpin r.2.2))
  | .unpin b =>
    some ((s.setInner none).setStage p (match b with
      | some q => .wake q
      | none => .idle))
  | .wake q => some ((s.update q Contender.deliver).setStage p .idle)

/-- Only the parties there are can step. -/
theorem lt_of_step {s t : Contention} {p : Nat} (h : s.step p = some t) : p < s.parties.length := by
  rcases Nat.lt_or_ge p s.parties.length with hp | hp
  · exact hp
  · simp [step, party_eq_default hp] at h

/-- The state after party `p`'s turn: unchanged while it is blocked. -/
def next (s : Contention) (p : Nat) : Contention := (s.step p).getD s

/-- The state after the turns of a schedule. -/
def run (s : Contention) (schedule : List Nat) : Contention := schedule.foldl next s

/-- Whether no party can take a step. -/
def stuck (s : Contention) : Prop := ∀ p, s.step p = none

/-- Whether every program has run to its end. -/
def finished (s : Contention) : Bool :=
  s.parties.all (fun x => x.program.isEmpty && x.stage == .idle)

/-- The program of `k` rounds of locking, reading, yielding, writing the value read plus one
and unlocking. -/
def rounds (k : Nat) : List MutexOp :=
  (List.replicate k [MutexOp.lock, .read, .yield, .write, .unlock]).flatten

end Contention

end Fibers
