import Fibers.Error
/-!
# Timers

A timer has an expiry, in nanoseconds since the epoch, and an optional period. It is
created for one timer thread and enabled there once; enabling puts it in the enabling
thread's producer queue. The timer thread collects the producer queues, in the order the
producers first enabled a timer, and numbers each collected timer with the next sequence
number. Pending timers fire in order of expiry, ties going to the smaller sequence number.
A periodic timer is put back after firing with its period added and its sequence number
kept, unless it was removed meanwhile. A removed timer is dropped wherever it is found.

Expiries and periods are 64-bit words. A period added past the word panics the timer
thread, which then fires nothing more.
-/

namespace Fibers

/-- A timer. -/
structure TimerEntry where
  /-- The timer thread it belongs to. -/
  worker : Nat
  /-- Nanoseconds since the epoch. -/
  expiresAt : Nat
  /-- The period in nanoseconds, at least 1. -/
  interval : Option Nat
  cancelled : Bool := false
  enabled : Bool := false
  deriving Inhabited, BEq, Repr

/-- A collected timer waiting in the heap. -/
structure Pending where
  expiresAt : Nat
  seq : Nat
  timer : Nat
  deriving Inhabited, BEq, Repr

/-- The firing order: earlier expiry first, then the smaller sequence number. -/
def Pending.before (a b : Pending) : Bool :=
  a.expiresAt < b.expiresAt || (a.expiresAt == b.expiresAt && a.seq < b.seq)

/-- Inserts into a list kept in firing order. -/
def Pending.insert (p : Pending) : List Pending → List Pending
  | [] => [p]
  | q :: rest => if p.before q then p :: q :: rest else q :: Pending.insert p rest

/-- All timers, by number in order of creation. -/
structure TimerTable where
  entries : List TimerEntry := []
  deriving Inhabited

/-- The state of one timer thread. -/
structure TimerThread where
  id : Nat
  /-- Each producer's queue, in the order producers registered. -/
  producers : List (Nat × List Nat) := []
  /-- Collected timers in firing order. -/
  heap : List Pending := []
  /-- The last sequence number given. -/
  seq : Nat := 0
  /-- Callbacks started. -/
  fired : Nat := 0
  /-- Whether the thread died of a panic. -/
  halted : Bool := false
  deriving Inhabited

namespace TimerTable

/-- The timer of a number. -/
def get (t : TimerTable) (i : Nat) : TimerEntry := t.entries.getD i default

/-- Creates a timer for thread `worker`, giving its number. -/
def create (t : TimerTable) (worker expiresAt : Nat) (interval : Option Nat) :
    TimerTable × Nat :=
  ({ entries := t.entries ++ [{ worker, expiresAt, interval }] }, t.entries.length)

/-- Marks a timer removed. -/
def cancel (t : TimerTable) (i : Nat) : TimerTable :=
  { entries := t.entries.modify i (fun e => { e with cancelled := true }) }

/-- Whether a timer was removed. -/
def isCancelled (t : TimerTable) (i : Nat) : Bool := (t.get i).cancelled

end TimerTable

namespace TimerThread

/-- The fatal text of enabling on another thread. -/
def wrongThread : Abort := .fatal "timer enabled on a scheduling group other than its creator"

/-- The fatal text of a second enable. -/
def enabledTwice : Abort := .fatal "timer enabled twice"

/-- Producer `producer` enables timer `i` on this thread. -/
def enable (w : TimerThread) (t : TimerTable) (producer i : Nat) :
    Except Abort (TimerThread × TimerTable) :=
  let e := t.get i
  if e.worker ≠ w.id then .error wrongThread
  else if e.enabled then .error enabledTwice
  else
    let t := { entries := t.entries.modify i (fun e => { e with enabled := true }) }
    let producers := match w.producers.lookup producer with
      | some q => w.producers.map (fun (p, q') => if p = producer then (p, q ++ [i]) else (p, q'))
      | none => w.producers ++ [(producer, [i])]
    .ok ({ w with producers }, t)

/-- Moves every queued timer that is not removed into the heap, numbering them in order. -/
def collect (w : TimerThread) (t : TimerTable) : TimerThread :=
  let queued := (w.producers.map Prod.snd).flatten.filter (fun i => !t.isCancelled i)
  let (heap, seq) := queued.foldl (fun (heap, seq) i =>
    (Pending.insert ⟨(t.get i).expiresAt, seq + 1, i⟩ heap, seq + 1)) (w.heap, w.seq)
  { w with producers := w.producers.map (fun (p, _) => (p, [])), heap, seq }

/-- The earliest pending expiry, dropping removed timers from the front. -/
def nextExpiry (w : TimerThread) (t : TimerTable) : Option Nat :=
  (w.heap.find? (fun p => !t.isCancelled p.timer)).map Pending.expiresAt

/-- Takes the next timer due at `now`, dropping removed ones on the way; it counts as fired. -/
def popDue (w : TimerThread) (t : TimerTable) (now : Nat) : TimerThread × Option Pending :=
  let rec go : List Pending → List Pending × Option Pending
    | [] => ([], none)
    | p :: rest =>
      if p.expiresAt > now then (p :: rest, none)
      else if t.isCancelled p.timer then go rest
      else (rest, some p)
  let (heap, p) := go w.heap
  ({ w with heap, fired := if p.isSome then w.fired + 1 else w.fired }, p)

/-- After a firing: a periodic timer not removed goes back with its period added. The sum
is a word: past it, the timer thread panics. -/
def rearm (w : TimerThread) (t : TimerTable) (p : Pending) : Except Abort TimerThread :=
  match (t.get p.timer).interval with
  | some interval =>
    if t.isCancelled p.timer then .ok w
    else if p.expiresAt + interval < Nat.pow 2 64 then
      .ok { w with heap := Pending.insert { p with expiresAt := p.expiresAt + interval } w.heap }
    else .error Abort.addOverflow
  | none => .ok w

end TimerThread

/-- Nanoseconds in a millisecond. -/
def nanosPerMilli : Nat := 1000000

/-- The period of a timer in nanoseconds: the milliseconds as a 64-bit count, at least 1. -/
def periodNanos (ms : Nat) : Nat := max ((ms * nanosPerMilli) % Nat.pow 2 64) 1

/-- The handle text of a timer, its address hidden. -/
def timerHandleText : String := "TimerId(Some(0x_))"

end Fibers
