import Fibers.World.Wait
/-!
# Timers inside the world

Each group's timer thread runs the timers of its group. A timer is created with a callback
and enabled by the thread that wants it; the timer thread collects enabled timers, fires
those that are due in order of expiry, and puts a periodic one back with its period added.

The callbacks are those the runtime needs: setting a private event (sleeps and timed
events), the timeout of a timed fiber wait, and a timer that counts its calls.

* A timeout does nothing once its waiter has moved on. Otherwise it claims the waiter's
  block; if that claim is the first, it marks the wait as timed out and wakes the waiter.
* A counting timer sets its event once its calls reach `limit`; a periodic one then also
  removes itself.
* A timer thread that panics re-arming a timer fires nothing more.
-/

namespace Fibers

namespace World

/-- Nanoseconds in `ms` milliseconds. -/
def millis (ms : Nat) : Nat := ms * nanosPerMilli

/-- The instant `ms` milliseconds from now on a timer thread's clock. That clock counts
nanoseconds since its epoch in a 64-bit word, so an instant past `2^64` wraps around. -/
def timerDeadline (w : World) (ms : Nat) : Nat := (w.now + millis ms) % Nat.pow 2 64

/-- Replaces the timer thread of a group. -/
def setTimerThread (w : World) (g : Nat) (tt : TimerThread) : World :=
  w.modifyGroup g (fun gs => { gs with timer := tt })

/-- Creates a timer of group `g` and enables it from thread `producer`. -/
def armTimer (w : World) (g producer expiresAt : Nat) (interval : Option Nat) (cb : Callback) :
    Except Abort (World × Nat) := do
  let (w, t) := w.newTimer g expiresAt interval cb
  let (tt, timers) ← (w.group g).timer.enable w.timers producer t
  return ({ w.setTimerThread g tt with timers }, t)

/-- Runs the callback of timer `t`: the chores of the wakes it causes. -/
def fire (w : World) (t : Nat) : World × List Chore :=
  match w.callbacks.getD t (.setEvent 0) with
  | .setEvent e => w.setEvent e
  | .timeout r =>
    let record := w.timeouts.getD r default
    if record.gone then (w, [])
    else
      match w.claim record.block with
      | (w, true) =>
        let w := { w with timeouts := w.timeouts.modify r (fun x => { x with timedOut := true }) }
        (w, w.wakes [record.block])
      | (w, false) => (w, [])
  | .tally c =>
    let tl := w.tallies.getD c default
    let calls := tl.calls + 1
    let w := { w with tallies := w.tallies.modify c (fun x => { x with calls }) }
    if tl.limit ≤ calls then
      let w := if tl.periodic then w.cancelTimer tl.timer else w
      w.setEvent tl.event
    else (w, [])

/-- The timers of group `g` not removed, waiting to be collected or collected; none once the
group's timer thread has died. -/
def pendingExpiries (w : World) (g : Nat) : List Nat :=
  let tt := (w.group g).timer
  if tt.halted then [] else
  let queued := (tt.producers.map Prod.snd).flatten.filter (fun i => !w.timers.isCancelled i)
  queued.map (fun i => (w.timers.get i).expiresAt) ++
    ((tt.heap.filter (fun p => !w.timers.isCancelled p.timer)).map Pending.expiresAt)

/-- The earliest expiry among a group's pending timers. -/
def nextExpiry (w : World) (g : Nat) : Option Nat := (w.pendingExpiries g).min?

/-- Whether a timer of group `g` is due. -/
def timerDue (w : World) (g : Nat) : Bool := (w.pendingExpiries g).any (· ≤ w.now)

/-- One action of a group's timer thread: a chore, or else the firing of the next due timer. -/
def timerStep (w : World) (g : Nat) : World :=
  match (w.group g).timerChores with
  | _ :: _ => w.choreStep (.timer g)
  | [] =>
    let (tt, p) := ((w.group g).timer.collect w.timers).popDue w.timers w.now
    let w := w.setTimerThread g tt
    match p with
    | none => w
    | some p =>
      let (w, cs) := w.fire p.timer
      -- a re-arm past the word panics the timer thread after the callback has run
      let tt := match (w.group g).timer.rearm w.timers p with
        | .ok tt => tt
        | .error _ => { (w.group g).timer with halted := true }
      (w.setTimerThread g tt).addChores (.timer g) cs

end World

end Fibers
