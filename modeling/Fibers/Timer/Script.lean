import Fibers.Timer.Basic
/-!
# A batch of timers on one timer thread

Timers are set up one after another: each spec is checked, its last planned firing is
added to the horizon, and the timer is created, enabled and then released: detached,
removed at once, kept for its own callback, never enabled, or dropped (which aborts). A
spec that cannot be read stops the batch at its turn. Only then does the timer thread
start, and it runs until a horizon past every timer's last planned firing. Each callback
records its timer; a kept timer removes itself on its `fireLimit`-th call.

Expiries count from the timer epoch; the batch starts `epochLead` nanoseconds after it, and
an instant before the epoch counts as the epoch itself. Instants and the horizon are
computed in signed 64-bit milliseconds, where a negation, product or sum past the word
panics; an interval or firing limit is a word, which this arithmetic reads as signed, so
the words from `2^63` on count as negative.
-/

namespace Fibers

/-- What happens to a timer's handle after it is enabled. -/
inductive TimerRelease where
  | detach
  | remove
  /-- The handle goes to the timer's own callback. -/
  | keep
  /-- The timer is never enabled, then detached. -/
  | neverEnabled
  /-- The handle is dropped unreleased, which aborts. -/
  | drop
  deriving Inhabited, BEq, DecidableEq, Repr

/-- One timer of a batch. -/
structure TimerSpec where
  /-- Milliseconds after the start of the batch; negative is before it. -/
  atMs : Int
  intervalMs : Option Nat := none
  fireLimit : Option Nat := none
  enables : Nat := 1
  /-- Enable on a timer thread other than the creator. -/
  wrongWorker : Bool := false
  release : TimerRelease := .detach
  deriving Inhabited, Repr

/-- Why a batch gives no answer: a spec it refuses, with the reason, or an abort. -/
inductive TimerStop where
  | refused (reason : String)
  | abort (a : Abort)
  deriving Inhabited, BEq

/-- What a batch shows: the timers in firing order, and the callbacks started. -/
structure TimerBatch where
  fired : List Nat
  count : Nat
  deriving Inhabited, Repr

namespace TimerBatch

/-- Nanoseconds from the epoch to the start of a batch. -/
def epochLead : Nat := 1000

/-- The fatal text of a dropped handle. -/
def droppedHandle : Abort := .fatal "timer dropped without remove_timer or detach_timer"

/-- The largest signed 64-bit integer. -/
def int64Max : Int := Nat.pow 2 63 - 1

/-- The smallest signed 64-bit integer. -/
def int64Min : Int := -(Nat.pow 2 63 : Int)

/-- Milliseconds the timer thread runs past the last planned firing. -/
def slackMs : Nat := 60

/-- The expiry of a timer planned `atMs` after the start, as a 64-bit count of nanoseconds
since the epoch, which wraps past the word. An instant before the start is the start minus
the magnitude of `atMs`, which the most negative word does not have; an instant before the
epoch counts as the epoch. -/
def expiryOf (atMs : Int) : Except Abort Nat :=
  if atMs = int64Min then .error Abort.negateOverflow
  else if atMs < 0 then .ok 0
  else .ok ((atMs.toNat * nanosPerMilli + epochLead) % Nat.pow 2 64)

/-- A word read as a signed 64-bit integer. -/
def signed (w : Nat) : Int := if w < Nat.pow 2 63 then w else (w : Int) - (Nat.pow 2 64 : Int)

/-- Whether an integer is a signed 64-bit integer. -/
def fits (x : Int) : Bool := int64Min ≤ x ∧ x ≤ int64Max

/-- Milliseconds after the start by which a timer's planned firings are done: its instant,
not before the start, plus its interval times its firing limit. -/
def lastFiringMs (s : TimerSpec) : Except Abort Int := do
  let span := signed (s.intervalMs.getD 0) * signed (s.fireLimit.getD 0)
  if !fits span then throw Abort.multiplyOverflow
  let last := max s.atMs 0 + span
  if !fits last then throw Abort.addOverflow
  return last

/-- Milliseconds after the start of the batch by which every planned firing is due, with
the slack added, from the latest of the last firings. -/
def horizonMs (latest : Int) : Except Abort Nat := do
  let horizon := max latest 0 + slackMs
  if !fits horizon then throw Abort.addOverflow
  return horizon.toNat

/-- Creates, enables and releases the next timer of the batch. -/
def setUp (state : TimerTable × TimerThread × TimerThread) (s : TimerSpec) :
    Except Abort (TimerTable × TimerThread × TimerThread) := do
  let (table, home, other) := state
  let expiry ← expiryOf s.atMs
  let (table, id) := table.create home.id expiry (s.intervalMs.map periodNanos)
  let enables := if s.release = .neverEnabled then 0 else s.enables
  let (table, home, other) ← (List.range enables).foldlM (fun (table, home, other) _ =>
    if s.wrongWorker then do
      let (other, table) ← other.enable table 0 id
      return (table, home, other)
    else do
      let (home, table) ← home.enable table 0 id
      return (table, home, other)) (table, home, other)
  match s.release with
  | .remove => return (table.cancel id, home, other)
  | .drop => throw droppedHandle
  | _ => return (table, home, other)

/-- Fires due timers in order while fuel lasts, or until a re-arm panics the timer thread;
each callback records its timer and a kept timer removes itself at its limit. -/
def fireAll (specs : List TimerSpec) (now : Nat) :
    Nat → TimerTable × TimerThread × List Nat → List Nat → TimerTable × TimerThread × List Nat
  | 0, state, _ => state
  | fuel + 1, (table, w, fired), calls =>
    match w.popDue table now with
    | (w, none) => (table, w, fired)
    | (w, some p) =>
      let s := specs.getD p.timer default
      let n := calls.getD p.timer 0 + 1
      let calls := calls.set p.timer n
      let table := if s.release = .keep ∧ s.fireLimit = some n then table.cancel p.timer else table
      match w.rearm table p with
      | .ok w => fireAll specs now fuel (table, w, fired ++ [p.timer]) calls
      -- a re-arm past the word panics the timer thread: nothing fires after it
      | .error _ => (table, w, fired ++ [p.timer])

end TimerBatch

namespace TimerBatch

/-- What the set-up has built so far: the specs taken, the latest last firing, the timer
table, the timer thread and the second thread used for enabling elsewhere. -/
structure Progress where
  specs : List TimerSpec := []
  latest : Int := 0
  table : TimerTable := {}
  home : TimerThread := { id := 0 }
  other : TimerThread := { id := 1 }

/-- Takes the next spec of the batch: refuses it, or adds its last firing to the horizon
and sets its timer up. -/
def take (p : Progress) : Except String TimerSpec → Except TimerStop Progress
  | .error reason => .error (.refused reason)
  | .ok s => do
    let last ← (lastFiringMs s).mapError .abort
    let (table, home, other) ← (setUp (p.table, p.home, p.other) s).mapError .abort
    return { specs := p.specs ++ [s], latest := max p.latest last, table, home, other }

end TimerBatch

/-- Runs a batch: set-up in order, then the timer thread until the horizon. -/
def runTimerBatch (requests : List (Except String TimerSpec)) : Except TimerStop TimerBatch := do
  let p ← requests.foldlM TimerBatch.take {}
  let specs := p.specs
  let table := p.table
  let home := p.home.collect table
  let horizon ← (TimerBatch.horizonMs p.latest).mapError .abort
  let now := horizon * nanosPerMilli + TimerBatch.epochLead
  let fuel := (specs.map (fun s => s.fireLimit.getD 1)).foldr (· + ·) 0 + specs.length + 1
  let (_, w, fired) := TimerBatch.fireAll specs now fuel (table, home, [])
    (List.replicate specs.length 0)
  return ⟨fired, w.fired⟩

end Fibers
