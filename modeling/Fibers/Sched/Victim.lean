/-!
# Foreign-steal schedules

A worker with foreign groups to steal from keeps a schedule of them. Every steal attempt is
one tick of the schedule's clock. A group registered with ratio `n` is tried on every `n`-th
tick: when it is tried at tick `t`, it is next due at `t + n`. It is first due one tick after
registration plus an offset below `n`, which spreads the workers of a group apart.

On a tick the due groups are tried, earliest due first and, among equally due ones, the one
registered first, until one of them gives up an entity; a group is tried at most once a tick
because trying it moves its due tick past the clock.
-/

namespace Fibers

/-- A foreign group in a steal schedule. -/
structure Victim where
  group : Nat
  /-- Ticks between two tries, at least one. -/
  every : Nat
  /-- The tick at which it is tried next. -/
  due : Nat
  deriving Inhabited, DecidableEq, Repr

/-- The steal schedule of one worker. -/
structure VictimQueue where
  victims : List Victim := []
  clock : Nat := 0
  deriving Inhabited, BEq, Repr

namespace VictimQueue

/-- Registers group `group` with ratio `every`, first due `offset` ticks after the next one. -/
def add (q : VictimQueue) (group every offset : Nat) : VictimQueue :=
  let every := max every 1
  { q with victims := q.victims ++ [{ group, every, due := q.clock + offset % every + 1 }] }

/-- Whether no group is registered. -/
def isEmpty (q : VictimQueue) : Bool := q.victims.isEmpty

/-- One steal attempt starts: the clock moves on. -/
def tick (q : VictimQueue) : VictimQueue := { q with clock := q.clock + 1 }

/-- The earliest due tick of a list of victims. -/
def earliest : List Victim → Option Nat
  | [] => none
  | v :: rest =>
    match earliest rest with
    | some d => some (min v.due d)
    | none => some v.due

/-- The position of the victim tried next, if one is due at the current tick. -/
def nextDue (q : VictimQueue) : Option Nat :=
  match earliest q.victims with
  | some d => if d ≤ q.clock then q.victims.findIdx? (fun v => v.due == d) else none
  | none => none

/-- The victim at a position is tried now: it is next due `every` ticks later. -/
def reschedule (q : VictimQueue) (i : Nat) : VictimQueue :=
  { q with victims := q.victims.modify i (fun v => { v with due := q.clock + v.every }) }

/-- The group of the victim at a position. -/
def groupAt (q : VictimQueue) (i : Nat) : Nat := (q.victims.getD i default).group

/-- Drops the victim at a position: its group no longer exists. -/
def drop (q : VictimQueue) (i : Nat) : VictimQueue :=
  { q with victims := q.victims.eraseIdx i }

/-! ## The steal loop, with every choice it leaves open

After the tick, the loop pops the earliest due victim until a group gives up an entity or no
victim is due; a victim whose group no longer exists is dropped. Which of several equally due
victims the heap hands out first is not fixed, and what a group answers depends on the rest of
the runtime, so the loop is stated here as a relation over all of these choices. The world's
steal makes one of them: the first registered among the earliest, and groups that never
vanish. -/

/-- What the group of a popped victim answers. -/
inductive Reply where
  /-- The group no longer exists: the victim is dropped. -/
  | gone
  /-- The group gave nothing: the loop goes on. -/
  | empty
  /-- An entity was taken from the group: the loop returns it. -/
  | stolen
  deriving DecidableEq, Repr

/-- The queue after the victim at position `i` is popped and its group answers. -/
def answer (q : VictimQueue) (i : Nat) : Reply → VictimQueue
  | .gone => q.drop i
  | .empty | .stolen => q.reschedule i

/-- Position `i` holds `v`, which the heap may hand out now: `v` is due and no victim is due
earlier. -/
def Top (q : VictimQueue) (i : Nat) (v : Victim) : Prop :=
  q.victims[i]? = some v ∧ v.due ≤ q.clock ∧ ∀ w ∈ q.victims, v.due ≤ w.due

/-- No victim is due: the loop returns nothing. -/
def Idle (q : VictimQueue) : Prop := ∀ v ∈ q.victims, q.clock < v.due

/-- One round of the loop pops the victim `e.1`, and its group answers `e.2`. -/
def Round (q : VictimQueue) (e : Victim × Reply) (q' : VictimQueue) : Prop :=
  ∃ i, q.Top i e.1 ∧ q' = q.answer i e.2

/-- Rounds of the loop that do not return: each group is gone or gives nothing. -/
inductive Rounds : VictimQueue → List (Victim × Reply) → VictimQueue → Prop
  | nil (q : VictimQueue) : Rounds q [] q
  | cons {q q₁ q' : VictimQueue} {e : Victim × Reply} {rs : List (Victim × Reply)} :
      Round q e q₁ → e.2 ≠ .stolen → Rounds q₁ rs q' → Rounds q (e :: rs) q'

/-- A whole loop after the tick: rounds that find nothing, then the return, either because no
victim is due or after a round that stole an entity. -/
def Loop (q : VictimQueue) (rs : List (Victim × Reply)) (q' : VictimQueue) : Prop :=
  (Rounds q rs q' ∧ q'.Idle) ∨
    ∃ rs₀ q₀ v, rs = rs₀ ++ [(v, .stolen)] ∧ Rounds q rs₀ q₀ ∧ Round q₀ (v, .stolen) q'

/-- One steal attempt: without victims nothing happens, else the clock ticks and the loop
runs. -/
def Steal (q : VictimQueue) (rs : List (Victim × Reply)) (q' : VictimQueue) : Prop :=
  if q.isEmpty then rs = [] ∧ q' = q else Loop q.tick rs q'

/-- Steal attempts one after another, each with the rounds of its loop. -/
inductive Steals : VictimQueue → List (List (Victim × Reply)) → VictimQueue → Prop
  | nil (q : VictimQueue) : Steals q [] q
  | cons {q q₁ q' : VictimQueue} {rs : List (Victim × Reply)}
      {rss : List (List (Victim × Reply))} :
      Steal q rs q₁ → Steals q₁ rss q' → Steals q (rs :: rss) q'

end VictimQueue

end Fibers
