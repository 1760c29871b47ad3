import Fibers.World.Clock
/-!
# Creating and ending fibers

A spawn creates a description: the body, the attributes, the group it is placed in and,
when somebody may join it, an exit barrier of count one. A worker that takes a description
gives it a stack from the pool, on the worker's own thread; the first run of a group-local
fiber makes the running worker its home. When a fiber returns, its stack goes back to the
pool from the worker's thread, the live count drops, and its exit barrier is counted down.
-/

namespace Fibers

namespace World

/-- The delay before a failed stack allocation is tried again: 1 ms. -/
def stackRetryDelay : Nat := 1000000

/-- The delay before attempt `n + 1` of a joinable spawn: 100 µs doubled up to six times. -/
def attemptDelay (n : Nat) : Nat := 100000 * Nat.pow 2 (min n 6)

/-- Attempts of a joinable spawn before it reports an overflowing run queue. -/
def attempts : Nat := 16

/-- The tasks of a new fiber running body `d`. -/
def bodyTasks (w : World) (d : Nat) : List Task :=
  (w.scenario.body d).map Task.step ++ [.finish]

/-- Describes a fiber running body `d` in group `g`, joinable or not. -/
def describe (w : World) (d g : Nat) (groupLocal reactor joinable : Bool) : World × Nat :=
  let (w, latch) := if joinable then
      let (w, b) := w.newLatch 1
      (w, some b)
    else (w, none)
  let f : FiberRec := { body := d, groupLocal, reactor, latch, group := g, tasks := w.bodyTasks d }
  ({ w with fibers := w.fibers ++ [f] }, w.fibers.length)

/-- Gives fiber `f` a stack on worker `k`'s thread, recording the fiber as the stack's owner:
false when none could be had. -/
def instantiate (w : World) (k f : Nat) : Except Abort (World × Bool) :=
  match w.pool.allocate (w.worker k).thread with
  | (_, .error a) => .error a
  | (p, .ok none) => .ok ({ w with pool := p }, false)
  | (p, .ok (some s)) =>
    let (p, s) := p.setOwner s (some f)
    .ok ({ w with pool := p }.modifyFiber f (fun x => { x with stack := some s }), true)

/-- Worker `k` starts running fiber `f`: it becomes the fiber's group, and the home of a
group-local fiber that has none. -/
def takeOn (w : World) (k f : Nat) : World :=
  let x := w.worker k
  let w := w.modifyFiber f (fun r =>
    { r with group := x.group,
             home := if r.groupLocal ∧ r.home.isNone then some x.index else r.home })
  w.modifyWorker k (fun x => { x with phase := .fiber f })

/-- Fiber `f` has returned on worker `k`: its stack goes back, the live count drops, and its
exit barrier is counted down. -/
def retire (w : World) (k f : Nat) : Except Abort World := do
  let r := w.fiber f
  let pool := match r.stack with
    | some s => w.pool.deallocate (w.worker k).thread s
    | none => w.pool
  let w := { w with pool, live := w.live - 1 }
  match r.latch with
  | some b =>
    let (w, cs) ← w.countDownLatch b
    return w.addChores (.worker k) cs
  | none => return w

end World

end Fibers
