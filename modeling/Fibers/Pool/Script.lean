import Fibers.Pool.Basic
/-!
# Pool scripts

A script drives one pool from several threads: allocations, frees of earlier allocations,
thread exits and size queries. Thread 0 is the script's own thread, which does not end: its
exit does nothing. Allocations are numbered from 0 as they succeed, and carved
stacks are named `0, 1, 2, …` in the order they are first handed out, so two allocations
with one name got the same stack.
-/

namespace Fibers

/-- One command of a pool script. -/
inductive PoolCommand where
  /-- Thread `t` allocates. -/
  | alloc (t : Nat)
  /-- Thread `t` frees allocation `k`; a free that names no allocation frees nothing. -/
  | free (k : Option Nat) (t : Nat)
  /-- Thread `t` ends, unless it is thread 0. -/
  | exit (t : Nat)
  /-- The stack size is read. -/
  | stats
  deriving Inhabited, Repr

/-- What a command shows. -/
inductive PoolShow where
  /-- Allocation `k` got a stack, with this header; `name` for a pool stack. -/
  | allocated (k : Nat) (origin : StackOrigin) (name : Option Nat) (header : StackHeader)
  /-- No stack could be had. -/
  | refused
  /-- A free or an exit. -/
  | done
  /-- The stack size. -/
  | stackSize (n : Nat)
  /-- The freed allocation is not live. -/
  | notLive
  /-- The command panicked. -/
  | aborted (a : Abort)
  deriving Inhabited

/-- One line of a script's result: what the command shows, and the pool's counts after it. -/
structure PoolLine where
  shows : PoolShow
  outstanding : Nat
  created : Nat
  deriving Inhabited

/-- A script in progress. -/
structure PoolRun where
  pool : Pool
  /-- Live allocations by number. -/
  live : List (Nat × PoolStack)
  /-- Allocations so far. -/
  allocations : Nat
  /-- Names of the carved stacks handed out so far. -/
  names : List (Nat × Nat)
  deriving Inhabited

namespace PoolRun

/-- The name of a carved stack, given now if it has none. -/
def nameOf (r : PoolRun) (slot : Nat) : PoolRun × Nat :=
  match r.names.lookup slot with
  | some n => (r, n)
  | none => ({ r with names := Keyed.set slot r.names.length r.names }, r.names.length)

/-- Runs one command. -/
def step (r : PoolRun) : PoolCommand → PoolRun × PoolShow
  | .alloc t =>
    match r.pool.allocate t with
    | (p, .error a) => ({ r with pool := p }, .aborted a)
    | (p, .ok none) => ({ r with pool := p }, .refused)
    | (p, .ok (some s)) =>
      let k := r.allocations
      let r := { r with pool := p, live := Keyed.set k s r.live, allocations := k + 1 }
      match s with
      | .system st => (r, .allocated k .system none st.header)
      | .slot i =>
        let (r, n) := r.nameOf i
        (r, .allocated k .pool (some n) (p.header i))
  | .free none _ => (r, .notLive)
  | .free (some k) t =>
    match r.live.lookup k with
    | none => (r, .notLive)
    | some s => ({ r with pool := r.pool.deallocate t s, live := Keyed.erase k r.live }, .done)
  | .exit t => if t = 0 then (r, .done) else ({ r with pool := r.pool.exitThread t }, .done)
  | .stats => (r, .stackSize r.pool.usable)

/-- Runs commands in order, one line each. -/
def run (r : PoolRun) : List PoolCommand → List PoolLine
  | [] => []
  | c :: rest =>
    let (r, shows) := r.step c
    ⟨shows, r.pool.outstanding, r.pool.created⟩ :: run r rest

end PoolRun

/-- The lines of a script on a new pool; a panic while creating the pool ends it. -/
def runPoolScript (k : Kernel) (stackSize : Nat) (guardPage : Bool) (limit : Nat)
    (commands : List PoolCommand) : Except Abort (List PoolLine) := do
  let pool ← Pool.create k stackSize guardPage limit
  return PoolRun.run ⟨pool, [], 0, []⟩ commands

end Fibers
