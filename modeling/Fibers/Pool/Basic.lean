import Fibers.Keyed
import Fibers.Stack.Basic
/-!
# The stack pool

A pool hands out fiber stacks of one size. Each thread keeps a cache of free stacks; an
empty cache is refilled with up to 32 stacks from the thread's shard, then from the other
shards in turn, and last from a new chunk of up to 32 freshly carved stacks, as long as
fewer than `limit` have been carved. A chunk is one mapping, started on a 4 MiB boundary and
cut into slots; a slot whose guard page the system does not protect is counted as carved but
left unused. When all of that yields nothing, the stack is a dedicated mapping. A freed pool stack goes back to the freeing thread's cache; a cache of
more than 64 stacks sends its 32 most recent ones to the thread's shard, and a thread that
ends sends its whole cache there.

A thread's shard is fixed the first time the thread needs one: threads take the shards
`0, 1, 2, …` in turn, modulo 8.

The headers of carved stacks lie in the pool's chunks, so the pool keeps them: carving stamps
them, the runtime records a stack's fiber there, and a freed stack's owner is cleared. The
pool also keeps where each carved slot starts.

Carved stacks are named by their carve number. A cache and a shard are lists whose last
element is the next one taken.
-/

namespace Fibers

/-- A stack handed out by a pool. -/
inductive PoolStack where
  /-- The carved stack of this number. -/
  | slot (index : Nat)
  /-- A dedicated mapping. -/
  | system (stack : Stack)
  deriving Inhabited, DecidableEq, Repr

/-- A stack pool with the caches and shard choices of the threads that used it. -/
structure Pool where
  /-- What the system answers the pool's mappings and protections. -/
  kernel : Kernel
  /-- Usable bytes of every stack, a multiple of the page size. -/
  usable : Nat
  /-- Bytes of the guard page, or 0. -/
  guard : Nat
  /-- Most stacks ever carved. -/
  limit : Nat
  /-- Stacks carved so far. -/
  created : Nat
  /-- Stacks handed out and not yet returned. -/
  outstanding : Nat
  /-- The free stacks of each shard. -/
  shards : List (List Nat)
  /-- Each thread's cache, for threads that have one. -/
  caches : List (Nat × List Nat)
  /-- Each thread's shard, for threads that have been given one. -/
  hints : List (Nat × Nat)
  /-- How many threads have been given a shard. -/
  nextShard : Nat
  /-- The header of each carved stack, by carve number. -/
  headers : List (Nat × StackHeader)
  /-- The address each carved slot starts at, by carve number. -/
  bases : List (Nat × Nat)
  deriving Inhabited

namespace Pool

/-- Number of shards. -/
def shardCount : Nat := 8

/-- Stacks moved between a cache and a shard at a time. -/
def transferBatch : Nat := 32

/-- A cache holding more stacks than this returns a batch to its shard. -/
def highWater : Nat := 64

/-- Chunks start on this boundary, so a chunk's mapping reserves this much more. -/
def chunkAlignment : Nat := 4 * 1024 * 1024

/-- A pool of stacks of at least `stackSize` bytes, rounded up to the system's pages. -/
def create (k : Kernel) (stackSize : Nat) (guardPage : Bool) (limit : Nat) : Except Abort Pool := do
  let usable ← Stack.roundUp stackSize k.pageSize
  return { kernel := k, usable, guard := if guardPage then k.pageSize else 0, limit, created := 0,
           outstanding := 0, shards := List.replicate shardCount [], caches := [], hints := [],
           nextShard := 0, headers := [], bases := [] }

/-- The cache of a thread; empty for a thread without one. -/
def cacheOf (p : Pool) (t : Nat) : List Nat := (p.caches.lookup t).getD []

/-- Sets the cache of a thread. -/
def setCache (p : Pool) (t : Nat) (cache : List Nat) : Pool :=
  { p with caches := Keyed.set t cache p.caches }

/-- The free stacks of a shard. -/
def shard (p : Pool) (i : Nat) : List Nat := p.shards.getD i []

/-- Sets the free stacks of a shard. -/
def setShard (p : Pool) (i : Nat) (free : List Nat) : Pool :=
  { p with shards := p.shards.set i free }

/-- The header of carved stack `i`. -/
def header (p : Pool) (i : Nat) : StackHeader := (p.headers.lookup i).getD default

/-- The address carved slot `i` starts at. -/
def baseOf (p : Pool) (i : Nat) : Nat := (p.bases.lookup i).getD 0

/-- Carved slot `i` as a stack: a slot of the pool's stack size and guard, with its header. -/
def slotStack (p : Pool) (i : Nat) : Stack := ⟨.pool, p.baseOf i, p.usable + p.guard, p.guard, p.header i⟩

/-- The first address on an `align` boundary at or above `a`. -/
def alignUp (a align : Nat) : Nat := (a + align - 1) / align * align

/-- The slots of a chunk that are put to use: those whose guard page is made inaccessible. -/
def carve (p : Pool) (fresh : List Nat) : List Nat :=
  fresh.filter (fun i => (p.slotStack i).protectGuard p.kernel)

/-- Records `owner` in the header of stack `s`: a carved stack's header lies in its chunk, a
dedicated mapping's in the stack itself. -/
def setOwner (p : Pool) (s : PoolStack) (owner : Option Nat) : Pool × PoolStack :=
  match s with
  | .slot i => ({ p with headers := Keyed.set i { p.header i with owner } p.headers }, s)
  | .system st => (p, .system { st with header := { st.header with owner } })

/-- The header of a handed-out stack: a carved stack's lies in its chunk, a dedicated
mapping's in the stack itself. -/
def headerOf (p : Pool) : PoolStack → StackHeader
  | .slot i => p.header i
  | .system st => st.header

/-- A handed-out stack as a stack: a carved slot, or the dedicated mapping. -/
def stackOf (p : Pool) : PoolStack → Stack
  | .slot i => p.slotStack i
  | .system st => st

/-- The shard of a thread, given to it now if it has none. -/
def shardOf (p : Pool) (t : Nat) : Pool × Nat :=
  match p.hints.lookup t with
  | some i => (p, i)
  | none =>
    let i := p.nextShard % shardCount
    ({ p with hints := Keyed.set t i p.hints, nextShard := p.nextShard + 1 }, i)

/-- The pool with a new chunk of `count` slots at `base`: they count as carved, their headers
are stamped, and slot `created + j` starts `j` slots above `base`. -/
def addChunk (p : Pool) (count base : Nat) : Pool :=
  let fresh := List.range' p.created count
  { p with created := p.created + count,
           headers := p.headers ++ fresh.map (·, Stack.stamped),
           bases := p.bases ++ fresh.map (fun i => (i, base + (i - p.created) * (p.usable + p.guard))) }

/-- Maps a new chunk of up to 32 stacks, none once `limit` stacks exist or when the system
refuses the chunk's mapping. The mapping reserves the alignment besides, and the chunk starts
on the first 4 MiB boundary in it. Every slot of the chunk counts as carved and is stamped;
the slots put to use are those `carve` keeps. -/
def grow (p : Pool) : Except Abort (Pool × List Nat) := do
  let count := min transferBatch (p.limit - p.created)
  if count = 0 then return (p, [])
  let slot ← Stack.addWord p.usable p.guard
  let len ← Stack.mulWord slot count
  let reserve ← Stack.addWord len chunkAlignment
  match p.kernel.map reserve with
  | none => return (p, [])
  | some raw =>
    let q := p.addChunk count (alignUp raw chunkAlignment)
    return (q, q.carve (List.range' p.created count))

/-- The first shard holding a stack, searching from `home` onwards. -/
def firstStocked (p : Pool) (home : Nat) : Option Nat :=
  ((List.range shardCount).map (fun off => (home + off) % shardCount)).find?
    (fun i => !(p.shard i).isEmpty)

/-- Up to 32 stacks from the top of the first stocked shard from `home`, or a new chunk. -/
def refill (p : Pool) (home : Nat) : Except Abort (Pool × List Nat) :=
  match p.firstStocked home with
  | some i =>
    let free := p.shard i
    let keep := free.length - transferBatch
    .ok (p.setShard i (free.take keep), free.drop keep)
  | none => p.grow

/-- Gives thread `t` a cache, refilled when empty. A panic while carving leaves the
thread's shard chosen. -/
def fillCache (p : Pool) (t : Nat) : Pool × Except Abort Pool :=
  let p := p.setCache t (p.cacheOf t)
  if (p.cacheOf t).isEmpty then
    let (p, home) := p.shardOf t
    (p, (fun r => r.1.setCache t r.2) <$> p.refill home)
  else (p, .ok p)

/-- A stack for thread `t`: the top of its cache, else a dedicated mapping; none when the
system refuses that mapping too. -/
def allocate (p : Pool) (t : Nat) : Pool × Except Abort (Option PoolStack) :=
  match p.fillCache t with
  | (p, .error a) => (p, .error a)
  | (_, .ok p) =>
    match (p.cacheOf t).getLast? with
    | some s =>
      ({ p.setCache t (p.cacheOf t).dropLast with outstanding := p.outstanding + 1 },
        .ok (some (.slot s)))
    | none =>
      match Stack.allocateSystem p.kernel p.usable (p.guard ≠ 0) with
      | .error a => (p, .error a)
      | .ok none => (p, .ok none)
      | .ok (some st) => ({ p with outstanding := p.outstanding + 1 }, .ok (some (.system st)))

/-- Thread `t` returns a stack, its owner cleared: a pool stack to its cache, spilling the 32
most recent to its shard past 64; a dedicated mapping to the system. -/
def deallocate (p : Pool) (t : Nat) (s : PoolStack) : Pool :=
  let p := { p with outstanding := p.outstanding - 1 }
  let p := (p.setOwner s none).1
  match s with
  | .system _ => p
  | .slot i =>
    let cache := p.cacheOf t ++ [i]
    if cache.length > highWater then
      let keep := cache.length - transferBatch
      let (p, home) := (p.setCache t (cache.take keep)).shardOf t
      p.setShard home (p.shard home ++ cache.drop keep)
    else p.setCache t cache

/-- Thread `t` ends: its cache goes to its shard, and a later thread of the same number
starts afresh. -/
def exitThread (p : Pool) (t : Nat) : Pool :=
  match p.caches.lookup t with
  | none => { p with hints := Keyed.erase t p.hints }
  | some cache =>
    let (p, home) := p.shardOf t
    let p := p.setShard home (p.shard home ++ cache)
    { p with caches := Keyed.erase t p.caches, hints := Keyed.erase t p.hints }

end Pool

end Fibers
