import Fibers.Error
/-!
# Fiber stacks

A stack is a page-aligned mapping: an optional guard page at the bottom, the usable part,
and a 64-byte header at the top that holds a marker and the owning fiber. Sizes are machine
words, so a size computation past `2^64` panics the way a checked build does.

What the operating system answers is a parameter (`Kernel`): its page size, where it places a
fresh mapping of a given length or whether it refuses it, and whether it makes a guard page
inaccessible. A dedicated stack whose guard page cannot be protected is unmapped again, and the
allocation gives nothing.

A header is stamped when its stack's memory is first mapped: the marker and no owner. The
runtime records there the fiber it starts on the stack, and the pool clears the owner again
when the stack comes back.
-/

namespace Fibers

/-- Where a stack's memory came from. -/
inductive StackOrigin where
  /-- A slot of a pool chunk, returned to the pool. -/
  | pool
  /-- A dedicated mapping, unmapped on release. -/
  | system
  deriving Inhabited, BEq, DecidableEq, Repr

/-- The name of an origin. -/
def StackOrigin.name : StackOrigin → String
  | .pool => "Pool"
  | .system => "System"

/-- The header at the top of a stack: its marker, and the fiber running on it (`none` for
no owner). -/
structure StackHeader where
  magic : Nat
  owner : Option Nat
  deriving Inhabited, BEq, DecidableEq, Repr

/-- A fiber stack: its origin, the address its mapping starts at, the bytes of its mapping and
of its guard page, and its header. -/
structure Stack where
  origin : StackOrigin
  base : Nat
  len : Nat
  guard : Nat
  header : StackHeader
  deriving Inhabited, BEq, DecidableEq, Repr

/-- What the operating system answers a stack allocator, each answer as a function of the
request: the bytes in a page; the address of a fresh anonymous read/write mapping of a given
length, or none when it refuses the mapping; and whether making the guard page at an address
inaccessible succeeds. -/
structure Kernel where
  pageSize : Nat
  map : Nat → Option Nat
  protect : Nat → Bool
  deriving Inhabited

namespace Stack

/-- The marker every stack header carries, the bytes of `FIBERSTK`. -/
def magic : Nat := 0x464942455253544b

/-- The header of a stack whose memory has just been mapped: the marker and no owner. -/
def stamped : StackHeader := ⟨magic, none⟩

/-- Bytes at the top of a stack kept for its header. -/
def headerReserve : Nat := 64

/-- One more than the largest machine word. -/
def wordLimit : Nat := Nat.pow 2 64

/-- `value` rounded up to a multiple of `align`: the ceiling of the quotient times `align`.
A zero alignment divides by zero; a product past the word overflows. -/
def roundUp (value align : Nat) : Except Abort Nat :=
  if align = 0 then .error Abort.divideByZero
  else
    let r := (value + align - 1) / align * align
    if r < wordLimit then .ok r else .error Abort.multiplyOverflow

/-- The lowest usable address, just above the guard page. -/
def bottom (s : Stack) : Nat := s.base + s.guard

/-- One past the highest address of the mapping. -/
def top (s : Stack) : Nat := s.base + s.len

/-- The addresses from the bottom of the usable part to the top. -/
def span (s : Stack) : Nat := s.len - s.guard

/-- The bytes a fiber may use: the span without the header; a stack with no room for
the header panics. -/
def usableSize (s : Stack) : Except Abort Nat :=
  if s.len < s.guard then .error Abort.subtractOverflow
  else if s.len - s.guard < headerReserve then .error Abort.subtractOverflow
  else .ok (s.len - s.guard - headerReserve)

/-- A word sum, panicking past the word. -/
def addWord (a b : Nat) : Except Abort Nat :=
  if a + b < wordLimit then .ok (a + b) else .error Abort.addOverflow

/-- A word product, panicking past the word. -/
def mulWord (a b : Nat) : Except Abort Nat :=
  if a * b < wordLimit then .ok (a * b) else .error Abort.multiplyOverflow

/-- Makes the guard page of a stack inaccessible: at once for a stack without one, else as the
system answers for the page at the stack's base. -/
def protectGuard (k : Kernel) (s : Stack) : Bool := s.guard == 0 || k.protect s.base

/-- A dedicated stack with at least `size` usable bytes, rounded up to pages, and a guard
page when asked; none when the system refuses the mapping, or when it maps but cannot protect
the guard page, which unmaps the stack again. -/
def allocateSystem (k : Kernel) (size : Nat) (guardPage : Bool) : Except Abort (Option Stack) := do
  let usable ← roundUp size k.pageSize
  let guard := if guardPage then k.pageSize else 0
  let len ← addWord usable guard
  match k.map len with
  | none => return none
  | some base =>
    let st : Stack := ⟨.system, base, len, guard, stamped⟩
    if protectGuard k st then return some st else return none

end Stack

end Fibers
