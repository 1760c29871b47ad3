/-!
# Runnable entities

What a scheduler queues: a fiber description not yet started, or a fiber that has run
before. A group-local entity stays on its home worker's pinned queue; a reactor entity
goes to the reactor queue. An entity carries what routing needs; the runtime keeps the
rest under its number.
-/

namespace Fibers

/-- Something a scheduler can run. -/
structure Entity where
  /-- The runtime's number for the description or fiber. -/
  id : Nat
  /-- A fiber that has run before, rather than a description. -/
  started : Bool := false
  groupLocal : Bool := false
  reactor : Bool := false
  /-- The worker that first ran a group-local fiber. -/
  home : Option Nat := none
  deriving Inhabited, BEq, DecidableEq, Repr

end Fibers
