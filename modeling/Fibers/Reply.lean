import Fibers.Error
/-!
# Replies of scripted operations

A script drives a component one command at a time, and each command shows a reply: nothing,
a flag, a number, a text, a list of indices, or a refusal when the command names something
that does not exist or is not held.
-/

namespace Fibers

/-- What one scripted command shows. -/
inductive Reply where
  | unit
  | flag (b : Bool)
  | number (n : Int)
  | text (s : String)
  | indices (ns : List Nat)
  /-- The command names something absent, or a guard not held. -/
  | refused (reason : String)
  deriving Inhabited, BEq, Repr

/-- `none` shows nothing, `some n` the number. -/
def Reply.ofIndex : Option Nat → Reply
  | some n => .number n
  | none => .unit

end Fibers
