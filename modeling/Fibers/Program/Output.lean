import Fibers.Error
/-!
# What a program shows

A program built on the runtime ends with an exit status and the lines it wrote to standard
output and to standard error. A program that aborts keeps the lines it wrote before: a
fatal abort ends it with status 134 and the runtime's fatal message, a panic with status
101 and the panic's payload, both on standard error. A program that never finishes is shown
as one stopped by a time limit, with status 124.
-/

namespace Fibers

/-- The exit status and the lines written to standard output and standard error. -/
structure Output where
  status : Nat
  stdout : List String
  stderr : List String
  deriving Inhabited, Repr

namespace Output

/-- The exit status of a fatal abort. -/
def fatalStatus : Nat := 134

/-- The exit status of a panic. -/
def panicStatus : Nat := 101

/-- The exit status of a program stopped by a time limit. -/
def limitStatus : Nat := 124

/-- A program that wrote `lines` and then aborted. -/
def aborted (lines : List String) : Abort → Output
  | .fatal text => { status := fatalStatus, stdout := lines, stderr := ["[fiberrt] fatal: " ++ text] }
  | .panic text => { status := panicStatus, stdout := lines, stderr := [text] }
  | .hang => { status := limitStatus, stdout := lines, stderr := [] }

/-- A program that writes the sections in order, stopping at the first that aborts, and
then, if none did, the closing lines. -/
def sections (lines : List String) (closing : List String) : List (Except Abort (List String)) → Output
  | [] => { status := 0, stdout := lines ++ closing, stderr := [] }
  | .ok more :: rest => sections (lines ++ more) closing rest
  | .error a :: _ => aborted lines a

end Output

end Fibers
