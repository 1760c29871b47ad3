import Fibers.Text.Blank
/-!
# Cpu lists

A cpu list is text such as `0-3,8,10-11`: after white space is trimmed from both ends, the
text is cut at every comma, empty pieces are skipped, and every other piece is one cpu `N`
or an inclusive range `N-M` with `N ≤ M`, cut at its first hyphen. Each number, trimmed of
white space, is a machine word written in decimal digits after an optional plus sign. The
list is the concatenation of the pieces' cpus in order, duplicates and disorder kept.
-/

namespace Fibers

/-- One piece of a cpu list. -/
inductive CpuPiece where
  /-- A single cpu. -/
  | one (cpu : Nat)
  /-- The cpus from `lo` to `hi`, both included. -/
  | span (lo hi : Nat)
  deriving Inhabited, BEq, Repr

namespace CpuPiece

/-- The cpus of a piece, in ascending order. -/
def cpus : CpuPiece → List Nat
  | .one cpu => [cpu]
  | .span lo hi => List.range' lo (hi + 1 - lo)

/-- The text of a piece. -/
def render : CpuPiece → String
  | .one cpu => toString cpu
  | .span lo hi => s!"{lo}-{hi}"

end CpuPiece

namespace CpuList

/-- The largest machine word plus one. -/
def wordLimit : Nat := Nat.pow 2 64

/-- The value of a run of decimal digits. -/
def digitsValue (ds : List Char) : Nat :=
  ds.foldl (fun acc c => acc * 10 + (c.toNat - '0'.toNat)) 0

/-- A machine word in decimal, after an optional plus sign; nothing else may follow. -/
def readWord (cs : List Char) : Option Nat :=
  let ds := match cs with
    | '+' :: rest => rest
    | _ => cs
  if ds.isEmpty ∨ !ds.all Char.isDigit then none
  else
    let n := digitsValue ds
    if n < wordLimit then some n else none

/-- The text cut at every occurrence of a separator. -/
def cut (sep : Char) : List Char → List (List Char)
  | [] => [[]]
  | c :: rest =>
    if c = sep then [] :: cut sep rest
    else match cut sep rest with
      | [] => [[c]]
      | first :: more => (c :: first) :: more

/-- A non-empty piece: a range when it has a hyphen, cut at the first one. -/
def readPiece (cs : List Char) : Option CpuPiece :=
  match cs.dropWhile (· ≠ '-') with
  | [] => CpuPiece.one <$> readWord (Text.trimChars cs)
  | _ :: hiText => do
    let lo ← readWord (Text.trimChars (cs.takeWhile (· ≠ '-')))
    let hi ← readWord (Text.trimChars hiText)
    if lo ≤ hi then some (.span lo hi) else none

/-- The pieces of a cpu list, or none when a piece is malformed. -/
def pieces (text : String) : Option (List CpuPiece) :=
  ((cut ',' (Text.trimChars text.toList)).filter (fun p => !p.isEmpty)).mapM readPiece

end CpuList

/-- The cpus of a cpu list, or none when the text is malformed. -/
def parseCpuList (text : String) : Option (List Nat) :=
  (CpuList.pieces text).map (fun ps => ps.flatMap CpuPiece.cpus)

end Fibers
