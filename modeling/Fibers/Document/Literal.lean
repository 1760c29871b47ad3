import Fibers.Document.Basic
import Fibers.Document.Binary64
/-!
# Number literals

A number literal is read in one pass, the way the runtime's document reader reads it. The
digits are gathered into a 64-bit word for as long as the word can take the next digit; the
integer digits that no longer fit raise the decimal exponent by one each, the fraction
digits that fit lower it by one each, and the fraction digits that no longer fit are
skipped. An exponent part adds to the decimal exponent, saturating at the bounds of a
32-bit integer; an exponent part too long for such an integer makes the literal zero, or
out of range when it is positive and the word is not zero.

A literal with neither fraction nor exponent whose digits all fit stays an integer: a
word, or a negative integer from `-2^63` on; `-0` and the negative literals below `-2^63`
are doubles. Every other literal is the double of its word scaled by its decimal exponent:
the word rounded to a double, then multiplied by the double power of ten of the exponent,
or divided by it for a negative exponent. An exponent below `-308` first divides by
`1e308` as often as needed; a positive exponent above `308` is out of range unless the
word is zero, and so is a product that rounds past the largest double.
-/

namespace Fibers.Document

/-- A reading failure: what went wrong, the unread text at that point, and whether the place
of the failure is the next character (found by looking ahead) rather than the end of what
was read. -/
structure Fault where
  message : String
  rest : List Char
  atNext : Bool
  deriving Inhabited, Repr

namespace Literal

/-- The largest word. -/
def wordMax : Nat := Nat.pow 2 64 - 1

/-- The largest 32-bit integer. -/
def int32Max : Int := 2147483647

/-- The smallest 32-bit integer. -/
def int32Min : Int := -2147483648

/-- An integer clamped to the 32-bit range. -/
def saturate (x : Int) : Int := max int32Min (min int32Max x)

/-- The value of a decimal digit. -/
def digitOf (c : Char) : Nat := c.toNat - '0'.toNat

/-- Adds leading digits to `word` while the result stays a word: the word, how many digits
it took, and the rest of the text. -/
def absorb (word : Nat) : List Char → Nat × Nat × List Char
  | [] => (word, 0, [])
  | c :: rest =>
    if c.isDigit ∧ word * 10 + digitOf c ≤ wordMax then
      let (w, n, r) := absorb (word * 10 + digitOf c) rest
      (w, n + 1, r)
    else (word, 0, c :: rest)

/-- Whether a text starts with a digit. -/
def startsWithDigit : List Char → Bool
  | c :: _ => c.isDigit
  | [] => false

/-- The double `± word · 10^exponent` as the reader computes it; none when it is out of
range. -/
def scaled (positive : Bool) (word : Nat) (exponent : Int) : Option Document :=
  let sign (bits : UInt64) : Document := .float (if positive then bits else bits ||| Binary64.signMask)
  let start := (Binary64.ofNat word).getD Binary64.zero
  let rec go : Nat → UInt64 → Int → Option Document
    | 0, f, _ => some (sign f)
    | fuel + 1, f, e =>
      if e.natAbs ≤ Binary64.maxPowTen then
        let p := Binary64.powTen e.natAbs
        if 0 ≤ e then sign <$> Binary64.mul f p
        else some (sign ((Binary64.div f p).getD Binary64.zero))
      else if f = Binary64.zero then some (sign f)
      else if 0 ≤ e then none
      else go fuel ((Binary64.div f (Binary64.powTen Binary64.maxPowTen)).getD Binary64.zero)
        (e + Binary64.maxPowTen)
  go (exponent.natAbs / Binary64.maxPowTen + 1) start exponent

/-- The literal of a sign, word and decimal exponent, ending where `rest` starts. -/
def scaledUpTo (positive : Bool) (word : Nat) (exponent : Int) (rest : List Char) :
    Except Fault (Document × List Char) :=
  match scaled positive word exponent with
  | some d => .ok (d, rest)
  | none => .error ⟨"number out of range", rest, false⟩

/-- The digits of an exponent after its first: the value and the rest after every digit, or
none and the rest after the digit that would pass the largest 32-bit integer. -/
def exponentDigits (e : Nat) : List Char → Option Nat × List Char
  | [] => (some e, [])
  | c :: rest =>
    if c.isDigit then
      if (e * 10 + digitOf c : Int) > int32Max then (none, rest)
      else exponentDigits (e * 10 + digitOf c) rest
    else (some e, c :: rest)

/-- An exponent part after its `e`, for a literal of this sign, word and decimal exponent. -/
def exponentPart (positive : Bool) (word : Nat) (start : Int) (cs : List Char) :
    Except Fault (Document × List Char) :=
  let (up, cs) := match cs with
    | '+' :: r => (true, r)
    | '-' :: r => (false, r)
    | r => (true, r)
  match cs with
  | [] => .error ⟨"EOF while parsing a value", [], false⟩
  | c :: rest =>
    if !c.isDigit then .error ⟨"invalid number", rest, false⟩
    else
      match exponentDigits (digitOf c) rest with
      | (none, rest) =>
        if word ≠ 0 ∧ up then .error ⟨"number out of range", rest, false⟩
        else
          .ok (.float (if positive then Binary64.zero else Binary64.signMask),
            rest.dropWhile Char.isDigit)
      | (some e, rest) =>
        scaledUpTo positive word (saturate (if up then start + e else start - e)) rest

/-- What follows the digits of a mantissa: an exponent part, or the end of the literal. -/
def afterMantissa (positive : Bool) (word : Nat) (exponent : Int) (cs : List Char) :
    Except Fault (Document × List Char) :=
  match cs with
  | c :: rest =>
    if c = 'e' ∨ c = 'E' then exponentPart positive word exponent rest
    else scaledUpTo positive word exponent cs
  | [] => scaledUpTo positive word exponent []

/-- A fraction after its point: at least one digit, gathered while they fit. -/
def fraction (positive : Bool) (word : Nat) (before : Int) (cs : List Char) :
    Except Fault (Document × List Char) :=
  let (w, n, rest) := absorb word cs
  if startsWithDigit rest then
    afterMantissa positive w (before - n) (rest.dropWhile Char.isDigit)
  else if n = 0 then
    if rest.isEmpty then .error ⟨"EOF while parsing a value", [], true⟩
    else .error ⟨"invalid number", rest, true⟩
  else afterMantissa positive w (before - n) rest

/-- The integer literal of a sign and a word that took every digit. -/
def integer (positive : Bool) (word : Nat) : Document :=
  if positive then .nat word
  else if word = 0 then .float Binary64.signMask
  else if word ≤ Nat.pow 2 63 then .neg (-(word : Int))
  else .float (((Binary64.ofNat word).getD Binary64.zero) ||| Binary64.signMask)

/-- What follows integer digits that all fit the word. -/
def afterInteger (positive : Bool) (word : Nat) (cs : List Char) :
    Except Fault (Document × List Char) :=
  match cs with
  | '.' :: rest => fraction positive word 0 rest
  | c :: rest =>
    if c = 'e' ∨ c = 'E' then exponentPart positive word 0 rest
    else .ok (integer positive word, cs)
  | [] => .ok (integer positive word, [])

/-- What follows integer digits that overflowed the word: each digit left raises the
exponent, then a fraction, an exponent part or the end. -/
def afterLongInteger (positive : Bool) (word : Nat) (cs : List Char) :
    Except Fault (Document × List Char) :=
  let extra : Int := (cs.takeWhile Char.isDigit).length
  match cs.dropWhile Char.isDigit with
  | '.' :: rest => fraction positive word extra rest
  | rest => afterMantissa positive word extra rest

/-- A number literal and the text after it. -/
def number (cs : List Char) : Except Fault (Document × List Char) :=
  let (positive, cs) := match cs with
    | '-' :: r => (false, r)
    | r => (true, r)
  match cs with
  | [] => .error ⟨"EOF while parsing a value", [], false⟩
  | '0' :: rest =>
    if startsWithDigit rest then .error ⟨"invalid number", rest, true⟩
    else afterInteger positive 0 rest
  | c :: rest =>
    if !c.isDigit then .error ⟨"invalid number", rest, false⟩
    else
      let (w, _, rest) := absorb (digitOf c) rest
      if startsWithDigit rest then afterLongInteger positive w rest
      else afterInteger positive w rest

end Literal

end Fibers.Document
