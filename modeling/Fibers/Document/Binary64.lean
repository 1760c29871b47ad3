import Fibers.Text.Shortest
/-!
# Binary64 arithmetic on bit patterns

The reader of documents computes a number's value the way a double-precision unit does:
it converts a word to a double, then multiplies or divides by a double power of ten,
rounding after each operation. This module performs those operations exactly on natural
numbers, so the result is the same pattern a hardware unit produces.

A finite pattern stands for a ratio of natural numbers; an operation forms the exact ratio
of its result and rounds it once to the nearest pattern, an exact tie going to the pattern
with an even significand. Values below the smallest normal number keep the fixed exponent
`-1074` (gradual underflow); values that round past the largest finite number have no
pattern, which the reader reports as a number out of range.
-/

namespace Fibers.Binary64

/-- The sign bit of a pattern, as a mask. -/
def signMask : UInt64 := 0x8000000000000000

/-- The pattern of `+0.0`. -/
def zero : UInt64 := 0

/-- The significand of the largest binade, plus one: `2^53`. -/
def significandLimit : Nat := Nat.pow 2 53

/-- The smallest significand of a normal value: `2^52`. -/
def hiddenBit : Nat := Nat.pow 2 52

/-- The exponent of the least significant bit of a subnormal value. -/
def minExponent : Int := -1074

/-- The exponent of the least significant bit of the largest finite value. -/
def maxExponent : Int := 971

/-- `2^k` for an exponent of either sign, as a ratio. -/
def powTwo (k : Int) : Nat × Nat :=
  if 0 ≤ k then (Nat.pow 2 k.toNat, 1) else (1, Nat.pow 2 (-k).toNat)

/-- The magnitude of a finite pattern as a ratio `num / den`; zeros are `0 / 1`. -/
def ratio (bits : UInt64) : Nat × Nat :=
  match Shortest.decode bits with
  | none => (0, 1)
  | some b =>
    let (n, d) := powTwo b.q
    (b.m * n, d)

/-- Whether `num / den ≥ 2^t`. -/
def atLeastPow (num den : Nat) (t : Int) : Bool :=
  let (n, d) := powTwo t
  decide (num * d ≥ den * n)

/-- `⌊log₂ (num / den)⌋` for positive `num` and `den`: the difference of the two binary
logarithms, or one less. -/
def floorLog2 (num den : Nat) : Int :=
  let t : Int := (Nat.log2 num : Int) - (Nat.log2 den : Int)
  if atLeastPow num den t then t else t - 1

/-- `num / (den · 2^q)` rounded to the nearest natural number, a tie to the even one. -/
def roundScaled (num den : Nat) (q : Int) : Nat :=
  let (pn, pd) := powTwo q
  let n := num * pd
  let d := den * pn
  let quot := n / d
  let twice := 2 * (n % d)
  if twice > d then quot + 1
  else if twice < d then quot
  else if quot % 2 = 0 then quot else quot + 1

/-- The pattern of significand `m` and exponent `q`, for `m < 2^53` and `-1074 ≤ q ≤ 971`
with `m ≥ 2^52` unless `q = -1074`. -/
def encode (m : Nat) (q : Int) : UInt64 :=
  if m < hiddenBit then UInt64.ofNat m
  else UInt64.ofNat ((q - minExponent + 1).toNat * hiddenBit + (m - hiddenBit))

/-- The non-negative pattern nearest to the ratio `num / den` (`den > 0`), or none when it
rounds past the largest finite value. The exponent is the one that gives the exact value
a 53-bit significand, but never below `-1074`. -/
def nearest (num den : Nat) : Option UInt64 :=
  if num = 0 then some zero
  else
    let q := max (floorLog2 num den - 52) minExponent
    let m := roundScaled num den q
    let (m, q) := if m = significandLimit then (hiddenBit, q + 1) else (m, q)
    if q > maxExponent then none else some (encode m q)

/-- The double nearest to a natural number. -/
def ofNat (n : Nat) : Option UInt64 := nearest n 1

/-- The product of two non-negative finite patterns, rounded; none when it overflows. -/
def mul (a b : UInt64) : Option UInt64 :=
  let (n1, d1) := ratio a
  let (n2, d2) := ratio b
  nearest (n1 * n2) (d1 * d2)

/-- The quotient of two non-negative finite patterns, the divisor nonzero, rounded. -/
def div (a b : UInt64) : Option UInt64 :=
  let (n1, d1) := ratio a
  let (n2, d2) := ratio b
  nearest (n1 * d2) (d1 * n2)

/-- The double nearest to `10^k`: the table of powers the reader scales by. -/
def powTen (k : Nat) : UInt64 := (ofNat (Nat.pow 10 k)).getD zero

/-- The largest power of ten in the table. -/
def maxPowTen : Nat := 308

end Fibers.Binary64
