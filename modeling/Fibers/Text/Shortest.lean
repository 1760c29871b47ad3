/-!
# Shortest decimal text of a binary64 value

A finite double `v = m · 2^q` is written with the fewest significant decimal digits that
read back as `v`: the reals that round to `v` form an interval around it (its ends belong
to it when `m` is even), and the coarsest decimal grid `10^e` with a point inside that
interval gives the digits. Of the grid points inside, the one nearest to `v` is taken, an
exact tie going to the even one.

The layout is the configuration reader's: positional notation for `1e-5 ≤ |v| < 1e16`
(an integral value keeps a trailing `.0`), scientific notation with a signed exponent
(`1.8446744073709552e+19`, `5e-324`) elsewhere.

All arithmetic is on natural numbers, so the choice of digits is exact.
-/

namespace Fibers.Shortest

/-! ## 1. Decoding the bit pattern -/

/-- A finite nonzero magnitude `m · 2^q`, with the gap below it relative to the gap above:
`narrowBelow` holds at the bottom of a binade, where the lower neighbour is twice as close. -/
structure Binary where
  m : Nat
  q : Int
  narrowBelow : Bool

/-- The sign bit of a pattern. -/
def signBit (bits : UInt64) : Bool := bits >>> 63 == 1

/-- The biased exponent field. -/
def exponentField (bits : UInt64) : Nat := ((bits >>> 52) &&& 0x7FF).toNat

/-- The fraction field. -/
def fractionField (bits : UInt64) : Nat := (bits &&& 0xFFFFFFFFFFFFF).toNat

/-- The magnitude of a finite nonzero pattern; zero and non-finite patterns have none. -/
def decode (bits : UInt64) : Option Binary :=
  let e := exponentField bits
  let f := fractionField bits
  if e = 0x7FF then none
  else if e = 0 then
    if f = 0 then none else some ⟨f, -1074, false⟩
  else some ⟨f + Nat.pow 2 52, (e : Int) - 1075, f = 0 ∧ e > 1⟩

/-! ## 2. Exact division on the decimal grid -/

/-- `x · 2^p / 10^e` as a quotient and a flag telling whether the division is exact. -/
def divGrid (x : Nat) (p e : Int) : Nat × Bool :=
  let num := x * Nat.pow 2 p.toNat * Nat.pow 10 (-e).toNat
  let den := Nat.pow 2 (-p).toNat * Nat.pow 10 e.toNat
  (num / den, num % den == 0)

/-- Twice the remainder of `x · 2^p / 10^e` compared with the divisor: `.lt` when the value
lies in the lower half between two grid points, `.eq` at the midpoint. -/
def halfCompare (x : Nat) (p e : Int) : Ordering :=
  let num := x * Nat.pow 2 p.toNat * Nat.pow 10 (-e).toNat
  let den := Nat.pow 2 (-p).toNat * Nat.pow 10 e.toNat
  compare (2 * (num % den)) den

/-- The grid points `d` (as `d · 10^e`) inside the rounding interval of `b`, as the least and
the greatest, when there is one. The interval is `[4m - δ, 4m + 2] · 2^(q-2)`, with `δ = 1`
at the bottom of a binade and `2` elsewhere; it is closed when `m` is even. -/
def gridRange (b : Binary) (e : Int) : Option (Nat × Nat) :=
  let p := b.q - 2
  let low := 4 * b.m - (if b.narrowBelow then 1 else 2)
  let high := 4 * b.m + 2
  let closed := b.m % 2 == 0
  let (lq, lexact) := divGrid low p e
  let (hq, hexact) := divGrid high p e
  let dMin := if closed ∧ lexact then lq else lq + 1
  let dMax := if !closed ∧ hexact then hq - 1 else hq
  if dMin ≤ dMax ∧ 1 ≤ dMax then some (max dMin 1, dMax) else none

/-- The grid point nearest to the value, among those from `lo` to `hi`. -/
def nearest (b : Binary) (e : Int) (lo hi : Nat) : Nat :=
  let p := b.q - 2
  let (vq, _) := divGrid (4 * b.m) p e
  let pick := match halfCompare (4 * b.m) p e with
    | .lt => vq
    | .gt => vq + 1
    | .eq => if vq % 2 == 0 then vq else vq + 1
  min hi (max lo pick)

/-- Walks the grids from `10^e` downwards and returns the first grid with a point in the
interval, with the chosen point. -/
def search (b : Binary) : Nat → Int → Option (Nat × Int)
  | 0, _ => none
  | fuel + 1, e =>
    match gridRange b e with
    | some (lo, hi) => some (nearest b e lo hi, e)
    | none => search b fuel (e - 1)

/-- The shortest digits `d` and exponent `e` with `d · 10^e` reading back as `b`. Every
finite double lies below `10^309` and its interval holds a point of the grid `10^-324`. -/
def digits (b : Binary) : Nat × Int :=
  (search b 700 309).getD (b.m, 0)

/-! ## 3. Layout -/

/-- The decimal digits of a natural number. -/
def decimalDigits (n : Nat) : List Char := Nat.toDigits 10 n

/-- Places the digits `ds` of `d · 10^e`: positional within sixteen places of the point,
scientific elsewhere. -/
def layout (ds : List Char) (e : Int) : String :=
  let n : Int := ds.length
  let kk := n + e
  if 0 ≤ e ∧ kk ≤ 16 then
    String.ofList (ds ++ List.replicate e.toNat '0') ++ ".0"
  else if 0 < kk ∧ kk ≤ 16 then
    String.ofList (ds.take kk.toNat) ++ "." ++ String.ofList (ds.drop kk.toNat)
  else if -5 < kk ∧ kk ≤ 0 then
    "0." ++ String.ofList (List.replicate (-kk).toNat '0') ++ String.ofList ds
  else
    let exp := kk - 1
    let mant := match ds with
      | [] => "0"
      | [c] => String.singleton c
      | c :: rest => String.singleton c ++ "." ++ String.ofList rest
    let sign := if exp < 0 then "-" else "+"
    mant ++ "e" ++ sign ++ toString exp.natAbs

/-- The text of a finite double given by its bit pattern. -/
def render (bits : UInt64) : String :=
  let sign := if signBit bits then "-" else ""
  match decode bits with
  | none => sign ++ "0.0"
  | some b =>
    let (d, e) := digits b
    sign ++ layout (decimalDigits d) e

end Fibers.Shortest
