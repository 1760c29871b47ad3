/-!
# Durations and rates as text

A duration, in nanoseconds, is shown in the largest unit it reaches: seconds (`s`) from one
second on, milliseconds (`ms`) from one millisecond, microseconds (`µs`) from one
microsecond, and nanoseconds (`ns`) below that. The whole units come first; the rest follows
after a point with every digit it needs and no trailing zero, so nothing is rounded away:
`1.5ms`, `100µs`, `1.000000001s`, `0ns`.

A rate is shown with exactly two decimals, rounded to the nearest hundredth with an exact
half going to the even hundredth; a rate over no time at all is `inf`.
-/

namespace Fibers.Text

/-- The digits of `frac`, a fraction of `places` decimal places, without trailing zeros:
`fractionDigits 500 3 = "5"`, `fractionDigits 1 3 = "001"`. -/
def fractionDigits (frac places : Nat) : String :=
  let ds := Nat.toDigits 10 frac
  let padded := List.replicate (places - ds.length) '0' ++ ds
  String.ofList (padded.reverse.dropWhile (· == '0')).reverse

/-- A number of units with its fraction of `places` decimal places and the unit's name. -/
def decimalText (whole frac places : Nat) (unit : String) : String :=
  let tail := fractionDigits frac places
  toString whole ++ (if tail.isEmpty then "" else "." ++ tail) ++ unit

/-- The text of a duration of `ns` nanoseconds. -/
def durationText (ns : Nat) : String :=
  if ns ≥ 1000000000 then decimalText (ns / 1000000000) (ns % 1000000000) 9 "s"
  else if ns ≥ 1000000 then decimalText (ns / 1000000) (ns % 1000000) 6 "ms"
  else if ns ≥ 1000 then decimalText (ns / 1000) (ns % 1000) 3 "µs"
  else toString ns ++ "ns"

/-- `num / den` in hundredths, rounded to the nearest, an exact half to the even one. -/
def roundHundredths (num den : Nat) : Nat :=
  let q := 100 * num / den
  let r := 100 * num % den
  if 2 * r > den ∨ (2 * r = den ∧ q % 2 = 1) then q + 1 else q

/-- `num / den` with two decimals. -/
def hundredthsText (num den : Nat) : String :=
  let h := roundHundredths num den
  let cents := toString (h % 100)
  toString (h / 100) ++ "." ++ (if cents.length < 2 then "0" ++ cents else cents)

/-- The rate of `count` events in `ns` nanoseconds, per second. -/
def rateText (count ns : Nat) : String :=
  if ns = 0 then "inf" else hundredthsText (count * 1000000000) ns

end Fibers.Text
