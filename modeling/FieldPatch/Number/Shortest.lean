import FieldPatch.Number.Decimal

namespace FieldPatch

/-- The reals around `middle` that round to it, all over one denominator. -/
structure Interval where
  low : Nat
  middle : Nat
  high : Nat
  denominator : Nat
  closed : Bool

namespace Interval

/-- The interval of a positive finite number. Below a power of two the lower neighbour is half as
far away, and the ends belong to the number whose significand is even. -/
def around (x : Binary32) : Interval :=
  let lowerGap := if x.significand = Binary32.hidden then 1 else 2
  { low := (4 * x.significand - lowerGap) * pow2 x.shift
    middle := 4 * x.significand * pow2 x.shift
    high := (4 * x.significand + 2) * pow2 x.shift
    denominator := pow2 151
    closed := x.significand % 2 == 0 }

def scale (i : Interval) (exponent : Int) : Interval :=
  let up := pow10 (-exponent).toNat
  { low := i.low * up
    middle := i.middle * up
    high := i.high * up
    denominator := i.denominator * pow10 exponent.toNat
    closed := i.closed }

def contains (i : Interval) (n : Nat) : Bool :=
  if i.closed then i.low ≤ n * i.denominator && n * i.denominator ≤ i.high
  else i.low < n * i.denominator && n * i.denominator < i.high

/-- The natural number of the interval that is nearest to its middle, the upper one on a tie. -/
def nearestNat? (i : Interval) : Option Nat :=
  let below := i.middle / i.denominator
  let belowIsNearer := 2 * (i.middle % i.denominator) < i.denominator
  match i.contains below, i.contains (below + 1) with
  | true, true => some (if belowIsNearer then below else below + 1)
  | true, false => some below
  | false, true => some (below + 1)
  | false, false => none

/-- The first grid with a point in the interval, from `10 ^ 39` down to `10 ^ -60`. -/
def shortest? (i : Interval) : Option Decimal :=
  (List.range 100).findSome? fun (step : Nat) =>
    let exponent : Int := 39 - step
    (i.scale exponent).nearestNat?.map fun n => ⟨n, exponent⟩

end Interval

namespace Decimal

/-- All digits of a decimal with a point only where digits follow it. -/
def positional (d : Decimal) : List Char :=
  let digits := Nat.toDigits 10 d.mantissa
  let places := (-d.exponent).toNat
  if 0 ≤ d.exponent then digits ++ List.replicate d.exponent.toNat '0'
  else if places < digits.length then
    digits.take (digits.length - places) ++ '.' :: digits.drop (digits.length - places)
  else '0' :: '.' :: List.replicate (places - digits.length) '0' ++ digits

end Decimal

namespace Binary32

/-- The text of a number: the shortest decimal that reads back, written without an exponent. -/
def text (x : Binary32) : String :=
  let sign := if x.isNegative then "-" else ""
  if x.isNaN then "NaN"
  else if x.isInfinite then sign ++ "inf"
  else if x.magnitude = 0 then sign ++ "0"
  else match (Interval.around x).shortest? with
    | some d => sign ++ String.ofList d.positional
    | none => sign ++ "0"

end Binary32

end FieldPatch
