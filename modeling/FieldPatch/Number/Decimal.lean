import FieldPatch.Number.Integer
import FieldPatch.Number.Rounding

namespace FieldPatch

structure Decimal where
  mantissa : Nat
  exponent : Int
deriving DecidableEq, Repr

namespace Decimal

/-- The integer after an exponent mark; no mark counts as zero. -/
def exponent? : List Char → Option Int
  | [] => some 0
  | c :: cs => if c == 'e' || c == 'E' then Integer.signed? cs else none

/-- Digits with a point at most, and at least one digit, then an exponent at most. -/
def read? (cs : List Char) : Option Decimal :=
  let whole := cs.takeWhile Char.isDigit
  let afterWhole := cs.dropWhile Char.isDigit
  let (fraction, tail) := match afterWhole with
    | '.' :: rest => (rest.takeWhile Char.isDigit, rest.dropWhile Char.isDigit)
    | rest => ([], rest)
  if (whole ++ fraction).isEmpty then none
  else (exponent? tail).map fun e =>
    ⟨Nat.ofDigitChars 10 (whole ++ fraction) 0, e - (fraction.length : Int)⟩

/-- The number of decimal digits of a positive number. -/
def width (n : Nat) : Nat := (Nat.toDigits 10 n).length

/-- The nearest magnitude. Decimals from `10 ^ 60` up are infinite and those below `10 ^ -60` are
zero whatever their digits, so no power of ten above that is computed. -/
def magnitude (d : Decimal) : Nat :=
  let size := width d.mantissa + d.exponent
  if d.mantissa = 0 ∨ size < -60 then 0
  else if 60 < size then Binary32.infinityBits
  else if 0 ≤ d.exponent then Binary32.nearestMagnitude (d.mantissa * pow10 d.exponent.toNat) 1
  else Binary32.nearestMagnitude d.mantissa (pow10 (-d.exponent).toNat)

end Decimal

namespace Binary32

def unsigned? (negative : Bool) (cs : List Char) : Option Binary32 :=
  let word := String.ofList (cs.map Char.toLower)
  if word == "inf" || word == "infinity" then some (infinity negative)
  else if word == "nan" then some (nan negative)
  else (Decimal.read? cs).map fun d => ofMagnitude negative d.magnitude

def signed? : List Char → Option Binary32
  | '-' :: cs => unsigned? true cs
  | '+' :: cs => unsigned? false cs
  | cs => unsigned? false cs

/-- Reads a number, blank characters around it aside. -/
def read? (s : String) : Option Binary32 := signed? (Text.trimChars s.toList)

end Binary32

end FieldPatch
