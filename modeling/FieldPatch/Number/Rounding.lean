import FieldPatch.Number.Binary32
import FieldPatch.Number.Power

namespace FieldPatch

/-- `num / den` rounded to the nearest natural number, a half to the even one. -/
def roundEven (num den : Nat) : Nat :=
  let quotient := num / den
  let rest := 2 * (num % den)
  if rest < den then quotient
  else if den < rest then quotient + 1
  else quotient + quotient % 2

namespace Binary32

/-- The magnitude nearest to `num / den`. Counted in units of the least positive number, the ratio
is shifted until 24 binary digits are left; a carry out of the significand moves on to the
exponent by itself, and all from infinity up is infinity. -/
def nearestMagnitude (num den : Nat) : Nat :=
  let units := num * pow2 149
  let shift := (units / den).log2 - 23
  min infinityBits (shift * hidden + roundEven units (den * pow2 shift))

end Binary32

end FieldPatch
