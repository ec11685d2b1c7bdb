namespace FieldPatch

/-- A floating-point number of 32 bits: one sign bit, eight exponent bits, 23 fraction bits. A finite
one is `significand * 2 ^ shift` units, where a unit is the least positive number, `2 ^ -149`. -/
structure Binary32 where
  bits : UInt32
deriving DecidableEq, Repr

namespace Binary32

def signBit : Nat := 0x80000000

/-- The hidden bit, just above the 23 fraction bits; the exponent counts its multiples. -/
def hidden : Nat := 0x800000

/-- The bits of infinity, the least magnitude that is no finite number. -/
def infinityBits : Nat := 255 * hidden

def ofMagnitude (negative : Bool) (magnitude : Nat) : Binary32 :=
  ⟨UInt32.ofNat (magnitude + if negative then signBit else 0)⟩

def zero : Binary32 := ⟨0⟩

def one : Binary32 := ⟨0x3F800000⟩

def infinity (negative : Bool) : Binary32 := ofMagnitude negative infinityBits

def nan (negative : Bool) : Binary32 := ofMagnitude negative (infinityBits + hidden / 2)

def isNegative (x : Binary32) : Bool := signBit ≤ x.bits.toNat

/-- The bits below the sign; they order the numbers of one sign by size. -/
def magnitude (x : Binary32) : Nat := x.bits.toNat % signBit

def isNaN (x : Binary32) : Bool := infinityBits < x.magnitude

def isInfinite (x : Binary32) : Bool := x.magnitude == infinityBits

/-- Numeric equality: a NaN equals nothing, and the two zeros are equal. -/
def same (x y : Binary32) : Bool :=
  !x.isNaN && !y.isNaN && (x == y || (x.magnitude == 0 && y.magnitude == 0))

/-- The power of two by which the significand of a finite number is scaled. -/
def shift (x : Binary32) : Nat := x.magnitude / hidden - 1

/-- The fraction bits, under the hidden bit of every number that is not subnormal. -/
def significand (x : Binary32) : Nat :=
  let fraction := x.magnitude % hidden
  if x.magnitude / hidden = 0 then fraction else hidden + fraction

end Binary32

end FieldPatch
