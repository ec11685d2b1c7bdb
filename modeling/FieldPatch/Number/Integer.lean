import FieldPatch.Text.Blank

namespace FieldPatch.Integer

def digits? (cs : List Char) : Option Nat :=
  if cs ≠ [] ∧ cs.all Char.isDigit then some (Nat.ofDigitChars 10 cs 0) else none

/-- The integer written by an optional sign and at least one digit. -/
def signed? : List Char → Option Int
  | '-' :: cs => (digits? cs).map fun n : Nat => -(n : Int)
  | '+' :: cs => (digits? cs).map fun n : Nat => (n : Int)
  | cs => (digits? cs).map fun n : Nat => (n : Int)

def ofInt? (n : Int) : Option Int32 :=
  if Int32.minValue.toInt ≤ n ∧ n ≤ Int32.maxValue.toInt then some (Int32.ofInt n) else none

def read? (s : String) : Option Int32 :=
  (signed? (Text.trimChars s.toList)).bind ofInt?

/-- The decimal text of a number, with a minus sign only when it is negative. -/
def text (n : Int32) : String := toString n.toInt

/-- The list index that a text names. -/
def index? (s : String) : Option Nat :=
  (read? s).bind fun n => if 0 ≤ n.toInt then some n.toInt.toNat else none

end FieldPatch.Integer
