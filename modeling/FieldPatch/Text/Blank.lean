namespace FieldPatch.Text

/-- A character is blank when Unicode gives it the property White_Space. -/
def isBlank (c : Char) : Bool :=
  let n := c.toNat
  (9 ≤ n && n ≤ 13) || n == 0x20 || n == 0x85 || n == 0xA0 || n == 0x1680 ||
  (0x2000 ≤ n && n ≤ 0x200A) || n == 0x2028 || n == 0x2029 || n == 0x202F || n == 0x205F ||
  n == 0x3000

def dropFinal {α : Type} (p : α → Bool) (cs : List α) : List α :=
  (cs.reverse.dropWhile p).reverse

/-- The characters without the blank ones at both ends. -/
def trimChars (cs : List Char) : List Char :=
  dropFinal isBlank (cs.dropWhile isBlank)

def trim (s : String) : String := String.ofList (trimChars s.toList)

/-- A text is blank when it holds no other character than blank ones. -/
def allBlank (s : String) : Bool := s.toList.all isBlank

def dropSpaces (s : String) : String := String.ofList (s.toList.dropWhile (· == ' '))

def dropFinalSpaces (s : String) : String := String.ofList (dropFinal (· == ' ') s.toList)

end FieldPatch.Text
