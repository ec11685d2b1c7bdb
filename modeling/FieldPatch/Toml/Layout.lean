namespace FieldPatch.Toml

/-- The text with line feeds for all line ends. A carriage return stands before a line feed or
nowhere. -/
def unifyLineEnds : List Char → Option (List Char)
  | [] => some []
  | '\r' :: '\n' :: cs => (unifyLineEnds cs).map ('\n' :: ·)
  | c :: cs => if c = '\r' then none else (unifyLineEnds cs).map (c :: ·)

def isSpace (c : Char) : Bool := c == ' ' || c == '\t'

/-- The characters that comments and strings are made of: no control but the tab. -/
def isText (c : Char) : Bool := c == '\t' || (0x20 ≤ c.toNat && c.toNat != 0x7F)

def skipSpaces (cs : List Char) : List Char := cs.dropWhile isSpace

/-- Skips what ends a line: spaces, a comment if there is one, and the line end. -/
def endLine (cs : List Char) : Option (List Char) :=
  let afterComment := match skipSpaces cs with
    | '#' :: rest => rest.dropWhile isText
    | rest => rest
  match afterComment with
  | [] => some []
  | '\n' :: rest => some rest
  | _ => none

/-- Skips spaces, line ends and comments; `comment` says whether a comment is going on. -/
def skipLayout (comment : Bool) : List Char → List Char
  | [] => []
  | c :: cs =>
    if c = '\n' then skipLayout false cs
    else if comment && isText c then skipLayout true cs
    else if !comment && c = '#' then skipLayout true cs
    else if !comment && isSpace c then skipLayout false cs
    else c :: cs

end FieldPatch.Toml
