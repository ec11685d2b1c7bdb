import FieldPatch.Toml.Layout

namespace FieldPatch.Toml

/-- Up to `n` quotes are taken off the front. -/
def dropQuotes (quote : Char) : Nat → List Char → List Char
  | n + 1, c :: cs => if c = quote then dropQuotes quote n cs else c :: cs
  | _, cs => cs

/-- The rest behind the end of a string, if it ends here. Three quotes end a string of several
lines, and up to two quotes more belong to its text. -/
def closing? (quote : Char) (multi : Bool) (cs : List Char) : Option (List Char) :=
  match multi, cs with
  | false, c :: rest => if c = quote then some rest else none
  | true, c₁ :: c₂ :: c₃ :: rest =>
    if c₁ = quote ∧ c₂ = quote ∧ c₃ = quote then some (dropQuotes quote 2 rest) else none
  | _, _ => none

def before (c : Char) (read : Option (List Char × List Char)) : Option (List Char × List Char) :=
  read.map fun (text, rest) => (c :: text, rest)

def hexDigit? (c : Char) : Option Nat :=
  if '0' ≤ c ∧ c ≤ '9' then some (c.toNat - '0'.toNat)
  else if 'a' ≤ c ∧ c ≤ 'f' then some (c.toNat - 'a'.toNat + 10)
  else if 'A' ≤ c ∧ c ≤ 'F' then some (c.toNat - 'A'.toNat + 10)
  else none

def escaped? : Char → Option Char
  | 'b' => some '\x08'
  | 't' => some '\t'
  | 'n' => some '\n'
  | 'f' => some '\x0C'
  | 'r' => some '\r'
  | '"' => some '"'
  | '\\' => some '\\'
  | _ => none

inductive BasicState where
  /-- Between characters, blank ones being passed over after a line that ends in a backslash. -/
  | plain (passing : Bool)
  | escape
  /-- Behind a backslash and spaces, which the line end must follow. -/
  | lineEnd
  /-- In an escape by number, with so many digits to come. -/
  | hex (left value : Nat)

/-- The text of a basic string up to its closing quotes, and the rest behind them. -/
def basic (multi : Bool) : BasicState → List Char → Option (List Char × List Char)
  | _, [] => none
  | .plain passing, c :: cs =>
    if passing && (isSpace c || c == '\n') then basic multi (.plain true) cs
    else match closing? '"' multi (c :: cs) with
      | some rest => some ([], rest)
      | none =>
        if c = '\\' then basic multi .escape cs
        else if isText c || (multi && c == '\n') then before c (basic multi (.plain false) cs)
        else none
  | .escape, c :: cs =>
    match escaped? c with
    | some d => before d (basic multi (.plain false) cs)
    | none =>
      if c = 'u' then basic multi (.hex 4 0) cs
      else if c = 'U' then basic multi (.hex 8 0) cs
      else if multi && isSpace c then basic multi .lineEnd cs
      else if multi && c == '\n' then basic multi (.plain true) cs
      else none
  | .lineEnd, c :: cs =>
    if isSpace c then basic multi .lineEnd cs
    else if c = '\n' then basic multi (.plain true) cs
    else none
  | .hex left value, c :: cs =>
    match hexDigit? c with
    | none => none
    | some digit =>
      let value := 16 * value + digit
      if 1 < left then basic multi (.hex (left - 1) value) cs
      else if value.isValidChar then
        before (Char.ofNat value) (basic multi (.plain false) cs)
      else none

/-- The text of a literal string up to its closing quotes, and the rest behind them. -/
def literal (multi : Bool) : List Char → Option (List Char × List Char)
  | [] => none
  | c :: cs =>
    match closing? '\'' multi (c :: cs) with
    | some rest => some ([], rest)
    | none =>
      if isText c || (multi && c == '\n') then before c (literal multi cs) else none

/-- A line end right behind opening quotes is no part of the text. -/
def dropLineEnd : List Char → List Char
  | '\n' :: cs => cs
  | cs => cs

def string? : List Char → Option (List Char × List Char)
  | '"' :: '"' :: '"' :: cs => basic true (.plain false) (dropLineEnd cs)
  | '"' :: cs => basic false (.plain false) cs
  | '\'' :: '\'' :: '\'' :: cs => literal true (dropLineEnd cs)
  | '\'' :: cs => literal false cs
  | _ => none

end FieldPatch.Toml
