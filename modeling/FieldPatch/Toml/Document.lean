import FieldPatch.Toml.Quoted
import FieldPatch.Toml.Scalar
import FieldPatch.Toml.Tree

namespace FieldPatch.Toml

/-- A value under a key, below a path of dotted keys. -/
structure Pair where
  path : List String
  key : String
  value : Node

/-- Arrays and inline tables are nested less deep than this, and keys have fewer parts. -/
def limit : Nat := 80

def isBare (c : Char) : Bool := c.isAlphanum || c == '_' || c == '-'

/-- One part of a key: quoted on one line, or bare. -/
def keyPart (cs : List Char) : Option (String × List Char) :=
  match cs with
  | '"' :: rest => (basic false (.plain false) rest).map fun (part, rest) =>
      (String.ofList part, rest)
  | '\'' :: rest => (literal false rest).map fun (part, rest) => (String.ofList part, rest)
  | _ =>
    let part := cs.takeWhile isBare
    if part.isEmpty then none else some (String.ofList part, cs.dropWhile isBare)

/-- The parts of a key, at most `n` of them, with dots between them and spaces around them. -/
def keyParts : Nat → List Char → Option (List String × List Char)
  | 0, _ => none
  | n + 1, cs =>
    match keyPart (skipSpaces cs) with
    | none => none
    | some (part, cs) =>
      match skipSpaces cs with
      | '.' :: rest => (keyParts n rest).map fun (parts, rest) => (part :: parts, rest)
      | rest => some ([part], rest)

def key (cs : List Char) : Option (List String × List Char) := keyParts (limit - 1) cs

abbrev Reader : Type := List Char → Option (Node × List Char)

def pair (value : Reader) (cs : List Char) : Option (Pair × List Char) := do
  let (parts, cs) ← key cs
  let cs ← expect '=' cs
  let (node, cs) ← value (skipSpaces cs)
  let last ← parts.getLast?
  return (⟨parts.dropLast, last, node⟩, cs)

/-- The rest of an array behind its opening bracket or a comma. A comma may stand behind the last
element. The count bounds the elements. -/
def arrayRest (value : Reader) : Nat → List Char → Option (List Char)
  | 0, _ => none
  | n + 1, cs =>
    match skipLayout false cs with
    | ']' :: rest => some rest
    | cs =>
      match value cs with
      | none => none
      | some (_, cs) =>
        match skipLayout false cs with
        | ',' :: rest => arrayRest value n rest
        | ']' :: rest => some rest
        | _ => none

/-- The pairs of an inline table up to its closing brace, put in with those read before. -/
def inlineRest (value : Reader) : Nat → Entries → List Char → Option (List Char)
  | 0, _, _ => none
  | n + 1, entries, cs =>
    match pair value cs with
    | none => none
    | some (p, cs) =>
      match insertDotted p.key p.value p.path entries with
      | none => none
      | some entries =>
        match skipSpaces cs with
        | ',' :: rest => inlineRest value n entries rest
        | '\x7d' :: rest => some rest
        | _ => none

def inline (value : Reader) (cs : List Char) : Option (List Char) :=
  match skipSpaces cs with
  | '\x7d' :: rest => some rest
  | cs => inlineRest value cs.length [] cs

def value : Nat → Reader
  | depth, cs =>
    match cs with
    | '"' :: _ | '\'' :: _ => (string? cs).map fun (_, rest) => (.value none, rest)
    | '[' :: rest =>
      match depth with
      | 0 => none
      | depth + 1 =>
        (arrayRest (value depth) (rest.length + 1) rest).map fun rest => (.value none, rest)
    | '\x7b' :: rest =>
      match depth with
      | 0 => none
      | depth + 1 => (inline (value depth) rest).map fun rest => (.value none, rest)
    | 't' :: 'r' :: 'u' :: 'e' :: rest => some (.value (some true), rest)
    | 'f' :: 'a' :: 'l' :: 's' :: 'e' :: rest => some (.value (some false), rest)
    | _ => (scalar cs).map fun rest => (.value none, rest)

/-- A header names a table, or opens a new table of an array. -/
structure Header where
  path : List String
  array : Bool

inductive Statement where
  | pair (pair : Pair)
  | header (header : Header)

def statement (cs : List Char) : Option (Statement × List Char) :=
  match cs with
  | '[' :: '[' :: rest => do
    let (path, cs) ← key rest
    let cs ← expect ']' cs
    let cs ← expect ']' cs
    let cs ← endLine cs
    return (.header ⟨path, true⟩, cs)
  | '[' :: rest => do
    let (path, cs) ← key rest
    let cs ← expect ']' cs
    let cs ← endLine cs
    return (.header ⟨path, false⟩, cs)
  | _ => do
    let (p, cs) ← pair (value (limit - 1)) cs
    let cs ← endLine cs
    return (.pair p, cs)

/-- All statements; the count bounds the lines. -/
def statements : Nat → List Char → Option (List Statement)
  | 0, cs => if cs.isEmpty then some [] else none
  | n + 1, cs =>
    match skipSpaces cs with
    | [] => some []
    | cs =>
      match endLine cs with
      | some rest => statements n rest
      | none =>
        match statement cs with
        | none => none
        | some (s, rest) => (statements n rest).map (s :: ·)

/-- The pairs in front of all headers, and each header with the pairs that follow it. -/
def sections : List Statement → List Pair × List (Header × List Pair)
  | [] => ([], [])
  | .pair p :: rest =>
    let (leading, headed) := sections rest
    (p :: leading, headed)
  | .header h :: rest =>
    let (leading, headed) := sections rest
    ([], (h, leading) :: headed)

def addPairs : List Pair → Entries → Option Entries
  | [], entries => some entries
  | p :: rest, entries => (insertDotted p.key p.value p.path entries).bind (addPairs rest)

/-- What a header with its pairs makes of the node it names. A table gets one header at most; an
array of tables gets a new table by each header. -/
def Header.fill (header : Header) (pairs : List Pair) (present : Option Node) : Option Node :=
  match header.array, present with
  | true, none | true, some (.tables _) => (addPairs pairs []).map .tables
  | false, none => (addPairs pairs []).map (.table .header)
  | false, some (.table .implied entries) => (addPairs pairs entries).map (.table .header)
  | _, _ => none

def addSections : List (Header × List Pair) → Entries → Option Entries
  | [], entries => some entries
  | (header, pairs) :: rest, entries =>
    (atHeader (header.fill pairs) header.path entries).bind (addSections rest)

/-- The entries of the root table; a byte order mark in front is passed over. -/
def parse (text : String) : Option Entries := do
  let chars := match text.toList with
    | '\uFEFF' :: cs => cs
    | cs => cs
  let cs ← unifyLineEnds chars
  let all ← statements (cs.length + 1) cs
  let (leading, headed) := sections all
  let root ← addPairs leading []
  addSections headed root

end FieldPatch.Toml
