import FieldPatch.Text.Blank

namespace FieldPatch

/-- What an edit asks for, written as a suffix of its raw value. -/
inductive Operation where
  | overwrite
  | insert
  | remove
  | reset
  | setNull
  | setContext
deriving DecidableEq, Repr

namespace Operation

/-- The suffix that asks for an operation; overwriting is asked for by none. -/
def token? : Operation → Option String
  | overwrite => none
  | insert => some "!+"
  | remove => some "!-"
  | reset => some "!d"
  | setNull => some "!n"
  | setContext => some "!^"

def text : Operation → String
  | overwrite => "overwrite"
  | insert => "insert"
  | remove => "remove"
  | reset => "default"
  | setNull => "null"
  | setContext => "set-context"

def marked : List Operation := [insert, remove, reset, setNull, setContext]

/-- The text in front of the suffix `token`, if the text ends with it. -/
def beforeSuffix? (token : String) (raw : String) : Option String :=
  if token.toList.isSuffixOf raw.toList then
    some (String.ofList (raw.toList.take (raw.toList.length - token.toList.length)))
  else none

/-- The value in front of the operation's token, without the spaces between them. -/
def valueBefore? (op : Operation) (raw : String) : Option String := do
  let token ← op.token?
  let value ← beforeSuffix? token raw
  return Text.dropFinalSpaces value

def split (raw : String) : Operation × String :=
  match marked.findSome? fun op => (op.valueBefore? raw).map (op, ·) with
  | some answer => answer
  | none => (overwrite, raw)

end Operation

end FieldPatch
