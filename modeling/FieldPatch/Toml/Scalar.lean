import FieldPatch.Number.Decimal
import FieldPatch.Toml.Layout

namespace FieldPatch.Toml

/-- Digits after a first one, an underscore being allowed between two digits. -/
def moreDigits (p : Char → Bool) : List Char → Option (List Char × List Char)
  | [] => some ([], [])
  | [c] => if p c then some ([c], []) else if c = '_' then none else some ([], [c])
  | c :: d :: cs =>
    if p c then (moreDigits p (d :: cs)).map fun (ds, rest) => (c :: ds, rest)
    else if c = '_' then
      if p d then (moreDigits p cs).map fun (ds, rest) => (d :: ds, rest) else none
    else some ([], c :: d :: cs)

def digits (p : Char → Bool) : List Char → Option (List Char × List Char)
  | [] => none
  | c :: cs => if p c then (moreDigits p cs).map fun (ds, rest) => (c :: ds, rest) else none

def isHex (c : Char) : Bool :=
  c.isDigit || ('a' ≤ c && c ≤ 'f') || ('A' ≤ c && c ≤ 'F')

def valueIn (base : Nat) (ds : List Char) : Nat :=
  ds.foldl (fun n c =>
    base * n + (if c.isDigit then c.toNat - '0'.toNat else c.toLower.toNat - 'a'.toNat + 10)) 0

/-- An integer in another base than ten, in the range of 64 bits with sign. -/
def radix (base : Nat) (p : Char → Bool) (cs : List Char) : Option (List Char) :=
  (digits p cs).bind fun (ds, rest) => if valueIn base ds < pow2 63 then some rest else none

def sign : List Char → Bool × List Char
  | '-' :: cs => (true, cs)
  | '+' :: cs => (false, cs)
  | cs => (false, cs)

/-- The digits in front of point and exponent; none stands behind a leading zero. -/
def wholeDigits : List Char → Option (List Char × List Char)
  | '0' :: cs => some (['0'], cs)
  | cs => digits Char.isDigit cs

def exponent : List Char → Option (Int × List Char)
  | [] => some (0, [])
  | c :: cs =>
    if c == 'e' || c == 'E' then
      let (negative, afterSign) := sign cs
      (digits Char.isDigit afterSign).map fun (ds, rest) =>
        let n : Int := valueIn 10 ds
        (if negative then -n else n, rest)
    else some (0, c :: cs)

/-- A decimal of at least this size is infinite as a number of 64 bits. -/
def infinite64 (d : Decimal) : Bool :=
  let size := Decimal.width d.mantissa + d.exponent
  if d.mantissa = 0 ∨ size < 300 then false
  else if 320 < size then true
  else if 0 ≤ d.exponent then pow2 1024 - pow2 970 ≤ d.mantissa * pow10 d.exponent.toNat
  else (pow2 1024 - pow2 970) * pow10 (-d.exponent).toNat ≤ d.mantissa

/-- A number with a point or an exponent; `tail` starts with one of them. It must not overflow
upwards. -/
def floatTail (negative : Bool) (whole tail : List Char) : Option (List Char) :=
  let afterPoint := match tail with
    | '.' :: cs => digits Char.isDigit cs
    | cs => some ([], cs)
  afterPoint.bind fun (fraction, cs) =>
    (exponent cs).bind fun (e, rest) =>
      if !negative && infinite64 ⟨valueIn 10 (whole ++ fraction), e - (fraction.length : Int)⟩
      then none else some rest

/-- A number in base ten: a float if a point or an exponent follows the digits, an integer in the
range of 64 bits otherwise. -/
def decimal (negative : Bool) (cs : List Char) : Option (List Char) :=
  (wholeDigits cs).bind fun (whole, tail) =>
    match tail with
    | '.' :: _ | 'e' :: _ | 'E' :: _ => floatTail negative whole tail
    | _ => if valueIn 10 whole < pow2 63 + (if negative then 1 else 0) then some tail else none

def number : List Char → Option (List Char)
  | '0' :: 'x' :: cs => radix 16 isHex cs
  | '0' :: 'o' :: cs => radix 8 (fun c => '0' ≤ c && c ≤ '7') cs
  | '0' :: 'b' :: cs => radix 2 (fun c => c == '0' || c == '1') cs
  | cs =>
    match sign cs with
    | (_, 'i' :: 'n' :: 'f' :: rest) => some rest
    | (_, 'n' :: 'a' :: 'n' :: rest) => some rest
    | (negative, rest) => decimal negative rest

/-- A number of two digits from `low` to `high`. -/
def twoDigits (low high : Nat) : List Char → Option (Nat × List Char)
  | c :: d :: cs =>
    let n := valueIn 10 [c, d]
    if c.isDigit && d.isDigit && low ≤ n && n ≤ high then some (n, cs) else none
  | _ => none

def expect (c : Char) : List Char → Option (List Char)
  | d :: cs => if d = c then some cs else none
  | [] => none

def daysIn (year month : Nat) : Nat :=
  if month = 2 then
    if year % 4 = 0 ∧ (year % 100 ≠ 0 ∨ year % 400 = 0) then 29 else 28
  else if month = 4 ∨ month = 6 ∨ month = 9 ∨ month = 11 then 30
  else 31

def monthDay (year : Nat) (cs : List Char) : Option (List Char) := do
  let (month, cs) ← twoDigits 1 12 cs
  let cs ← expect '-' cs
  let (_, cs) ← twoDigits 1 (daysIn year month) cs
  return cs

/-- Hours, minutes and seconds, a leap second included, with a fraction at most. -/
def time (cs : List Char) : Option (List Char) := do
  let (_, cs) ← twoDigits 0 23 cs
  let cs ← expect ':' cs
  let (_, cs) ← twoDigits 0 59 cs
  let cs ← expect ':' cs
  let (_, cs) ← twoDigits 0 60 cs
  match cs with
  | '.' :: d :: rest => if d.isDigit then some (rest.dropWhile Char.isDigit) else none
  | _ => some cs

def offset : List Char → Option (List Char)
  | [] => some []
  | c :: cs =>
    if c == 'Z' || c == 'z' then some cs
    else if c == '+' || c == '-' then do
      let (_, cs) ← twoDigits 0 23 cs
      let cs ← expect ':' cs
      let (_, cs) ← twoDigits 0 59 cs
      return cs
    else some (c :: cs)

/-- The time of day behind a date, if one stands here. A space leads to one only if two digits and
a colon follow. -/
def timeOfDay : List Char → Option (List Char)
  | 'T' :: cs | 't' :: cs => (time cs).bind offset
  | ' ' :: c :: d :: ':' :: cs =>
    if c.isDigit && d.isDigit then (time (c :: d :: ':' :: cs)).bind offset
    else some (' ' :: c :: d :: ':' :: cs)
  | cs => some cs

/-- A date with its time of day, a time of day, or a number. Four digits and a dash begin a date,
two digits and a colon a time. -/
def scalar (cs : List Char) : Option (List Char) :=
  match cs with
  | c₁ :: c₂ :: ':' :: _ => if c₁.isDigit && c₂.isDigit then time cs else number cs
  | c₁ :: c₂ :: c₃ :: c₄ :: '-' :: rest =>
    if [c₁, c₂, c₃, c₄].all Char.isDigit then
      (monthDay (valueIn 10 [c₁, c₂, c₃, c₄]) rest).bind timeOfDay
    else number cs
  | _ => number cs

end FieldPatch.Toml
