import Typesmith.Text.Scan

namespace Typesmith.Yaml.Timestamp

open Text

def upToTwo? (limit : Nat) (s : List Char) : Option (Nat × List Char) :=
  let width := if (s.take 2).length = 2 && (s.take 2).all isAsciiDigit then 2 else 1
  let ds := s.take width
  if ds.isEmpty || !ds.all isAsciiDigit || limit < digitsValue ds then none
  else some (digitsValue ds, s.drop width)

def pass? (c : Char) : List Char → Option (List Char)
  | [] => none
  | d :: rest => if d = c then some rest else none

def daysIn (year month : Nat) : Nat :=
  if month = 2 then
    if year % 4 = 0 ∧ (year % 100 ≠ 0 ∨ year % 400 = 0) then 29 else 28
  else if month = 4 ∨ month = 6 ∨ month = 9 ∨ month = 11 then 30
  else 31

def date? (s : List Char) : Option (List Char) := do
  let year := s.takeWhile isAsciiDigit
  if year.length ≠ 4 then none
  else
    let s ← pass? '-' (s.drop 4)
    let (month, s) ← upToTwo? 12 s
    let s ← pass? '-' s
    let (day, s) ← upToTwo? 31 s
    if month = 0 ∨ day = 0 ∨ daysIn (digitsValue year) month < day then none else some s

def dropFraction : List Char → List Char
  | p :: d :: rest =>
    if (p = '.' || p = ',') && isAsciiDigit d then rest.dropWhile isAsciiDigit else p :: d :: rest
  | s => s

def time? (s : List Char) : Option (List Char) := do
  let (_, s) ← upToTwo? 23 s
  let s ← pass? ':' s
  let (_, s) ← upToTwo? 59 s
  let s ← pass? ':' s
  let (_, s) ← upToTwo? 59 s
  return dropFraction s

def isZone (s : List Char) : Bool :=
  match s with
  | ['Z'] => true
  | [sign, a, b, ':', c, d] =>
    (sign == '+' || sign == '-') && [a, b, c, d].all isAsciiDigit && digitsValue [a, b] ≤ 24 &&
      digitsValue [c, d] ≤ 60
  | _ => false

/-- Whether a text is a date, or a date and a time. A `T` before the time asks for a zone behind it,
and blanks forbid one. -/
def isTimestamp (s : List Char) : Bool :=
  match date? s with
  | none => false
  | some [] => true
  | some (c :: rest) =>
    if c = 'T' || c = 't' then
      match time? rest with
      | some zone => isZone zone
      | none => false
    else if c = ' ' then time? (rest.dropWhile (· = ' ')) == some []
    else false

end Typesmith.Yaml.Timestamp
