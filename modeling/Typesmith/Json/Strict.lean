import Typesmith.Json.Reader

namespace Typesmith.Json

open Text

def passString : List Char → Option (List Char)
  | [] => none
  | '"' :: rest => some rest
  | '\\' :: 'u' :: a :: b :: c :: d :: rest =>
    if (hex4? a b c d).isSome then passString rest else none
  | '\\' :: c :: rest => if "\"\\/bfnrt".toList.contains c then passString rest else none
  | c :: rest => if c.toNat < 32 then none else passString rest

def passDigits (s : List Char) : Option (List Char) :=
  match s with
  | c :: rest => if isAsciiDigit c then some (rest.dropWhile isAsciiDigit) else none
  | [] => none

def passNumber (s : List Char) : Option (List Char) := do
  let s := match s with
    | '-' :: rest => rest
    | rest => rest
  let s ← match s with
    | '0' :: rest => some rest
    | rest => passDigits rest
  let s ← match s with
    | '.' :: rest => passDigits rest
    | rest => some rest
  match s with
  | c :: rest =>
    if c = 'e' ∨ c = 'E' then
      match rest with
      | '+' :: rest => passDigits rest
      | '-' :: rest => passDigits rest
      | rest => passDigits rest
    else return s
  | [] => return s

mutual

def passValue : Nat → List Char → Option (List Char)
  | 0, _ => none
  | fuel + 1, s =>
    match skipBlanks s with
    | '\x7b' :: rest =>
      match skipBlanks rest with
      | '\x7d' :: rest => some rest
      | rest => passFields fuel rest
    | '[' :: rest =>
      match skipBlanks rest with
      | ']' :: rest => some rest
      | rest => passItems fuel rest
    | '"' :: rest => passString rest
    | 't' :: 'r' :: 'u' :: 'e' :: rest => some rest
    | 'f' :: 'a' :: 'l' :: 's' :: 'e' :: rest => some rest
    | 'n' :: 'u' :: 'l' :: 'l' :: rest => some rest
    | rest => passNumber rest

def passItems : Nat → List Char → Option (List Char)
  | 0, _ => none
  | fuel + 1, s => do
    let rest ← passValue fuel s
    match skipBlanks rest with
    | ',' :: rest => passItems fuel rest
    | ']' :: rest => return rest
    | _ => none

def passFields : Nat → List Char → Option (List Char)
  | 0, _ => none
  | fuel + 1, s => do
    let rest ← match skipBlanks s with
      | '"' :: rest => passString rest
      | _ => none
    let rest ← match skipBlanks rest with
      | ':' :: rest => some rest
      | _ => none
    let rest ← passValue fuel rest
    match skipBlanks rest with
    | ',' :: rest => passFields fuel rest
    | '\x7d' :: rest => return rest
    | _ => none

end

def isWellFormed (s : List Char) : Bool :=
  match passValue (s.length + 1) s with
  | some rest => (skipBlanks rest).isEmpty
  | none => false

end Typesmith.Json
