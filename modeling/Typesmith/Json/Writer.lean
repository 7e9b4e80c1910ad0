import Typesmith.Json.Basic

namespace Typesmith.Json

open Text

def escapeChar (c : Char) : List Char :=
  if c = '"' then ['\\', '"']
  else if c = '\\' then ['\\', '\\']
  else if c = '\n' then ['\\', 'n']
  else if c = '\r' then ['\\', 'r']
  else if c = '\t' then ['\\', 't']
  else if c.toNat < 32 || c = '<' || c = '>' || c = '&' || c.toNat = 0x2028 || c.toNat = 0x2029 then
    '\\' :: 'u' :: hexPadded 4 c.toNat
  else [c]

def quoteString (s : String) : List Char :=
  '"' :: (s.toList.flatMap escapeChar ++ ['"'])

def numbers : Decimal.Layout := ⟨-5, 21, false⟩

def shortNumbers : Decimal.Layout := ⟨-5, 21, true⟩

mutual

def write (l : Decimal.Layout) : Json → List Char
  | .null => ['n', 'u', 'l', 'l']
  | .bool true => ['t', 'r', 'u', 'e']
  | .bool false => ['f', 'a', 'l', 's', 'e']
  | .num n => l.write n
  | .str s => quoteString s
  | .arr items => '[' :: (writeItems l items ++ [']'])
  | .obj fields => '\x7b' :: (writeFields l fields ++ ['\x7d'])

def writeItems (l : Decimal.Layout) : List Json → List Char
  | [] => []
  | [j] => write l j
  | j :: rest => write l j ++ ',' :: writeItems l rest

def writeFields (l : Decimal.Layout) : List (String × Json) → List Char
  | [] => []
  | [(k, j)] => quoteString k ++ ':' :: write l j
  | (k, j) :: rest => quoteString k ++ ':' :: (write l j ++ ',' :: writeFields l rest)

end

def compact (j : Json) : String :=
  String.ofList (write numbers j)

def plainNumbers : Decimal.Layout := ⟨-3, 21, false⟩

mutual

/-- A value as plain text for messages: no quotes, blanks between items, `map[…]` for objects. -/
def plain : Json → List Char
  | .null => ['<', 'n', 'i', 'l', '>']
  | .bool true => ['t', 'r', 'u', 'e']
  | .bool false => ['f', 'a', 'l', 's', 'e']
  | .num n => plainNumbers.write n
  | .str s => s.toList
  | .arr items => '[' :: (plainItems items ++ [']'])
  | .obj fields => ['m', 'a', 'p', '['] ++ plainFields fields ++ [']']

def plainItems : List Json → List Char
  | [] => []
  | [j] => plain j
  | j :: rest => plain j ++ ' ' :: plainItems rest

def plainFields : List (String × Json) → List Char
  | [] => []
  | [(k, j)] => k.toList ++ ':' :: plain j
  | (k, j) :: rest => k.toList ++ ':' :: (plain j ++ ' ' :: plainFields rest)

end

end Typesmith.Json
