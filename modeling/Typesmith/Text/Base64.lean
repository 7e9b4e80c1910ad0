import Typesmith.Text.Scan

namespace Typesmith.Text.Base64

def value? (c : Char) : Option Nat :=
  if c.isUpper then some (c.toNat - 65)
  else if c.isLower then some (c.toNat - 71)
  else if c.isDigit then some (c.toNat + 4)
  else if c = '+' then some 62
  else if c = '/' then some 63
  else none

def number? (s : List Char) : Option Nat :=
  s.foldlM (fun n c => (value? c).map (64 * n + ·)) 0

def decodeGroups? : List Char → Option (List Char)
  | [] => some []
  | [a, b, '=', '='] => do
    let n ← number? [a, b]
    return [Char.ofNat (n / 16)]
  | [a, b, c, '='] => do
    let n ← number? [a, b, c]
    return [Char.ofNat (n / 1024), Char.ofNat (n / 4 % 256)]
  | a :: b :: c :: d :: rest => do
    let n ← number? [a, b, c, d]
    let out ← decodeGroups? rest
    return Char.ofNat (n / 65536) :: Char.ofNat (n / 256 % 256) :: Char.ofNat (n % 256) :: out
  | _ => none

def decode? (s : List Char) : Option (List Char) :=
  decodeGroups? (s.filter fun c => c ≠ '\n' && c ≠ '\r')

end Typesmith.Text.Base64
