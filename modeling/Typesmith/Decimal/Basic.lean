import Typesmith.Text.Scan

namespace Typesmith

/-- The number `± digits · 10 ^ exponent`. In normal form the digits have no zero at the end, and
zero has the exponent zero. -/
structure Decimal where
  negative : Bool
  digits : Nat
  exponent : Int
  deriving DecidableEq, Repr, Inhabited

namespace Decimal

def stripZeros : Nat → Nat → Int → Nat × Int
  | 0, d, e => (d, e)
  | fuel + 1, d, e => if d % 10 = 0 then stripZeros fuel (d / 10) (e + 1) else (d, e)

def normal (negative : Bool) (digits : Nat) (exponent : Int) : Decimal :=
  if digits = 0 then ⟨negative, 0, 0⟩
  else
    let (d, e) := stripZeros (Text.decimal digits).length digits exponent
    ⟨negative, d, e⟩

def ofNat (n : Nat) : Decimal :=
  normal false n 0

def same (a b : Decimal) : Bool :=
  a.digits == b.digits && a.exponent == b.exponent && (a.digits == 0 || a.negative == b.negative)

def point (d : Decimal) : Int :=
  (Text.decimal d.digits).length + d.exponent

def isWhole (d : Decimal) : Bool :=
  d.digits == 0 || 0 ≤ d.exponent

def signedBound : Nat := 9223372036854775808

def unsignedBound : Nat := 18446744073709551616

def truncate (d : Decimal) : Int :=
  let n : Nat := if 0 ≤ d.exponent then d.digits * Nat.pow 10 d.exponent.toNat
    else d.digits / Nat.pow 10 (-d.exponent).toNat
  if d.negative then -(n : Int) else n

/-- How a number is laid out: for which places of the point it is written without an exponent, and
whether a negative exponent of one digit is written without a zero in front. -/
structure Layout where
  least : Int
  most : Int
  shortNegative : Bool

def Layout.exponent (l : Layout) (e : Int) : List Char :=
  let ds := Text.decimal e.natAbs
  let sign := if e < 0 then '-' else '+'
  if ds.length < 2 && !(l.shortNegative && e < 0) then 'e' :: sign :: '0' :: ds
  else 'e' :: sign :: ds

def Layout.write (l : Layout) (d : Decimal) : List Char :=
  let ds := Text.decimal d.digits
  let sign := if d.negative then ['-'] else []
  let p := d.point
  if d.digits = 0 then sign ++ ['0']
  else if l.least ≤ p ∧ p ≤ l.most then
    if p ≤ 0 then sign ++ '0' :: '.' :: (List.replicate (-p).toNat '0' ++ ds)
    else if ds.length ≤ p.toNat then sign ++ ds ++ List.replicate (p.toNat - ds.length) '0'
    else sign ++ ds.take p.toNat ++ '.' :: ds.drop p.toNat
  else
    match ds with
    | [] => sign
    | [c] => sign ++ c :: l.exponent (p - 1)
    | c :: rest => sign ++ c :: '.' :: rest ++ l.exponent (p - 1)

end Decimal

end Typesmith
