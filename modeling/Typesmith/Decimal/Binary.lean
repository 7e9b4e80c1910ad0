import Typesmith.Decimal.Basic

namespace Typesmith

structure Binary where
  mantissa : Nat
  exponent : Int
  deriving DecidableEq, Repr

namespace Binary

def roundDiv (n d : Nat) : Nat :=
  let q := n / d
  let r := n % d
  if d < 2 * r ∨ (2 * r = d ∧ q % 2 = 1) then q + 1 else q

def scale (n d : Nat) (e : Int) : Nat × Nat :=
  if e < 0 then (n * Nat.pow 2 (-e).toNat, d) else (n, d * Nat.pow 2 e.toNat)

structure Format where
  bits : Nat
  least : Int
  greatest : Int

def double : Format := ⟨53, -1074, 971⟩

def single : Format := ⟨24, -149, 104⟩

def ofRatio (f : Format) (n d : Nat) : Option Binary :=
  if n = 0 then some ⟨0, f.least⟩
  else
    let e₀ : Int := (Nat.log2 n : Int) - (Nat.log2 d : Int) - f.bits
    let (a, b) := scale n d e₀
    let e₁ := if Nat.pow 2 f.bits ≤ a / b then e₀ + 1 else e₀
    let e := max e₁ f.least
    let (a, b) := scale n d e
    let m := roundDiv a b
    let x : Binary := if m = Nat.pow 2 f.bits then ⟨Nat.pow 2 (f.bits - 1), e + 1⟩ else ⟨m, e⟩
    if f.greatest < x.exponent then none else some x

def ratio (x : Binary) : Nat × Nat :=
  if x.exponent < 0 then (x.mantissa, Nat.pow 2 (-x.exponent).toNat)
  else (x.mantissa * Nat.pow 2 x.exponent.toNat, 1)

end Binary

namespace Decimal

def ratio (digits : Nat) (exponent : Int) : Nat × Nat :=
  if exponent < 0 then (digits, Nat.pow 10 (-exponent).toNat)
  else (digits * Nat.pow 10 exponent.toNat, 1)

/-- The number of the format nearest to `digits · 10 ^ exponent`. Exponents far outside the range of
doubles are answered without computing the power. -/
def toBinary (f : Binary.Format) (digits : Nat) (exponent : Int) : Option Binary :=
  let p : Int := (Text.decimal digits).length + exponent
  if digits = 0 ∨ p < -330 then some ⟨0, f.least⟩
  else if 310 < p then none
  else
    let (n, d) := ratio digits exponent
    Binary.ofRatio f n d

def ratioPoint (n d : Nat) : Int :=
  if d ≤ n then (Text.decimal (n / d)).length else 1 - ((Text.decimal ((d - 1) / n)).length : Int)

def candidate (f : Binary.Format) (x : Binary) (count : Nat) : Option (Nat × Int) :=
  let (n, d) := x.ratio
  let e := ratioPoint n d - count
  let (a, b) := if e < 0 then (n * Nat.pow 10 (-e).toNat, d) else (n, d * Nat.pow 10 e.toNat)
  let low := a / b
  let okLow := toBinary f low e == some x
  let okHigh := toBinary f (low + 1) e == some x
  if okLow && okHigh then some (Binary.roundDiv a b, e)
  else if okLow then some (low, e)
  else if okHigh then some (low + 1, e)
  else none

def shortestFrom (f : Binary.Format) (x : Binary) (count : Nat) : Nat → Nat × Int
  | 0 => (0, 0)
  | tries + 1 =>
    match candidate f x count with
    | some found => found
    | none => shortestFrom f x (count + 1) tries

/-- The decimal with the fewest digits that reads back as the number; seventeen are always enough. -/
def ofBinary (f : Binary.Format) (negative : Bool) (x : Binary) : Decimal :=
  if x.mantissa = 0 then ⟨negative, 0, 0⟩
  else
    let (digits, e) := shortestFrom f x 1 17
    normal negative digits e

def roundIn? (f : Binary.Format) (negative : Bool) (digits : Nat) (exponent : Int) : Option Decimal :=
  (toBinary f digits exponent).map (ofBinary f negative)

def round? (negative : Bool) (digits : Nat) (exponent : Int) : Option Decimal :=
  roundIn? Binary.double negative digits exponent

def readExponent? : List Char → Option Int
  | [] => some 0
  | c :: rest =>
    if c = 'e' ∨ c = 'E' then
      let (minus, ds) := match rest with
        | '-' :: ds => (true, ds)
        | '+' :: ds => (false, ds)
        | ds => (false, ds)
      if ds.isEmpty || !ds.all Text.isAsciiDigit then none
      else
        let n : Int := Text.digitsValue ds
        some (if minus then -n else n)
    else none

def read? (s : List Char) : Option Decimal :=
  let (negative, s) := match s with
    | '-' :: rest => (true, rest)
    | '+' :: rest => (false, rest)
    | rest => (false, rest)
  let whole := s.takeWhile Text.isAsciiDigit
  let (part, rest) := match s.dropWhile Text.isAsciiDigit with
    | '.' :: rest => (rest.takeWhile Text.isAsciiDigit, rest.dropWhile Text.isAsciiDigit)
    | rest => ([], rest)
  if whole.isEmpty && part.isEmpty then none
  else do
    let e ← readExponent? rest
    round? negative (Text.digitsValue (whole ++ part)) (e - part.length)

end Decimal

end Typesmith
