import Typesmith.Text.Letter
import Typesmith.Text.Digit

namespace Typesmith.Text

def leadingNumber (n : Int) (count : Nat) : List Char → Int × Nat
  | [] => (n, count)
  | c :: rest =>
    if isDigit c then leadingNumber (10 * n + ((c.toNat : Int) - 48)) (count + 1) rest else (n, count)

def hasWeight : List Char → Bool
  | [] => false
  | c :: rest => isDigit c && (c ≠ '0' || hasWeight rest)

/-- Compares two names behind a common start, which is given last character first. Letters are
compared by their codes; a letter comes after any other character, but before it inside a number;
numbers are compared by their values, then by their lengths. -/
def naturalLess (start : List Char) : List Char → List Char → Bool
  | [], b => !b.isEmpty
  | _ :: _, [] => false
  | x :: a, y :: b =>
    if x = y then naturalLess (x :: start) a b
    else if isLetter x && isLetter y then x < y
    else if isLetter x || isLetter y then
      match start with
      | c :: _ => if isDigit c then isLetter x else isLetter y
      | [] => isLetter y
    else
      let weight : Int := if (x = '0' || y = '0') && hasWeight start then 1 else 0
      let (n, i) := leadingNumber weight 0 (x :: a)
      let (m, j) := leadingNumber weight 0 (y :: b)
      if n ≠ m then n < m else if i ≠ j then i < j else x < y

def sortNaturally {α : Type} (l : List (String × α)) : List (String × α) :=
  l.mergeSort fun a b => !naturalLess [] b.1.toList a.1.toList

end Typesmith.Text
