namespace Typesmith.Text

/-- Tables are ascending, so a search stops at the first row that starts above `n`. -/
def inRanges (n : Nat) : List (Nat × Nat) → Bool
  | [] => false
  | (lo, hi) :: rest => if n < lo then false else n ≤ hi || inRanges n rest

def inSteps (n : Nat) : List (Nat × Nat × Nat) → Bool
  | [] => false
  | (lo, hi, step) :: rest =>
    if n < lo then false else if n ≤ hi then (n - lo) % step == 0 else inSteps n rest

/-- A row `(first, last, step, image)` sends `first`, `first + step`, … `last` to the numbers at the
same distance from `image`. -/
def mapSteps (n : Nat) : List (Nat × Nat × Nat × Nat) → Nat
  | [] => n
  | (lo, hi, step, image) :: rest =>
    if n < lo then n
    else if n ≤ hi then (if (n - lo) % step == 0 then image + (n - lo) else n)
    else mapSteps n rest

end Typesmith.Text
