import Typesmith.Text.Scan

namespace Typesmith

/-- Names given out with their owners (empty for none), and for each base the last number tried. -/
structure Registry where
  issued : List (String × String) := []
  counters : List (String × Nat) := []
  deriving Repr, Inhabited

namespace Registry

def isTaken (r : Registry) (name : String) : Bool :=
  r.issued.any (·.1 == name)

def owner? (r : Registry) (name : String) : Option String :=
  r.issued.lookup name

def lookup? (r : Registry) (owner : String) : Option String :=
  if owner = "" then none else (r.issued.find? (·.2 == owner)).map (·.1)

def numbered (base : String) (n : Nat) : String :=
  base ++ "_" ++ String.ofList (Text.decimal n)

def freeNumber (r : Registry) (base : String) (n : Nat) : Nat → Nat
  | 0 => n
  | tries + 1 => if r.isTaken (numbered base n) then r.freeNumber base (n + 1) tries else n

/-- A name that is free, and the registry that has counted up to it. There are fewer names than
tries, so the search ends at a free one. -/
def next (r : Registry) (base : String) : String × Registry :=
  if r.isTaken base then
    let n := r.freeNumber base ((r.counters.lookup base).getD 0 + 1) r.issued.length
    (numbered base n, { r with counters := (base, n) :: r.counters.filter (·.1 ≠ base) })
  else (base, r)

def claim (r : Registry) (owner base : String) : String × Registry :=
  match r.lookup? owner with
  | some name => (name, r)
  | none =>
    let (name, r) := r.next base
    (name, { r with issued := (name, owner) :: r.issued })

def reserve (r : Registry) (base : String) : String × Registry :=
  r.claim "" base

def names (r : Registry) : List String :=
  Text.sort (r.issued.map (·.1))

end Registry

end Typesmith
