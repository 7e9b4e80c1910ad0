import Typesmith.Decimal.Binary

namespace Typesmith

/-- Fields are kept in ascending order of their names, one field a name, so that equal values have
equal representations. -/
inductive Json where
  | null
  | bool (b : Bool)
  | num (n : Decimal)
  | str (s : String)
  | arr (items : List Json)
  | obj (fields : List (String × Json))
  deriving Repr, Inhabited

namespace Json

def setField {α : Type} (key : String) (value : α) : List (String × α) → List (String × α)
  | [] => [(key, value)]
  | (k, v) :: rest =>
    if key < k then (key, value) :: (k, v) :: rest
    else if key = k then (key, value) :: rest
    else (k, v) :: setField key value rest

def sortFields {α : Type} (fields : List (String × α)) : List (String × α) :=
  fields.foldl (fun acc kv => setField kv.1 kv.2 acc) []

def mkObj (fields : List (String × Json)) : Json :=
  .obj (sortFields fields)

mutual

def canonical : Json → Json
  | .arr items => .arr (canonicalItems items)
  | .obj fields => mkObj (canonicalFields fields)
  | j => j

def canonicalItems : List Json → List Json
  | [] => []
  | j :: rest => canonical j :: canonicalItems rest

def canonicalFields : List (String × Json) → List (String × Json)
  | [] => []
  | (k, j) :: rest => (k, canonical j) :: canonicalFields rest

end

mutual

/-- Equality of values; the two zeros are equal. -/
def same : Json → Json → Bool
  | .null, .null => true
  | .bool a, .bool b => a == b
  | .num a, .num b => a.same b
  | .str a, .str b => a == b
  | .arr a, .arr b => sameItems a b
  | .obj a, .obj b => sameFields a b
  | _, _ => false

def sameItems : List Json → List Json → Bool
  | [], [] => true
  | a :: as, b :: bs => same a b && sameItems as bs
  | _, _ => false

def sameFields : List (String × Json) → List (String × Json) → Bool
  | [], [] => true
  | (k, a) :: as, (l, b) :: bs => k == l && same a b && sameFields as bs
  | _, _ => false

end

instance : BEq Json := ⟨same⟩

def get? (j : Json) (key : String) : Option Json :=
  match j with
  | .obj fields => fields.lookup key
  | _ => none

def getD (j : Json) (key : String) : Json :=
  (j.get? key).getD .null

def str? : Json → Option String
  | .str s => some s
  | _ => none

def bool? : Json → Option Bool
  | .bool b => some b
  | _ => none

def arr? : Json → Option (List Json)
  | .arr items => some items
  | _ => none

def obj? : Json → Option (List (String × Json))
  | .obj fields => some fields
  | _ => none

def isNull : Json → Bool
  | .null => true
  | _ => false

def text (j : Json) (key : String) : String :=
  ((j.get? key).bind str?).getD ""

def items (j : Json) (key : String) : List Json :=
  ((j.get? key).bind arr?).getD []

def fieldsAt (j : Json) (key : String) : List (String × Json) :=
  ((j.get? key).bind obj?).getD []

mutual

def size : Json → Nat
  | .arr l => sizeItems l + 1
  | .obj l => sizeFields l + 1
  | _ => 1

def sizeItems : List Json → Nat
  | [] => 0
  | j :: rest => size j + sizeItems rest

def sizeFields : List (String × Json) → Nat
  | [] => 0
  | (_, j) :: rest => size j + sizeFields rest

end

end Json

end Typesmith
