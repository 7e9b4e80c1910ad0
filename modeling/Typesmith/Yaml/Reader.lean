import Typesmith.Yaml.Meaning
import Typesmith.Json.Basic

namespace Typesmith.Yaml

open Text

def keyNumbers : Decimal.Layout := ⟨-3, 6, false⟩

def Meaning.key? : Meaning → Option String
  | .text s => some s
  | .bool b => some (if b then "true" else "false")
  | .int n =>
    if n < Decimal.signedBound then
      some (String.ofList ((if n < 0 then ['-'] else []) ++ decimal n.natAbs))
    else none
  | .float d =>
    match Decimal.roundIn? Binary.single d.negative d.digits d.exponent with
    | some short => some (String.ofList (keyNumbers.write short))
    | none => some (if d.negative then "-.inf" else ".inf")
  | .infinite name => some name
  | .null => none

def Meaning.json? : Meaning → Option Json
  | .text s => some (.str s)
  | .bool b => some (.bool b)
  | .int n => (Meaning.floatOfInt? n).map .num
  | .float d => some (.num d)
  | .infinite _ => none
  | .null => some .null

def Node.isMerge : Node → Bool
  | .scalar tag plain text =>
    text == "<<" && ((tag == "" && plain) || tag == "!" || tag == Meaning.standard ++ "merge")
  | _ => false

def Node.key? : Node → Option String
  | .scalar tag plain text => do (← Meaning.ofScalar? tag plain text).key?
  | _ => none

mutual

def Node.json? : Node → Option Json
  | .scalar tag plain text => do (← Meaning.ofScalar? tag plain text).json?
  | .sequence items => (jsonItems? items).map .arr
  | .mapping entries => (addEntries? [] entries).map .obj
  | .circular => none

def jsonItems? : List Node → Option (List Json)
  | [] => some []
  | n :: rest => do return (← Node.json? n) :: (← jsonItems? rest)

def addEntries? (fields : List (String × Json)) : List (Node × Node) → Option (List (String × Json))
  | [] => some fields
  | (k, v) :: rest =>
    if k.isMerge then do addEntries? (← mergeNode? fields v) rest
    else do
      let key ← k.key?
      let value ← Node.json? v
      addEntries? (Json.setField key value fields) rest

def mergeNode? (fields : List (String × Json)) : Node → Option (List (String × Json))
  | .mapping entries => addEntries? fields entries
  | .sequence items => mergeItems? fields items
  | _ => none

def mergeItems? (fields : List (String × Json)) : List Node → Option (List (String × Json))
  | [] => some fields
  | .mapping entries :: rest => do addEntries? (← mergeItems? fields rest) entries
  | _ :: _ => none

end

def read? (s : String) : Option Json := do
  match ← Node.parse? s with
  | none => return .null
  | some n => n.json?

end Typesmith.Yaml
