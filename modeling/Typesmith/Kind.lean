namespace Typesmith

/-- What a fragment describes. `external` is a value of a class declared elsewhere, `other` stands for a kind name that is not among the known ones. -/
inductive Kind where
  | any | object | array | string | number | boolean | null | enum | someOf | external | generic
  | other
  deriving DecidableEq, Repr, Inhabited

namespace Kind

def all : List Kind :=
  [any, object, array, string, number, boolean, null, enum, someOf, external, generic]

def label : Kind → String
  | any => "any"
  | object => "object"
  | array => "array"
  | string => "string"
  | number => "number"
  | boolean => "boolean"
  | null => "null"
  | enum => "enum"
  | someOf => "some-of"
  | external => "instance"
  | generic => "generic"
  | other => "unknown"

def ofIndex (n : Nat) : Kind :=
  all.getD n other

def ofLabel (s : String) : Kind :=
  (all.find? (·.label == s)).getD other

end Kind

def typeNames : List String :=
  ["string", "number", "integer", "boolean", "array", "object", "null"]

def isPrimitiveType (name : String) : Bool :=
  typeNames.contains name

def isScalarType (name : String) : Bool :=
  ["string", "number", "integer", "boolean", "null"].contains name

end Typesmith
