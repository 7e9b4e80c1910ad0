import Typesmith.Json.Basic
import Typesmith.Fragment.Link

namespace Typesmith

structure MarkupHint where
  name : String := ""
  namespaceText : String := ""
  namespaceMark : String := ""
  isAttribute : Bool := false
  isWrapped : Bool := false
  deriving Repr, Inhabited

structure ExternalDocs where
  description : String := ""
  url : String := ""
  deriving Repr, Inhabited

/-- The keywords that hold no fragments. Empty texts and lists, `false` and `none` mean that the
keyword is absent. -/
structure Keywords where
  id : String := ""
  description : String := ""
  types : List String := []
  nullable : Bool := false
  format : String := ""
  title : String := ""
  defaultValue : Option Json := none
  maximum : Option Decimal := none
  exclusiveMaximum : Bool := false
  minimum : Option Decimal := none
  exclusiveMinimum : Bool := false
  maxLength : Option Decimal := none
  minLength : Option Decimal := none
  pattern : String := ""
  maxItems : Option Decimal := none
  minItems : Option Decimal := none
  uniqueItems : Bool := false
  multipleOf : Option Decimal := none
  enum : List Json := []
  maxProperties : Option Decimal := none
  minProperties : Option Decimal := none
  required : List String := []
  ref : Option String := none
  schemaUrl : String := ""
  discriminator : String := ""
  readOnly : Bool := false
  xml : Option MarkupHint := none
  externalDocs : Option ExternalDocs := none
  exampleValue : Option Json := none
  extensions : List (String × Json) := []
  extras : List (String × Json) := []
  deriving Repr, Inhabited

inductive ItemsOf (α : Type) where
  /-- Present, and saying nothing. -/
  | hollow
  | one (fragment : α)
  | many (fragments : List α)
  deriving Repr, Inhabited

inductive ExtentOf (α : Type) where
  | allowed
  | forbidden
  | described (fragment : α)
  deriving Repr, Inhabited

inductive DependencyOf (α : Type) where
  | nothing
  | names (required : List String)
  | described (fragment : α)
  deriving Repr, Inhabited

structure Fragment where
  keywords : Keywords := {}
  items : Option (ItemsOf Fragment) := none
  allOf : List Fragment := []
  oneOf : List Fragment := []
  anyOf : List Fragment := []
  negated : Option Fragment := none
  properties : List (String × Fragment) := []
  additionalProperties : Option (ExtentOf Fragment) := none
  patternProperties : List (String × Fragment) := []
  dependencies : List (String × DependencyOf Fragment) := []
  additionalItems : Option (ExtentOf Fragment) := none
  definitions : List (String × Fragment) := []
  deriving Inhabited

namespace Fragment

def ofType (name : String) : Fragment :=
  { keywords := { types := [name] } }

def ofProperties (properties : List (String × Fragment)) (required : List String) : Fragment :=
  { keywords := { types := ["object"], required }, properties }

def ofRef (ref : String) : Fragment :=
  { keywords := { ref := Link.normalize? ref } }

def isRef (s : Fragment) : Bool :=
  s.keywords.ref.isSome

def ref (s : Fragment) : String :=
  match s.keywords.ref with
  | some r => Link.target r
  | none => ""

def hasType (s : Fragment) (name : String) : Bool :=
  s.keywords.types.contains name

def isNullable (s : Fragment) : Bool :=
  s.keywords.nullable || s.hasType "null" || s.keywords.enum.any Json.isNull

def nonNullTypes (s : Fragment) : List String :=
  s.keywords.types.filter (· ≠ "null")

inductive Combinator where
  | oneOf | anyOf | allOf
  deriving DecidableEq, Repr, Inhabited

def Combinator.text : Combinator → String
  | oneOf => "oneOf"
  | anyOf => "anyOf"
  | allOf => "allOf"

def combinator? (s : Fragment) : Option (Combinator × List Fragment) :=
  if !s.oneOf.isEmpty then some (.oneOf, s.oneOf)
  else if !s.anyOf.isEmpty then some (.anyOf, s.anyOf)
  else if !s.allOf.isEmpty then some (.allOf, s.allOf)
  else none

def commonPart (s : Fragment) : Fragment :=
  { s with oneOf := [], anyOf := [], allOf := [] }

def hasStructure (s : Fragment) : Bool :=
  let k := s.keywords
  !k.types.isEmpty || k.format ≠ "" || k.nullable || !s.properties.isEmpty
    || !s.patternProperties.isEmpty || !k.required.isEmpty || s.items.isSome || !k.enum.isEmpty
    || s.additionalProperties.isSome || s.negated.isSome || k.maximum.isSome || k.minimum.isSome
    || k.multipleOf.isSome || k.maxLength.isSome || k.minLength.isSome || k.pattern ≠ ""
    || k.maxItems.isSome || k.minItems.isSome || k.uniqueItems || k.maxProperties.isSome
    || k.minProperties.isSome

def itemFragments (s : Fragment) : List Fragment :=
  match s.items with
  | some (.one f) => [f]
  | some (.many fs) => fs
  | _ => []

def isDeprecated (s : Fragment) : Bool :=
  match s.keywords.extras.lookup "deprecated" with
  | some (.bool b) => b
  | _ => false

def extraText (s : Fragment) (key : String) : String :=
  match s.keywords.extras.lookup key, s.keywords.extensions.lookup key with
  | some (.str t), _ => t
  | _, some (.str t) => t
  | _, _ => ""

end Fragment

end Typesmith
