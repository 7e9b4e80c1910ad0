import Typesmith.Fragment.Decode
import Typesmith.Json.Strict
import Typesmith.Json.Writer

namespace Typesmith.Fragment

open Text

def isPlainName (name : String) : Bool :=
  name.toList.all fun c => c ≠ '"' && c ≠ '\\' && 32 ≤ c.toNat

def spellNamed (fields : List (String × Json)) : List Char :=
  let one (kv : String × Json) : String :=
    String.ofList ('"' :: (kv.1.toList ++ '"' :: ':' :: kv.2.write Json.shortNumbers))
  '\x7b' :: ((join "," (fields.map one)).toList ++ ['\x7d'])

/-- Names are put into the text as they are, so with a name that is not plain the object is what
that text is read as, if it makes sense at all. -/
def closeNamed (fields : List (String × Json)) : Option Json :=
  if fields.all fun kv => isPlainName kv.1 then some (.obj fields)
  else
    let text := spellNamed fields
    if Json.isWellFormed text then Json.parse? (String.ofList text) else none

def order? (s : Fragment) : Option Int :=
  match s.keywords.extensions.lookup "x-order" with
  | some (.num n) => some n.truncate
  | some (.str t) =>
    let (minus, ds) := match t.toList with
      | '-' :: ds => (true, ds)
      | '+' :: ds => (false, ds)
      | ds => (false, ds)
    let n := digitsValue ds
    if ds.isEmpty || !ds.all isAsciiDigit then none
    else if minus then if n ≤ Decimal.signedBound then some (-(n : Int)) else none
    else if n < Decimal.signedBound then some n
    else none
  | _ => none

def comesBefore (a b : Option Int × String) : Bool :=
  match a.1, b.1 with
  | some i, some j => decide (i ≤ j)
  | some _, none => true
  | none, some _ => false
  | none, none => decide (a.2 ≤ b.2)

def inOrder (fields : List (String × Option Int × Json)) : List (String × Json) :=
  (fields.mergeSort fun a b => comesBefore (a.2.1, a.1) (b.2.1, b.1)).map fun x => (x.1, x.2.2)

def textField (key s : String) : List (String × Json) :=
  if s = "" then [] else [(key, .str s)]

def flagField (key : String) (b : Bool) : List (String × Json) :=
  if b then [(key, .bool true)] else []

def numberField (key : String) (n : Option Decimal) : List (String × Json) :=
  match n with
  | some n => [(key, .num n)]
  | none => []

def valueField (key : String) (v : Option Json) : List (String × Json) :=
  match v with
  | some v => [(key, v)]
  | none => []

def listField (key : String) (l : List Json) : List (String × Json) :=
  if l.isEmpty then [] else [(key, .arr l)]

def typesField : List String → List (String × Json)
  | [] => []
  | [t] => [("type", .str t)]
  | ts => [("type", .arr (ts.map .str))]

def markupHintJson (x : MarkupHint) : Json :=
  .obj (textField "name" x.name ++ textField "namespace" x.namespaceText
    ++ textField "prefix" x.namespaceMark ++ flagField "attribute" x.isAttribute
    ++ flagField "wrapped" x.isWrapped)

def externalDocsJson (x : ExternalDocs) : Json :=
  .obj (textField "description" x.description ++ textField "url" x.url)

def leadingFields (k : Keywords) : List (String × Json) :=
  textField "id" k.id ++ textField "description" k.description ++ typesField k.types
    ++ flagField "nullable" k.nullable ++ textField "format" k.format ++ textField "title" k.title
    ++ valueField "default" k.defaultValue ++ numberField "maximum" k.maximum
    ++ flagField "exclusiveMaximum" k.exclusiveMaximum ++ numberField "minimum" k.minimum
    ++ flagField "exclusiveMinimum" k.exclusiveMinimum ++ numberField "maxLength" k.maxLength
    ++ numberField "minLength" k.minLength ++ textField "pattern" k.pattern
    ++ numberField "maxItems" k.maxItems ++ numberField "minItems" k.minItems
    ++ flagField "uniqueItems" k.uniqueItems ++ numberField "multipleOf" k.multipleOf
    ++ listField "enum" k.enum ++ numberField "maxProperties" k.maxProperties
    ++ numberField "minProperties" k.minProperties ++ listField "required" (k.required.map .str)

def trailingFields (k : Keywords) : List (String × Json) :=
  k.extensions ++ valueField "$ref" (k.ref.map .str) ++ textField "$schema" k.schemaUrl
    ++ textField "discriminator" k.discriminator ++ flagField "readOnly" k.readOnly
    ++ valueField "xml" (k.xml.map markupHintJson)
    ++ valueField "externalDocs" (k.externalDocs.map externalDocsJson)
    ++ valueField "example" k.exampleValue ++ k.extras

mutual

def write? : Fragment → Option Json
  | ⟨k, items, allOf, oneOf, anyOf, negated, properties, additionalProperties, patternProperties,
      dependencies, additionalItems, definitions⟩ => do
    let items ← writeItems? items
    let allOf ← writeList? allOf
    let oneOf ← writeList? oneOf
    let anyOf ← writeList? anyOf
    let negated ← writeOption? negated
    let properties ← writeNamed? properties
    let additionalProperties ← writeExtent? additionalProperties
    let patternProperties ← writeNamed? patternProperties
    let dependencies ← writeDependencies? dependencies
    let additionalItems ← writeExtent? additionalItems
    let definitions ← writeNamed? definitions
    let properties ← closeNamed (inOrder properties)
    let patternProperties ← closeNamed (inOrder patternProperties)
    let named (key : String) (j : Json) : List (String × Json) :=
      match j with
      | .obj [] => []
      | j => [(key, j)]
    let plain (fs : List (String × Option Int × Json)) : Json := .obj (fs.map fun x => (x.1, x.2.2))
    return .obj (leadingFields k ++ valueField "items" items ++ listField "allOf" allOf
      ++ listField "oneOf" oneOf ++ listField "anyOf" anyOf ++ valueField "not" negated
      ++ named "properties" properties ++ valueField "additionalProperties" additionalProperties
      ++ named "patternProperties" patternProperties ++ named "dependencies" (.obj dependencies)
      ++ valueField "additionalItems" additionalItems ++ named "definitions" (plain definitions)
      ++ trailingFields k)

def writeList? : List Fragment → Option (List Json)
  | [] => some []
  | f :: rest => do
    let j ← write? f
    let js ← writeList? rest
    return j :: js

def writeOption? : Option Fragment → Option (Option Json)
  | none => some none
  | some f => (write? f).map some

def writeNamed? : List (String × Fragment) → Option (List (String × Option Int × Json))
  | [] => some []
  | (name, f) :: rest => do
    let j ← write? f
    let js ← writeNamed? rest
    return (name, order? f, j) :: js

def writeItems? : Option (ItemsOf Fragment) → Option (Option Json)
  | none => some none
  | some .hollow => some (some .null)
  | some (.one f) => (write? f).map some
  | some (.many fs) => (writeList? fs).map fun js => some (.arr js)

def writeExtent? : Option (ExtentOf Fragment) → Option (Option Json)
  | none => some none
  | some .allowed => some (some (.bool true))
  | some .forbidden => some (some (.bool false))
  | some (.described f) => (write? f).map some

def writeDependencies? : List (String × DependencyOf Fragment) → Option (List (String × Json))
  | [] => some []
  | (name, .nothing) :: rest => (writeDependencies? rest).map ((name, .null) :: ·)
  | (name, .names l) :: rest => (writeDependencies? rest).map ((name, .arr (l.map .str)) :: ·)
  | (name, .described f) :: rest => do
    let j ← write? f
    let js ← writeDependencies? rest
    return (name, j) :: js

end

def toJson? (s : Fragment) : Option Json :=
  (write? s).map Json.canonical

def reread? (s : Fragment) : Option Fragment :=
  (toJson? s).bind decode?

def compact (s : Fragment) : String :=
  match write? s with
  | some j => String.ofList (j.write Json.shortNumbers)
  | none => "<unprintable fragment>"

end Typesmith.Fragment
