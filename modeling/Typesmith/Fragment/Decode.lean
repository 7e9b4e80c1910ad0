import Typesmith.Fragment.Basic

namespace Typesmith.Fragment

open Text

/-- Folds the letters that differ only in case from ASCII letters. -/
def foldChar (c : Char) : Char :=
  if c = 'ſ' then 's' else if c.toNat = 0x212A then 'k' else c.toLower

def foldKey (key : String) : String :=
  String.ofList (key.toList.map foldChar)

def plainKeys : List String :=
  ["id", "description", "type", "nullable", "format", "title", "default", "maximum",
   "exclusiveMaximum", "minimum", "exclusiveMinimum", "maxLength", "minLength", "pattern",
   "maxItems", "minItems", "uniqueItems", "multipleOf", "enum", "maxProperties", "minProperties",
   "required", "discriminator", "readOnly", "xml", "externalDocs", "example"]

inductive Branch where
  | items | allOf | oneOf | anyOf | negated | properties | additionalProperties
  | patternProperties | dependencies | additionalItems | definitions
  deriving DecidableEq, Repr

namespace Branch

def all : List Branch :=
  [items, allOf, oneOf, anyOf, negated, properties, additionalProperties, patternProperties,
   dependencies, additionalItems, definitions]

def key : Branch → String
  | items => "items"
  | allOf => "allOf"
  | oneOf => "oneOf"
  | anyOf => "anyOf"
  | negated => "not"
  | properties => "properties"
  | additionalProperties => "additionalProperties"
  | patternProperties => "patternProperties"
  | dependencies => "dependencies"
  | additionalItems => "additionalItems"
  | definitions => "definitions"

def ofKey (key : String) : Option Branch :=
  all.find? fun b => foldKey b.key == foldKey key

def takesMap : Branch → Bool
  | properties | patternProperties | definitions => true
  | _ => false

def takesList : Branch → Bool
  | items | allOf | oneOf | anyOf => true
  | _ => false

def takesOne : Branch → Bool
  | items | negated | additionalProperties | additionalItems => true
  | _ => false

end Branch

def knownKeys : List String :=
  ["$ref", "$schema"] ++ plainKeys ++ Branch.all.map Branch.key

/-- A text; `null` keeps what there was. -/
def readText (old : String) : Json → Option String
  | .null => some old
  | .str s => some s
  | _ => none

def readBool (old : Bool) : Json → Option Bool
  | .null => some old
  | .bool b => some b
  | _ => none

def readNumber : Json → Option (Option Decimal)
  | .null => some none
  | .num n => some (some n)
  | _ => none

def readCount : Json → Option (Option Decimal)
  | .null => some none
  | .num n =>
    if n.isWhole && -(Decimal.signedBound : Int) ≤ n.truncate && n.truncate < Decimal.signedBound then
      some (some { n with negative := n.negative && n.digits ≠ 0 })
    else none
  | _ => none

def readTexts : Json → Option (List String)
  | .null => some []
  | .arr l => l.mapM (readText "")
  | _ => none

def readTypes (old : List String) : Json → Option (List String)
  | .null => some old
  | .str s => some [s]
  | .arr l => l.mapM (readText "")
  | _ => none

def readValue : Json → Option Json
  | .null => none
  | j => some j

def setMarkupHint (x : MarkupHint) (key : String) (v : Json) : Option MarkupHint :=
  match foldKey key with
  | "name" => (readText x.name v).map fun t => { x with name := t }
  | "namespace" => (readText x.namespaceText v).map fun t => { x with namespaceText := t }
  | "prefix" => (readText x.namespaceMark v).map fun t => { x with namespaceMark := t }
  | "attribute" => (readBool x.isAttribute v).map fun b => { x with isAttribute := b }
  | "wrapped" => (readBool x.isWrapped v).map fun b => { x with isWrapped := b }
  | _ => some x

def readMarkupHint : Json → Option (Option MarkupHint)
  | .null => some none
  | .obj fields => (fields.foldlM (fun x kv => setMarkupHint x kv.1 kv.2) {}).map some
  | _ => none

def setExternalDocs (x : ExternalDocs) (key : String) (v : Json) : Option ExternalDocs :=
  match foldKey key with
  | "description" => (readText x.description v).map fun t => { x with description := t }
  | "url" => (readText x.url v).map fun t => { x with url := t }
  | _ => some x

def readExternalDocs : Json → Option (Option ExternalDocs)
  | .null => some none
  | .obj fields => (fields.foldlM (fun x kv => setExternalDocs x kv.1 kv.2) {}).map some
  | _ => none

def setKeyword (k : Keywords) (key : String) (v : Json) : Option Keywords :=
  match foldKey key with
  | "id" => (readText k.id v).map fun t => { k with id := t }
  | "description" => (readText k.description v).map fun t => { k with description := t }
  | "type" => (readTypes k.types v).map fun t => { k with types := t }
  | "nullable" => (readBool k.nullable v).map fun b => { k with nullable := b }
  | "format" => (readText k.format v).map fun t => { k with format := t }
  | "title" => (readText k.title v).map fun t => { k with title := t }
  | "default" => some { k with defaultValue := readValue v }
  | "maximum" => (readNumber v).map fun n => { k with maximum := n }
  | "exclusivemaximum" => (readBool k.exclusiveMaximum v).map fun b => { k with exclusiveMaximum := b }
  | "minimum" => (readNumber v).map fun n => { k with minimum := n }
  | "exclusiveminimum" => (readBool k.exclusiveMinimum v).map fun b => { k with exclusiveMinimum := b }
  | "maxlength" => (readCount v).map fun n => { k with maxLength := n }
  | "minlength" => (readCount v).map fun n => { k with minLength := n }
  | "pattern" => (readText k.pattern v).map fun t => { k with pattern := t }
  | "maxitems" => (readCount v).map fun n => { k with maxItems := n }
  | "minitems" => (readCount v).map fun n => { k with minItems := n }
  | "uniqueitems" => (readBool k.uniqueItems v).map fun b => { k with uniqueItems := b }
  | "multipleof" => (readNumber v).map fun n => { k with multipleOf := n }
  | "enum" =>
    match v with
    | .null => some { k with enum := [] }
    | .arr l => some { k with enum := l }
    | _ => none
  | "maxproperties" => (readCount v).map fun n => { k with maxProperties := n }
  | "minproperties" => (readCount v).map fun n => { k with minProperties := n }
  | "required" => (readTexts v).map fun l => { k with required := l }
  | "discriminator" => (readText k.discriminator v).map fun t => { k with discriminator := t }
  | "readonly" => (readBool k.readOnly v).map fun b => { k with readOnly := b }
  | "xml" => (readMarkupHint v).map fun x => { k with xml := x }
  | "externaldocs" => (readExternalDocs v).map fun x => { k with externalDocs := x }
  | "example" => some { k with exampleValue := readValue v }
  | _ => some k

def setOne (s : Fragment) (b : Branch) (f : Fragment) : Fragment :=
  match b with
  | .items => { s with items := some (.one f) }
  | .negated => { s with negated := some f }
  | .additionalProperties => { s with additionalProperties := some (.described f) }
  | .additionalItems => { s with additionalItems := some (.described f) }
  | _ => s

def setMany (s : Fragment) (b : Branch) (fs : List Fragment) : Fragment :=
  match b with
  | .items => { s with items := some (if fs.isEmpty then .hollow else .many fs) }
  | .allOf => { s with allOf := fs }
  | .oneOf => { s with oneOf := fs }
  | .anyOf => { s with anyOf := fs }
  | _ => s

def setNamed (s : Fragment) (b : Branch) (fs : List (String × Fragment)) : Fragment :=
  let add (old : List (String × Fragment)) : List (String × Fragment) :=
    fs.foldl (fun acc kf => Json.setField kf.1 kf.2 acc) old
  match b with
  | .properties => { s with properties := add s.properties }
  | .patternProperties => { s with patternProperties := add s.patternProperties }
  | .definitions => { s with definitions := add s.definitions }
  | _ => s

def setOther (s : Fragment) (b : Branch) (v : Json) : Option Fragment :=
  let extent : ExtentOf Fragment := match v with
    | .bool false => .forbidden
    | _ => .allowed
  match b with
  | .items => some { s with items := some .hollow }
  | .additionalProperties => some { s with additionalProperties := some extent }
  | .additionalItems => some { s with additionalItems := some extent }
  | _ => none

def clear (s : Fragment) (b : Branch) : Fragment :=
  match b with
  | .items => { s with items := none }
  | .allOf => { s with allOf := [] }
  | .oneOf => { s with oneOf := [] }
  | .anyOf => { s with anyOf := [] }
  | .negated => { s with negated := none }
  | .properties => { s with properties := [] }
  | .additionalProperties => { s with additionalProperties := none }
  | .patternProperties => { s with patternProperties := [] }
  | .dependencies => { s with dependencies := [] }
  | .additionalItems => { s with additionalItems := none }
  | .definitions => { s with definitions := [] }

def isExtension (key : String) : Bool :=
  startsWith (asciiLower key) "x-"

def start (fields : List (String × Json)) : Fragment :=
  let unknown := fields.filter fun kv => !knownKeys.contains kv.1
  { keywords :=
    { ref := ((fields.lookup "$ref").bind Json.str?).bind Link.normalize?
      schemaUrl := (((fields.lookup "$schema").bind Json.str?).bind Link.tidy?).getD ""
      extensions := unknown.filter fun kv => isExtension kv.1
      extras := unknown.filter fun kv => !isExtension kv.1 } }

mutual

def decode? : Json → Option Fragment
  | .null => some {}
  | .obj fields => decodeFields fields (start fields)
  | _ => none

def decodeFields : List (String × Json) → Fragment → Option Fragment
  | [], s => some s
  | (key, .obj fields) :: rest, s =>
    match Branch.ofKey key with
    | none =>
      (setKeyword s.keywords key (.obj fields)).bind fun k => decodeFields rest { s with keywords := k }
    | some b =>
      if b.takesMap then
        (decodeNamed fields).bind fun fs => decodeFields rest (s.setNamed b fs)
      else if b = .dependencies then
        (decodeDependencies fields).bind fun ds =>
          decodeFields rest
            { s with dependencies := ds.foldl (fun acc kd => Json.setField kd.1 kd.2 acc) s.dependencies }
      else if b.takesOne then
        (decodeFields fields (start fields)).bind fun f => decodeFields rest (s.setOne b f)
      else none
  | (key, .arr items) :: rest, s =>
    match Branch.ofKey key with
    | none =>
      (setKeyword s.keywords key (.arr items)).bind fun k => decodeFields rest { s with keywords := k }
    | some b =>
      if b.takesList then
        (decodeItems items).bind fun fs => decodeFields rest (s.setMany b fs)
      else (s.setOther b (.arr items)).bind fun s => decodeFields rest s
  | (key, v) :: rest, s =>
    match Branch.ofKey key with
    | none => (setKeyword s.keywords key v).bind fun k => decodeFields rest { s with keywords := k }
    | some b =>
      -- `null` takes back what another spelling of the keyword has set
      if v.isNull then decodeFields rest (s.clear b)
      else (s.setOther b v).bind fun s => decodeFields rest s

def decodeItems : List Json → Option (List Fragment)
  | [] => some []
  | j :: rest => (decode? j).bind fun f => (decodeItems rest).map (f :: ·)

def decodeNamed : List (String × Json) → Option (List (String × Fragment))
  | [] => some []
  | (key, j) :: rest => (decode? j).bind fun f => (decodeNamed rest).map ((key, f) :: ·)

def decodeDependencies : List (String × Json) → Option (List (String × DependencyOf Fragment))
  | [] => some []
  | (key, .obj fields) :: rest =>
    (decodeFields fields (start fields)).bind fun f =>
      (decodeDependencies rest).map ((key, .described f) :: ·)
  | (key, .arr items) :: rest =>
    (readTexts (.arr items)).bind fun names =>
      (decodeDependencies rest).map ((key, if names.isEmpty then .nothing else .names names) :: ·)
  | (key, _) :: rest => (decodeDependencies rest).map ((key, .nothing) :: ·)

end

end Typesmith.Fragment
