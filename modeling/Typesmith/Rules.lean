import Typesmith.Kind
import Typesmith.Json.Writer
import Typesmith.Text.Quoted

namespace Typesmith

structure Rule where
  name : String
  kind : Kind
  deriving DecidableEq, Repr, Inhabited

namespace Rule

def hasType (types : List String) (j : Json) : Bool :=
  match j.get? "type" with
  | some (.str t) => types.contains t
  | _ => false

def hasUntyped (key : String) (j : Json) : Bool :=
  (j.get? key).isSome && (j.get? "type").isNone

def hasItems (key : String) (j : Json) : Bool :=
  !(j.items key).isEmpty

def hasText (key : String) (j : Json) : Bool :=
  j.text key ≠ ""

def shape? (name : String) : Option (Json → Bool) :=
  match name with
  | "generic" => some fun j => ((j.get? "x-typegen-generic").bind (·.get? "cases")).isSome
  | "oneof" => some (hasItems "oneOf")
  | "anyof" => some (hasItems "anyOf")
  | "allof" => some (hasItems "allOf")
  | "enum" => some (hasItems "enum")
  | "number" => some (hasType ["number", "integer"])
  | "string" => some (hasType ["string"])
  | "object" => some fun j =>
    hasType ["object"] j || hasUntyped "properties" j || hasUntyped "additionalProperties" j
  | "array" => some fun j => hasType ["array"] j || hasUntyped "items" j
  | "boolean" => some (hasType ["boolean"])
  | "null" => some (hasType ["null"])
  | "instance" => some fun j => hasText "instanceof" j || hasText "x-instanceof" j
  | "any" => some fun j => j.obj?.isSome
  | _ => none

def defaults : List Rule :=
  [⟨"generic", .generic⟩, ⟨"oneof", .someOf⟩, ⟨"anyof", .someOf⟩, ⟨"allof", .someOf⟩,
   ⟨"enum", .enum⟩, ⟨"number", .number⟩, ⟨"string", .string⟩, ⟨"object", .object⟩,
   ⟨"array", .array⟩, ⟨"boolean", .boolean⟩, ⟨"null", .null⟩, ⟨"instance", .external⟩,
   ⟨"any", .any⟩]

def fits (j : Json) (r : Rule) : Bool :=
  match shape? r.name with
  | some p => p j
  | none => false

def match? (rules : List Rule) (j : Json) : Option Rule :=
  rules.find? (fits j)

def classify (rules : List Rule) (j : Json) : Kind × List String :=
  let kind := ((match? rules j).map (·.kind)).getD .any
  match j.get? "type" with
  | some t =>
    if kind = .any then
      (kind, ["fragment with type " ++ String.ofList t.plain ++ " fell through to the catch-all rule"])
    else (kind, [])
  | none => (kind, [])

def unknownType? (j : Json) : Option Json :=
  match j.get? "type" with
  | some (.str t) => if isPrimitiveType t then none else some (.str t)
  | other => other

inductive Misuse where
  | noRules
  | unknownShape (name : String)
  deriving DecidableEq, Repr

def Misuse.message : Misuse → String
  | noRules => "rules: at least one rule is required"
  | unknownShape name => "rules: meta-schema for " ++ Text.quote name ++ ": file does not exist"

def check (rules : List Rule) : Except Misuse (List Rule) :=
  if rules.isEmpty then .error .noRules
  else
    match rules.find? fun r => (shape? r.name).isNone with
    | some r => .error (.unknownShape r.name)
    | none => .ok rules

end Rule

end Typesmith
