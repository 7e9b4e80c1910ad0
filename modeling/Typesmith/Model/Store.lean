import Typesmith.Diagnostic
import Typesmith.Registry
import Typesmith.Resolver
import Typesmith.Rules
import Typesmith.Model.Descriptor

namespace Typesmith.Model

inductive EnumStyle where
  | enum | union
  deriving DecidableEq, Repr, Inhabited

structure Setting where
  resolver : Resolver
  rules : List Rule := Rule.defaults
  overrides : List (String × String) := []
  inlineStringEnums : Bool := false
  enumStyle : EnumStyle := .enum

structure Store where
  descriptors : Array Descriptor := #[]
  index : List (String × Container) := []
  names : Registry := {}
  warnings : List Warning := []
  debug : List String := []
  deriving Inhabited

inductive Failure where
  | fault (fault : Fault)
  | unwritable
  | tooDeep
  deriving DecidableEq, Repr, Inhabited

def unwritableText : String := "the fragment cannot be written"

def Failure.text : Failure → String
  | fault f => f.text
  | unwritable => unwritableText
  | tooDeep => "fragments are nested too deeply"

/-- A step of a conversion: it may fail, and keeps the store in both cases. -/
abbrev ConvertM := ExceptT Failure (StateM Store)

namespace Store

def get? (s : Store) (id : Id) : Option Descriptor :=
  s.descriptors[id]?

def lookup? (s : Store) (ref : String) : Option Container :=
  s.index.lookup ref

def push (s : Store) (d : Descriptor) : Id × Store :=
  (s.descriptors.size, { s with descriptors := s.descriptors.push d })

def setShape (s : Store) (id : Id) (shape : Shape) : Store :=
  { s with descriptors := s.descriptors.modify id fun d => { d with shape } }

def register (s : Store) (ref : String) (c : Container) : Store :=
  if ref = "" then s else { s with index := (ref, c) :: s.index }

def warn (s : Store) (code : Warning.Code) (ref message : String) : Store :=
  { s with warnings := s.warnings ++ [⟨code, ref, message⟩] }

end Store

def create (d : Descriptor) : ConvertM Id :=
  modifyGet (·.push d)

def register (ref : String) (c : Container) : ConvertM Unit :=
  modify (·.register ref c)

def setShape (id : Id) (shape : Shape) : ConvertM Unit :=
  modify (·.setShape id shape)

def warn (code : Warning.Code) (ref message : String) : ConvertM Unit :=
  modify (·.warn code ref message)

def fail {α : Type} (f : Fault) : ConvertM α :=
  throw (.fault f)

def orFail {α : Type} (e : Failure) : Option α → Except Failure α
  | some a => .ok a
  | none => .error e

def resolve (cfg : Setting) (ref : String) : Except Failure Fragment :=
  (cfg.resolver.fragment ref).mapError .fault

def nullDescriptor : Descriptor :=
  { kind := .null, fragment := some (Fragment.ofType "null"), shape := .value "null" }

/-- Stores a descriptor before its members are known, so that they can refer back to it. A nullable
one brings `null` along. -/
def claim (d : Descriptor) (nullable : Bool) : ConvertM (Id × Container) := do
  let id ← create { d with nullable }
  if nullable then
    let null ← create nullDescriptor
    register d.ref [id, null]
    return (id, [id, null])
  else
    register d.ref [id]
    return (id, [id])

end Typesmith.Model
