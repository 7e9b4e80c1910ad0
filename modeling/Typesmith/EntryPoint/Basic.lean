import Typesmith.Naming
import Typesmith.Registry
import Typesmith.Resolver
import Typesmith.Document.Basic
import Typesmith.Json.Refs

namespace Typesmith

inductive EntryPoint.Role where
  | parameters | request | requests | response | responses
  deriving DecidableEq, Repr, Inhabited

def EntryPoint.Role.text : EntryPoint.Role → String
  | parameters => "parameters"
  | request => "request"
  | requests => "requests"
  | response => "response"
  | responses => "responses"

structure EntryPoint where
  name : String
  ref : String
  operation : String
  role : EntryPoint.Role
  status : String := ""
  contentType : String := ""
  fragment : List (String × Json)
  deriving Inhabited

namespace EntryPoint

structure Operation where
  method : String
  path : String
  name : String
  pointer : String
  deriving Repr, Inhabited

def Operation.label (op : Operation) : String :=
  op.method ++ " " ++ op.path

def operationName (method path operationId : String) : String :=
  let name := Naming.modelName operationId
  if operationId ≠ "" && name ≠ "_" then name
  else Naming.modelName (Text.lowerEach method ++ " " ++ path)

def mountRef (name : String) : String :=
  "#/x-typegen/entrypoints/" ++ Reference.escape name

def childRef (ref segment : String) : String :=
  ref ++ "/" ++ Reference.escape segment

def pathRef (path : String) : String :=
  childRef "#/paths" path

def ofOperation (op : Operation) (role : Role) (name : String) (fragment : List (String × Json)) :
    EntryPoint :=
  { name, ref := mountRef name, operation := op.label, role, fragment }

structure Setting where
  resolver : Resolver
  defaultContentType : String

structure Progress where
  names : Registry := {}
  debug : List String := []
  deriving Inhabited

abbrev SynthM := ExceptT Fault (StateM Progress)

def note (line : String) : SynthM Unit :=
  modify fun p => { p with debug := p.debug ++ [line] }

def maxHops : Nat := 32

/-- Follows references from `current` until an object is reached that is none. The answer is the
object's fields and the reference that it was read at. -/
def followFrom (lookup : String → Except Fault Json) (start : String) :
    Nat → String → Except Fault (List (String × Json) × String)
  | 0, _ => .error (Fault.ofReference start "too many chained references" none)
  | hops + 1, current =>
    match lookup current with
    | .error e => .error e
    | .ok (.obj fields) =>
      match fields.lookup "$ref" with
      | some (.str next) => followFrom lookup start hops (Reference.qualify next current)
      | _ => .ok (fields, current)
    | .ok _ => .error (Fault.ofReference current "expected an object" none)

def follow (cfg : Setting) (ref : String) : SynthM (List (String × Json) × String) :=
  match followFrom cfg.resolver.lookup ref maxHops (Reference.normalize ref) with
  | .ok r => pure r
  | .error e => throw e

/-- A schema read at `base`, with references that hold from the root document. What is no object says
nothing. -/
def copyFragment (v : Option Json) (base : String) : List (String × Json) :=
  match v with
  | some (.obj fields) =>
    ((Json.obj fields).mapRefs fun ref => Reference.qualify ref base).obj?.getD []
  | _ => []

def textAt (fields : List (String × Json)) (key : String) : String :=
  ((fields.lookup key).bind Json.str?).getD ""

def hasValue (fields : List (String × Json)) (key : String) : Bool :=
  match fields.lookup key with
  | some j => !j.isNull
  | none => false

def contentAt (fields : List (String × Json)) : List (String × Json) :=
  ((fields.lookup "content").bind Json.obj?).getD []

/-- Takes over a description unless the fragment has one or is a reference. -/
def describe (description : String) (fragment : List (String × Json)) : List (String × Json) :=
  if description ≠ "" && !hasValue fragment "description" && !hasValue fragment "$ref" then
    Json.setField "description" (.str description) fragment
  else fragment

end EntryPoint

end Typesmith
