import Typesmith.Kind
import Typesmith.Fragment.Basic

namespace Typesmith.Model

abbrev Id := Nat

/-- The alternatives at one place of a schema, in order. -/
abbrev Container := List Id

structure Property where
  name : String
  required : Bool := false
  readOnly : Bool := false
  /-- Stands for all names that are not listed. -/
  isIndex : Bool := false
  types : Container
  fragment : Option Fragment := none
  deriving Inhabited

structure Member where
  name : String
  value : Json
  deriving Inhabited

inductive Shape where
  | value (token : String)
  | external (name : String)
  | array (items : List Container)
  | enum (members : List Member)
  | someOf (combinator : Fragment.Combinator) (branches : List Container)
  | generic (parameter : String) (cases : List (String × Container))
  /-- A record; more than one set of properties is a union of records. A closed record has no
  properties and allows none. -/
  | object (sets : List (List Property)) (closed : Bool)
  deriving Inhabited

/-- The meaning of one fragment. A named descriptor gets a declaration; one without a name is written
where it is used. Descriptors refer to each other by their places, so they may go in circles. -/
structure Descriptor where
  kind : Kind
  name : String := ""
  suggested : String := ""
  ref : String := ""
  fragment : Option Fragment := none
  nullable : Bool := false
  shape : Shape
  deriving Inhabited

end Typesmith.Model
