import Typesmith.Document.Basic
import Typesmith.Json.Reader
import Typesmith.Json.Strict
import Typesmith.Yaml.Reader

namespace Typesmith.Document

open Text

inductive Style where
  | compact | indented
  deriving DecidableEq, Repr

def styleOf (text : String) : Style :=
  match (trim text).toList with
  | '\x7b' :: _ => .compact
  | '[' :: _ => .compact
  | _ => .indented

def decode (text : String) : Except Style Json :=
  match styleOf text with
  | .compact =>
    match Json.parse? (trim text) with
    | some j => .ok j
    | none => .error .compact
  | .indented =>
    match Yaml.read? text with
    | some j => .ok j
    | none => .error .indented

/-- The document of a text. In the compact style the operations are read more strictly than the
rest. -/
def read (path text : String) : Except Unreadable Document :=
  match decode text with
  | .error .compact => .error .notAnObject
  | .error .indented => .error .badText
  | .ok tree => do
    let doc ← ofTree path tree
    if styleOf text = .compact && !Json.isWellFormed (trim text).toList then throw .operations
    return doc

end Typesmith.Document
