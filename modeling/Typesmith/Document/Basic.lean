import Typesmith.Path
import Typesmith.Document.Outline
import Typesmith.Text.Quoted

namespace Typesmith

open Text

structure Document where
  path : String
  name : String
  root : Json
  deriving Inhabited

namespace Document

inductive Unreadable where
  | badText
  | notAnObject
  | version (found : String)
  | operations
  deriving DecidableEq, Repr

def malformed : String := "malformed text"

def Unreadable.message : Unreadable → String
  | badText => "invalid YAML: " ++ malformed
  | notAnObject => "document root must be an object: " ++ malformed
  | version found => "unsupported document version " ++ quote found ++ ", expected openapi 3.x"
  | operations => "failed to read operations: " ++ malformed

def nameOfPath (path : String) : String :=
  if path = "" then ""
  else
    let base := Path.base path
    dropEnd base (Path.extension base)

/-- The document with this tree. The version is asked for before the operations are looked at. -/
def ofTree (path : String) (tree : Json) : Except Unreadable Document :=
  match tree with
  | .obj _ | .null =>
    let version := tree.text "openapi"
    if !startsWith version "3." then .error (.version version)
    else if Outline.fitsFields .root (tree.obj?.getD []) then
      .ok ⟨path, nameOfPath path, tree⟩
    else .error .operations
  | _ => .error .notAnObject

def info? (d : Document) : Option Json :=
  Outline.part? d.root "info"

def infoText (d : Document) (key : String) : String :=
  match (d.info?.bind (Outline.part? · key)) with
  | some (.str s) => s
  | _ => ""

def title (d : Document) : String :=
  d.infoText "title"

def version (d : Document) : String :=
  d.infoText "version"

def components (d : Document) : List (String × Json) :=
  (d.root.getD "components").fieldsAt "schemas"

end Document

end Typesmith
