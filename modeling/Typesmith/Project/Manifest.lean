import Typesmith.Conversion.Run
import Typesmith.Json.Indented
import Typesmith.Text.Casing
import Typesmith.Yaml.Reader
import Typesmith.Yaml.Writer

namespace Typesmith.Project

open Text

def sourceName (doc : Document) : String :=
  if doc.path = "" then "" else Path.base doc.path

def headline (title : String) : String :=
  String.ofList (capitalize (join " " (fields title)).toList)

def header (doc : Document) : String :=
  let source := sourceName doc
  let title := headline doc.title
  "// Code generated by core-typegen" ++ (if source = "" then "" else " from " ++ source)
    ++ ". DO NOT EDIT.\n"
    ++ (if title = "" then ""
        else "// " ++ title ++ (if doc.version = "" then "" else " " ++ doc.version) ++ "\n")
    ++ "\n"

def textField (key value : String) : List (String × Json) :=
  if value = "" then [] else [(key, .str value)]

def listField (key : String) (items : List String) : List (String × Json) :=
  if items.isEmpty then [] else [(key, .arr (items.map .str))]

def manifestModel (d : Declaration) : Json :=
  .obj ([("kind", .str d.kind)] ++ textField "ref" d.ref ++ [("text", .str d.text)]
    ++ listField "dependencies" d.dependencies)

def manifest (r : Conversion.Result) : Json :=
  let models := Json.sortFields (r.declarations.map fun d => (d.name, manifestModel d))
  let entries := r.entryPoints.map fun (name, names) => (name, Json.arr (names.map .str))
  .obj (textField "source" (sourceName r.document) ++ textField "title" r.document.title
    ++ textField "version" r.document.version ++ [("models", .obj models)]
    ++ (if entries.isEmpty then [] else [("entryPoints", .obj entries)])
    ++ listField "warnings" (sort (r.warnings.map Warning.text)))

def manifestText (r : Conversion.Result) : String :=
  (manifest r).indented ++ "\n"

/-- The manifest in the indented style. It is read back from its compact text, so characters that
documents cannot hold are refused. -/
def manifestYaml (r : Conversion.Result) : Except Problem String :=
  match Yaml.read? (manifest r).compact with
  | some j => .ok (Yaml.write j)
  | none =>
    .error (.misuse "cannot covert json to yaml error: yaml: control characters are not allowed")

end Typesmith.Project
