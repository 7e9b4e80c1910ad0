import Typesmith.Project.Settings
import Typesmith.Rules
import Typesmith.Text.Columns

namespace Typesmith.Project

open Text Session

/-- The rows of a document's table; a tab or a line end in a name starts a new cell or row. -/
def tableRows (doc : Document) : List (List String) :=
  let row (kv : String × Json) : String :=
    let (name, kind) := match Rule.match? Rule.defaults kv.2 with
      | some rule => (rule.name, rule.kind)
      | none => ("any", Kind.any)
    kv.1 ++ "\t" ++ name ++ "\t" ++ kind.label
  let lines := "SCHEMA\tRULE\tKIND" :: doc.components.map row
  (lines.flatMap (split '\n')).map (split '\t')

def tables (docs : List Document) : String :=
  let table (doc : Document) : String :=
    (if 1 < docs.length then doc.path ++ ":\n" else "") ++ alignRows (tableRows doc)
  join "\n" (docs.map table)

def inspect (s : Settings) : SessionM String := do
  return tables (← Search.loadAll (s.search (← view)) (items s.inputs))

end Typesmith.Project
