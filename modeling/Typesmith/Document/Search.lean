import Typesmith.Document.Source
import Typesmith.Session
import Typesmith.Text.CaseMap

namespace Typesmith.Search

open Text Session

structure Setting where
  extensions : List String := [".json", ".yaml", ".yml"]
  excludes : List String := []
  deriving Inhabited

def normalExtensions (l : List String) : List String :=
  ((l.map trim).filter (· ≠ "")).map fun e =>
    lowerEach (if startsWith e "." then e else "." ++ e)

def skips (cfg : Setting) (path : String) : Bool :=
  let name := Path.base path
  name == "node_modules" || (1 < name.length && startsWith name "." && name ≠ "..") ||
    cfg.excludes.contains path || cfg.excludes.contains name

def takes (cfg : Setting) (path : String) : Bool :=
  cfg.extensions.contains (lowerEach (Path.extension path))

def load (path : String) : SessionM Document := do
  let text ← accessing ((← view).read path)
  note ("loading document " ++ path)
  match Document.read path text with
  | .ok doc => return doc
  | .error e => throw (.within ("failed to load " ++ path) (.unreadable e))

def pathsAt (cfg : Setting) (path : String) : SessionM (List String) := do
  let f ← view
  let path' := f.absolute path
  within ("failed to access path " ++ quote path ++ ", err") do
    match ← accessing (f.look path') with
    | .directory _ => return sort ((← accessing (f.filesBelow (skips cfg) path')).filter (takes cfg))
    | _ => return [path']

def loadAll (cfg : Setting) (paths : List String) : SessionM (List Document) := do
  let (docs, _) ← paths.foldlM (fun (docs, seen) path => do
    (← pathsAt cfg path).foldlM (fun (docs, seen) (file : String) => do
      if seen.contains file then return (docs, seen)
      else return (docs ++ [← load file], file :: seen)) (docs, seen)) (([] : List Document), ([] : List String))
  return docs

end Typesmith.Search
