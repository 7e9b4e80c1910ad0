import Typesmith.Document.Source
import Typesmith.Files
import Typesmith.Resolver

namespace Typesmith.Foreign

open Text

def pathOf (dir locator : String) : String :=
  if Path.isAbsolute locator then locator else Path.joinAll [dir, locator]

def load (files : Files) (dir : String) : DocumentLoader := fun locator =>
  if contains locator "://" then
    .error (.failed ("remote document " ++ quote locator ++ " is not supported"))
  else
    match files.read (pathOf dir locator) with
    | .error (.unread path) => .error (.unread path)
    | .error a => .error (.failed a.text)
    | .ok text =>
      match Document.decode text with
      | .ok j => .ok j
      | .error _ => .error (.failed ("failed to decode " ++ locator ++ ": " ++ Document.malformed))

abbrev Cache := List (String × Json)

/-- Loads a document, or takes it from those loaded before, whatever became of the file since. -/
def loadCached (files : Files) (dir : String) (cache : Cache) (locator : String) :
    Except LoadFailure Json × Cache :=
  let path := pathOf dir locator
  let known := if contains locator "://" then none else cache.lookup path
  match known with
  | some j => (.ok j, cache)
  | none =>
    match load files dir locator with
    | .ok j => (.ok j, (path, j) :: cache)
    | .error e => (.error e, cache)

end Typesmith.Foreign
