import Typesmith.Path

namespace Typesmith

open Text

/-- The document (empty for the one being read) and the place in it. -/
structure Reference where
  locator : String
  pointer : String
  deriving DecidableEq, Repr, Inhabited

namespace Reference

def rooted (pointer : List Char) : List Char :=
  match pointer with
  | [] => []
  | c :: rest => if c = '/' then c :: rest else '/' :: c :: rest

def slashes (pointer : List Char) : List Char :=
  pointer.map fun c => if c = '\\' then '/' else c

def parse (s : String) : Reference :=
  let (locator, pointer) := (cut '#' s.toList).getD (s.toList, [])
  ⟨String.ofList (trimBy isSpace locator), String.ofList (rooted (slashes pointer))⟩

def isLocal (r : Reference) : Bool :=
  r.locator == ""

def canonical (r : Reference) : String :=
  r.locator ++ "#" ++ r.pointer

def escape (s : String) : String :=
  String.ofList (replaceChar '/' ['~', '1'] (replaceChar '~' ['~', '0'] s.toList))

def unescape (s : String) : String :=
  String.ofList (replacePair '~' '0' '~' (replacePair '~' '1' '/' s.toList))

def segments (r : Reference) : List String :=
  if r.pointer = "" ∨ r.pointer = "/" then []
  else (split '/' (dropStart r.pointer "/")).map unescape

def lastSegment (r : Reference) : String :=
  r.segments.getLast?.getD ""

def child (r : Reference) (segment : String) : Reference :=
  { r with pointer := r.pointer ++ "/" ++ escape segment }

/-- A reference found inside the document of `base`: a local one stays in that document, a relative
locator is taken from that document's directory. -/
def resolveAgainst (r base : Reference) : Reference :=
  if r.locator = "" then { r with locator := base.locator }
  else if base.locator ≠ "" ∧ Path.isAbsolute r.locator = false
      ∧ contains r.locator "://" = false then
    { r with locator := Path.joinAll [Path.dir base.locator, r.locator] }
  else r

def normalize (s : String) : String :=
  (parse s).canonical

def qualify (s base : String) : String :=
  ((parse s).resolveAgainst (parse base)).canonical

def component (name : String) : String :=
  "#/components/schemas/" ++ escape name

end Reference

end Typesmith
