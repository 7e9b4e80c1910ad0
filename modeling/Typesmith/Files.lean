import Typesmith.Path

namespace Typesmith

open Text

inductive Access where
  | missing
  | refused
  /-- The view does not cover the path. -/
  | unread (path : String)
  deriving DecidableEq, Repr, Inhabited

def Access.text : Access → String
  | missing => "no such file or directory"
  | refused => "the file cannot be used"
  | unread path => path ++ " was not read"

inductive Files.Entry where
  | file (text : String)
  | directory (names : List String)
  | missing
  | refused
  deriving DecidableEq, Repr, Inhabited

structure Files where
  cwd : String := "/"
  entries : List (String × Files.Entry) := []
  /-- Whether there is nothing besides the entries; otherwise other paths are reported as not read. -/
  complete : Bool := true
  deriving Inhabited

namespace Files

def absolute (f : Files) (path : String) : String :=
  if Path.isAbsolute path then Path.clean path else Path.joinAll [f.cwd, path]

def chain (above : String) : List String → List String
  | [] => []
  | s :: rest => (above ++ "/" ++ s) :: chain (above ++ "/" ++ s) rest

def waypoints (path : String) : List String :=
  "/" :: chain "" ((split '/' path).filter (· ≠ ""))

def isFile (f : Files) (path : String) : Bool :=
  match f.entries.lookup path with
  | some (.file _) => true
  | _ => false

/-- What is at an absolute path. Below a plain file there is nothing that could be used. -/
def look (f : Files) (path : String) : Except Access Entry :=
  match f.entries.lookup path with
  | some .missing => .error .missing
  | some .refused => .error .refused
  | some e => .ok e
  | none =>
    if (waypoints path).any f.isFile then .error .refused
    else if f.complete then .error .missing
    else .error (.unread path)

def stat (f : Files) (path : String) : Except Access Entry :=
  if path = "" then .error .missing
  else do
    match ← f.look (f.absolute path) with
    | .file t => if endsWith path "/" then throw .refused else return .file t
    | e => return e

def read (f : Files) (path : String) : Except Access String := do
  match ← f.stat path with
  | .file t => return t
  | _ => throw .refused

def set (f : Files) (path : String) (e : Entry) : Files :=
  { f with entries := (path, e) :: f.entries.filter (·.1 ≠ path) }

def addName (name : String) (names : List String) : List String :=
  if names.contains name then names else sort (name :: names)

def link (f : Files) (path : String) : Files :=
  match f.entries.lookup (Path.dir path) with
  | some (.directory names) =>
    if path = "/" then f else f.set (Path.dir path) (.directory (addName (Path.base path) names))
  | _ => f

def makeDirs (f : Files) : List String → Except Access Files
  | [] => .ok f
  | path :: rest =>
    match f.entries.lookup path with
    | some (.file _) => .error .refused
    | some .refused => .error .refused
    | some (.directory _) => f.makeDirs rest
    | _ => ((f.set path (.directory [])).link path).makeDirs rest

def addDirectory (f : Files) (path : String) : Except Access Files :=
  f.makeDirs (waypoints (f.absolute path))

def write (f : Files) (path text : String) : Except Access Files := do
  let path := f.absolute path
  let f ← f.addDirectory (Path.dir path)
  match f.entries.lookup path with
  | some (.directory _) => throw .refused
  | some .refused => throw .refused
  | _ => return (f.set path (.file text)).link path

def unlink (f : Files) (path : String) : Files :=
  match f.entries.lookup (Path.dir path) with
  | some (.directory names) => f.set (Path.dir path) (.directory (names.filter (· ≠ Path.base path)))
  | _ => f

def remove (f : Files) (path : String) : Files :=
  let path := f.absolute path
  let f := { f with entries := f.entries.filter fun e => e.1 ≠ path && !startsWith e.1 (path ++ "/") }
  f.unlink path

def take (f : Files) (path : String) : Files :=
  Files.unlink { f with entries := f.entries.filter (·.1 ≠ path) } path

def move (f : Files) (source target : String) : Except Access Files := do
  let text ← f.read source
  (f.take (f.absolute source)).write target text

mutual

def walk (f : Files) (skip : String → Bool) : Nat → String → Except Access (List String)
  | 0, _ => .ok []
  | depth + 1, path => do
    match ← f.look path with
    | .directory names => if skip path then return [] else f.walkNames skip depth path names
    | _ => return [path]

def walkNames (f : Files) (skip : String → Bool) (depth : Nat) (dir : String) :
    List String → Except Access (List String)
  | [] => .ok []
  | name :: rest => do
    let here ← f.walk skip depth (Path.joinAll [dir, name])
    return here ++ (← f.walkNames skip depth dir rest)

end

/-- The plain files below a directory. No path is longer than there are entries. -/
def filesBelow (f : Files) (skip : String → Bool) (dir : String) : Except Access (List String) :=
  f.walk skip (f.entries.length + 1) dir

end Files

end Typesmith
