import Typesmith.Json.Basic
import Typesmith.Session

namespace Typesmith.Project

open Text

inductive Override where
  | replace (type : String)
  | skip
  deriving DecidableEq, Repr

namespace Override

def ofLine (line : String) : Except Problem (Option (String × Override)) :=
  if startsWith (trim line) "//" then .ok none
  else
    match fields line with
    | [] => .ok none
    | ["skip", name] => .ok (some (name, .skip))
    | ["replace", name, type] => .ok (some (name, .replace type))
    | _ => .error (.misuse ("could not parse override: '" ++ line ++ "'"))

def lineLimit : Nat := 65536

def readLine (line : String) : Except Problem (Option (String × Override)) :=
  if line.utf8ByteSize < lineLimit then ofLine (dropEnd line "\r")
  else .error (.within "error reading overrides file" (.misuse "bufio.Scanner: token too long"))

def parse (text : String) : Except Problem (List (String × Override)) := do
  let found ← (split '\n' text).mapM readLine
  return Json.sortFields (found.filterMap id)

def replacements (l : List (String × Override)) : List (String × String) :=
  l.filterMap fun
    | (name, .replace type) => some (name, type)
    | _ => none

def skipped (l : List (String × Override)) : List String :=
  l.filterMap fun
    | (name, .skip) => some name
    | _ => none

end Override

end Typesmith.Project
