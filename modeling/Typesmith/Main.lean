import Typesmith.Command.Basic

namespace Typesmith.Command

partial def settle (look : String → IO Files.Entry) (words : List String) (files : Files) :
    IO Result := do
  let r := run files words
  match r.unread with
  | some path => settle look words (files.set path (← look path))
  | none => return r

def store (r : Result) : IO Unit :=
  for path in r.written do
    match r.files.read path with
    | .ok text =>
      IO.FS.createDirAll (Path.dir path)
      IO.FS.writeFile (path ++ ".tmp") text
      IO.FS.rename (path ++ ".tmp") path
    | .error _ => pure ()

end Typesmith.Command

open Typesmith

def main (args : List String) : IO UInt32 := do
  let cwd ← IO.currentDir
  let look (path : String) : IO Files.Entry := do
    let place := cwd / path
    if ← place.isDir then
      return .directory (Text.sort ((← place.readDir).toList.map (·.fileName)))
    else if ← place.pathExists then
      try return .file (← IO.FS.readFile place)
      catch _ => return .refused
    else return .missing
  let r ← Command.settle look args { cwd := cwd.toString, complete := false }
  IO.print r.stdout
  IO.eprint r.stderr
  try
    Command.store r
    return r.exit.toUInt32
  catch e =>
    IO.eprintln (toString e)
    return 1
