import Typesmith.Command.Flags
import Typesmith.Project.Build
import Typesmith.Project.ConfigFile
import Typesmith.Project.Inspect

namespace Typesmith.Command

open Text Session Project

def program : String := "core-typegen"

def version : String := "v0.1.0"

def defaultConfigFile : String := ".typegen.yaml"

def commonFlags : List Flag :=
  [{ name := "quiet", aliases := ["q"], isSwitch := true },
   { name := "input", aliases := ["i"], default := "./openapi.yaml" },
   { name := "exclude" },
   { name := "parseExtension", default := ".json,.yaml,.yml" },
   { name := "config", aliases := ["c"], default := defaultConfigFile },
   { name := "debug", isSwitch := true },
   { name := "help", aliases := ["h"], isSwitch := true }]

def generateFlags : List Flag :=
  [{ name := "output", aliases := ["o"], default := "./types" },
   { name := "outputTypes", aliases := ["ot"], default := "ts" },
   { name := "typesFile", default := "types.ts" },
   { name := "overridesFile", default := defaultOverridesFile },
   { name := "componentsOnly", isSwitch := true },
   { name := "inlineStringEnums", isSwitch := true },
   { name := "enumStyle", default := "enum" },
   { name := "defaultContentType", default := "application/json" },
   { name := "check", isSwitch := true }] ++ commonFlags

def programFlags : List Flag :=
  [{ name := "help", aliases := ["h"], isSwitch := true },
   { name := "version", aliases := ["v"], isSwitch := true }]

structure Values where
  flags : List Flag
  given : List (String × String)

namespace Values

def isSet (v : Values) (name : String) : Bool :=
  (v.given.lookup name).isSome

def text (v : Values) (name : String) : String :=
  match v.given.lookup name with
  | some s => s
  | none => ((v.flags.find? (·.name == name)).map (·.default)).getD ""

def switch (v : Values) (name : String) : Bool :=
  v.text name == "true"

def settings (v : Values) : Settings :=
  { inputs := v.text "input"
    excludes := v.text "exclude"
    parseExtension := v.text "parseExtension"
    outputDir := v.text "output"
    outputTypes := split ',' (v.text "outputTypes")
    typesFile := v.text "typesFile"
    overridesFile := v.text "overridesFile"
    componentsOnly := v.switch "componentsOnly"
    inlineStringEnums := v.switch "inlineStringEnums"
    enumStyle := v.text "enumStyle"
    defaultContentType := v.text "defaultContentType"
    check := v.switch "check" }

def flagOfKey (key : String) : String :=
  if key = "inputs" then "input" else key

/-- How messages are written. Asking for debugging counts whatever its value. -/
def log (v : Values) : Console.Log :=
  { quiet := v.switch "quiet", debugLevel := if v.isSet "debug" then 1 else 0 }

def complete (v : Values) : SessionM Settings := do
  let file ← ConfigFile.load (v.text "config") (!v.isSet "config")
  return file.apply (fun key => v.isSet (flagOfKey key)) v.settings

end Values

inductive Invocation where
  | help
  | version
  | generate (v : Values)
  | inspect (v : Values)
  | unknown (topic : String)

def ofCommand (flags : List Flag) (make : Values → Invocation) (words : List String) :
    Except FlagError Invocation := do
  let (given, _) ← parseFlags flags words
  let v : Values := ⟨flags, given⟩
  return if v.switch "help" then .help else make v

def parse (words : List String) : Except FlagError Invocation := do
  let (given, rest) ← parseFlags programFlags words
  let v : Values := ⟨programFlags, given⟩
  if v.switch "help" then return .help
  else if v.switch "version" then return .version
  else
    match rest with
    | [] => return .help
    | name :: rest =>
      if name = "generate" ∨ name = "g" then ofCommand generateFlags .generate rest
      else if name = "inspect" then ofCommand commonFlags .inspect rest
      else if name = "help" ∨ name = "h" then return .help
      else return .unknown name

def usage : String :=
  "usage: " ++ program ++ " generate|inspect [flags]\n"

structure Result where
  exit : Nat := 0
  stdout : String := ""
  stderr : String := ""
  files : Files
  written : List String := []
  /-- A file that has to be read before the run can be finished; the run is then started again. -/
  unread : Option String := none

def printed (quiet : Bool) (reports : List (Channel × String)) : String × String :=
  let out (r : Channel × String) : String := match r.1 with
    | .debug => if quiet then "" else r.2 ++ "\n"
    | .console => r.2
    | .complaint => ""
  let err (r : Channel × String) : String := match r.1 with
    | .complaint => r.2
    | _ => ""
  (join "" (reports.map out), join "" (reports.map err))

def perform (files : Files) (v : Values) (task : SessionM Unit) : Result :=
  let (answer, s) := task.run.run { files, log := v.log }
  let (stdout, stderr) := printed (v.switch "quiet") s.reports
  match answer with
  | .ok _ => { stdout, stderr, files := s.files, written := s.written }
  | .error p =>
    { exit := 1, stdout, stderr := stderr ++ p.text ++ "\n", files := s.files, written := s.written
      unread := p.unread? }

def run (files : Files) (words : List String) : Result :=
  match parse words with
  | .error e =>
    { exit := 1, stdout := "Incorrect Usage: " ++ e.message ++ "\n\n" ++ usage
      stderr := e.message ++ "\n", files }
  | .ok .help => { stdout := usage, files }
  | .ok .version => { stdout := program ++ " version " ++ version ++ "\n", files }
  | .ok (.unknown topic) => { exit := 3, stderr := "No help topic for '" ++ topic ++ "'\n", files }
  | .ok (.generate v) => perform files v (do build (← v.complete))
  | .ok (.inspect v) => perform files v (do report .console (← inspect (← v.complete)))

end Typesmith.Command
