import Typesmith.Document.Foreign
import Typesmith.Project.Manifest
import Typesmith.Project.Overrides
import Typesmith.Project.Settings
import Typesmith.Project.Writer

namespace Typesmith.Project

open Text Session

inductive OutputType where
  | single
  | split
  | manifest
  | yaml
  deriving DecidableEq, Repr

def OutputType.ofName? (name : String) : Option OutputType :=
  if name = "ts" then some single
  else if name = "split" then some split
  else if name = "manifest" ∨ name = "json" then some manifest
  else if name = "yaml" ∨ name = "yml" then some yaml
  else none

def OutputType.plan (typesFile : String) (r : Conversion.Result) :
    OutputType → Except Problem (List (String × String))
  | single => .ok [(typesFile, header r.document ++ Declaration.file r.declarations)]
  | split =>
    .ok (r.declarations.map (fun d => (d.name ++ ".ts", header r.document ++ d.moduleText))
      ++ [("index.ts", header r.document ++ Declaration.indexText r.declarations)])
  | manifest => .ok [("manifest.json", manifestText r)]
  | yaml => do return [("manifest.yaml", ← manifestYaml r)]

abbrev Plan := List (String × String)

def planOutput (s : Settings) (dir : String) (r : Conversion.Result) (plan : Plan) (name : String) :
    SessionM Plan := do
  let name := lowerEach (trim name)
  match OutputType.ofName? name with
  | none =>
    report .complaint ("output type '" ++ name ++ "' not supported\n")
    return plan
  | some t =>
    match t.plan (if s.typesFile = "" then "types.ts" else s.typesFile) r with
    | .error p => throw p
    | .ok files =>
      return files.foldl (fun plan f => Json.setField (Path.joinAll [dir, f.1]) f.2 plan) plan

/-- The files of one result. Results share the output directory only if there is one of them. -/
def planResult (s : Settings) (several : Bool) (plan : Plan) (r : Conversion.Result) : SessionM Plan := do
  let dir := if several then Path.joinAll [s.outputDir, r.document.name] else s.outputDir
  let plan ← s.outputTypes.foldlM (planOutput s dir r) plan
  let count (n : Nat) : Json := .str (String.ofList (decimal n))
  say (·.info "$Green\x7bconverted\x7d %s: %s models, %s entry points"
    [.str r.document.path, count r.declarations.length, count r.entryPoints.length])
  return plan

def upToDate (path text : String) : SessionM Bool := do
  match (← view).read path with
  | .ok old => return old == text
  | .error .missing => return false
  | .error e => throw (.access e)

def check (plan : Plan) : SessionM (List String) := do
  let answers ← plan.mapM fun file => do return (file.1, ← upToDate file.1 file.2)
  return (answers.filter fun answer => !answer.2).map (·.1)

def checkPlan (plan : Plan) : SessionM Unit := do
  let stale ← check plan
  if stale.isEmpty then say (·.info "$Green\x7bup to date\x7d" [])
  else
    for path in stale do
      say (·.error "out of date: %s" [.str path])
    throw (.misuse (String.ofList (decimal stale.length) ++ " generated file(s) are out of date"))

def writeFile (path text : String) : SessionM (Except Access Bool) := do
  let f ← view
  match Writer.finish { path, text } f with
  | .error (.unread p) => throw (.access (.unread p))
  | .error e => return .error e
  | .ok (g, w) =>
    if w.changed then
      modify fun s => { s with files := g, written := s.written ++ [f.absolute path] }
    return .ok w.changed

def refusal? : Except Access Bool → Option Access
  | .error e => some e
  | .ok _ => none

def wasWritten : Except Access Bool → Bool
  | .error _ => false
  | .ok changed => changed

/-- Writes the planned files and gives the paths of those that were written, sorted. A file that cannot be
written does not keep the others from being written, but then the task fails. -/
def commit (plan : Plan) : SessionM (List String) := do
  let answers ← plan.mapM fun file => do return (file.1, ← writeFile file.1 file.2)
  match answers.findSome? fun answer => refusal? answer.2 with
  | some e => throw (.access e)
  | none => return sort ((answers.filter fun answer => wasWritten answer.2).map (·.1))

def writePlan (plan : Plan) : SessionM Unit := do
  for path in ← commit plan do
    say (·.debug "create %s" [.str path])

def enumStyle (name : String) : SessionM Model.EnumStyle :=
  match lowerEach name with
  | "" => pure .enum
  | "enum" => pure .enum
  | "union" => pure .union
  | _ => throw (.misuse ("not supported " ++ name ++ " enumStyle"))

def defaultOverridesFile : String := ".typegen"

def overrides (path : String) : SessionM (List (String × Override)) := do
  if path = "" then return []
  else
    match (← view).stat path with
    | .error .missing =>
      if path = defaultOverridesFile then return []
      else throw (.within "could not open overrides file" (.access .missing))
    | .error e => throw (.within "could not open overrides file" (.access e))
    | .ok entry =>
      say (·.debug "Using overrides from %s" [.str path])
      match entry with
      | .file text =>
        match Override.parse text with
        | .ok l => return l
        | .error p => throw p
      | _ => throw (.within "error reading overrides file" (.access .refused))

def checkInputs (inputs : List String) : SessionM Unit := do
  if inputs.isEmpty then throw (.misuse "no input documents specified")
  for input in inputs do
    match (← view).stat input with
    | .error .missing => throw (.misuse ("input: " ++ input ++ " does not exist"))
    | .error (.unread p) => throw (.access (.unread p))
    | _ => pure ()

def convert (q : Conversion.Request) (doc : Document) : SessionM (Document × Conversion.Outcome) := do
  let o := Conversion.outcome q (some (Foreign.load (← view) (Path.dir doc.path))) doc
  for line in o.debug do
    note line
  match o.answer with
  | .ok r =>
    for w in r.warnings do
      say (·.warn "%s" [.str w.text])
  | .error _ => pure ()
  return (doc, o)

def build (s : Settings) : SessionM Unit := do
  let inputs := items s.inputs
  checkInputs inputs
  let style ← enumStyle s.enumStyle
  let overrides ← overrides s.overridesFile
  say (·.debug "Generate TypeScript declarations...." [])
  let docs ← Search.loadAll (s.search (← view)) inputs
  if docs.isEmpty then throw (.misuse ("no documents found in " ++ s.inputs))
  let q : Conversion.Request :=
    { componentsOnly := s.componentsOnly, inlineStringEnums := s.inlineStringEnums,
      enumStyle := style, defaultContentType := s.defaultContentType,
      overrides := Override.replacements overrides, skips := Override.skipped overrides }
  let outcomes ← docs.mapM (convert q)
  match Conversion.together outcomes with
  | .error p => throw p
  | .ok results =>
    let plan ← results.foldlM (planResult s (decide (1 < results.length))) []
    if s.check then checkPlan plan else writePlan plan

end Typesmith.Project
