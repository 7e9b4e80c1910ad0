import Typesmith.Conversion.Roots
import Typesmith.Declaration.Layout
import Typesmith.EntryPoint.Synthesis
import Typesmith.Console.Log
import Typesmith.Problem

namespace Typesmith.Conversion

open Model

structure Request where
  componentsOnly : Bool := false
  inlineStringEnums : Bool := false
  enumStyle : EnumStyle := .enum
  /-- The content type whose entry points get no suffix. -/
  defaultContentType : String := ""
  /-- Types declared elsewhere, by the names of the models that they replace. -/
  overrides : List (String × String) := []
  skips : List String := []
  deriving Inhabited

def Request.contentType (q : Request) : String :=
  if q.defaultContentType = "" then "application/json" else q.defaultContentType

structure Result where
  document : Document
  declarations : List Declaration
  entryPoints : List (String × List String)
  warnings : List Warning
  deriving Inhabited

abbrev RunM := ExceptT Problem (StateM Store)

def converting {α : Type} (place : Option String) (step : ConvertM α) : RunM α :=
  ExceptT.mk do
    match ← step.run with
    | .ok a => return .ok a
    | .error e =>
      return .error (match place with
        | some p => .within p (.failure e)
        | none => .failure e)

def note (lines : List String) : RunM Unit :=
  modify fun s => { s with debug := s.debug ++ lines }

def addComponents (q : Request) (cfg : Setting) (doc : Document) : RunM Roots :=
  doc.components.foldlM (fun r (name, _) => do
    if q.skips.contains name || q.skips.contains (Naming.modelName name) then
      note ["skipping component " ++ name]
      return r
    else converting none (r.add cfg q.skips (Reference.component name))) ({} : Roots)

def entryPointsOf (q : Request) (cfg : Setting) (doc : Document) : RunM (List EntryPoint) := do
  let setting : EntryPoint.Setting := { resolver := cfg.resolver, defaultContentType := q.contentType }
  let (answer, progress) := (EntryPoint.synthesize setting doc).run.run ({} : EntryPoint.Progress)
  note progress.debug
  match answer with
  | .ok entries => return entries
  | .error (place, fault) => throw (.within place (.failure (.fault fault)))

def mountAll (cfg : Setting) (entries : List EntryPoint) : Setting :=
  entries.foldl (fun cfg e => { cfg with resolver := (cfg.resolver.mount e.ref (.obj e.fragment)).2 }) cfg

def addEntryPoints (q : Request) (cfg : Setting) (r : Roots) (entries : List EntryPoint) :
    RunM (Roots × List (String × List String)) :=
  entries.foldlM (fun (r, listed) e => do
    if q.skips.contains e.name then return (r, listed)
    else
      let r ← converting (some e.operation) (r.add cfg q.skips e.ref)
      let names := r.declaredAt e.ref
      return (r, if names.isEmpty then listed else Json.setField e.name names listed)) (r, [])

def Request.setting (q : Request) (foreign : Option DocumentLoader) (doc : Document) : Setting :=
  { resolver := { root := doc.root, foreign }, overrides := q.overrides,
    inlineStringEnums := q.inlineStringEnums, enumStyle := q.enumStyle }

def conclude (cfg : Setting) (doc : Document) (roots : Roots) (entryPoints : List (String × List String)) :
    RunM Result := do
  let s ← get
  match Declaration.collect cfg s roots.containers with
  | .error e => throw (.failure e)
  | .ok declarations =>
    return { document := doc, entryPoints, warnings := s.warnings
             declarations := Declaration.sortByName (declarations ++ roots.aliases) }

def run (q : Request) (foreign : Option DocumentLoader) (doc : Document) : RunM Result := do
  let cfg := q.setting foreign doc
  let roots ← addComponents q cfg doc
  if q.componentsOnly then conclude cfg doc roots []
  else
    let entries ← entryPointsOf q cfg doc
    let cfg := mountAll cfg entries
    let (roots, listed) ← addEntryPoints q cfg roots entries
    conclude cfg doc roots listed

structure Outcome where
  answer : Except Problem Result
  debug : List String

def outcome (q : Request) (foreign : Option DocumentLoader) (doc : Document) : Outcome :=
  let (answer, s) := (run q foreign doc).run.run ({} : Store)
  { answer, debug := s.debug }

def Outcome.warn (o : Outcome) (log : Console.Log) : Console.Log :=
  match o.answer with
  | .ok r => r.warnings.foldl (fun log w => log.warn "%s" [.str w.text]) log
  | .error _ => log

def displayName (doc : Document) : String :=
  if doc.path = "" then "document" else doc.path

def together (outcomes : List (Document × Outcome)) : Except Problem (List Result) := do
  let results ← outcomes.mapM fun (doc, o) =>
    match o.answer with
    | .ok r => .ok r
    | .error p => .error (Problem.within ("failed to convert " ++ displayName doc) p)
  return results.mergeSort fun a b => decide (a.document.path ≤ b.document.path)

end Typesmith.Conversion
