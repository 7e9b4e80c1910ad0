import Typesmith.Project.Settings
import Typesmith.Yaml.Reader

namespace Typesmith.Project

open Text Session

structure ConfigFile where
  inputs : List String := []
  exclude : List String := []
  parseExtension : List String := []
  output : String := ""
  outputTypes : List String := []
  typesFile : String := ""
  overridesFile : String := ""
  componentsOnly : Option Bool := none
  inlineStringEnums : Option Bool := none
  enumStyle : String := ""
  defaultContentType : String := ""
  deriving DecidableEq, Repr, Inhabited

namespace ConfigFile

open Yaml

def isNothing (tag : String) (plain : Bool) (text : String) : Bool :=
  ["", "~", "null", "Null", "NULL"].contains text && ((tag = "" && plain) || tag = Meaning.standard ++ "null")

def tagFits (tag : String) (plain : Bool) (text : String) : Bool :=
  tag = "" || (Meaning.ofScalar? tag plain text).isSome

def text? : Node → Option (Option String)
  | .scalar tag plain text =>
    if isNothing tag plain text then some none
    else if tagFits tag plain text then some (some text)
    else none
  | _ => none

def texts? : Node → Option (List String)
  | .sequence items => do return (← items.mapM text?).filterMap id
  | .scalar tag plain text => if isNothing tag plain text then some [] else none
  | _ => none

def flag? : Node → Option (Option Bool)
  | .scalar tag plain text =>
    if isNothing tag plain text then some none
    else if plain && ["true", "True", "TRUE"].contains text then some (some true)
    else if plain && ["false", "False", "FALSE"].contains text then some (some false)
    else if ["y", "Y", "yes", "on"].contains text then some (some true)
    else if ["n", "N", "no", "off"].contains text then some (some false)
    else none
  | _ => none

def set? (c : ConfigFile) (key : String) (value : Node) : Option ConfigFile :=
  match key with
  | "inputs" => do return { c with inputs := ← texts? value }
  | "exclude" => do return { c with exclude := ← texts? value }
  | "parseExtension" => do return { c with parseExtension := ← texts? value }
  | "outputTypes" => do return { c with outputTypes := ← texts? value }
  | "output" => do return { c with output := (← text? value).getD c.output }
  | "typesFile" => do return { c with typesFile := (← text? value).getD c.typesFile }
  | "overridesFile" => do return { c with overridesFile := (← text? value).getD c.overridesFile }
  | "enumStyle" => do return { c with enumStyle := (← text? value).getD c.enumStyle }
  | "defaultContentType" => do
    return { c with defaultContentType := (← text? value).getD c.defaultContentType }
  | "componentsOnly" => do return { c with componentsOnly := ← flag? value }
  | "inlineStringEnums" => do return { c with inlineStringEnums := ← flag? value }
  | _ => some c

def sameKey : Node → Node → Bool
  | .scalar _ _ a, .scalar _ _ b => a == b
  | .sequence _, .sequence _ => true
  | .mapping _, .mapping _ => true
  | _, _ => false

def repeats : List (Node × Node) → Bool
  | [] => false
  | (k, _) :: rest => rest.any (fun e => sameKey k e.1) || repeats rest

def merged? : Node → Option (List (Node × Node))
  | .mapping entries => some entries
  | .sequence items => do
    return (← items.mapM fun
      | .mapping entries => some entries
      | _ => none).flatten
  | _ => none

def addAll? (seen : List String) (c : ConfigFile) : List (Node × Node) → Option (ConfigFile × List String)
  | [] => some (c, seen)
  | (k, v) :: rest =>
    if k.isMerge then addAll? seen c rest
    else do
      match ← text? k with
      | none => addAll? seen c rest
      | some key => if seen.contains key then addAll? seen c rest else addAll? (key :: seen) (← c.set? key v) rest

/-- What a mapping says: its own entries first, then those that it merges. -/
def ofEntries? (entries : List (Node × Node)) : Option ConfigFile :=
  if repeats entries then none
  else do
    let (c, seen) ← addAll? [] {} entries
    match entries.find? fun e => e.1.isMerge with
    | none => return c
    | some (_, v) => return (← addAll? seen c (← merged? v)).1

def parse? (s : String) : Option ConfigFile := do
  match ← Node.parse? s with
  | none => return {}
  | some (.mapping entries) => ofEntries? entries
  | some (.scalar tag plain text) => if isNothing tag plain text then some {} else none
  | some _ => none

def load (path : String) (optional : Bool) : SessionM ConfigFile := do
  match (← view).read path with
  | .error .missing =>
    if optional then return {} else throw (.within "could not read config file" (.access .missing))
  | .error e => throw (.within "could not read config file" (.access e))
  | .ok text =>
    match parse? text with
    | some c => return c
    | none => throw (.within ("invalid config file " ++ path) (.misuse Document.malformed))

def pick {α : Type} (isSet : String → Bool) (key : String) (given : Bool) (fromFile old : α) : α :=
  if given && !isSet key then fromFile else old

def apply (c : ConfigFile) (isSet : String → Bool) (s : Settings) : Settings :=
  let list (key : String) (l : List String) (old : String) := pick isSet key (!l.isEmpty) (join "," l) old
  let text (key new old : String) := pick isSet key (new ≠ "") new old
  let flag (key : String) (new : Option Bool) (old : Bool) := pick isSet key new.isSome (new.getD old) old
  { s with
    inputs := list "inputs" c.inputs s.inputs
    excludes := list "exclude" c.exclude s.excludes
    parseExtension := list "parseExtension" c.parseExtension s.parseExtension
    outputDir := text "output" c.output s.outputDir
    outputTypes := pick isSet "outputTypes" (!c.outputTypes.isEmpty) c.outputTypes s.outputTypes
    typesFile := text "typesFile" c.typesFile s.typesFile
    overridesFile := text "overridesFile" c.overridesFile s.overridesFile
    componentsOnly := flag "componentsOnly" c.componentsOnly s.componentsOnly
    inlineStringEnums := flag "inlineStringEnums" c.inlineStringEnums s.inlineStringEnums
    enumStyle := text "enumStyle" c.enumStyle s.enumStyle
    defaultContentType := text "defaultContentType" c.defaultContentType s.defaultContentType }

end ConfigFile

end Typesmith.Project
