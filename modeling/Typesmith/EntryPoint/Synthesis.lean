import Typesmith.EntryPoint.Parameters
import Typesmith.EntryPoint.Bodies

namespace Typesmith.EntryPoint

open Text

def methods : List String :=
  ["GET", "PUT", "POST", "DELETE", "OPTIONS", "HEAD", "PATCH", "TRACE"]

/-- Marks a fragment as out of use. A reference takes no remarks, so it is wrapped. -/
def markDeprecated (fragment : List (String × Json)) : List (String × Json) :=
  if (fragment.lookup "$ref").isSome then
    [("deprecated", .bool true), ("oneOf", .arr [.obj fragment])]
  else Json.setField "deprecated" (.bool true) fragment

def parameterCount (j : Json) : Nat :=
  ((Outline.part? j "parameters").bind Json.arr?).elim 0 List.length

def statusesOf (operation : Json) : List String :=
  let table := ((Outline.part? operation "responses").bind Json.obj?).getD []
  (table.map (·.1)).filter fun s => !startsWith s "x-"

def ofMethod (cfg : Setting) (path method : String) (item operation : Json) :
    SynthM (List EntryPoint) := do
  let operationId := ((Outline.part? operation "operationId").bind Json.str?).getD ""
  let name ← modifyGet fun p =>
    let (name, names) := p.names.reserve (operationName method path operationId)
    (name, { p with names })
  let op : Operation := ⟨method, path, name, pathRef path ++ "/" ++ asciiLower method⟩
  note ("synthesizing entry points for " ++ op.label ++ " as " ++ name)
  let params ← parameters cfg op (parameterCount item) (parameterCount operation)
  let reqs ← if (Outline.part? operation "requestBody").isSome then requests cfg op else pure []
  let resps ← responses cfg op (statusesOf operation)
  let entries := params ++ reqs ++ resps
  match (Outline.part? operation "deprecated").bind Json.bool? with
  | some true => return entries.map fun e => { e with fragment := markDeprecated e.fragment }
  | _ => return entries

def located (label : String) (step : SynthM (List EntryPoint)) :
    ExceptT (String × Fault) (StateM Progress) (List EntryPoint) :=
  ExceptT.mk do
    match ← step.run with
    | .ok es => return .ok es
    | .error e => return .error (label, e)

def operations (doc : Document) : List (String × String × Json × Json) :=
  let table := ((Outline.part? doc.root "paths").bind Json.obj?).getD []
  (table.filter fun kv => !startsWith kv.1 "x-").flatMap fun (path, item) =>
    methods.filterMap fun method =>
      (Outline.part? item (asciiLower method)).map fun operation => (path, method, item, operation)

def synthesize (cfg : Setting) (doc : Document) :
    ExceptT (String × Fault) (StateM Progress) (List EntryPoint) := do
  let groups ← (operations doc).mapM fun (path, method, item, operation) =>
    located (method ++ " " ++ path) (ofMethod cfg path method item operation)
  return groups.flatten

end Typesmith.EntryPoint
