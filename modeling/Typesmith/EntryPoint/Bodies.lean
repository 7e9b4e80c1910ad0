import Typesmith.EntryPoint.Basic
import Typesmith.Text.Casing

namespace Typesmith.EntryPoint

open Text

def contentTypes (cfg : Setting) (content : List (String × Json)) : List String :=
  let keys := content.map (·.1)
  if keys.contains cfg.defaultContentType then
    cfg.defaultContentType :: keys.filter (· ≠ cfg.defaultContentType)
  else keys

def subtypeSuffix (contentType : String) : String :=
  let chars := contentType.toList
  let sub := ((cut '/' chars).map (·.2)).getD chars
  Naming.pascalCase (String.ofList (sub.takeWhile (· ≠ ';')))

/-- What a content type adds to the names of its entry points: nothing for the default one, its
second half where that tells it apart, and else all of it. -/
def contentSuffix (cfg : Setting) (types : List String) (contentType : String) : String :=
  if contentType = cfg.defaultContentType then ""
  else
    let suffix := subtypeSuffix contentType
    let same := types.filter fun t => t ≠ cfg.defaultContentType && subtypeSuffix t == suffix
    if 1 < same.length || suffix = "" then Naming.modelName contentType else suffix

def statusSuffix (status : String) : String :=
  if status = "200" then ""
  else if asciiLower status = "default" then "Default"
  else String.ofList (uppercase status.toList)

def sortStatuses (statuses : List String) : List String :=
  let isDefault (s : String) : Bool := asciiLower s == "default"
  sort (statuses.filter fun s => !isDefault s) ++ sort (statuses.filter isDefault)

def genericFragment (parameter : String) (order : List String) (cases : List (String × Json)) :
    List (String × Json) :=
  [("x-typegen-generic", Json.mkObj [("parameter", .str parameter),
    ("order", .arr (order.map .str)), ("cases", Json.mkObj cases)])]

def refJson (ref : String) : Json :=
  .obj [("$ref", .str ref)]

def mediaFragment (content : List (String × Json)) (base contentType : String) :
    List (String × Json) :=
  copyFragment ((content.lookup contentType).bind (·.get? "schema"))
    (childRef (childRef base "content") contentType)

def requests (cfg : Setting) (op : Operation) : SynthM (List EntryPoint) := do
  let (body, base) ← follow cfg (childRef op.pointer "requestBody")
  let content := contentAt body
  let types := contentTypes cfg content
  let entries := types.map fun t =>
    { ofOperation op .request (op.name ++ contentSuffix cfg types t ++ "Request")
        (describe (textAt body "description") (mediaFragment content base t)) with contentType := t }
  let choice := ofOperation op .requests (op.name ++ "Requests")
    (genericFragment "ContentType" types (entries.map fun e => (e.contentType, refJson e.ref)))
  let required := match body.lookup "required" with
    | some (.bool b) => b
    | _ => false
  if !required && !entries.isEmpty then
    note ("request body of " ++ op.label ++ " is optional")
  return if 1 < types.length then entries ++ [choice] else entries

def responseEntries (cfg : Setting) (op : Operation) (status : String)
    (response : List (String × Json)) (base : String) : List EntryPoint :=
  let description := textAt response "description"
  let content := contentAt response
  let types := contentTypes cfg content
  let ending := "Response" ++ statusSuffix status
  if types.isEmpty then
    [{ ofOperation op .response (op.name ++ ending)
        (describe description [("type", .str "null")]) with status }]
  else types.map fun t =>
    { ofOperation op .response (op.name ++ contentSuffix cfg types t ++ ending)
        (describe description (mediaFragment content base t)) with status, contentType := t }

def statusCase (entries : List EntryPoint) : Json :=
  match entries with
  | [e] => refJson e.ref
  | es => .obj [("anyOf", .arr (es.map fun e => refJson e.ref))]

def responses (cfg : Setting) (op : Operation) (statuses : List String) :
    SynthM (List EntryPoint) := do
  let statuses := sortStatuses statuses
  if statuses.isEmpty then return []
  else
    let groups ← statuses.mapM fun status => do
      let (response, base) ← follow cfg (childRef (childRef op.pointer "responses") status)
      return (status, responseEntries cfg op status response base)
    let choice := ofOperation op .responses (op.name ++ "Responses")
      (genericFragment "Status" statuses (groups.map fun g => (g.1, statusCase g.2)))
    return (groups.flatMap (·.2)) ++ [choice]

end Typesmith.EntryPoint
