import Typesmith.EntryPoint.Basic

namespace Typesmith.EntryPoint

structure Parameter where
  name : String
  place : String
  required : Bool
  fragment : List (String × Json)
  deriving Inhabited

def Parameter.key (p : Parameter) : String :=
  p.place ++ ":" ++ p.name

def pickContent (cfg : Setting) (content : List (String × Json)) : Option Json :=
  match content.lookup cfg.defaultContentType with
  | some media => some media
  | none => content.head?.map (·.2)

def parameterFragment (cfg : Setting) (raw : List (String × Json)) (base : String) :
    List (String × Json) :=
  if hasValue raw "schema" then copyFragment (raw.lookup "schema") base
  else copyFragment ((pickContent cfg (contentAt raw)).bind (·.get? "schema")) base

def ofFields (cfg : Setting) (raw : List (String × Json)) (base : String) : Parameter :=
  let fragment := parameterFragment cfg raw base
  let description := textAt raw "description"
  let fragment :=
    if description = "" then fragment else Json.setField "description" (.str description) fragment
  let fragment := match raw.lookup "deprecated" with
    | some (.bool true) => Json.setField "deprecated" (.bool true) fragment
    | _ => fragment
  let place := textAt raw "in"
  let required := match raw.lookup "required" with
    | some (.bool b) => b
    | _ => false
  { name := textAt raw "name", place, required := required || place == "path", fragment }

def putParameter (l : List Parameter) (p : Parameter) : List Parameter :=
  if l.any (·.key == p.key) then l.map fun q => if q.key == p.key then p else q else l ++ [p]

def readParameters (cfg : Setting) (ref : String) (count : Nat) (l : List Parameter) :
    SynthM (List Parameter) :=
  (List.range count).foldlM (fun l i => do
    let (raw, base) ← follow cfg (ref ++ "/parameters/" ++ String.ofList (Text.decimal i))
    return putParameter l (ofFields cfg raw base)) l

def parametersFragment (l : List Parameter) : List (String × Json) :=
  let properties := l.foldl (fun acc p => Json.setField p.name (.obj p.fragment) acc) []
  let required := Text.sort ((l.filter (·.required)).map (·.name)).eraseDups
  let fields := [("type", Json.str "object"), ("properties", .obj properties)]
  Json.sortFields
    (if required.isEmpty then fields else fields ++ [("required", .arr (required.map .str))])

def shadowLines (op : Operation) (seen : List String) : List Parameter → List String
  | [] => []
  | p :: rest =>
    let line := "parameter " ++ p.key ++ " of " ++ op.label ++ " shadows a parameter with the same name"
    (if seen.contains p.name then [line] else []) ++ shadowLines op (p.name :: seen) rest

def parameters (cfg : Setting) (op : Operation) (onPath onOperation : Nat) :
    SynthM (List EntryPoint) := do
  let l ← readParameters cfg (pathRef op.path) onPath []
  let l ← readParameters cfg op.pointer onOperation l
  if l.isEmpty then return []
  else
    (shadowLines op [] l).forM note
    return [ofOperation op .parameters (op.name ++ "Parameters") (parametersFragment l)]

end Typesmith.EntryPoint
