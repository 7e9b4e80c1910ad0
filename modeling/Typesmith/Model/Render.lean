import Typesmith.Model.Comment
import Typesmith.Model.Convert

namespace Typesmith.Model

open Text

abbrev RenderM := StateT (List Id) (Except Failure)

abbrev Inliner := Id → RenderM String

def fetch (s : Store) (id : Id) : RenderM Descriptor :=
  match s.get? id with
  | some d => pure d
  | none => throw .tooDeep

def reference (id : Id) (d : Descriptor) : RenderM String := do
  modify fun deps => if d.name = "" || deps.contains id then deps else deps ++ [id]
  return d.name

def distinct (texts : List String) : List String :=
  texts.eraseDups

def unionText (texts : List String) : String :=
  if texts.isEmpty then "any" else join " | " (distinct texts)

def inlineContainer (inline : Inliner) (c : Container) : RenderM String := do
  return unionText (← c.mapM inline)

def memberText (inline : Inliner) (p : Property) : RenderM String := do
  let types ← inlineContainer inline p.types
  if p.isIndex then return "[" ++ p.name ++ ": string]: " ++ types ++ ";"
  else
    return (if p.readOnly then "readonly " else "") ++ Naming.propertyKey p.name
      ++ (if p.required then "" else "?") ++ ": " ++ types ++ ";"

def inlineSet (inline : Inliner) (set : List Property) : RenderM String := do
  if set.isEmpty then return "\x7b\x7d"
  else return "\x7b " ++ join " " (← set.mapM (memberText inline)) ++ " \x7d"

def inlineObject (inline : Inliner) (sets : List (List Property)) (closed : Bool) :
    RenderM String := do
  if closed then return "Record<string, never>"
  else return join " | " (← sets.mapM (inlineSet inline))

def blockSet (inline : Inliner) (set : List Property) : RenderM String := do
  let lines ← set.mapM fun p => do
    let line ← memberText inline p
    return docComment p.fragment "  " ++ "  " ++ line ++ "\n"
  return join "" lines

def declareObject (inline : Inliner) (name comments : String) (sets : List (List Property))
    (closed : Bool) : RenderM String := do
  match closed, sets with
  | false, [set] =>
    return comments ++ "export interface " ++ name ++ " \x7b\n" ++ (← blockSet inline set) ++ "\x7d"
  | closed, sets =>
    return comments ++ "export type " ++ name ++ " = " ++ (← inlineObject inline sets closed) ++ ";"

def inlineArray (inline : Inliner) (items : List Container) : RenderM String := do
  if items.isEmpty then return "Array<any>"
  else
    let texts ← items.mapM fun c => do return "Array<" ++ (← inlineContainer inline c) ++ ">"
    return join " | " (distinct texts)

def enumUnion (members : List Member) : String :=
  if members.isEmpty then "never" else join " | " (members.map fun m => m.value.compact)

def branchDescription (s : Store) (branch : Container) : String :=
  match branch with
  | id :: _ => match (s.get? id).bind (·.fragment) with
    | some f => trim f.keywords.description
    | none => ""
  | [] => ""

/-- The texts of branches, each text once. An alternative that is itself a union stands in brackets
inside an intersection, and a description of its own follows as a comment. -/
def branchTexts (s : Store) (inline : Inliner) (c : Fragment.Combinator) (own : String)
    (seen : List String) : List Container → RenderM (List String)
  | [] => return []
  | branch :: rest => do
    -- a repeated text is left out, but what it names has been noted by now
    let text ← inlineContainer inline branch
    if seen.contains text then branchTexts s inline c own seen rest
    else
      let shown := if c = .allOf && 1 < branch.length then "(" ++ text ++ ")" else text
      let description := branchDescription s branch
      let remark := if description = own then "" else trailingComment description
      return (shown ++ remark) :: (← branchTexts s inline c own (text :: seen) rest)

def inlineSomeOf (s : Store) (inline : Inliner) (d : Descriptor) (c : Fragment.Combinator)
    (branches : List Container) : RenderM String := do
  let own := trim ((d.fragment.map (·.keywords.description)).getD "")
  let texts ← branchTexts s inline c own [] branches
  if texts.isEmpty then return "any"
  else return join (if c = .allOf then " & " else " | ") texts

def inlineGeneric (inline : Inliner) (cases : List (String × Container)) : RenderM String := do
  return unionText (← cases.mapM fun kc => inlineContainer inline kc.2)

def inlineWith (cfg : Setting) (s : Store) (inline : Inliner) : Inliner := fun id => do
  let d ← fetch s id
  match d.shape with
  | .external name => return name
  | .enum members =>
    -- written out even where it has a name
    if cfg.inlineStringEnums && allStrings members then return enumUnion members
    else reference id d
  | shape =>
    if d.name ≠ "" then reference id d
    else match shape with
      | .value token => return token
      | .array items => inlineArray inline items
      | .someOf c branches => inlineSomeOf s inline d c branches
      | .generic _ cases => inlineGeneric inline cases
      | .object sets closed => inlineObject inline sets closed
      | _ => return ""

def inlineDepth (cfg : Setting) (s : Store) : Nat → Inliner
  | 0, _ => throw .tooDeep
  | depth + 1, id => inlineWith cfg s (inlineDepth cfg s depth) id

/-- A descriptor where it is used. What is spelled out holds no descriptor twice, so the number of
descriptors bounds the nesting. -/
def inlineText (cfg : Setting) (s : Store) : Inliner :=
  inlineDepth cfg s (s.descriptors.size + 1)

def Descriptor.comments (d : Descriptor) : String :=
  docComment d.fragment ""

def Descriptor.alias (d : Descriptor) (expr : String) : String :=
  d.comments ++ "export type " ++ d.name ++ " = " ++ expr ++ (if d.nullable then " | null" else "") ++ ";"

def singleObject? (s : Store) (branches : List Container) : Option (List (List Property) × Bool) :=
  match branches with
  | [[id]] =>
    match s.get? id with
    | some d =>
      match d.shape with
      | .object sets closed => if d.name = "" then some (sets, closed) else none
      | _ => none
    | none => none
  | _ => none

def declareEnum (cfg : Setting) (d : Descriptor) (members : List Member) : String :=
  if cfg.enumStyle = .union || !(allStrings members || allNumbers members) then
    d.alias (enumUnion members)
  else
    d.comments ++ "export enum " ++ d.name ++ " \x7b\n"
      ++ join "" (members.map fun m => "  " ++ m.name ++ " = " ++ m.value.compact ++ ",\n") ++ "\x7d"

def declareGeneric (inline : Inliner) (d : Descriptor) (parameter : String)
    (cases : List (String × Container)) : RenderM String := do
  match cases with
  | [] => return d.alias "any"
  | (first, _) :: _ =>
    let lines ← cases.mapM fun (key, types) => do
      return "\n  " ++ parameter ++ " extends " ++ (Json.str key).compact ++ " ? "
        ++ (← inlineContainer inline types) ++ " :"
    return d.comments ++ "export type " ++ d.name ++ "<" ++ parameter ++ " extends string = "
      ++ (Json.str first).compact ++ "> =" ++ join "" lines ++ "\n  any;"

def declarationText (cfg : Setting) (s : Store) (id : Id) : RenderM String := do
  let d ← fetch s id
  let inline := inlineText cfg s
  if d.name = "" then throw (.fault (Fault.ofUnnamedRoot d.ref d.suggested))
  else match d.shape with
    | .value token => return d.alias token
    | .external name => return name
    | .enum members => return declareEnum cfg d members
    | .array items => return d.alias (← inlineArray inline items)
    | .generic parameter cases => declareGeneric inline d parameter cases
    | .object sets closed => declareObject inline d.name d.comments sets closed
    | .someOf c branches =>
      match singleObject? s branches with
      | some (sets, closed) => declareObject inline d.name d.comments sets closed
      | none => return d.alias (← inlineSomeOf s inline d c branches)

def renderText (cfg : Setting) (s : Store) (root : Bool) (id : Id) : RenderM String :=
  if root then declarationText cfg s id else inlineText cfg s id

end Typesmith.Model
