import Typesmith.Declaration.Collect
import Typesmith.Model.Convert

namespace Typesmith.Conversion

open Model

structure Roots where
  containers : List Container := []
  aliases : List Declaration := []
  declared : List (String × List String) := []
  deriving Inhabited

def named (s : Store) (c : Container) : Container :=
  c.filter fun id => Declaration.nameOf s id ≠ ""

def aliasOf (cfg : Setting) (s : Store) (name ref : String) (c : Container) :
    Except Failure Declaration :=
  match c, named s c with
  | [_], [id] => .ok (Declaration.ofAlias name (Declaration.nameOf s id) ref)
  | _, _ => do
    let (text, deps) ← (inlineContainer (inlineText cfg s) c).run []
    return { Declaration.ofAlias name text ref with dependencies := deps.map (Declaration.nameOf s) }

def keptOf (skips : List String) (s : Store) (c : Container) : Container :=
  (named s c).filter fun id => !skips.contains (Declaration.nameOf s id)

/-- Takes the container of a canonical reference into the root set, apart from names to be skipped.
A name that is replaced by a type declared elsewhere needs no alias. -/
def Roots.take (cfg : Setting) (skips : List String) (r : Roots) (canonical : String) (c : Container)
    (s : Store) : Except Failure Roots :=
  let name := (s.names.lookup? canonical).getD ""
  let kept := keptOf skips s c
  let names := kept.map (Declaration.nameOf s)
  let r := if kept.isEmpty then r else { r with containers := r.containers ++ [kept] }
  if name = "" || names.contains name || skips.contains name || (cfg.overrides.lookup name).isSome then
    .ok { r with declared := (canonical, names) :: r.declared }
  else do
    let d ← aliasOf cfg s name canonical c
    return { r with aliases := r.aliases ++ [d], declared := (canonical, [name]) :: r.declared }

def Roots.add (cfg : Setting) (skips : List String) (r : Roots) (ref : String) : ConvertM Roots := do
  let c ← findOrCreate cfg ref
  liftM (r.take cfg skips (Reference.normalize ref) c (← get))

def Roots.declaredAt (r : Roots) (ref : String) : List String :=
  (r.declared.lookup (Reference.normalize ref)).getD []

end Typesmith.Conversion
