import Typesmith.Model.Render
import Typesmith.Walk

namespace Typesmith

open Model

structure Declaration where
  name : String
  kind : String := ""
  ref : String := ""
  text : String
  dependencies : List String := []
  deriving DecidableEq, Repr, Inhabited

namespace Declaration

structure Visit where
  id : Id
  text : String
  deps : List Id
  deriving Repr, Inhabited

/-- Visits the descriptors on a stack and, right after each of them, those that it names. `n` is the
number of descriptors; the first failure ends the walk. -/
def walk {ε : Type} (n : Nat) (render : Id → Except ε Visit) (visited : List Id) :
    List Id → Except ε (List Visit)
  | [] => .ok []
  | id :: rest =>
    if _hn : n ≤ id then walk n render visited rest
    else if _hv : visited.contains id = true then walk n render visited rest
    else
      match render id with
      | .error e => .error e
      | .ok visit =>
        -- what the text names comes before what was on the stack
        match walk n render (id :: visited) (visit.deps ++ rest) with
        | .error e => .error e
        | .ok visits => .ok (visit :: visits)
  termination_by stack => (Walk.remaining (fun i => i) (List.range n) visited, stack.length)
  decreasing_by
    · exact Prod.Lex.right _ (by simp)
    · exact Prod.Lex.right _ (by simp)
    · refine Prod.Lex.left _ _ (Walk.remaining_cons_lt (x := id) ?_ (by simpa using _hv))
      exact List.mem_range.2 (by omega)

def visit (cfg : Setting) (s : Store) (id : Id) : Except Failure Visit := do
  let (text, deps) ← (declarationText cfg s id).run []
  return ⟨id, text, deps⟩

def visits (cfg : Setting) (s : Store) (roots : List Container) : Except Failure (List Visit) :=
  walk s.descriptors.size (visit cfg s) [] roots.flatten

abbrev Visitor (σ ε : Type) := Visit → ExceptT ε (StateM σ) Unit

/-- Takes a visitor along on a walk. It sees every visit as soon as its text is there and before
anything that the text names is rendered. -/
def tour {σ ε : Type} (n : Nat) (render : Id → Except ε Visit) (visitor : Visitor σ ε)
    (visited : List Id) : List Id → ExceptT ε (StateM σ) Unit
  | [] => pure ()
  | id :: rest =>
    if _hn : n ≤ id then tour n render visitor visited rest
    else if _hv : visited.contains id = true then tour n render visitor visited rest
    else do
      let visit ← liftM (render id)
      visitor visit
      tour n render visitor (id :: visited) (visit.deps ++ rest)
  termination_by stack => (Walk.remaining (fun i => i) (List.range n) visited, stack.length)
  decreasing_by
    · exact Prod.Lex.right _ (by simp)
    · exact Prod.Lex.right _ (by simp)
    · refine Prod.Lex.left _ _ (Walk.remaining_cons_lt (x := id) ?_ (by simpa using _hv))
      exact List.mem_range.2 (by omega)

def renderAll {σ : Type} (cfg : Setting) (s : Store) (visitor : Visitor σ Failure)
    (roots : List Container) : ExceptT Failure (StateM σ) Unit :=
  tour s.descriptors.size (visit cfg s) visitor [] roots.flatten

def nameOf (s : Store) (id : Id) : String :=
  ((s.get? id).map (·.name)).getD ""

def ofVisit (s : Store) (v : Visit) : Declaration :=
  let d := (s.get? v.id).getD default
  { name := d.name
    kind := d.kind.label
    ref := d.ref
    text := v.text
    dependencies := Text.sort ((v.deps.filter (· ≠ v.id)).map (nameOf s)) }

def sortByName (l : List Declaration) : List Declaration :=
  l.mergeSort fun a b => decide (a.name ≤ b.name)

def collect (cfg : Setting) (s : Store) (roots : List Container) :
    Except Failure (List Declaration) := do
  return sortByName ((← visits cfg s roots).map (ofVisit s))

def ofAlias (name target ref : String) : Declaration :=
  { name, ref, kind := Kind.any.label, dependencies := [target]
    text := "export type " ++ name ++ " = " ++ target ++ ";" }

end Declaration

end Typesmith
