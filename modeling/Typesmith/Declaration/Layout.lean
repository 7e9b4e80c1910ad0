import Typesmith.Declaration.Collect

namespace Typesmith.Declaration

open Text

inductive Task where
  | enter (name : String)
  | leave (d : Declaration)

def find? (l : List Declaration) (name : String) : Option Declaration :=
  l.reverse.find? (·.name == name)

theorem mem_of_find? {l : List Declaration} {name : String} {d : Declaration}
    (h : find? l name = some d) : d ∈ l ∧ d.name = name := by
  unfold find? at h
  exact ⟨by simpa using List.mem_of_find?_eq_some h, by simpa using List.find?_some h⟩

def orderFrom (l : List Declaration) (entered : List String) : List Task → List Declaration
  | [] => []
  | .leave d :: rest => d :: orderFrom l entered rest
  | .enter name :: rest =>
    match h : find? l name with
    | none => orderFrom l entered rest
    | some d =>
      if hv : entered.contains name = true then orderFrom l entered rest
      else
        -- entered before its dependencies are looked at, so that a circle ends here
        orderFrom l (name :: entered) ((sort d.dependencies).map .enter ++ .leave d :: rest)
  termination_by tasks => (Walk.remaining (·.name) l entered, tasks.length)
  decreasing_by
    · exact Prod.Lex.right _ (by simp)
    · exact Prod.Lex.right _ (by simp)
    · exact Prod.Lex.right _ (by simp)
    · obtain ⟨hm, rfl⟩ := mem_of_find? h
      exact Prod.Lex.left _ _ (Walk.remaining_cons_lt hm (by simpa using hv))

/-- The declarations with dependencies before what depends on them; names decide where that leaves a
choice, and a circle is entered at its first name. -/
def order (l : List Declaration) : List Declaration :=
  orderFrom l [] ((sort (l.map (·.name)).eraseDups).map .enter)

def file (l : List Declaration) : String :=
  match (order l).map (·.text) with
  | [] => ""
  | texts => join "\n\n" texts ++ "\n"

def moduleText (d : Declaration) : String :=
  let imports := (d.dependencies.filter (· ≠ d.name)).map fun dep =>
    "import type \x7b " ++ dep ++ " \x7d from \"./" ++ dep ++ "\";\n"
  let head := join "" imports
  (if head = "" then "" else head ++ "\n") ++ d.text ++ "\n"

def indexText (l : List Declaration) : String :=
  join "" ((sort (l.map (·.name))).map fun name => "export * from \"./" ++ name ++ "\";\n")

end Typesmith.Declaration
