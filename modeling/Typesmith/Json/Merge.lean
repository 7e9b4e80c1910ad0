import Typesmith.Json.Basic

namespace Typesmith.Json

def addNew (l : List Json) (j : Json) : List Json :=
  if l.any (·.same j) then l else l ++ [j]

def union (a b : List Json) : List Json :=
  b.foldl addNew a

mutual

def mergeFields (dst : List (String × Json)) : List (String × Json) → List (String × Json)
  | [] => dst
  | (key, value) :: rest =>
    mergeFields
      (setField key (match dst.lookup key with
        | none => value
        | some old => mergeValue old value) dst)
      rest

def mergeValue (old : Json) : Json → Json
  | .obj fields =>
    match old with
    | .obj dst => .obj (mergeFields dst fields)
    | _ => .obj fields
  | .arr items =>
    match old with
    | .arr dst => .arr (union dst items)
    | _ => .arr items
  | value => value

end

def merge (a b : Json) : Json :=
  .obj (mergeFields (a.obj?.getD []) (b.obj?.getD []))

end Typesmith.Json
