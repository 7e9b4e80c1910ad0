import Typesmith.Json.Basic

namespace Typesmith.Json

mutual

/-- Passes every text named `$ref` through a function. -/
def mapRefs (f : String → String) : Json → Json
  | .arr items => .arr (mapRefsItems f items)
  | .obj fields => .obj (mapRefsFields f fields)
  | j => j

def mapRefsItems (f : String → String) : List Json → List Json
  | [] => []
  | j :: rest => mapRefs f j :: mapRefsItems f rest

def mapRefsFields (f : String → String) : List (String × Json) → List (String × Json)
  | [] => []
  | (key, .str s) :: rest =>
    (key, .str (if key = "$ref" then f s else s)) :: mapRefsFields f rest
  | (key, j) :: rest => (key, mapRefs f j) :: mapRefsFields f rest

end

end Typesmith.Json
