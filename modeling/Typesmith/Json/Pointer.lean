import Typesmith.Reference
import Typesmith.Json.Basic

namespace Typesmith.Json

open Text

def index? (token : String) : Option Nat :=
  let (minus, ds) := match token.toList with
    | '-' :: ds => (true, ds)
    | '+' :: ds => (false, ds)
    | ds => (false, ds)
  if ds.isEmpty || !ds.all isAsciiDigit then none
  else
    let n := digitsValue ds
    if minus && n ≠ 0 then none else some n

def step? (j : Json) (token : String) : Option Json :=
  match j with
  | .obj fields => fields.lookup token
  | .arr items => (index? token).bind fun n => items[n]?
  | _ => none

def pointerTokens (pointer : String) : List String :=
  if pointer = "" then []
  else (split '/' (dropStart pointer "/")).map Reference.unescape

def at? (j : Json) (pointer : String) : Option Json :=
  (pointerTokens pointer).foldlM step? j

end Typesmith.Json
