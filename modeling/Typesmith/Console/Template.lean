import Typesmith.Json.Writer
import Typesmith.Text.Quoted

namespace Typesmith.Console

def typeLabel : Json → String
  | .null => "<nil>"
  | .bool _ => "bool"
  | .num _ => "float64"
  | .str _ => "string"
  | .arr _ => "[]interface \x7b\x7d"
  | .obj _ => "map[string]interface \x7b\x7d"

/-- How an argument is shown where it does not fit; no message fails because of one. -/
def typed (j : Json) : List Char :=
  match j with
  | .null => j.plain
  | _ => (typeLabel j).toList ++ '=' :: j.plain

def fillOne (verb : Char) (j : Json) : List Char :=
  let misfit := '%' :: '!' :: verb :: '(' :: (typed j ++ [')'])
  match verb, j with
  | 'v', _ => j.plain
  | 's', .str s => s.toList
  | 'q', .str s => (Text.quote s).toList
  | 't', .bool _ => j.plain
  | _, _ => misfit

def leftover (args : List Json) : List Char :=
  if args.isEmpty then []
  else
    "%!(EXTRA ".toList ++ (Text.join ", " (args.map fun j => String.ofList (typed j))).toList ++ [')']

def fill (args : List Json) : List Char → List Char
  | [] => leftover args
  | ['%'] => "%!(NOVERB)".toList ++ leftover args
  | '%' :: '%' :: rest => '%' :: fill args rest
  | '%' :: verb :: rest =>
    match args with
    | [] => '%' :: '!' :: verb :: ("(MISSING)".toList ++ fill [] rest)
    | a :: args => fillOne verb a ++ fill args rest
  | c :: rest => c :: fill args rest

end Typesmith.Console
