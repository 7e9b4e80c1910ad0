import Typesmith.Fragment.Basic
import Typesmith.Json.Writer

namespace Typesmith.Model

open Text

def escapeComment : List Char → List Char
  | '*' :: '/' :: rest => '*' :: '\\' :: '/' :: escapeComment rest
  | c :: rest => c :: escapeComment rest
  | [] => []

def joinLineEnds : List Char → List Char
  | '\r' :: '\n' :: rest => '\n' :: joinLineEnds rest
  | c :: rest => c :: joinLineEnds rest
  | [] => []

def trimLineEnd (s : List Char) : List Char :=
  (s.reverse.dropWhile fun c => c = ' ' || c = '\t').reverse

def commentLines (s : List Char) : List (List Char) :=
  (splitChars '\n' (joinLineEnds s)).map trimLineEnd

def docLines (f : Fragment) : List (List Char) :=
  let title := trimBy isSpace f.keywords.title.toList
  let description := trimBy isSpace f.keywords.description.toList
  let lines := if title.isEmpty then [] else commentLines title
  let lines :=
    if description.isEmpty then lines
    else if lines.isEmpty then commentLines description
    else lines ++ [[]] ++ commentLines description
  let lines := if f.isDeprecated then lines ++ ["@deprecated".toList] else lines
  match f.keywords.exampleValue with
  | some v => lines ++ ["@example ".toList ++ v.write Json.numbers]
  | none => lines

def docLine (indent line : List Char) : List Char :=
  if line.isEmpty then indent ++ " *\n".toList
  else indent ++ " * ".toList ++ escapeComment line ++ ['\n']

def docBlock (indent : List Char) : List (List Char) → List Char
  | [] => []
  | [line] => indent ++ "/** ".toList ++ escapeComment line ++ " */\n".toList
  | lines =>
    indent ++ "/**\n".toList ++ lines.flatMap (docLine indent) ++ indent ++ " */\n".toList

def docComment (f : Option Fragment) (indent : String) : String :=
  match f with
  | some f => String.ofList (docBlock indent.toList (docLines f))
  | none => ""

def trailingComment (description : String) : String :=
  let text := join " " (fields description)
  if text = "" then ""
  else String.ofList (" /* ".toList ++ escapeComment text.toList ++ " */".toList)

end Typesmith.Model
