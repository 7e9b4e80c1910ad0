import Typesmith.Text.Letter
import Typesmith.Text.Digit
import Typesmith.Text.Casing
import Typesmith.Text.Quoted

namespace Typesmith.Naming

open Text

/-- Reserved words and built-in type names, which no declaration may bear. -/
def reservedWords : List String :=
  ["break", "case", "catch", "class", "const", "continue", "debugger", "default", "delete", "do",
   "else", "enum", "export", "extends", "false", "finally", "for", "function", "if", "import",
   "in", "instanceof", "new", "null", "return", "super", "switch", "this", "throw", "true",
   "try", "typeof", "var", "void", "while", "with", "implements", "interface", "let", "package",
   "private", "protected", "public", "static", "yield", "any", "boolean", "number", "string",
   "symbol", "type", "never", "unknown", "object"]

def isReserved (name : String) : Bool :=
  reservedWords.contains name

def isIdentStart (c : Char) : Bool :=
  c == '_' || c == '$' || isLetter c

def isIdentPart (c : Char) : Bool :=
  isIdentStart c || isDigit c

def isIdentifier (name : String) : Bool :=
  match name.toList with
  | [] => false
  | c :: rest => isIdentStart c && rest.all isIdentPart

def propertyKey (name : String) : String :=
  if isIdentifier name then name else quote name

def isWordChar (c : Char) : Bool :=
  isLetter c || isDigit c

def startsWord (prev c : Char) (next : Option Char) : Bool :=
  isUpper c && (isLower prev || isDigit prev || (isUpper prev && next.any isLower))

def wordsFrom (cur : List Char) : List Char → List (List Char)
  | [] => if cur.isEmpty then [] else [cur.reverse]
  | c :: rest =>
    if isWordChar c then
      match cur with
      | [] => wordsFrom [c] rest
      | prev :: _ =>
        -- the last capital of an acronym belongs to the word behind it
        if startsWord prev c rest.head? then cur.reverse :: wordsFrom [c] rest
        else wordsFrom (c :: cur) rest
    else if cur.isEmpty then wordsFrom [] rest
    else cur.reverse :: wordsFrom [] rest

/-- The words of a text: `widget_id` has `widget` and `id`, `HTTPStatus` has `HTTP` and `Status`. -/
def words (s : String) : List String :=
  (wordsFrom [] s.toList).map String.ofList

def titleWord (w : List Char) : List Char :=
  match w with
  | [] => []
  | c :: _ => if isLetter c then capitalize w else w

def pascalCase (s : String) : String :=
  String.ofList ((wordsFrom [] s.toList).flatMap titleWord)

def camelCase (s : String) : String :=
  match wordsFrom [] s.toList with
  | [] => ""
  | w :: rest =>
    String.ofList (lowercase w ++ rest.flatMap fun w => titleWord (lowercase w))

/-- Makes an identifier that is no reserved word by dropping characters and, where needed, putting
an underscore in front. -/
def sanitize (name : String) : String :=
  match name.toList.filter isIdentPart with
  | [] => "_"
  | c :: rest =>
    let out := String.ofList (c :: rest)
    if isDigit c || isReserved out then "_" ++ out else out

def modelName (s : String) : String :=
  sanitize (pascalCase s)

def spellSign (value : String) : String :=
  if endsWith value "-" then dropEnd value "-" ++ " Minus"
  else if endsWith value "+" then dropEnd value "+" ++ " Plus"
  else value

def memberName (value : String) : String :=
  let name := camelCase (spellSign value)
  match name.toList with
  | [] => "Empty"
  | c :: _ => if isDigit c then "_" ++ name else name

end Typesmith.Naming
