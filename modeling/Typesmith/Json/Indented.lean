import Typesmith.Json.Writer

namespace Typesmith.Json

def lineAt (depth : Nat) : List Char :=
  '\n' :: List.replicate (4 * depth) ' '

mutual

def writeAt (depth : Nat) : Json → List Char
  | .arr [] => ['[', ']']
  | .arr items => '[' :: (writeItemsAt (depth + 1) items ++ lineAt depth ++ [']'])
  | .obj [] => ['\x7b', '\x7d']
  | .obj fields => '\x7b' :: (writeFieldsAt (depth + 1) fields ++ lineAt depth ++ ['\x7d'])
  | j => write numbers j

def writeItemsAt (depth : Nat) : List Json → List Char
  | [] => []
  | [j] => lineAt depth ++ writeAt depth j
  | j :: rest => lineAt depth ++ writeAt depth j ++ ',' :: writeItemsAt depth rest

def writeFieldsAt (depth : Nat) : List (String × Json) → List Char
  | [] => []
  | [(k, j)] => lineAt depth ++ quoteString k ++ [':', ' '] ++ writeAt depth j
  | (k, j) :: rest =>
    lineAt depth ++ quoteString k ++ [':', ' '] ++ writeAt depth j ++ ',' :: writeFieldsAt depth rest

end

def indented (j : Json) : String :=
  String.ofList (writeAt 0 j)

end Typesmith.Json
