import Typesmith.Text.Scan

namespace Typesmith.Console

inductive Style where
  | bold | dim | red | green | yellow | blue | magenta | cyan
  deriving DecidableEq, Repr

namespace Style

def all : List Style :=
  [bold, dim, red, green, yellow, blue, magenta, cyan]

def name : Style → List Char
  | bold => "Bold".toList
  | dim => "Dim".toList
  | red => "Red".toList
  | green => "Green".toList
  | yellow => "Yellow".toList
  | blue => "Blue".toList
  | magenta => "Magenta".toList
  | cyan => "Cyan".toList

def code : Style → Nat
  | bold => 1
  | dim => 2
  | red => 31
  | green => 32
  | yellow => 33
  | blue => 34
  | magenta => 35
  | cyan => 36

end Style

def escape (n : Nat) : List Char :=
  '\x1b' :: '[' :: (Text.decimal n ++ ['m'])

def reset : List Char :=
  escape 0

def styleAt (s : List Char) : Option Style :=
  Style.all.find? fun st => (st.name ++ ['\x7b']).isPrefixOf s

/-- Expands markup. `stack` holds the open styles, innermost first, and `skip` says how many
characters of an opening are still to be passed over. -/
def renderFrom (color : Bool) (stack : List Style) (skip : Nat) : List Char → List Char
  | [] => []
  | c :: rest =>
    match skip with
    | n + 1 => renderFrom color stack n rest
    | 0 =>
      match (if c = '$' then styleAt rest else none), stack with
      | some st, stack =>
        (if color then escape st.code else [])
          ++ renderFrom color (st :: stack) (st.name.length + 1) rest
      | none, _ :: outer =>
        -- a reset ends all styles, so the outer ones are begun again
        if c = '\x7d' then
          (if color then reset ++ outer.reverse.flatMap fun st => escape st.code else [])
            ++ renderFrom color outer 0 rest
        else c :: renderFrom color stack 0 rest
      | none, [] => c :: renderFrom color stack 0 rest

def render (s : String) (color : Bool) : String :=
  String.ofList (renderFrom color [] 0 s.toList)

end Typesmith.Console
