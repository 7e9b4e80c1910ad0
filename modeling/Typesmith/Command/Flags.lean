import Typesmith.Text.Scan

namespace Typesmith.Command

open Text

structure Flag where
  name : String
  aliases : List String := []
  isSwitch : Bool := false
  default : String := ""
  deriving DecidableEq, Repr, Inhabited

def Flag.names (f : Flag) : List String :=
  f.name :: f.aliases

inductive FlagError where
  | badForm (word : String)
  | unknown (name : String)
  | noValue (name : String)
  | badSwitch (value name : String)
  | twoForms (name other : String)
  deriving DecidableEq, Repr

def FlagError.message : FlagError → String
  | badForm word => "bad flag syntax: " ++ word
  | unknown name => "flag provided but not defined: -" ++ name
  | noValue name => "flag needs an argument: -" ++ name
  | badSwitch value name => "invalid boolean value \"" ++ value ++ "\" for -" ++ name ++ ": parse error"
  | twoForms name other => "Cannot use two forms of the same flag: " ++ name ++ " " ++ other

def truth? (s : String) : Option Bool :=
  if ["1", "t", "T", "TRUE", "true", "True"].contains s then some true
  else if ["0", "f", "F", "FALSE", "false", "False"].contains s then some false
  else none

inductive Word where
  | plain
  | stop
  | bad
  | flag (name : String) (value : Option String)

def Word.of (s : String) : Word :=
  let body (cs : List Char) : Word :=
    match cs with
    | [] => .bad
    | '-' :: _ => .bad
    | '=' :: _ => .bad
    | cs =>
      match cut '=' cs with
      | some (name, value) => .flag (String.ofList name) (some (String.ofList value))
      | none => .flag (String.ofList cs) none
  match s.toList with
  | ['-', '-'] => .stop
  | '-' :: '-' :: cs => body cs
  | ['-'] => .plain
  | '-' :: cs => body cs
  | _ => .plain

def readFlags (flags : List Flag) (given : List (String × String)) :
    List String → Except FlagError (List (String × String) × List String)
  | [] => .ok (given, [])
  | word :: rest =>
    match Word.of word with
    | .plain => .ok (given, word :: rest)
    | .stop => .ok (given, rest)
    | .bad => .error (.badForm word)
    | .flag name value =>
      match flags.find? (·.names.contains name) with
      | none => .error (.unknown name)
      | some f =>
        if f.isSwitch then
          -- the word behind a switch is never its value
          match truth? (value.getD "true") with
          | some b => readFlags flags ((name, if b then "true" else "false") :: given) rest
          | none => .error (.badSwitch (value.getD "true") name)
        else
          match value with
          | some v => readFlags flags ((name, v) :: given) rest
          | none =>
            match rest with
            | v :: rest => readFlags flags ((name, v) :: given) rest
            | [] => .error (.noValue name)

def gather (flags : List Flag) (given : List (String × String)) :
    Except FlagError (List (String × String)) :=
  flags.foldlM (fun acc f =>
    match f.names.filter fun n => (given.lookup n).isSome with
    | [] => .ok acc
    | [n] => .ok ((f.name, (given.lookup n).getD "") :: acc)
    | n :: m :: _ => .error (.twoForms m n)) []

def parseFlags (flags : List Flag) (words : List String) :
    Except FlagError (List (String × String) × List String) := do
  let (given, rest) ← readFlags flags [] words
  return (← gather flags given, rest)

end Typesmith.Command
