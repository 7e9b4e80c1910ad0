import Typesmith.Text.Quoted

namespace Typesmith

inductive Fault.Code where
  | reference
  | combinator
  | unnamedRoot
  | unread
  | other (text : String)
  deriving DecidableEq, Repr, Inhabited

namespace Fault.Code

def text : Fault.Code → String
  | reference => "reference"
  | combinator => "combinator"
  | unnamedRoot => "unnamed-root"
  | unread => "unread"
  | other t => t

def ofText (s : String) : Fault.Code :=
  if s = "reference" then reference
  else if s = "combinator" then combinator
  else if s = "unnamed-root" then unnamedRoot
  else other s

end Fault.Code

structure Fault where
  code : Fault.Code
  reference : String := ""
  fragment : String := ""
  message : String := ""
  cause : Option String := none
  deriving DecidableEq, Repr, Inhabited

namespace Fault

def around (before s after : String) : String :=
  if s = "" then "" else before ++ s ++ after

def text (e : Fault) : String :=
  e.code.text
    ++ (if e.reference = "" then "" else " " ++ Text.quote e.reference)
    ++ around ": " e.message ""
    ++ (match e.cause with
        | some c => ": " ++ c
        | none => "")
    ++ around " (fragment " e.fragment ")"

def namelessRoot : String := "a renderable root model must have a name"

def ofCombinator (ref fragment : String) : Fault :=
  ⟨.combinator, ref, fragment, "fragment has none of oneOf, anyOf or allOf", none⟩

def ofUnnamedRoot (ref suggested : String) : Fault :=
  ⟨.unnamedRoot, ref, "", namelessRoot ++ around " (suggested name " suggested ")", none⟩

def ofReference (ref message : String) (cause : Option String) : Fault :=
  ⟨.reference, ref, "", message, cause⟩

def ofUnread (path : String) : Fault :=
  ⟨.unread, path, "", "", none⟩

end Fault

inductive Warning.Code where
  | unsupportedVariant
  | catchAll
  | other (text : String)
  deriving DecidableEq, Repr, Inhabited

namespace Warning.Code

def text : Warning.Code → String
  | unsupportedVariant => "unsupported-variant"
  | catchAll => "catch-all"
  | other t => t

end Warning.Code

structure Warning where
  code : Warning.Code
  reference : String
  message : String
  deriving DecidableEq, Repr, Inhabited

def Warning.text (w : Warning) : String :=
  if w.reference = "" then w.code.text ++ ": " ++ w.message
  else w.code.text ++ " " ++ Text.quote w.reference ++ ": " ++ w.message

end Typesmith
