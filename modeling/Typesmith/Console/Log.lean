import Typesmith.Console.Markup
import Typesmith.Console.Template

namespace Typesmith.Console

structure Log where
  color : Bool := false
  quiet : Bool := false
  debugLevel : Int := 0
  out : String := ""
  deriving Repr, Inhabited

namespace Log

/-- The line of a message: markup is expanded in the template only, not in the arguments. -/
def line (color : Bool) (template : String) (args : List Json) : String :=
  let shown := render template color
  let msg := if args.isEmpty then shown else String.ofList (fill args shown.toList)
  if Text.endsWith msg "\n" then msg else msg ++ "\n"

def print (l : Log) (template : String) (args : List Json) : Log :=
  { l with out := l.out ++ line l.color template args }

def debug (l : Log) (template : String) (args : List Json) : Log :=
  if l.debugLevel ≤ 0 then l else l.print ("$Dim\x7b[debug]\x7d " ++ template) args

def info (l : Log) (template : String) (args : List Json) : Log :=
  if l.quiet then l else l.print template args

def warn (l : Log) (template : String) (args : List Json) : Log :=
  l.print ("$Bold\x7b$Yellow\x7bwarning:\x7d\x7d " ++ template) args

def error (l : Log) (template : String) (args : List Json) : Log :=
  l.print ("$Bold\x7b$Red\x7berror:\x7d\x7d " ++ template) args

end Log

end Typesmith.Console
