import Typesmith.Console.Log
import Typesmith.Problem

namespace Typesmith

inductive Channel where
  | debug
  | console
  | complaint
  deriving DecidableEq, Repr

structure Session where
  files : Files := {}
  log : Console.Log := {}
  reports : List (Channel × String) := []
  written : List String := []
  deriving Inhabited

abbrev SessionM := ExceptT Problem (StateM Session)

namespace Session

def reportsOn (s : Session) (c : Channel) : List String :=
  (s.reports.filter (·.1 = c)).map (·.2)

def report (c : Channel) (text : String) : SessionM Unit :=
  modify fun s => { s with reports := s.reports ++ [(c, text)] }

def note (line : String) : SessionM Unit :=
  report .debug line

def say (message : Console.Log → Console.Log) : SessionM Unit := do
  let text := (message { (← get).log with out := "" }).out
  if text = "" then pure () else report .console text

def accessing {α : Type} : Except Access α → SessionM α
  | .ok a => pure a
  | .error e => throw (.access e)

/-- Puts the place of a problem around it. A file that was not read yet is no problem of the place. -/
def within {α : Type} (place : String) (step : SessionM α) : SessionM α :=
  ExceptT.mk do
    match ← step.run with
    | .ok a => return .ok a
    | .error p => return .error (.within place p)

def view : SessionM Files :=
  return (← get).files

end Session

end Typesmith
