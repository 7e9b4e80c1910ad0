import Typesmith.Model.Store
import Typesmith.Document.Basic
import Typesmith.Files

namespace Typesmith

inductive Problem where
  | failure (f : Model.Failure)
  | unreadable (u : Document.Unreadable)
  | access (a : Access)
  | misuse (message : String)
  | within (place : String) (p : Problem)
  deriving Inhabited

namespace Problem

def text : Problem → String
  | failure f => f.text
  | unreadable u => u.message
  | access a => a.text
  | misuse message => message
  | within place p => place ++ ": " ++ p.text

def fault? : Problem → Option Fault
  | failure (.fault f) => some f
  | within _ p => p.fault?
  | _ => none

/-- The file that has to be read before the work can go on, if that is the problem. -/
def unread? : Problem → Option String
  | access (.unread path) => some path
  | failure (.fault f) => if f.code = .unread then some f.reference else none
  | within _ p => p.unread?
  | _ => none

def withoutCause : Problem → Problem
  | failure (.fault f) => failure (.fault { f with cause := none })
  | within place p => within place p.withoutCause
  | p => p

end Problem

end Typesmith
