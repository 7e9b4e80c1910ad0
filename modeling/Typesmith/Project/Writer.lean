import Typesmith.Files

namespace Typesmith.Project

inductive Stage where
  | start
  | outdated
  | housed
  | beside
  | done (changed : Bool)
  deriving DecidableEq, Repr

structure Writer where
  path : String
  text : String
  stage : Stage := .start
  deriving DecidableEq, Repr

namespace Writer

/-- The text is written here and then moved, so that nobody sees half of it. -/
def aside (w : Writer) : String :=
  w.path ++ ".tmp"

def reached (w : Writer) (stage : Stage) : Writer :=
  { w with stage }

/-- The next step of a writer. A file that cannot be read is written, unless the view does not cover it. -/
def step (w : Writer) (f : Files) : Except Access (Files × Writer) :=
  match w.stage with
  | .start =>
    match f.read w.path with
    | .ok old => .ok (f, w.reached (if old == w.text then .done false else .outdated))
    | .error (.unread path) => .error (.unread path)
    | .error _ => .ok (f, w.reached .outdated)
  | .outdated => do return (← f.addDirectory (Path.dir (f.absolute w.path)), w.reached .housed)
  | .housed => do return (← f.write w.aside w.text, w.reached .beside)
  | .beside => do return (← f.move w.aside w.path, w.reached (.done true))
  | .done _ => .ok (f, w)

def finish (w : Writer) (f : Files) : Except Access (Files × Writer) := do
  let (f, w) ← w.step f
  let (f, w) ← w.step f
  let (f, w) ← w.step f
  w.step f

def isDone (w : Writer) : Bool :=
  match w.stage with
  | .done _ => true
  | _ => false

def changed (w : Writer) : Bool :=
  w.stage == .done true

end Writer

end Typesmith.Project
