import Typesmith.Diagnostic
import Typesmith.Json.Pointer
import Typesmith.Json.Writer
import Typesmith.Fragment.Decode

namespace Typesmith

open Text

inductive LoadFailure where
  | unread (path : String)
  | failed (reason : String)
  deriving DecidableEq, Repr, Inhabited

abbrev DocumentLoader := String → Except LoadFailure Json

structure Resolver where
  root : Json
  foreign : Option DocumentLoader := none
  mounts : List (String × Json) := []

namespace Resolver

def mount (r : Resolver) (ref : String) (value : Json) : String × Resolver :=
  let pointer := (Reference.parse ref).pointer
  (Reference.normalize ref, { r with mounts := (pointer, value) :: r.mounts.filter (·.1 ≠ pointer) })

def mounted (r : Resolver) : List String :=
  sort (r.mounts.map fun m => "#" ++ m.1)

def covers (mount pointer : String) : Bool :=
  pointer == mount || startsWith pointer (mount ++ "/")

def mountFor? (r : Resolver) (pointer : String) : Option (Json × String) :=
  -- of two mounts with pointers of one length the first is kept
  let best := (r.mounts.filter (covers ·.1 pointer)).foldl (fun (best : Option (String × Json)) m =>
    match best with
    | none => some m
    | some b => if b.1.length < m.1.length then some m else some b) none
  best.map fun m => (m.2, dropStart pointer m.1)

def document (r : Resolver) (ref : String) : Except Fault (Json × String) :=
  let parsed := Reference.parse ref
  if parsed.isLocal then
    .ok ((r.mountFor? parsed.pointer).getD (r.root, parsed.pointer))
  else
    match r.foreign with
    | none =>
      .error (Fault.ofReference ref ("no loader for foreign document " ++ quote parsed.locator) none)
    | some load =>
      match load parsed.locator with
      | .ok doc => .ok (doc, parsed.pointer)
      | .error (.unread path) => .error (Fault.ofUnread path)
      | .error (.failed reason) =>
        .error (Fault.ofReference ref ("loading foreign document " ++ quote parsed.locator) (some reason))

def noValue : String := "nothing is there"

def lookup (r : Resolver) (ref : String) : Except Fault Json := do
  let (doc, pointer) ← r.document ref
  match doc.at? pointer with
  | none => throw (Fault.ofReference ref "pointer does not reach a value" (some noValue))
  | some .null => throw (Fault.ofReference ref "pointer reaches a null value" none)
  | some value => return value

/-- The fragment that a reference names; `true` and `false` stand for fragments that say nothing. -/
def fragment (r : Resolver) (ref : String) : Except Fault Fragment := do
  match ← r.lookup ref with
  | .bool _ => return {}
  | .obj fields =>
    match Fragment.decode? (.obj fields) with
    | some f => return f
    | none =>
      throw ⟨.reference, ref, (Json.obj fields).compact, "value is not a valid schema", some "the fragment cannot be read"⟩
  | value => throw ⟨.reference, ref, value.compact, "value is not a schema object", none⟩

end Resolver

end Typesmith
