import Typesmith.Fragment.Merge
import Typesmith.Model.Store

namespace Typesmith.Model

open Fragment

/-- Qualifies the references of a fragment read at `source`, so that they keep their meaning in the
document of `target`. -/
def qualifyRefs (f : Fragment) (source target : String) : Except Failure Fragment :=
  if (Reference.parse source).locator = (Reference.parse target).locator then .ok f
  else orFail .unwritable (f.mapRefs? fun ref => Reference.qualify ref source)

def constraints (common : Fragment) : Fragment :=
  { common with
    keywords :=
      { common.keywords with
        title := ""
        description := ""
        exampleValue := none
        extras := common.keywords.extras.filter fun kv => kv.1 ≠ "deprecated" && kv.1 ≠ "example" } }

def untitled (f : Fragment) : Fragment :=
  { f with keywords := { f.keywords with title := "", description := "" } }

def resolveMember (cfg : Setting) (member : Fragment) (base : String) : Except Failure Fragment := do
  if member.isRef then
    let ref := Reference.qualify member.ref base
    let target ← resolve cfg ref
    qualifyRefs target ref base
  else return member

/-- The fragment of one alternative. It is the member itself when the parent says nothing about
values, or when the member is a reference whose target already says it all. -/
def alternative (cfg : Setting) (common member : Fragment) (base : String) :
    Except Failure Fragment := do
  if common.hasStructure then
    let target ← resolveMember cfg member base
    let shared := constraints common
    -- a member that is no reference has nothing to keep: it is merged in any case
    let covered ← if member.isRef then orFail .unwritable (target.subsumes? shared) else pure false
    if covered then return member
    else orFail .unwritable (merge? [shared, target])
  else return member

structure Pieces where
  found : List Fragment := []
  visited : List String := []
  deriving Inhabited

def followRef (cfg : Setting) (member : Fragment) (base : String) (p : Pieces) :
    Except Failure (Option (Fragment × String) × Pieces) := do
  if member.isRef then
    let ref := Reference.qualify member.ref base
    if p.visited.contains ref then return (none, p)
    else
      let target ← resolve cfg ref
      return (some (target, ref), { p with visited := ref :: p.visited })
  else return (some (member, base), p)

def remainder (member : Fragment) : Fragment :=
  if member.allOf.isEmpty then member else member.commonPart

/-- Collects the pieces of a member: the pieces of its own `allOf` first, then what remains of it. -/
def flatten (cfg : Setting) (target : String) :
    Nat → Fragment → String → Pieces → Except Failure Pieces
  | 0, _, _, _ => throw .tooDeep
  | depth + 1, member, base, p => do
    match ← followRef cfg member base p with
    | (none, p) => return p
    | (some (member, base), p) =>
      -- `base` is where the member was read, which a reference has moved
      let p ← member.allOf.foldlM (fun p inner => flatten cfg target depth inner base p) p
      let piece ← qualifyRefs (remainder member) base target
      return { p with found := p.found ++ [piece] }

def gather (cfg : Setting) (depth : Nat) (members : List Fragment) (base : String) :
    Except Failure Pieces :=
  members.foldlM (fun p member => flatten cfg base depth member base p) {}

def composite (cfg : Setting) (depth : Nat) (whole common : Fragment) (members : List Fragment)
    (ref base : String) : ConvertM Fragment := do
  let p ← gather cfg depth members base
  if conflictingTypes (common :: p.found) then
    warn .unsupportedVariant ref
      "allOf merges members with incompatible types; output is best effort"
  -- the parent is merged last, so that what it says itself wins
  match merge? (p.found ++ [untitled common]) with
  | some merged => return untitled merged
  | none => fail ⟨.combinator, ref, whole.compact, "merging allOf members", some unwritableText⟩

end Typesmith.Model
