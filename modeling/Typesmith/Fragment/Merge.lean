import Typesmith.Fragment.Encode
import Typesmith.Json.Merge
import Typesmith.Json.Refs

namespace Typesmith.Fragment

def merge? (fragments : List Fragment) : Option Fragment := do
  let raws ← fragments.mapM toJson?
  decode? (raws.foldl Json.merge (.obj []))

def subsumes? (s extra : Fragment) : Option Bool := do
  let merged ← merge? [extra, s]
  let want ← toJson? s
  let got ← toJson? merged
  return want.same got

def mapRefs? (f : String → String) (s : Fragment) : Option Fragment := do
  let raw ← toJson? s
  decode? (raw.mapRefs f)

/-- Whether fragments name more than one type other than `null` between them; whole numbers are
numbers. -/
def conflictingTypes (fragments : List Fragment) : Bool :=
  let seen := (fragments.flatMap nonNullTypes).eraseDups
  let seen := if seen.contains "integer" && seen.contains "number" then seen.erase "integer" else seen
  1 < seen.length

end Typesmith.Fragment
