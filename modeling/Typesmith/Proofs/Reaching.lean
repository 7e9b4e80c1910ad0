import Mathlib.Data.Finite.Prod
import Mathlib.Data.Set.Finite.Lattice
import Typesmith.Proofs.Moving
import Typesmith.Proofs.Settling
import Typesmith.Proofs.Shadowing

namespace Typesmith

namespace Json

end Json

namespace Resolver

def Serves (r : Resolver) (locators : List String) : Prop :=
  ∀ load, r.foreign = some load → ∀ locator ∉ locators, ∃ failure, load locator = .error failure

section family

variable {r : Resolver} {locators : List String} {ref pointer : String} {doc : Json}

end family

end Resolver

namespace Model

open Resolver (Serves)

def Extends (f g : Fragment) : Prop :=
  g ∈ f.allOf

section

variable {cfg : Setting} {members : List Fragment} {base : String} {locators : List String}

end

end Model

end Typesmith
