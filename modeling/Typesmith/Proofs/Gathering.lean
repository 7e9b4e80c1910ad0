import Typesmith.Proofs.Execution

namespace Typesmith.Model

structure Pieces.Within (p q : Pieces) : Prop where
  found : ∀ piece ∈ p.found, piece ∈ q.found
  visited : ∀ ref ∈ p.visited, ref ∈ q.visited

theorem Pieces.Within.refl (p : Pieces) : p.Within p :=
  ⟨fun _ member => member, fun _ member => member⟩

theorem Pieces.Within.trans {p q r : Pieces} (first : p.Within q) (second : q.Within r) : p.Within r :=
  ⟨fun piece member => second.found piece (first.found piece member),
    fun ref member => second.visited ref (first.visited ref member)⟩

/-- A member is accounted for: a reference has been followed, and anything else is among the pieces
with all that its own `allOf` says. -/
inductive Covered (target : String) (p : Pieces) : Fragment → String → Prop
  | ref {member : Fragment} {base : String} (isRef : member.isRef = true)
      (followed : Reference.qualify member.ref base ∈ p.visited) : Covered target p member base
  | plain {member piece : Fragment} {base : String} (isRef : member.isRef = false)
      (found : piece ∈ p.found) (qualified : qualifyRefs (remainder member) base target = .ok piece)
      (nested : ∀ inner ∈ member.allOf, Covered target p inner base) : Covered target p member base

/-- The fragment that a followed reference names is among the pieces. It is not asked whether it is a
reference again. -/
def Opened (cfg : Setting) (target : String) (p : Pieces) (ref : String) : Prop :=
  ∃ f piece, cfg.resolver.fragment ref = .ok f ∧ piece ∈ p.found ∧
    qualifyRefs (remainder f) ref target = .ok piece ∧ ∀ inner ∈ f.allOf, Covered target p inner ref

theorem Covered.mono {target : String} {p q : Pieces} {member : Fragment} {base : String}
    (covered : Covered target p member base) (within : p.Within q) : Covered target q member base := by
  induction covered with
  | ref isRef followed => exact .ref isRef (within.visited _ followed)
  | plain isRef found qualified _ ih =>
    exact .plain isRef (within.found _ found) qualified fun inner member => ih inner member

theorem Opened.mono {cfg : Setting} {target ref : String} {p q : Pieces}
    (opened : Opened cfg target p ref) (within : p.Within q) : Opened cfg target q ref := by
  obtain ⟨f, piece, resolved, found, qualified, nested⟩ := opened
  exact ⟨f, piece, resolved, within.found _ found, qualified,
    fun inner member => (nested inner member).mono within⟩

/-- What collecting something adds: all references followed on the way are opened. -/
structure Collects (cfg : Setting) (target : String) (p q : Pieces) : Prop where
  within : p.Within q
  opened : ∀ ref ∈ q.visited, ref ∈ p.visited ∨ Opened cfg target q ref

theorem Collects.refl (cfg : Setting) (target : String) (p : Pieces) : Collects cfg target p p :=
  ⟨.refl p, fun _ member => .inl member⟩

theorem Collects.trans {cfg : Setting} {target : String} {p q r : Pieces}
    (first : Collects cfg target p q) (second : Collects cfg target q r) : Collects cfg target p r := by
  refine ⟨first.within.trans second.within, ?_⟩
  intro ref member
  rcases second.opened ref member with earlier | opened
  · exact (first.opened ref earlier).imp_right fun opened => opened.mono second.within
  · exact .inr opened

section

variable {cfg : Setting} {target : String}

theorem collects_foldlM {one : Pieces → Fragment → Except Failure Pieces} {base : String}
    (each : ∀ p member q, one p member = .ok q →
      Collects cfg target p q ∧ Covered target q member base)
    {members : List Fragment} {p q : Pieces} (run : members.foldlM one p = .ok q) :
    Collects cfg target p q ∧ ∀ member ∈ members, Covered target q member base := by
  induction members generalizing p with
  | nil =>
    cases run
    exact ⟨.refl cfg target _, fun _ member => by cases member⟩
  | cons head rest ih =>
    rw [List.foldlM_cons, except_bind_ok] at run
    obtain ⟨m, first, others⟩ := run
    obtain ⟨collects, covered⟩ := each p head m first
    obtain ⟨more, all⟩ := ih others
    refine ⟨collects.trans more, ?_⟩
    intro member inside
    rcases List.mem_cons.mp inside with rfl | later
    · exact covered.mono more.within
    · exact all member later

def Opens (cfg : Setting) (target : String) (depth : Nat) (member : Fragment) (base : String)
    (p q : Pieces) : Prop :=
  ∃ m piece, member.allOf.foldlM (fun p inner => flatten cfg target depth inner base p) p = .ok m ∧
    qualifyRefs (remainder member) base target = .ok piece ∧
    q = { m with found := m.found ++ [piece] }

def openWith (one : Fragment → String → Pieces → Except Failure Pieces) (target : String) :
    Option (Fragment × String) × Pieces → Except Failure Pieces
  | (none, p) => pure p
  | (some (member, base), p) => do
    let p ← member.allOf.foldlM (fun p inner => one inner base p) p
    let piece ← qualifyRefs (remainder member) base target
    return { p with found := p.found ++ [piece] }

theorem flatten_succ (depth : Nat) (member : Fragment) (base : String) (p : Pieces) :
    flatten cfg target (depth + 1) member base p =
      followRef cfg member base p >>= openWith (flatten cfg target depth) target := by
  rw [flatten]
  congr 1

theorem flatten_seen {depth : Nat} {member : Fragment} {base : String} {p : Pieces}
    (isRef : member.isRef = true) (seen : Reference.qualify member.ref base ∈ p.visited) :
    flatten cfg target (depth + 1) member base p = .ok p := by
  rw [flatten_succ, followRef, if_pos isRef]
  dsimp only
  rw [if_pos (by simpa using seen)]
  rfl

theorem flatten_plain {depth : Nat} {member : Fragment} {base : String} {p : Pieces}
    (isRef : member.isRef = false) :
    flatten cfg target (depth + 1) member base p =
      openWith (flatten cfg target depth) target (some (member, base), p) := by
  rw [flatten_succ, followRef, if_neg (by simp [isRef])]
  rfl

theorem flatten_followed (cfg : Setting) (target : String) {member : Fragment} {base : String}
    {p : Pieces} (isRef : member.isRef = true) (fresh : Reference.qualify member.ref base ∉ p.visited)
    (depth : Nat) :
    flatten cfg target (depth + 1) member base p = (do
      let f ← resolve cfg (Reference.qualify member.ref base)
      openWith (flatten cfg target depth) target (some (f, Reference.qualify member.ref base),
        { p with visited := Reference.qualify member.ref base :: p.visited })) := by
  rw [flatten_succ, followRef, if_pos isRef]
  dsimp only
  rw [if_neg (by simpa using fresh)]
  cases resolve cfg (Reference.qualify member.ref base) <;> rfl

theorem opens_of_openWith {depth : Nat} {member : Fragment} {base : String} {p q : Pieces}
    (run : openWith (flatten cfg target depth) target (some (member, base), p) = .ok q) :
    Opens cfg target depth member base p q := by
  obtain ⟨m, nested, run⟩ := except_bind_ok.mp run
  obtain ⟨piece, qualified, run⟩ := except_bind_ok.mp run
  cases run
  exact ⟨m, piece, nested, qualified, rfl⟩

theorem flatten_cases {depth : Nat} {member : Fragment} {base : String} {p q : Pieces}
    (run : flatten cfg target (depth + 1) member base p = .ok q) :
    (member.isRef = true ∧ Reference.qualify member.ref base ∈ p.visited ∧ q = p) ∨
    (member.isRef = true ∧ Reference.qualify member.ref base ∉ p.visited ∧
      ∃ f, cfg.resolver.fragment (Reference.qualify member.ref base) = .ok f ∧
        Opens cfg target depth f (Reference.qualify member.ref base)
          { p with visited := Reference.qualify member.ref base :: p.visited } q) ∨
    (member.isRef = false ∧ Opens cfg target depth member base p q) := by
  by_cases isRef : member.isRef = true
  · by_cases seen : Reference.qualify member.ref base ∈ p.visited
    · rw [flatten_seen isRef seen] at run
      cases run
      exact .inl ⟨isRef, seen, rfl⟩
    · rw [flatten_followed cfg target isRef seen] at run
      obtain ⟨f, resolved, run⟩ := except_bind_ok.mp run
      exact .inr (.inl ⟨isRef, seen, f, fragment_of_resolve resolved, opens_of_openWith run⟩)
  · have isRef : member.isRef = false := by simpa using isRef
    rw [flatten_plain isRef] at run
    exact .inr (.inr ⟨isRef, opens_of_openWith run⟩)

theorem Opens.collects {depth : Nat} {member : Fragment} {base : String} {p q : Pieces}
    (each : ∀ p inner q, flatten cfg target depth inner base p = .ok q →
      Collects cfg target p q ∧ Covered target q inner base)
    (opens : Opens cfg target depth member base p q) :
    Collects cfg target p q ∧ ∃ piece ∈ q.found,
      qualifyRefs (remainder member) base target = .ok piece ∧
        ∀ inner ∈ member.allOf, Covered target q inner base := by
  obtain ⟨m, piece, nested, qualified, rfl⟩ := opens
  obtain ⟨collects, all⟩ := collects_foldlM each nested
  have last : Collects cfg target m { m with found := m.found ++ [piece] } := by
    refine ⟨⟨fun _ member => List.mem_append_left _ member, fun _ member => member⟩, ?_⟩
    exact fun _ member => .inl member
  refine ⟨collects.trans last, piece, by simp, qualified, ?_⟩
  exact fun inner inside => (all inner inside).mono last.within

theorem flatten_collects {depth : Nat} {member : Fragment} {base : String} {p q : Pieces}
    (run : flatten cfg target depth member base p = .ok q) :
    Collects cfg target p q ∧ Covered target q member base := by
  induction depth generalizing member base p q with
  | zero => cases run
  | succ depth ih =>
    rcases flatten_cases run with ⟨isRef, seen, rfl⟩ | ⟨isRef, _, f, resolved, opens⟩ | ⟨isRef, opens⟩
    · exact ⟨.refl cfg target q, .ref isRef seen⟩
    · obtain ⟨collects, piece, found, qualified, nested⟩ := opens.collects (fun _ _ _ run => ih run)
      refine ⟨⟨⟨collects.within.found, ?_⟩, ?_⟩, .ref isRef ?_⟩
      · exact fun ref inside => collects.within.visited ref (List.mem_cons_of_mem _ inside)
      · intro ref inside
        rcases collects.opened ref inside with earlier | later
        · rcases List.mem_cons.mp earlier with rfl | older
          · exact .inr ⟨f, piece, resolved, found, qualified, nested⟩
          · exact .inl older
        · exact .inr later
      · exact collects.within.visited _ List.mem_cons_self
    · obtain ⟨collects, piece, found, qualified, nested⟩ := opens.collects (fun _ _ _ run => ih run)
      exact ⟨collects, .plain isRef found qualified nested⟩

/-- Everything that the members lead to is accounted for at the end. -/
theorem gather_covers {depth : Nat} {members : List Fragment} {base : String} {p : Pieces}
    (run : gather cfg depth members base = .ok p) :
    (∀ member ∈ members, Covered base p member base) ∧ ∀ ref ∈ p.visited, Opened cfg base p ref := by
  obtain ⟨collects, all⟩ := collects_foldlM (fun _ _ _ one => flatten_collects one) run
  refine ⟨all, ?_⟩
  intro ref member
  rcases collects.opened ref member with earlier | opened
  · cases earlier
  · exact opened

end

end Typesmith.Model
