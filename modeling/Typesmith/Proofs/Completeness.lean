import Typesmith.Proofs.Declaring
import Typesmith.Proofs.Gathering
import Typesmith.Proofs.Step

namespace Typesmith.Model

open Fragment
open Json (keys)

/-- The fragments that the members of an `allOf` lead to, with the places they are read at: through
references, one after another, and into nested `allOf`. -/
inductive Reached (cfg : Setting) (members : List Fragment) (base : String) : Fragment → String → Prop
  | member {g : Fragment} (inside : g ∈ members) : Reached cfg members base g base
  | followed {g h : Fragment} {place : String} (reached : Reached cfg members base g place)
      (isRef : g.isRef = true) (resolved : cfg.resolver.fragment (Reference.qualify g.ref place) = .ok h) :
      Reached cfg members base h (Reference.qualify g.ref place)
  | nested {g h : Fragment} {place : String} (reached : Reached cfg members base g place)
      (isRef : g.isRef = false) (inside : h ∈ g.allOf) : Reached cfg members base h place

/-- A reference never leads to another reference. -/
def Direct (cfg : Setting) (members : List Fragment) (base : String) : Prop :=
  ∀ g place h, Reached cfg members base g place → g.isRef = true →
    cfg.resolver.fragment (Reference.qualify g.ref place) = .ok h → h.isRef = false

structure Includes (m g : Fragment) : Prop where
  declared : ∀ name ∈ keys g.properties, name ∈ keys m.properties
  required : ∀ name ∈ g.keywords.required, name ∈ m.keywords.required

section

variable {cfg : Setting} {members : List Fragment} {base : String} {p : Pieces}

/-- Without references to references, whatever is reached is covered by the pieces. -/
theorem Reached.covered (direct : Direct cfg members base)
    (all : ∀ member ∈ members, Covered base p member base)
    (opened : ∀ ref ∈ p.visited, Opened cfg base p ref) {g : Fragment} {place : String}
    (reached : Reached cfg members base g place) : Covered base p g place := by
  induction reached with
  | member inside => exact all _ inside
  | @followed g h place reached isRef resolved ih =>
    cases ih with
    | plain other => simp [isRef] at other
    | ref _ followed =>
      obtain ⟨h', piece, resolved', found, qualified, nested⟩ := opened _ followed
      rw [resolved] at resolved'
      cases resolved'
      exact .plain (direct g place h reached isRef resolved) found qualified nested
  | nested _ isRef inside ih =>
    cases ih with
    | ref other => simp [isRef] at other
    | plain _ _ _ nested => exact nested _ inside

theorem remainder_eq (g : Fragment) : (remainder g).keywords = g.keywords ∧
    (remainder g).properties = g.properties := by
  unfold remainder
  split <;> exact ⟨rfl, rfl⟩

theorem qualifyRefs_keeps {g piece : Fragment} {source target : String} (plain : Plain g)
    (unmistakable : Unmistakable g) (qualified : qualifyRefs g source target = .ok piece) :
    Plain piece ∧ Unmistakable piece ∧ (∀ name, name ∈ keys piece.properties ↔ name ∈ keys g.properties) ∧
      piece.keywords.required = g.keywords.required ∧ (g.isRef = false → piece.isRef = false) := by
  unfold qualifyRefs at qualified
  split at qualified
  · cases qualified
    exact ⟨plain, unmistakable, fun _ => .rfl, rfl, id⟩
  · cases changed : g.mapRefs? fun ref => Reference.qualify ref source with
    | none =>
      rw [changed] at qualified
      cases qualified
    | some out =>
      rw [changed] at qualified
      cases qualified
      obtain ⟨names, required, clear, reference⟩ := mapRefs_names plain unmistakable changed
      exact ⟨fun name member => plain name ((names name).mp member), clear, names, required, reference⟩

theorem qualifyRefs_names {g piece : Fragment} {source target : String} (plain : Plain g)
    (unmistakable : Unmistakable g) (qualified : qualifyRefs (remainder g) source target = .ok piece) :
    Plain piece ∧ Unmistakable piece ∧ Includes piece g ∧ (g.isRef = false → piece.isRef = false) := by
  obtain ⟨keywords, properties⟩ := remainder_eq g
  have plain' : Plain (remainder g) := by rw [Plain, properties]; exact plain
  have unmistakable' : Unmistakable (remainder g) := by rw [Unmistakable, keywords]; exact unmistakable
  have isRef' : (remainder g).isRef = g.isRef := by rw [isRef, keywords, isRef]
  obtain ⟨clean, clear, names, required, reference⟩ := qualifyRefs_keeps plain' unmistakable' qualified
  refine ⟨clean, clear, ⟨?_, ?_⟩, fun none => reference (isRef'.trans none)⟩
  · intro name member
    rw [← properties] at member
    exact (names name).mpr member
  · rw [required, keywords]
    exact fun _ member => member

def Sourced (cfg : Setting) (members : List Fragment) (base : String) (p : Pieces) : Prop :=
  ∀ piece ∈ p.found, ∃ g place, Reached cfg members base g place ∧ g.isRef = false ∧
    qualifyRefs (remainder g) place base = .ok piece

theorem foldlM_ok_keeps {α β ε : Type} {one : β → α → Except ε β} {l : List α} (keep : β → Prop)
    (each : ∀ b x c, x ∈ l → one b x = .ok c → keep b → keep c) {b c : β}
    (run : l.foldlM one b = .ok c) (start : keep b) : keep c := by
  induction l generalizing b with
  | nil =>
    cases run
    exact start
  | cons x rest ih =>
    rw [List.foldlM_cons, except_bind_ok] at run
    obtain ⟨m, first, others⟩ := run
    exact ih (fun b y c inside => each b y c (List.mem_cons_of_mem _ inside)) others
      (each b x m List.mem_cons_self first start)

theorem flatten_sourced (direct : Direct cfg members base) {depth : Nat} {g : Fragment}
    {place : String} {q : Pieces} (reached : Reached cfg members base g place)
    (run : flatten cfg base depth g place p = .ok q) (sourced : Sourced cfg members base p) :
    Sourced cfg members base q := by
  induction depth generalizing g place p q with
  | zero => cases run
  | succ depth ih =>
    have opening : ∀ (h : Fragment) (place : String) (p : Pieces),
        Reached cfg members base h place → h.isRef = false → Sourced cfg members base p →
        Opens cfg base depth h place p q → Sourced cfg members base q := by
      rintro h place p reached isRef sourced ⟨m, piece, nested, qualified, rfl⟩
      have inner : Sourced cfg members base m :=
        foldlM_ok_keeps (Sourced cfg members base)
          (fun _ _ _ inside one sourced => ih (.nested reached isRef inside) one sourced) nested sourced
      intro other found
      rcases List.mem_append.mp found with earlier | last
      · exact inner other earlier
      · rw [List.mem_singleton.mp last]
        exact ⟨h, place, reached, isRef, qualified⟩
    rcases flatten_cases run with ⟨_, _, rfl⟩ | ⟨isRef, _, f, resolved, opens⟩ | ⟨isRef, opens⟩
    · exact sourced
    · refine opening f _ _ (.followed reached isRef resolved)
        (direct g place f reached isRef resolved) ?_ opens
      exact sourced
    · exact opening g place p reached isRef sourced opens

theorem gather_sourced (direct : Direct cfg members base) {depth : Nat}
    (run : gather cfg depth members base = .ok p) : Sourced cfg members base p := by
  refine foldlM_ok_keeps (Sourced cfg members base) ?_ run (fun _ member => by cases member)
  exact fun _ _ _ inside one sourced => flatten_sourced direct (.member inside) one sourced

/-- The branch of an `allOf` is no reference, and declares and requires whatever the fragment itself
or anything that its members lead to declares and requires. -/
theorem allOf_complete {depth : Nat} {f : Fragment} {o : Options} {s t : Store}
    {branches : List Fragment} (isRef : f.isRef = false) (direct : Direct cfg members o.base)
    (plain : ∀ g place, g = f ∨ Reached cfg members o.base g place → Plain g)
    (unmistakable : ∀ g place, g = f ∨ Reached cfg members o.base g place → Unmistakable g)
    (run : Returns (branchFragments cfg depth .allOf f members o) s branches t) :
    ∃ m, branches = [m] ∧ m.isRef = false ∧ Includes m f ∧
      ∀ g place, Reached cfg members o.base g place → g.isRef = false → Includes m g := by
  obtain ⟨⟨p, merged, gathered, joined, rfl⟩, _⟩ := branchFragments_allOf run
  obtain ⟨all, opened⟩ := gather_covers gathered
  have sourced := gather_sourced direct gathered
  have parts : ∀ part ∈ p.found ++ [untitled f.commonPart],
      Plain part ∧ Unmistakable part ∧ part.isRef = false := by
    intro part member
    rcases List.mem_append.mp member with found | last
    · obtain ⟨g, place, reached, none, qualified⟩ := sourced part found
      obtain ⟨plain', unmistakable', _, isRef'⟩ := qualifyRefs_names (plain g place (.inr reached))
        (unmistakable g place (.inr reached)) qualified
      exact ⟨plain', unmistakable', isRef' none⟩
    · rw [List.mem_singleton.mp last]
      exact ⟨plain f "" (.inl rfl), unmistakable f "" (.inl rfl), isRef⟩
  obtain ⟨names, required, reference⟩ := merge_names (fun part member => (parts part member).1)
    (fun part member => (parts part member).2.1) joined
  -- whatever a part of the merge says, the merge says
  have includes : ∀ part ∈ p.found ++ [untitled f.commonPart], Includes (untitled merged) part :=
    fun part member => ⟨fun name declared => (names name).mpr ⟨part, member, declared⟩,
      required part member⟩
  refine ⟨untitled merged, rfl, reference (fun part member => (parts part member).2.2), ?_, ?_⟩
  · have common := includes (untitled f.commonPart) (by simp)
    exact ⟨common.declared, common.required⟩
  · intro g place reached none
    cases reached.covered direct all opened with
    | ref other => simp [none] at other
    | plain _ found qualified _ =>
      obtain ⟨_, _, within, _⟩ := qualifyRefs_names (plain g place (.inr reached))
        (unmistakable g place (.inr reached)) qualified
      have outer := includes _ (List.mem_append_left _ found)
      exact ⟨fun name declared => outer.declared name (within.declared name declared),
        fun name listed => outer.required name (within.required name listed)⟩

end

def pointing (ref : String) : Fragment :=
  { keywords := { ref := some ref } }

def single (name : String) : Fragment :=
  { properties := [(name, {})] }

def intertwined : Setting where
  resolver :=
    { root := .obj [
        ("A", .obj [("allOf", .arr [.obj [("$ref", .str "#/B")],
          .obj [("properties", .obj [("x", .obj [])])]])]),
        ("B", .obj [("allOf", .arr [.obj [("$ref", .str "#/A")]]),
          ("properties", .obj [("y", .obj [])]), ("required", .arr [.str "y"])])] }

def intertwinedA : Fragment :=
  { allOf := [pointing "#/B", single "x"] }

def intertwinedB : Fragment :=
  { keywords := { required := ["y"] }, allOf := [pointing "#/A"], properties := [("y", {})] }

theorem intertwined_resolve : intertwined.resolver.fragment "#/A" = .ok intertwinedA ∧
    intertwined.resolver.fragment "#/B" = .ok intertwinedB :=
  ⟨rfl, rfl⟩

theorem intertwined_reached {g : Fragment} {place : String}
    (reached : Reached intertwined intertwinedA.allOf "#/A" g place) :
    (g = pointing "#/B" ∧ place = "#/A") ∨ (g = single "x" ∧ place = "#/A") ∨
      (g = intertwinedB ∧ place = "#/B") ∨ (g = pointing "#/A" ∧ place = "#/B") ∨
      (g = intertwinedA ∧ place = "#/A") := by
  induction reached with
  | member inside =>
    simp only [intertwinedA, List.mem_cons, List.not_mem_nil, or_false] at inside
    rcases inside with rfl | rfl
    · exact .inl ⟨rfl, rfl⟩
    · exact .inr (.inl ⟨rfl, rfl⟩)
  | followed _ isRef resolved ih =>
    rcases ih with ⟨rfl, rfl⟩ | ⟨rfl, rfl⟩ | ⟨rfl, rfl⟩ | ⟨rfl, rfl⟩ | ⟨rfl, rfl⟩
    · have place : Reference.qualify (pointing "#/B").ref "#/A" = "#/B" := by decide
      rw [place, intertwined_resolve.2] at resolved
      cases resolved
      exact .inr (.inr (.inl ⟨rfl, place⟩))
    · cases isRef
    · cases isRef
    · have place : Reference.qualify (pointing "#/A").ref "#/B" = "#/A" := by decide
      rw [place, intertwined_resolve.1] at resolved
      cases resolved
      exact .inr (.inr (.inr (.inr ⟨rfl, place⟩)))
    · cases isRef
  | nested _ isRef inside ih =>
    rcases ih with ⟨rfl, rfl⟩ | ⟨rfl, rfl⟩ | ⟨rfl, rfl⟩ | ⟨rfl, rfl⟩ | ⟨rfl, rfl⟩
    · cases isRef
    · cases inside
    · simp only [intertwinedB, List.mem_cons, List.not_mem_nil, or_false] at inside
      exact .inr (.inr (.inr (.inl ⟨inside, rfl⟩)))
    · cases isRef
    · simp only [intertwinedA, List.mem_cons, List.not_mem_nil, or_false] at inside
      rcases inside with rfl | rfl
      · exact .inl ⟨rfl, rfl⟩
      · exact .inr (.inl ⟨rfl, rfl⟩)

theorem intertwined_direct : Direct intertwined intertwinedA.allOf "#/A" := by
  intro g place h reached isRef resolved
  rcases intertwined_reached reached with ⟨rfl, rfl⟩ | ⟨rfl, rfl⟩ | ⟨rfl, rfl⟩ | ⟨rfl, rfl⟩ | ⟨rfl, rfl⟩
  · have place : Reference.qualify (pointing "#/B").ref "#/A" = "#/B" := by decide
    rw [place, intertwined_resolve.2] at resolved
    cases resolved
    rfl
  · cases isRef
  · cases isRef
  · have place : Reference.qualify (pointing "#/A").ref "#/B" = "#/A" := by decide
    rw [place, intertwined_resolve.1] at resolved
    cases resolved
    rfl
  · cases isRef

theorem allOf_complete_intertwined :
    ∃ m t, Returns (branchFragments intertwined firstDepth .allOf intertwinedA intertwinedA.allOf
        { base := "#/A" }) {} [m] t ∧
      m.isRef = false ∧ "x" ∈ keys m.properties ∧ "y" ∈ keys m.properties ∧
        "y" ∈ m.keywords.required := by
  have succeeds : ((exec (branchFragments intertwined firstDepth .allOf intertwinedA
      intertwinedA.allOf { base := "#/A" }) {}).1.toOption).isSome = true := by
    decide +kernel
  rcases run : exec (branchFragments intertwined firstDepth .allOf intertwinedA
    intertwinedA.allOf { base := "#/A" }) {} with ⟨_ | branches, t⟩
  · rw [run] at succeeds
    cases succeeds
  have known : ∀ g place, g = intertwinedA ∨ Reached intertwined intertwinedA.allOf "#/A" g place →
      Plain g ∧ Unmistakable g := by
    rintro g place (rfl | reached)
    · exact ⟨by unfold Plain; decide, by unfold Unmistakable; simp [intertwinedA]⟩
    · rcases intertwined_reached reached with
        ⟨rfl, _⟩ | ⟨rfl, _⟩ | ⟨rfl, _⟩ | ⟨rfl, _⟩ | ⟨rfl, _⟩
      all_goals
        exact ⟨by unfold Plain; decide, by simp [Unmistakable, pointing, single, intertwinedA, intertwinedB]⟩
  obtain ⟨m, rfl, isRef, _, includes⟩ := allOf_complete rfl intertwined_direct
    (fun g place among => (known g place among).1) (fun g place among => (known g place among).2) run
  have toB : Reached intertwined intertwinedA.allOf "#/A" (pointing "#/B") "#/A" :=
    .member List.mem_cons_self
  have place : Reference.qualify (pointing "#/B").ref "#/A" = "#/B" := by decide
  have atB := includes intertwinedB _ (.followed toB rfl (by rw [place]; exact intertwined_resolve.2)) rfl
  have atX := includes (single "x") "#/A" (.member (by simp [intertwinedA])) rfl
  exact ⟨m, t, run, isRef, atX.declared "x" (by decide), atB.declared "y" (by decide),
    atB.required "y" (by decide)⟩

def chained : Setting where
  resolver :=
    { root := .obj [
        ("A", .obj [("allOf", .arr [.obj [("$ref", .str "#/B")],
          .obj [("properties", .obj [("x", .obj [])])]])]),
        ("B", .obj [("$ref", .str "#/C")]),
        ("C", .obj [("properties", .obj [("y", .obj [])])])] }

/-- A reference to a reference takes the place of everything else in the branch: the fragment that is
converted is the last one alone. -/
theorem allOf_incomplete_chained :
    chained.resolver.fragment "#/A" = .ok intertwinedA ∧
    Reached chained intertwinedA.allOf "#/A" (single "x") "#/A" ∧
    ∃ m t, Returns (branchFragments chained firstDepth .allOf intertwinedA intertwinedA.allOf
        { base := "#/A" }) {} [m] t ∧
      m.isRef = true ∧ chained.resolver.fragment (Reference.qualify m.ref "#/A") = .ok (single "y") ∧
      "x" ∉ keys (single "y").properties := by
  have branch : ((exec (branchFragments chained firstDepth .allOf intertwinedA
      intertwinedA.allOf { base := "#/A" }) {}).1.toOption.map fun bs => bs.map fun m =>
        (m.isRef, m.ref)) = some [(true, "#/C")] := by
    decide +kernel
  refine ⟨rfl, .member (by simp [intertwinedA]), ?_⟩
  rcases run : exec (branchFragments chained firstDepth .allOf intertwinedA
    intertwinedA.allOf { base := "#/A" }) {} with ⟨_ | branches, t⟩
  · rw [run] at branch
    cases branch
  simp only [run, Except.toOption, Option.map_some, Option.some.injEq, List.map_eq_singleton_iff,
    Prod.mk.injEq] at branch
  obtain ⟨m, rfl, isRef, ref⟩ := branch
  refine ⟨m, t, run, isRef, ?_, by decide⟩
  rw [ref]
  rfl

end Typesmith.Model
