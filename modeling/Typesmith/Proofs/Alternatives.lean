import Typesmith.Proofs.Choices
import Typesmith.Proofs.Completeness
import Typesmith.Proofs.Unrolling

namespace Typesmith.Model

open Fragment

/-- The fragments that are merged for an `allOf`, with the places they are read at: what the members stand
for, and what the members of their own `allOf` stand for. -/
inductive Joins (cfg : Setting) (members : List Fragment) (base : String) : Fragment × String → Prop
  | member {member : Fragment} {x : Fragment × String} (inside : member ∈ members)
      (stands : standsFor? cfg (member, base) = some x) : Joins cfg members base x
  | nested {outer x : Fragment × String} {member : Fragment} (around : Joins cfg members base outer)
      (inside : member ∈ outer.1.allOf) (stands : standsFor? cfg (member, outer.2) = some x) :
      Joins cfg members base x

variable {cfg : Setting} {members : List Fragment} {base target : String} {p q : Pieces}
  {x : Fragment × String}

section standing

variable {member f : Fragment}

theorem standsFor?_own (isRef : member.isRef = false) :
    standsFor? cfg (member, base) = some (member, base) := by
  simp [standsFor?, named?, isRef]

theorem standsFor?_named (isRef : member.isRef = true)
    (resolved : cfg.resolver.fragment (Reference.qualify member.ref base) = .ok f) :
    standsFor? cfg (member, base) = some (f, Reference.qualify member.ref base) := by
  simp [standsFor?, named?, isRef, resolved, Except.toOption]

theorem Covered.piece (covered : Covered target p member base)
    (opened : ∀ ref ∈ p.visited, Opened cfg target p ref) (stands : standsFor? cfg (member, base) = some x) :
    ∃ piece ∈ p.found, qualifyRefs (remainder x.1) x.2 target = .ok piece ∧
      ∀ inner ∈ x.1.allOf, Covered target p inner x.2 := by
  cases covered with
  | ref isRef followed =>
    obtain ⟨f, piece, resolved, found, qualified, nested⟩ := opened _ followed
    rw [standsFor?_named isRef resolved, Option.some.injEq] at stands
    subst stands
    exact ⟨piece, found, qualified, nested⟩
  | @plain _ piece _ isRef found qualified nested =>
    rw [standsFor?_own isRef, Option.some.injEq] at stands
    subst stands
    exact ⟨piece, found, qualified, nested⟩

theorem Joins.piece (all : ∀ member ∈ members, Covered base p member base)
    (opened : ∀ ref ∈ p.visited, Opened cfg base p ref) (joins : Joins cfg members base x) :
    ∃ piece ∈ p.found, qualifyRefs (remainder x.1) x.2 base = .ok piece ∧
      ∀ inner ∈ x.1.allOf, Covered base p inner x.2 := by
  induction joins with
  | member inside stands => exact (all _ inside).piece opened stands
  | nested _ inside stands ih =>
    obtain ⟨_, _, _, covered⟩ := ih
    exact (covered _ inside).piece opened stands

def Stems (cfg : Setting) (members : List Fragment) (base : String) (p : Pieces) : Prop :=
  ∀ piece ∈ p.found, ∃ x, Joins cfg members base x ∧ qualifyRefs (remainder x.1) x.2 base = .ok piece

theorem Stems.flatten {depth : Nat} {place : String}
    (joins : ∀ x, standsFor? cfg (member, place) = some x → Joins cfg members base x)
    (run : flatten cfg base depth member place p = .ok q) (stems : Stems cfg members base p) :
    Stems cfg members base q := by
  induction depth generalizing member place p q with
  | zero => cases run
  | succ depth ih =>
    have opening : ∀ f place (p : Pieces), Joins cfg members base (f, place) → Stems cfg members base p →
        Opens cfg base depth f place p q → Stems cfg members base q := by
      rintro f place p around stems ⟨m, piece, nested, qualified, rfl⟩
      have inner : Stems cfg members base m :=
        foldlM_ok_keeps (Stems cfg members base) (fun _ _ _ inside one stems =>
          ih (fun x stands => .nested around inside stands) one stems) nested stems
      intro other found
      rcases List.mem_append.mp found with earlier | last
      · exact inner other earlier
      · rw [List.mem_singleton.mp last]
        exact ⟨(f, place), around, qualified⟩
    rcases flatten_cases run with ⟨_, _, rfl⟩ | ⟨isRef, _, f, resolved, opens⟩ | ⟨isRef, opens⟩
    · exact stems
    · refine opening f _ _ (joins _ (standsFor?_named isRef resolved)) ?_ opens
      exact stems
    · exact opening member place p (joins _ (standsFor?_own isRef)) stems opens

theorem gather_stems {depth : Nat} (run : gather cfg depth members base = .ok p) :
    Stems cfg members base p := by
  refine foldlM_ok_keeps (Stems cfg members base) ?_ run (fun _ inside => by cases inside)
  intro p member q inside one stems
  exact stems.flatten (fun x stands => .member inside stands) one

end standing

section choices

variable {b : Branch} {f g piece : Fragment} {source : String}

theorem choices_commonPart (f : Fragment) : b.choices f.commonPart = [] := by
  cases b <;> rfl

theorem choices_remainder (f : Fragment) :
    b.choices (remainder f) = if f.allOf = [] then b.choices f else [] := by
  unfold remainder
  by_cases alone : f.allOf = []
  · simp [alone]
  · simp [alone, choices_commonPart]

theorem unmistakable_remainder (unmistakable : UnmistakableFor b f) : UnmistakableFor b (remainder f) := by
  unfold UnmistakableFor
  rw [(remainder_eq f).1]
  exact unmistakable

variable (alternative : b ∈ [Branch.oneOf, .anyOf])
include alternative

theorem qualifyRefs_choices (unmistakable : UnmistakableFor b f)
    (qualified : qualifyRefs f source target = .ok g) :
    List.Forall₂ (fun e moved => qualifyRefs e source target = .ok moved) (b.choices f) (b.choices g) ∧
      UnmistakableFor b g := by
  by_cases same : (Reference.parse source).locator = (Reference.parse target).locator
  · simp only [qualifyRefs, if_pos same] at qualified ⊢
    obtain rfl := Except.ok.inj qualified
    exact ⟨List.forall₂_same.mpr fun _ _ => rfl, unmistakable⟩
  · simp only [qualifyRefs, if_neg same] at qualified ⊢
    obtain ⟨moved, clear⟩ := mapRefs_choices alternative unmistakable (orFail_ok.mp qualified)
    exact ⟨(forall₂_of_mapM_some moved).imp fun _ _ one => orFail_ok.mpr one, clear⟩

/-- The one branch of an `allOf` lists what the merged fragments list, if they have no `allOf` of their own.
What it lists comes from nowhere else. -/
theorem allOf_alternatives {depth : Nat} {o : Options} {s t : Store} {branches : List Fragment}
    (unmistakable : ∀ x, Joins cfg members o.base x → UnmistakableFor b x.1) (own : UnmistakableFor b f)
    (run : Returns (branchFragments cfg depth .allOf f members o) s branches t) :
    ∃ m, branches = [m] ∧
      (∀ x, Joins cfg members o.base x → x.1.allOf = [] → ∀ e ∈ b.choices x.1,
        ∃ moved, qualifyRefs e x.2 o.base = .ok moved ∧ ∃ e' ∈ b.choices m, Restates moved e') ∧
      ∀ e' ∈ b.choices m, ∃ x, Joins cfg members o.base x ∧ x.1.allOf = [] ∧ ∃ e ∈ b.choices x.1,
        ∃ moved, qualifyRefs e x.2 o.base = .ok moved ∧ moved.reread? = some e' := by
  obtain ⟨⟨p, merged, gathered, joined, rfl⟩, _⟩ := branchFragments_allOf run
  obtain ⟨all, opened⟩ := gather_covers gathered
  have stems := gather_stems gathered
  have choices : b.choices (untitled merged) = b.choices merged := by cases b <;> rfl
  -- the common part is without combinators, so the parent brings no alternatives
  have parent : b.choices (untitled f.commonPart) = [] := by cases b <;> rfl
  have parts : ∀ part ∈ p.found ++ [untitled f.commonPart], UnmistakableFor b part := by
    intro part inside
    rcases List.mem_append.mp inside with found | last
    · obtain ⟨x, joins, qualified⟩ := stems part found
      exact (qualifyRefs_choices alternative (unmistakable_remainder (unmistakable x joins)) qualified).2
    · rw [List.mem_singleton.mp last]
      exact own
  obtain ⟨kept, sources⟩ := merge_choices alternative parts joined
  refine ⟨untitled merged, rfl, fun x joins alone e listed => ?_, fun e' inside => ?_⟩
  · obtain ⟨piece, found, qualified, _⟩ := joins.piece all opened
    have pairs :=
      (qualifyRefs_choices alternative (unmistakable_remainder (unmistakable x joins)) qualified).1
    rw [choices_remainder, if_pos alone] at pairs
    obtain ⟨moved, member, moves⟩ := exists_of_forall₂ pairs.flip listed
    rw [choices]
    exact ⟨moved, moves, kept piece (List.mem_append_left _ found) moved member⟩
  · rw [choices] at inside
    obtain ⟨part, among, moved, listed, back⟩ := sources e' inside
    rcases List.mem_append.mp among with found | last
    · obtain ⟨x, joins, qualified⟩ := stems part found
      have pairs :=
        (qualifyRefs_choices alternative (unmistakable_remainder (unmistakable x joins)) qualified).1
      rw [choices_remainder] at pairs
      by_cases alone : x.1.allOf = []
      · rw [if_pos alone] at pairs
        obtain ⟨e, member, moves⟩ := exists_of_forall₂ pairs listed
        exact ⟨x, joins, alone, e, member, moved, moves, back⟩
      · rw [if_neg alone, List.forall₂_nil_left_iff] at pairs
        rw [pairs] at listed
        cases listed
    · rw [List.mem_singleton.mp last, parent] at listed
      cases listed

end choices

def boatyard : Setting where
  resolver :=
    { root := .obj [
        ("A", .obj [("allOf", .arr [.obj [("$ref", .str "#/B")]])]),
        ("B", .obj [("allOf", .arr [.obj [("oneOf", .arr [.obj [("type", .str "boolean")]])]])])] }

def boatyardChoice : Fragment :=
  { oneOf := [ofType "boolean"] }

def boatyardB : Fragment :=
  { allOf := [boatyardChoice] }

theorem boatyard_joins {x : Fragment × String} (joins : Joins boatyard [pointing "#/B"] "#/A" x) :
    x = (boatyardB, "#/B") ∨ x = (boatyardChoice, "#/B") := by
  induction joins with
  | member inside stands =>
    obtain rfl := List.mem_singleton.mp inside
    have known : standsFor? boatyard (pointing "#/B", "#/A") = some (boatyardB, "#/B") := rfl
    exact .inl (Option.some.inj (stands.symm.trans known))
  | nested _ inside stands ih =>
    rcases ih with rfl | rfl
    · obtain rfl := List.mem_singleton.mp inside
      have known : standsFor? boatyard (boatyardChoice, "#/B") = some (boatyardChoice, "#/B") := rfl
      exact .inr (Option.some.inj (stands.symm.trans known))
    · cases inside

theorem allOf_alternatives_boatyard :
    ∃ m t, Returns (branchFragments boatyard firstDepth .allOf { allOf := [pointing "#/B"] } [pointing "#/B"]
        { base := "#/A" }) {} [m] t ∧
      ∃ moved, qualifyRefs (ofType "boolean") "#/B" "#/A" = .ok moved ∧ ∃ e ∈ m.oneOf, Restates moved e := by
  have succeeds : ((exec (branchFragments boatyard firstDepth .allOf { allOf := [pointing "#/B"] }
      [pointing "#/B"] { base := "#/A" }) {}).1.toOption).isSome = true := by
    decide +kernel
  rcases run : exec (branchFragments boatyard firstDepth .allOf { allOf := [pointing "#/B"] }
    [pointing "#/B"] { base := "#/A" }) {} with ⟨_ | branches, t⟩
  · rw [run] at succeeds
    cases succeeds
  have clear : ∀ x, Joins boatyard [pointing "#/B"] "#/A" x → UnmistakableFor .oneOf x.1 := by
    intro x joins kv unknown
    rcases boatyard_joins joins with rfl | rfl <;> cases unknown
  obtain ⟨m, rfl, kept, _⟩ := allOf_alternatives (by decide) clear (fun _ unknown => by cases unknown) run
  have outer : Joins boatyard [pointing "#/B"] "#/A" (boatyardB, "#/B") :=
    .member (List.mem_singleton_self _) rfl
  have inner : Joins boatyard [pointing "#/B"] "#/A" (boatyardChoice, "#/B") :=
    .nested outer (List.mem_singleton_self boatyardChoice) rfl
  exact ⟨m, t, run, kept _ inner rfl (ofType "boolean") (by simp [Branch.choices, boatyardChoice])⟩

def riven : Fragment :=
  { allOf := [ofType "object"], oneOf := [single "x", single "y"] }

/-- The alternatives beside an inner `allOf` are lost. -/
theorem allOf_alternatives_lost :
    Joins boatyard [riven] "#/A" (riven, "#/A") ∧ riven.oneOf ≠ [] ∧
    ∃ m t, Returns (branchFragments boatyard firstDepth .allOf { allOf := [riven] } [riven]
        { base := "#/A" }) {} [m] t ∧ m.oneOf = [] := by
  refine ⟨.member (List.mem_singleton_self _) rfl, by simp [riven], ?_⟩
  have branch : ((exec (branchFragments boatyard firstDepth .allOf { allOf := [riven] } [riven]
      { base := "#/A" }) {}).1.toOption.map fun bs => bs.map fun m => m.oneOf.length) = some [0] := by
    decide +kernel
  rcases run : exec (branchFragments boatyard firstDepth .allOf { allOf := [riven] } [riven]
    { base := "#/A" }) {} with ⟨_ | branches, t⟩
  · rw [run] at branch
    cases branch
  simp only [run, Except.toOption, Option.map_some, Option.some.injEq, List.map_eq_singleton_iff,
    List.length_eq_zero_iff] at branch
  obtain ⟨m, rfl, nothing⟩ := branch
  exact ⟨m, t, run, nothing⟩

end Typesmith.Model
