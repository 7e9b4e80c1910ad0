import Typesmith.Proofs.Step

namespace Typesmith.Model

namespace Store

theorem get?_push (s : Store) (d : Descriptor) (i : Id) :
    (s.push d).2.get? i = if i = s.descriptors.size then some d else s.get? i := by
  simp only [get?, push, Array.getElem?_push]

theorem get?_lt {s : Store} {i : Id} {d : Descriptor} (found : s.get? i = some d) :
    i < s.descriptors.size := by
  obtain ⟨inside, _⟩ := Array.getElem?_eq_some_iff.mp found
  exact inside

theorem get?_setShape (s : Store) (id i : Id) (shape : Shape) :
    (s.setShape id shape).get? i =
      if i = id then (s.get? i).map fun d => { d with shape } else s.get? i := by
  simp only [get?, setShape, Array.getElem?_modify, eq_comm]

@[simp] theorem size_push (s : Store) (d : Descriptor) :
    (s.push d).2.descriptors.size = s.descriptors.size + 1 := by
  simp [push]

@[simp] theorem size_setShape (s : Store) (id : Id) (shape : Shape) :
    (s.setShape id shape).descriptors.size = s.descriptors.size := by
  simp [setShape]

@[simp] theorem index_push (s : Store) (d : Descriptor) : (s.push d).2.index = s.index := rfl

@[simp] theorem index_setShape (s : Store) (id : Id) (shape : Shape) :
    (s.setShape id shape).index = s.index := rfl

@[simp] theorem names_push (s : Store) (d : Descriptor) : (s.push d).2.names = s.names := rfl

@[simp] theorem names_setShape (s : Store) (id : Id) (shape : Shape) :
    (s.setShape id shape).names = s.names := rfl

@[simp] theorem descriptors_register (s : Store) (ref : String) (c : Container) :
    (s.register ref c).descriptors = s.descriptors := by
  unfold register
  split <;> rfl

@[simp] theorem names_register (s : Store) (ref : String) (c : Container) :
    (s.register ref c).names = s.names := by
  unfold register
  split <;> rfl

@[simp] theorem warnings_register (s : Store) (ref : String) (c : Container) :
    (s.register ref c).warnings = s.warnings := by
  unfold register
  split <;> rfl

theorem register_empty (s : Store) (c : Container) : s.register "" c = s := rfl

theorem index_register {s : Store} {ref : String} (c : Container) (named : ref ≠ "") :
    (s.register ref c).index = (ref, c) :: s.index := by
  simp only [register, if_neg named]

theorem lookup?_register {s : Store} {ref : String} (c : Container) (named : ref ≠ "")
    (other : String) :
    (s.register ref c).lookup? other = if other = ref then some c else s.lookup? other := by
  simp only [lookup?, index_register c named, List.lookup_cons]
  by_cases same : other = ref
  · simp [same]
  · simp [same, beq_eq_false_iff_ne.mpr same]

theorem suffix_register (s : Store) (ref : String) (c : Container) :
    s.index <:+ (s.register ref c).index := by
  by_cases empty : ref = ""
  · simp only [empty, register_empty, List.suffix_rfl]
  · rw [index_register c empty]
    exact List.suffix_cons _ _

end Store

/-- The second store has all that the first has: the entries of its index in front of which others
may stand, its names, its descriptors at their places, and its warnings. -/
structure Grows (s t : Store) : Prop where
  log : s.index <:+ t.index
  names : s.names.Extends t.names
  size : s.descriptors.size ≤ t.descriptors.size
  kept : ∀ i, i < s.descriptors.size → t.get? i = s.get? i
  warnings : s.warnings <+: t.warnings

theorem Grows.refl (s : Store) : Grows s s :=
  ⟨List.suffix_rfl, .refl _, Nat.le_refl _, fun _ _ => rfl, List.prefix_rfl⟩

theorem Grows.trans {s t u : Store} (first : Grows s t) (second : Grows t u) : Grows s u := by
  refine ⟨first.log.trans second.log, first.names.trans second.names,
    Nat.le_trans first.size second.size, ?_, first.warnings.trans second.warnings⟩
  intro i inside
  rw [second.kept i (Nat.lt_of_lt_of_le inside first.size), first.kept i inside]

theorem Quiet.grows {s t : Store} (quiet : Quiet s t) : Grows s t := by
  refine ⟨quiet.index ▸ List.suffix_rfl, quiet.names, Nat.le_of_eq (by rw [quiet.descriptors]), ?_,
    quiet.warnings⟩
  intro i _
  simp only [Store.get?, quiet.descriptors]

theorem Grows.register {s t : Store} (grows : Grows s t) (ref : String) (c : Container) :
    Grows s (t.register ref c) := by
  refine ⟨grows.log.trans (t.suffix_register ref c), by simpa using grows.names,
    by simpa using grows.size, ?_, by simpa using grows.warnings⟩
  intro i inside
  have same : (t.register ref c).get? i = t.get? i := by simp [Store.get?]
  rw [same, grows.kept i inside]

theorem Grows.push {s t : Store} (grows : Grows s t) (d : Descriptor) : Grows s (t.push d).2 := by
  have size := grows.size
  refine ⟨grows.log, grows.names, by simp; omega, ?_, grows.warnings⟩
  intro i inside
  have other : i ≠ t.descriptors.size := Nat.ne_of_lt (Nat.lt_of_lt_of_le inside size)
  rw [Store.get?_push, if_neg other, grows.kept i inside]

theorem Grows.setShape {s t : Store} (grows : Grows s t) {id : Id}
    (later : s.descriptors.size ≤ id) (shape : Shape) : Grows s (t.setShape id shape) := by
  refine ⟨grows.log, grows.names, by simpa using grows.size, ?_, grows.warnings⟩
  intro i inside
  have other : i ≠ id := Nat.ne_of_lt (Nat.lt_of_lt_of_le inside later)
  rw [Store.get?_setShape, if_neg other, grows.kept i inside]

theorem grows_claimed (d : Descriptor) (nullable : Bool) (s : Store) :
    Grows s (claimed d nullable s) := by
  unfold claimed
  split
  · exact (((Grows.refl s).push _).push _).register _ _
  · exact ((Grows.refl s).push _).register _ _

theorem get?_register (s : Store) (ref : String) (c : Container) (i : Id) :
    (s.register ref c).get? i = s.get? i := by
  simp only [Store.get?, Store.descriptors_register]

theorem get?_claimed (d : Descriptor) (nullable : Bool) (s : Store) :
    (claimed d nullable s).get? s.descriptors.size = some { d with nullable } := by
  unfold claimed
  rw [get?_register]
  have made : (s.push { d with nullable }).2.get? s.descriptors.size = some { d with nullable } := by
    rw [Store.get?_push, if_pos rfl]
  split
  · rw [Store.get?_push, if_neg (by rw [Store.size_push]; exact Nat.ne_of_lt (Nat.lt_succ_self _)), made]
  · exact made

theorem get?_claimed_null (d : Descriptor) (s : Store) :
    (claimed d true s).get? (s.descriptors.size + 1) = some nullDescriptor := by
  unfold claimed
  rw [get?_register, if_pos rfl, Store.get?_push, if_pos (Store.size_push s _).symm]

theorem size_claimed (d : Descriptor) (nullable : Bool) (s : Store) :
    (claimed d nullable s).descriptors.size = s.descriptors.size + if nullable then 2 else 1 := by
  simp only [claimed, Store.descriptors_register]
  cases nullable <;> simp [Store.push]

/-- A descriptor may have changed its shape, and a descriptor for any value may be new. -/
inductive Touches (id : Id) (s : Store) : Store → Prop
  | nothing : Touches id s s
  | shape (shape : Shape) : Touches id s (s.setShape id shape)
  | any (shape : Shape) : Touches id s ((s.push anyDescriptor).2.setShape id shape)

theorem Touches.index {id : Id} {s t : Store} (touches : Touches id s t) : t.index = s.index := by
  cases touches <;> rfl

theorem noted_touches (kind : Kind) (f : Fragment) (id : Id) (cs : List Container) (s : Store) :
    Touches id s (noted kind f id cs s) := by
  unfold noted
  split
  · exact .shape _
  · exact .shape _
  · exact .shape _
  · exact .nothing

theorem finished_touches (kind : Kind) (f : Fragment) (id : Id) (cs : List Container) (s : Store) :
    Touches id s (finished kind f id cs s) := by
  unfold finished
  split
  · split
    · exact .shape _
    · exact .shape _
    · split
      · exact .any _
      · exact .shape _
  · exact .nothing

theorem Grows.touches {s t u : Store} (grows : Grows s t) {id : Id}
    (later : s.descriptors.size ≤ id) (touches : Touches id t u) : Grows s u := by
  cases touches with
  | nothing => exact grows
  | shape shape => exact grows.setShape later shape
  | any shape => exact (grows.push _).setShape later shape

theorem Each.keeps {R : Converts} {base : String} {note : List Container → Store → Store}
    {gs : List Fragment} {cs out : List Container} {s t : Store}
    (each : Each R base note gs cs s out t) (keep : Store → Prop)
    (inside : ∀ g hint s c t, R g { suggested := hint, base } s c t → keep s → keep t)
    (told : ∀ cs s, keep s → keep (note cs s)) (start : keep s) : keep t := by
  induction each with
  | done => exact start
  | part first _ ih => exact ih (told _ _ (inside _ _ _ _ _ first start))

section

variable {cfg : Setting} {s t : Store}

theorem quiet_claim {owner name : String} {names : Registry}
    (given : s.names.claim owner (Naming.modelName (Reference.parse owner).lastSegment) = (name, names)) :
    Quiet s { s with names } := by
  have extended := s.names.claim_extends
    (Naming.modelName_legal (Reference.parse owner).lastSegment) fun _ => rfl
  rw [given] at extended
  exact ⟨rfl, rfl, extended, List.prefix_rfl⟩

theorem grows_sideBySide (nullable : Bool) (cs : List Container) (s : Store) :
    Grows s (sideBySide nullable cs s).2 := by
  unfold sideBySide
  split
  · exact (Grows.refl s).push _
  · exact .refl s

theorem Each.grows {R : Converts} {base : String} {note : List Container → Store → Store}
    {gs : List Fragment} {cs out : List Container} {start : Store} {id : Id}
    (each : Each R base note gs cs s out t) (inside : ∀ g o s c t, R g o s c t → Grows s t)
    (told : ∀ cs t, Touches id t (note cs t)) (later : start.descriptors.size ≤ id)
    (grows : Grows start s) : Grows start t :=
  each.keeps (Grows start) (fun _ _ _ _ _ one before => before.trans (inside _ _ _ _ _ one))
    (fun cs t before => before.touches later (told cs t)) grows

theorem Finds.grows {R : Converts} {ref : String} {c : Container} (found : Finds cfg R ref s c t)
    (inside : ∀ g o s c t, R g o s c t → Grows s t) : Grows s t := by
  cases found with
  | known => exact .refl _
  | replaced _ _ given _ =>
    exact (quiet_claim given).grows.trans (grows_claimed _ _ _)
  | converted _ _ given _ one =>
    exact (quiet_claim given).grows.trans (inside _ _ _ _ _ one)

theorem Step.grows {R : Converts} {f : Fragment} {o : Options} {c : Container}
    (step : Step cfg R f o s c t) (inside : ∀ g o s c t, R g o s c t → Grows s t) : Grows s t := by
  cases step with
  | ref _ found => exact (found.grows inside).register _ _
  | union _ _ _ one => exact inside _ _ _ _ _ one
  | types _ _ _ each =>
    have parts := each.grows inside (fun _ t => (Touches.nothing : Touches s.descriptors.size t t))
      (Nat.le_refl _) (.refl s)
    exact (parts.trans (grows_sideBySide _ _ _)).register _ _
  | node _ _ _ built =>
    obtain ⟨_, quiet, _, each⟩ := built
    have parts := each.grows inside (fun cs t => noted_touches _ _ _ cs t)
      (Nat.le_refl _) (grows_claimed _ _ _)
    exact quiet.grows.trans (parts.touches (Nat.le_refl _) (finished_touches _ _ _ _ _))

theorem convertDepth_grows {depth : Nat} {f : Fragment} {o : Options} {c : Container}
    (run : Returns (convertDepth cfg depth f o) s c t) : Grows s t :=
  convertDepth_keeps (P := fun _ _ s _ t => Grows s t)
    (fun _ _ _ _ _ step => step.grows fun _ _ _ _ _ one => one) run

end

end Typesmith.Model
