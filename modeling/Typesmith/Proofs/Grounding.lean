import Typesmith.Proofs.Retrying

namespace Typesmith.Model

variable {cfg : Setting} {s t : Store} {e : Failure}

def Spoils : Halts := fun _ o s _ t =>
  Grounded s → (o.ref ≠ "" → o.name ≠ "") → Grounded t

theorem Spoils.built {kind : Kind} {f : Fragment} {o : Options} {nullable : Bool}
    (built : BuiltStops cfg Grounds Spoils kind f o nullable s e t) (grounded : Grounded s)
    (entitled : o.ref ≠ "" → o.name ≠ "") : Grounded t := by
  have standing : ∀ start : Store,
      Standing start.descriptors.size kind (claimed (opening kind f o) nullable start) :=
    fun start => ⟨_, get?_claimed _ _ _, opening_kind _ _ _⟩
  cases built with
  | hollow => exact grounded
  | unprepared quiet _ each _ =>
    exact (Grounds.underway each ((grounded.of_quiet quiet).opened nullable entitled) (standing _)).1
  | inside quiet _ each _ last =>
    obtain ⟨middle, _⟩ :=
      Grounds.underway each ((grounded.of_quiet quiet).opened nullable entitled) (standing _)
    exact last middle fun owned => absurd rfl owned

theorem Spoils.finds {ref : String} (finds : FindsStops cfg Spoils ref s e t) (grounded : Grounded s) :
    Grounded t := by
  cases finds with
  | unresolved => exact grounded
  | @converted f name names _ _ absent resolved given kept inside =>
    have named := Registry.claim_ne_empty grounded.named (Reference.normalize ref)
      (Naming.modelName_ne_empty (Reference.parse (Reference.normalize ref)).lastSegment)
    rw [given] at named
    exact inside (grounded.of_quiet (quiet_claim given)) fun _ => named

theorem spoils_step {f : Fragment} {o : Options} (step : StepStops cfg Grounds Spoils f o s e t) :
    Spoils f o s e t := by
  intro grounded entitled
  cases step with
  | ref _ found => exact Spoils.finds found grounded
  | union _ _ _ inside => exact inside grounded entitled
  | types _ _ _ each _ last =>
    have middle := each.keeps Grounded
      (fun _ _ _ _ _ inside grounded => (inside.2 grounded fun owned => absurd rfl owned).1)
      (fun _ _ kept => kept) grounded
    exact last middle fun owned => absurd rfl owned
  | unwritten => exact grounded
  | node _ _ _ quiet built => exact Spoils.built built (grounded.of_quiet quiet) entitled

theorem convertDepth_spoils {depth : Nat} {f : Fragment} {o : Options}
    (failed : Throws (convertDepth cfg depth f o) s e t) : Spoils f o s e t :=
  convertDepth_stops (fun _ _ _ _ _ _ => convertDepth_grounds) (fun _ _ _ grounded _ => grounded)
    (fun _ _ _ _ _ => spoils_step) failed

theorem findOrCreate_spoils {ref : String} (failed : Throws (findOrCreate cfg ref) s e t) (ends : e ≠ .tooDeep)
    (grounded : Grounded s) : Grounded t :=
  Spoils.finds (findOrCreate_stops (fun _ _ _ _ _ _ => convertDepth_grounds) (fun _ _ _ grounded _ => grounded)
    (fun _ _ _ _ _ => spoils_step) failed ends) grounded

def Fills : Halts := fun _ _ s _ t =>
  Filled s → Filled t

theorem Each.filled {base : String} {note : List Container → Store → Store} {gs : List Fragment}
    {cs out : List Container} (each : Each Finishes base note gs cs s out t)
    (told : ∀ cs m, (note cs m).index = m.index) (filled : Filled s) : Filled t :=
  each.keeps Filled (fun _ _ _ _ _ inside filled => (inside.2 filled).1)
    (fun cs m filled => filled.of_index (told cs m)) filled

theorem Fills.built {kind : Kind} {f : Fragment} {o : Options} {nullable : Bool}
    (built : BuiltStops cfg Finishes Fills kind f o nullable s e t) (filled : Filled s) : Filled t := by
  have told : ∀ (id : Id) cs m, (noted kind f id cs m).index = m.index :=
    fun id cs m => (noted_touches kind f id cs m).index
  cases built with
  | hollow => exact filled
  | unprepared quiet _ each _ => exact each.filled (told _) ((filled.of_index quiet.index).claimed _ nullable)
  | inside quiet _ each _ last =>
    exact last (each.filled (told _) ((filled.of_index quiet.index).claimed _ nullable))

theorem fills_step {f : Fragment} {o : Options} (step : StepStops cfg Finishes Fills f o s e t) :
    Fills f o s e t := by
  intro filled
  cases step with
  | ref _ found =>
    cases found with
    | unresolved => exact filled
    | converted _ _ _ _ inside => exact inside filled
  | union _ _ _ inside => exact inside filled
  | types _ _ _ each _ last => exact last (each.filled (fun _ _ => rfl) filled)
  | unwritten => exact filled
  | node _ _ _ quiet built => exact Fills.built built (filled.of_index quiet.index)

theorem convertDepth_finishes {depth : Nat} {f : Fragment} {o : Options} {c : Container}
    (run : Returns (convertDepth cfg depth f o) s c t) : Finishes f o s c t :=
  convertDepth_keeps (fun _ _ _ _ _ => finishes_step) run

theorem convertDepth_fills {depth : Nat} {f : Fragment} {o : Options}
    (failed : Throws (convertDepth cfg depth f o) s e t) : Fills f o s e t :=
  convertDepth_stops (fun _ _ _ _ _ _ => convertDepth_finishes) (fun _ _ _ filled => filled)
    (fun _ _ _ _ _ => fills_step) failed

theorem findOrCreate_fills {ref : String} (failed : Throws (findOrCreate cfg ref) s e t) (ends : e ≠ .tooDeep)
    (filled : Filled s) : Filled t := by
  cases findOrCreate_stops (fun _ _ _ _ _ _ => convertDepth_finishes) (fun _ _ _ filled => filled)
    (fun _ _ _ _ _ => fills_step) failed ends with
  | unresolved => exact filled
  | converted _ _ _ _ inside => exact inside filled

/-- In whatever way a store was attained, no circle of descriptors is without a name. -/
theorem Attained.grounded (attained : Attained cfg s) : Grounded s := by
  induction attained with
  | fresh => exact tidy_fresh.grounded unfolds_fresh
  | @asked cfg ref s t r before run ends ih =>
    cases r with
    | ok c => exact (findOrCreate_grounded run ih).1
    | error e => exact findOrCreate_spoils run (fun cut => ends (by rw [cut])) ih
  | converted before own run ends ih =>
    rcases convert_cases own run ends with rfl | ⟨fits, ⟨_, _, inside⟩ | ⟨_, _, _, inside⟩⟩
    · exact ih
    · exact ((convertDepth_grounds inside).2 ih fun owned => (fits owned).named).1
    · exact convertDepth_spoils inside ih fun owned => (fits owned).named
  | noted before quiet ih => exact ih.of_quiet quiet
  | learned before overrides same ih => exact ih

/-- In whatever way a store was attained, every container in the index has something in it. -/
theorem Attained.filled (attained : Attained cfg s) : Filled s := by
  induction attained with
  | fresh => exact fun _ listed => nomatch listed
  | @asked cfg ref s t r before run ends ih =>
    cases r with
    | ok c => exact (findOrCreate_finishes run ih).1
    | error e => exact findOrCreate_fills run (fun cut => ends (by rw [cut])) ih
  | converted before own run ends ih =>
    rcases convert_cases own run ends with rfl | ⟨_, ⟨_, _, inside⟩ | ⟨_, _, _, inside⟩⟩
    · exact ih
    · exact ((convertDepth_finishes inside).2 ih).1
    · exact convertDepth_fills inside ih
  | noted before quiet ih => exact ih.of_index quiet.index
  | learned before overrides same ih => exact ih

/-- Every descriptor has a text where it is used. -/
theorem Attained.completes (attained : Attained cfg s) {i : Id} (stored : i < s.descriptors.size) :
    Completes (inlineText cfg s i) :=
  attained.grounded.completes stored (by omega)

end Typesmith.Model
