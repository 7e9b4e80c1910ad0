import Typesmith.Model.Render
import Typesmith.Proofs.Growth

namespace Typesmith.Model

variable {α β : Type}

def Shape.inside : Shape → List Id
  | .array items => items.flatten
  | .someOf _ branches => branches.flatten
  | .generic _ cases => cases.flatMap (·.2)
  | .object sets _ => sets.flatten.flatMap (·.types)
  | _ => []

theorem singleObject?_some {s : Store} {branches : List Container} {sets : List (List Property)}
    {closed : Bool} (single : singleObject? s branches = some (sets, closed)) :
    ∃ j e, branches = [[j]] ∧ s.get? j = some e ∧ e.name = "" ∧ e.shape = .object sets closed := by
  unfold singleObject? at single
  split at single
  · rename_i j
    split at single
    · rename_i e stored
      split at single
      · rename_i shape
        split at single
        · rename_i unnamed
          cases single
          exact ⟨j, e, rfl, stored, unnamed, shape⟩
        · cases single
      · cases single
    · cases single
  · cases single

/-- A property of steps of rendering that is put together from the properties of single steps. -/
structure Composes (Q : ∀ α : Type, RenderM α → Prop) : Prop where
  pure : ∀ {α : Type} (a : α), Q α (pure a)
  bind : ∀ {α β : Type} {x : RenderM α} {f : α → RenderM β}, Q α x → (∀ a, Q β (f a)) → Q β (x >>= f)

namespace Composes

variable {Q : ∀ α : Type, RenderM α → Prop} (composes : Composes Q)

include composes

theorem map {x : RenderM α} (first : Q α x) (f : α → β) : Q β (do return f (← x)) :=
  composes.bind first fun _ => composes.pure _

theorem mapM {f : α → RenderM β} {l : List α} (each : ∀ x ∈ l, Q β (f x)) : Q (List β) (l.mapM f) := by
  induction l with
  | nil => exact composes.pure _
  | cons x l ih =>
    rw [List.mapM_cons]
    apply composes.bind (each x List.mem_cons_self)
    intro y
    have rest := ih fun z later => each z (List.mem_cons_of_mem x later)
    exact composes.map rest _

variable {inline : Inliner}

theorem container {c : Container} (each : ∀ i ∈ c, Q String (inline i)) :
    Q String (inlineContainer inline c) :=
  composes.map (composes.mapM each) _

theorem member {p : Property} (each : ∀ i ∈ p.types, Q String (inline i)) :
    Q String (memberText inline p) := by
  apply composes.bind (composes.container each)
  intro types
  split
  · exact composes.pure _
  · exact composes.pure _

theorem members {set : List Property} (each : ∀ i ∈ set.flatMap (·.types), Q String (inline i)) :
    ∀ p ∈ set, Q String (memberText inline p) := by
  intro p listed
  apply composes.member
  intro i inside
  exact each i (List.mem_flatMap.mpr ⟨p, listed, inside⟩)

theorem object {sets : List (List Property)} {closed : Bool}
    (each : ∀ i ∈ (Shape.object sets closed).inside, Q String (inline i)) :
    Q String (inlineObject inline sets closed) := by
  unfold inlineObject
  split
  · exact composes.pure _
  · apply composes.map
    apply composes.mapM
    intro set listed
    unfold inlineSet
    split
    · exact composes.pure _
    · apply composes.map
      apply composes.mapM
      apply composes.members
      intro i inside
      obtain ⟨p, named, types⟩ := List.mem_flatMap.mp inside
      exact each i (List.mem_flatMap.mpr ⟨p, List.mem_flatten.mpr ⟨set, listed, named⟩, types⟩)

theorem declareObject {name comments : String} {sets : List (List Property)} {closed : Bool}
    (each : ∀ i ∈ (Shape.object sets closed).inside, Q String (inline i)) :
    Q String (declareObject inline name comments sets closed) := by
  unfold Model.declareObject
  split
  · have set := composes.members (by simpa [Shape.inside] using each)
    apply composes.map
    apply composes.map
    apply composes.mapM
    exact fun p listed => composes.map (set p listed) _
  · exact composes.map (composes.object each) _

theorem array {items : List Container} (each : ∀ i ∈ (Shape.array items).inside, Q String (inline i)) :
    Q String (inlineArray inline items) := by
  unfold inlineArray
  split
  · exact composes.pure _
  · apply composes.map
    apply composes.mapM
    intro c listed
    apply composes.map
    apply composes.container
    exact fun i inside => each i (List.mem_flatten.mpr ⟨c, listed, inside⟩)

theorem branches (s : Store) (c : Fragment.Combinator) (own : String) {branches : List Container}
    (each : ∀ i ∈ branches.flatten, Q String (inline i)) (seen : List String) :
    Q (List String) (branchTexts s inline c own seen branches) := by
  induction branches generalizing seen with
  | nil => exact composes.pure _
  | cons branch rest ih =>
    have first : ∀ i ∈ branch, Q String (inline i) := fun i inside =>
      each i (List.mem_append_left _ inside)
    have later : ∀ i ∈ rest.flatten, Q String (inline i) := fun i inside =>
      each i (List.mem_append_right _ inside)
    apply composes.bind (composes.container first)
    intro text
    split
    · exact ih later seen
    · exact composes.map (ih later (text :: seen)) _

theorem someOf (s : Store) (d : Descriptor) {c : Fragment.Combinator} {branches : List Container}
    (each : ∀ i ∈ (Shape.someOf c branches).inside, Q String (inline i)) :
    Q String (inlineSomeOf s inline d c branches) := by
  apply composes.bind (composes.branches s c _ each [])
  intro texts
  split
  · exact composes.pure _
  · exact composes.pure _

theorem cases {parameter : String} {cases : List (String × Container)}
    (each : ∀ i ∈ (Shape.generic parameter cases).inside, Q String (inline i)) :
    Q String (inlineGeneric inline cases) := by
  apply composes.map
  apply composes.mapM
  intro kc listed
  apply composes.container
  exact fun i inside => each i (List.mem_flatMap.mpr ⟨kc, listed, inside⟩)

theorem generic (d : Descriptor) {parameter : String} {cases : List (String × Container)}
    (each : ∀ i ∈ (Shape.generic parameter cases).inside, Q String (inline i)) :
    Q String (declareGeneric inline d parameter cases) := by
  unfold declareGeneric
  split
  · exact composes.pure _
  · apply composes.map
    apply composes.mapM
    intro kc listed
    apply composes.map
    apply composes.container
    exact fun i inside => each i (List.mem_flatMap.mpr ⟨kc, listed, inside⟩)

variable {cfg : Setting} {s : Store} {id : Id} {d : Descriptor}

theorem inlineWith (found : s.get? id = some d) (own : Q String (reference id d))
    (each : d.name = "" → ∀ i ∈ d.shape.inside, Q String (inline i)) :
    Q String (inlineWith cfg s inline id) := by
  unfold Model.inlineWith fetch
  rw [found]
  dsimp only
  rw [pure_bind]
  by_cases named : d.name = ""
  · have each := each named
    cases shape : d.shape <;> rw [shape] at each <;> simp only [named, ne_eq, not_true_eq_false, if_false]
    case value => exact composes.pure _
    case external => exact composes.pure _
    case array => exact composes.array each
    case someOf => exact composes.someOf s d each
    case generic => exact composes.cases each
    case object => exact composes.object each
    case enum =>
      split
      · exact composes.pure _
      · exact own
  · cases shape : d.shape <;> simp only [named, ne_eq, not_false_eq_true, if_true]
    case external => exact composes.pure _
    case enum =>
      split
      · exact composes.pure _
      · exact own
    all_goals exact own

theorem declaration (found : s.get? id = some d) (named : d.name ≠ "")
    (each : ∀ j e, s.get? j = some e → ∀ i ∈ e.shape.inside, Q String (inlineText cfg s i)) :
    Q String (declarationText cfg s id) := by
  have own := each id d found
  unfold declarationText fetch
  rw [found]
  dsimp only
  rw [pure_bind, if_neg named]
  cases shape : d.shape with
  | value token => exact composes.pure _
  | external name => exact composes.pure _
  | enum members => exact composes.pure _
  | array items =>
    rw [shape] at own
    exact composes.map (composes.array own) _
  | generic parameter cases =>
    rw [shape] at own
    exact composes.generic d own
  | object sets closed =>
    rw [shape] at own
    exact composes.declareObject own
  | someOf c branches =>
    rw [shape] at own
    dsimp only
    split
    · rename_i sets closed single
      obtain ⟨j, e, _, stored, _, record⟩ := singleObject?_some single
      have inner := each j e stored
      rw [record] at inner
      exact composes.declareObject inner
    · exact composes.map (composes.someOf s d own) _

end Composes

theorem declarationText_unnamed {cfg : Setting} {s : Store} {id : Id} {d : Descriptor}
    (found : s.get? id = some d) (unnamed : d.name = "") :
    declarationText cfg s id = throw (.fault (Fault.ofUnnamedRoot d.ref d.suggested)) := by
  unfold declarationText fetch
  rw [found]
  dsimp only
  rw [pure_bind, if_pos unnamed]

def Completes (x : RenderM α) : Prop :=
  ∀ deps, ∃ r, x.run deps = .ok r

theorem completes_composes : Composes fun _ => Completes := by
  constructor
  · intro α a deps
    exact ⟨(a, deps), rfl⟩
  · intro α β x f first rest deps
    obtain ⟨⟨a, middle⟩, one⟩ := first deps
    obtain ⟨r, two⟩ := rest a middle
    refine ⟨r, ?_⟩
    rw [StateT.run_bind]
    exact except_bind_ok.mpr ⟨_, one, two⟩

theorem completes_reference (id : Id) (d : Descriptor) : Completes (reference id d) :=
  fun _ => ⟨_, rfl⟩

end Typesmith.Model
