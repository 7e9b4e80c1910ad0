import Typesmith.Proofs.Stopping
import Typesmith.Proofs.Unfolding

namespace Typesmith.Model

open Fragment

/-- Something is missing in the descriptor: the properties of a record, an item, a branch or a case. -/
def Descriptor.Unfinished (d : Descriptor) : Prop :=
  match d.shape with
  | .object sets _ => sets = []
  | .array items => ∃ f, d.fragment = some f ∧ items.length < partCount .array f
  | .someOf _ branches => ∃ f, d.fragment = some f ∧ branches.length < partCount .someOf f
  | .generic _ cases => ∃ case ∈ cases, case.2 = []
  | _ => False

theorem not_unfinished_any : ¬ anyDescriptor.Unfinished :=
  fun unfinished => unfinished

theorem not_unfinished_null : ¬ nullDescriptor.Unfinished :=
  fun unfinished => unfinished

theorem not_unfinished_external {f : Fragment} {o : Options} {name : String} {nullable : Bool} :
    ¬ { externalDescriptor f o name with nullable : Descriptor }.Unfinished :=
  fun unfinished => unfinished

def shapeSoFar (kind : Kind) (f : Fragment) (cs : List Container) : Shape :=
  match kind with
  | .array => .array cs
  | .someOf => .someOf ((f.combinator?.map (·.1)).getD .oneOf) cs
  | .generic => .generic (parameterName (genericJson f)) (casesSoFar f cs)
  | kind => (opening kind f {}).shape

theorem opening_shape (kind : Kind) (f : Fragment) (o : Options) :
    (opening kind f o).fragment = some f ∧ (opening kind f o).shape = shapeSoFar kind f [] := by
  cases kind <;> exact ⟨rfl, rfl⟩

/-- A descriptor of a fragment, with this much of it converted, stands at a place. -/
def Underway (id : Id) (kind : Kind) (f : Fragment) (cs : List Container) (s : Store) : Prop :=
  ∃ d, s.get? id = some d ∧ d.fragment = some f ∧ d.shape = shapeSoFar kind f cs

section

variable {cfg : Setting} {s t : Store} {id : Id} {kind : Kind} {f : Fragment} {cs : List Container}

theorem Underway.grows (underway : Underway id kind f cs s) (grows : Grows s t) :
    Underway id kind f cs t := by
  obtain ⟨d, found, own⟩ := underway
  exact ⟨d, by rw [grows.kept id (Store.get?_lt found), found], own⟩

theorem Underway.noted (underway : Underway id kind f cs s) (c : Container) :
    Underway id kind f (cs ++ [c]) (noted kind f id (cs ++ [c]) s) := by
  obtain ⟨d, found, fragment, shape⟩ := underway
  have told : ∀ shape, (s.setShape id shape).get? id = some { d with shape } := by
    intro shape
    rw [Store.get?_setShape, if_pos rfl, found]
    rfl
  cases kind with
  | array => exact ⟨_, told _, fragment, rfl⟩
  | someOf => exact ⟨_, told _, fragment, rfl⟩
  | generic => exact ⟨_, told _, fragment, rfl⟩
  | _ => exact ⟨d, found, fragment, shape⟩

theorem mem_casesSoFar_missing (fewer : cs.length < (caseKeys f).length) :
    ∃ case ∈ casesSoFar f cs, case.2 = [] := by
  have missing : 0 < ((caseKeys f).drop cs.length).length := by
    rw [List.length_drop]
    omega
  obtain ⟨key, coming⟩ := List.exists_mem_of_length_pos missing
  refine ⟨(key, []), ?_, rfl⟩
  exact List.mem_append_right _ (List.mem_map_of_mem coming)

theorem Underway.unfinished (underway : Underway id kind f cs s) (fewer : cs.length < partCount kind f) :
    ∃ d, s.get? id = some d ∧ d.Unfinished := by
  obtain ⟨d, found, fragment, shape⟩ := underway
  refine ⟨d, found, ?_⟩
  rw [Descriptor.Unfinished, shape]
  cases kind with
  | object => rfl
  | array => exact ⟨f, fragment, fewer⟩
  | someOf => exact ⟨f, fragment, fewer⟩
  | generic => exact mem_casesSoFar_missing fewer
  | _ => exact absurd fewer (Nat.not_lt_zero _)

theorem Each.length_nil {R : Converts} {s t : Store} {base : String} {note : List Container → Store → Store}
    {gs : List Fragment} {out : List Container} (each : Each R base note gs [] s out t) :
    out.length = gs.length := by
  simpa using each.length

theorem mem_casesSoFar_filled (all : cs.length = (caseKeys f).length) (filled : ∀ c ∈ cs, c ≠ [])
    {case : String × Container} (listed : case ∈ casesSoFar f cs) : case.2 ≠ [] := by
  rcases List.mem_append.mp listed with done | coming
  · exact filled _ (List.of_mem_zip done).2
  · rw [all, List.drop_length] at coming
    cases coming

theorem finished_of_object {t : Store} {d e : Descriptor} {sets : List (List Property)} {closed : Bool}
    (some : sets ≠ []) (before : t.get? id = .some e)
    (found : (t.setShape id (.object sets closed)).get? id = .some d) : ¬ d.Unfinished := by
  rw [Store.get?_setShape, if_pos rfl, before] at found
  cases found
  exact some

theorem finished_of_shapeSoFar (other : kind ≠ .object) (all : cs.length = partCount kind f)
    (filled : ∀ c ∈ cs, c ≠ []) {d : Descriptor} (fragment : d.fragment = some f)
    (shape : d.shape = shapeSoFar kind f cs) : ¬ d.Unfinished := by
  rw [Descriptor.Unfinished, shape, fragment]
  cases kind with
  | object => exact absurd rfl other
  | array =>
    rintro ⟨g, same, fewer⟩
    cases same
    exact absurd all (Nat.ne_of_lt fewer)
  | someOf =>
    rintro ⟨g, same, fewer⟩
    cases same
    exact absurd all (Nat.ne_of_lt fewer)
  | generic =>
    rintro ⟨case, listed, missing⟩
    exact mem_casesSoFar_filled all filled listed missing
  | _ => exact fun unfinished => unfinished

/-- With all fragments inside it converted, the descriptor is finished. -/
theorem Underway.finished (underway : Underway id kind f cs s) (all : cs.length = partCount kind f)
    (filled : ∀ c ∈ cs, c ≠ []) {d : Descriptor} (found : (finished kind f id cs s).get? id = some d) :
    ¬ d.Unfinished := by
  obtain ⟨e, before, fragment, shape⟩ := underway
  by_cases record : kind = .object
  · subst record
    simp only [Model.finished] at found
    split at found
    · exact finished_of_object (List.cons_ne_nil _ _) before found
    · exact finished_of_object (List.cons_ne_nil _ _) before found
    · split at found
      · have kept : (s.push anyDescriptor).2.get? id = some e := by
          rw [((Grows.refl s).push anyDescriptor).kept id (Store.get?_lt before), before]
        exact finished_of_object (List.cons_ne_nil _ _) kept found
      · exact finished_of_object (List.cons_ne_nil _ _) before found
  · -- nothing else is told anything at the end
    have same : Model.finished kind f id cs s = s := by
      cases kind with
      | object => exact absurd rfl record
      | _ => rfl
    rw [same, before] at found
    cases found
    exact finished_of_shapeSoFar record all filled fragment shape

def Filled (s : Store) : Prop :=
  ∀ entry ∈ s.index, entry.2 ≠ []

def FinishedFrom (n : Nat) (s : Store) : Prop :=
  ∀ i d, n ≤ i → s.get? i = some d → ¬ d.Unfinished

theorem Filled.of_index (filled : Filled s) (same : t.index = s.index) : Filled t := by
  rw [Filled, same]
  exact filled

theorem Filled.register (filled : Filled s) {c : Container} (some : c ≠ []) (ref : String) :
    Filled (s.register ref c) := by
  by_cases empty : ref = ""
  · rw [empty, Store.register_empty]
    exact filled
  · rw [Filled, Store.index_register c empty]
    intro entry listed
    rcases List.mem_cons.mp listed with rfl | older
    · exact some
    · exact filled entry older

theorem claimedContainer_ne_nil (nullable : Bool) (s : Store) : claimedContainer nullable s ≠ [] := by
  rw [claimedContainer_eq_cons]
  exact List.cons_ne_nil _ _

theorem Filled.claimed (filled : Filled s) (d : Descriptor) (nullable : Bool) :
    Filled (claimed d nullable s) := by
  unfold Model.claimed
  refine Filled.register ?_ (claimedContainer_ne_nil nullable s) _
  split <;> exact filled

theorem FinishedFrom.grows {n : Nat} (before : FinishedFrom n s) (grows : Grows s t)
    (new : FinishedFrom s.descriptors.size t) : FinishedFrom n t := by
  intro i d later found
  by_cases older : i < s.descriptors.size
  · rw [grows.kept i older] at found
    exact before i d later found
  · exact new i d (not_lt.mp older) found

theorem finishedFrom_size (s : Store) : FinishedFrom s.descriptors.size s := by
  intro i d later found
  exact absurd (Store.get?_lt found) (not_lt.mpr later)

theorem FinishedFrom.push {n : Nat} (before : FinishedFrom n s) {d : Descriptor} (own : ¬ d.Unfinished) :
    FinishedFrom n (s.push d).2 := by
  intro i e later found
  rw [Store.get?_push] at found
  split at found
  · cases found
    exact own
  · exact before i e later found

theorem FinishedFrom.setShape (before : FinishedFrom (id + 1) s) (shape : Shape) :
    FinishedFrom (id + 1) (s.setShape id shape) := by
  intro i d later found
  rw [Store.get?_setShape, if_neg (Nat.ne_of_gt later)] at found
  exact before i d later found

theorem FinishedFrom.touches (before : FinishedFrom (id + 1) s) (touches : Touches id s t) :
    FinishedFrom (id + 1) t := by
  cases touches with
  | nothing => exact before
  | shape shape => exact before.setShape shape
  | any shape => exact (before.push not_unfinished_any).setShape shape

theorem finishedFrom_claimed (d : Descriptor) (nullable : Bool) (s : Store) :
    FinishedFrom (s.descriptors.size + 1) (claimed d nullable s) := by
  have first : FinishedFrom (s.descriptors.size + 1) (s.push { d with nullable }).2 := by
    rw [← Store.size_push s { d with nullable }]
    exact finishedFrom_size _
  intro i e later found
  unfold claimed at found
  rw [get?_register] at found
  split at found
  · exact first.push not_unfinished_null i e later found
  · exact first i e later found

theorem finishedFrom_claimed_own {d : Descriptor} {nullable : Bool}
    (own : ¬ { d with nullable : Descriptor }.Unfinished) (s : Store) :
    FinishedFrom s.descriptors.size (claimed d nullable s) := by
  intro i e later found
  rcases Nat.eq_or_lt_of_le later with rfl | beyond
  · rw [get?_claimed] at found
    cases found
    exact own
  · exact finishedFrom_claimed d nullable s i e beyond found

/-- A conversion that succeeds gives at least one alternative, and finishes all that it stored. -/
def Finishes : Converts := fun _ _ s c t =>
  Grows s t ∧ (Filled s → Filled t ∧ c ≠ [] ∧ FinishedFrom s.descriptors.size t)

theorem Finishes.built {o : Options} {nullable : Bool} {c : Container}
    (built : Built cfg Finishes kind f o nullable s c t) (filled : Filled s) :
    Filled t ∧ c ≠ [] ∧ FinishedFrom s.descriptors.size t := by
  obtain @⟨name, gs, cs, start, t, _, quiet, inner, each⟩ := built
  obtain ⟨fragment, shape⟩ := opening_shape kind f { o with name }
  obtain ⟨after, parts, underway, finishes⟩ := each.collects
    (fun cs t => Filled t ∧ (∀ c ∈ cs, c ≠ []) ∧ Underway start.descriptors.size kind f cs t ∧
      FinishedFrom (start.descriptors.size + 1) t)
    (by
      rintro g hint cs m c u ⟨grows, inside⟩ ⟨filled, parts, underway, finishes⟩
      obtain ⟨after, some, new⟩ := inside filled
      have touches := noted_touches kind f start.descriptors.size (cs ++ [c]) u
      refine ⟨after.of_index touches.index, ?_, (underway.grows grows).noted c,
        (finishes.grows grows new).touches touches⟩
      intro part listed
      rcases List.mem_append.mp listed with older | newer
      · exact parts part older
      · rw [List.mem_singleton.mp newer]
        exact some)
    ⟨(filled.of_index quiet.index).claimed _ nullable, by simp, ⟨_, get?_claimed _ _ _, fragment, shape⟩,
      finishedFrom_claimed _ _ _⟩
  have touches := finished_touches kind f start.descriptors.size cs t
  refine ⟨after.of_index touches.index, claimedContainer_ne_nil _ _, ?_⟩
  intro i d later found
  rw [← quiet.descriptors] at later
  rcases Nat.eq_or_lt_of_le later with rfl | beyond
  · exact underway.finished (each.length_nil.trans inner.length) parts found
  · exact finishes.touches touches i d beyond found

theorem Finishes.finds {ref : String} {c : Container} (finds : Finds cfg Finishes ref s c t)
    (filled : Filled s) : Filled t ∧ c ≠ [] ∧ FinishedFrom s.descriptors.size t := by
  cases finds with
  | known found =>
    obtain ⟨before, after, split, _⟩ := List.lookup_eq_some_iff.mp found
    have listed : (Reference.normalize ref, c) ∈ s.index := by
      rw [split]
      simp
    exact ⟨filled, filled _ listed, finishedFrom_size s⟩
  | @replaced f name other names absent resolved given overridden =>
    exact ⟨Filled.claimed (s := { s with names }) filled _ false, claimedContainer_ne_nil _ _,
      finishedFrom_claimed_own not_unfinished_external { s with names }⟩
  | converted absent resolved given kept inside => exact inside.2 filled

theorem typeBranches_ne_nil (multi : isMultiType f = true) : typeBranches f ≠ [] := by
  have several : 1 < f.keywords.types.length := by
    simp only [isMultiType, Bool.and_eq_true, decide_eq_true_eq] at multi
    exact multi.1.1
  intro none
  have count : (typeBranches f).length = f.keywords.types.length := List.length_map _
  rw [none, List.length_nil] at count
  omega

theorem flatten_ne_nil {gs : List Fragment} (some : gs ≠ []) (same : cs.length = gs.length)
    (parts : ∀ c ∈ cs, c ≠ []) : cs.flatten ≠ [] := by
  cases cs with
  | nil => exact absurd (List.eq_nil_of_length_eq_zero same.symm) some
  | cons c rest =>
    intro empty
    rw [List.flatten_cons, List.append_eq_nil_iff] at empty
    exact parts c List.mem_cons_self empty.1

theorem sideBySide_ne_nil (nullable : Bool) (some : cs.flatten ≠ []) (s : Store) :
    (sideBySide nullable cs s).1 ≠ [] := by
  unfold sideBySide
  split
  · exact List.append_ne_nil_of_left_ne_nil some _
  · exact some

theorem Filled.sideBySide (filled : Filled s) (nullable : Bool) (cs : List Container) :
    Filled (sideBySide nullable cs s).2 := by
  unfold Model.sideBySide
  split <;> exact filled

theorem FinishedFrom.sideBySide {n : Nat} (finishes : FinishedFrom n s) (nullable : Bool)
    (cs : List Container) : FinishedFrom n (sideBySide nullable cs s).2 := by
  unfold Model.sideBySide
  split
  · exact finishes.push not_unfinished_null
  · exact finishes

theorem finishes_step {o : Options} {c : Container} (step : Step cfg Finishes f o s c t) :
    Finishes f o s c t := by
  refine ⟨step.grows fun _ _ _ _ _ inside => inside.1, fun filled => ?_⟩
  cases step with
  | ref isRef found =>
    obtain ⟨after, some, finishes⟩ := Finishes.finds found filled
    refine ⟨after.register some _, some, ?_⟩
    intro i d later held
    rw [get?_register] at held
    exact finishes i d later held
  | union isRef multi named inside => exact inside.2 filled
  | @types _ _ _ t cs isRef multi unnamed each =>
    obtain ⟨grows, after, parts, finishes⟩ := each.collects
      (fun cs t => Grows s t ∧ Filled t ∧ (∀ c ∈ cs, c ≠ []) ∧ FinishedFrom s.descriptors.size t)
      (by
        rintro g hint cs m c u ⟨more, inside⟩ ⟨grows, filled, parts, finishes⟩
        obtain ⟨after, some, new⟩ := inside filled
        refine ⟨grows.trans more, after, ?_, finishes.grows more new⟩
        intro part listed
        rcases List.mem_append.mp listed with older | newer
        · exact parts part older
        · rw [List.mem_singleton.mp newer]
          exact some)
      ⟨.refl s, filled, by simp, finishedFrom_size s⟩
    have some : cs.flatten ≠ [] := flatten_ne_nil (typeBranches_ne_nil multi) each.length_nil parts
    refine ⟨(after.sideBySide _ cs).register (sideBySide_ne_nil _ some t) _, sideBySide_ne_nil _ some t, ?_⟩
    intro i d later held
    rw [get?_register] at held
    exact finishes.sideBySide _ cs i d later held
  | node isRef single written built => exact Finishes.built built filled

/-- A request that succeeds leaves no descriptor unfinished that was not there before. -/
theorem findOrCreate_finishes {ref : String} {c : Container} (run : Returns (findOrCreate cfg ref) s c t)
    (filled : Filled s) : Filled t ∧ c ≠ [] ∧ FinishedFrom s.descriptors.size t :=
  Finishes.finds (findOrCreate_keeps (fun _ _ _ _ _ => finishes_step) run) filled

end

end Typesmith.Model
