import Typesmith.Declaration.Collect
import Typesmith.Proofs.Rendering

namespace Typesmith.Model

variable {α β : Type}

def Shape.Bare : Shape → Prop
  | .value _ | .external _ => True
  | _ => False

theorem Shape.Bare.inside {shape : Shape} (bare : shape.Bare) : shape.inside = [] := by
  cases shape with
  | value token => rfl
  | external name => rfl
  | _ => exact bare.elim

/-- Every descriptor that a step of rendering adds to those noted before has the property. -/
def NotesOnly (P : Id → Prop) (x : RenderM α) : Prop :=
  ∀ deps a later, x.run deps = .ok (a, later) → (∀ i ∈ deps, P i) → ∀ i ∈ later, P i

section

variable {P : Id → Prop}

theorem notesOnly_pure (a : α) : NotesOnly P (pure a : RenderM α) := by
  intro deps b later run before
  cases run
  exact before

theorem notesOnly_throw (e : Failure) : NotesOnly P (throw e : RenderM α) := by
  intro deps a later run
  cases run

theorem notesOnly_composes : Composes fun _ => NotesOnly P := by
  constructor
  · exact notesOnly_pure
  · intro α β x f first rest deps b later run before
    rw [StateT.run_bind] at run
    obtain ⟨⟨a, middle⟩, one, two⟩ := except_bind_ok.mp run
    exact rest a middle b later two (first deps a middle one before)

theorem notesOnly_reference {id : Id} {d : Descriptor} (own : d.name ≠ "" → P id) :
    NotesOnly P (reference id d) := by
  intro deps a later run before
  cases run
  intro i inside
  dsimp only at inside
  split at inside
  · exact before i inside
  · rename_i new
    simp only [Bool.or_eq_true, decide_eq_true_eq, not_or] at new
    rcases List.mem_append.mp inside with older | same
    · exact before i older
    · rw [List.mem_singleton.mp same]
      exact own new.1

variable {cfg : Setting} {s : Store} {inline : Inliner}

theorem notesOnly_missing {id : Id} (missing : s.get? id = none) (f : Descriptor → RenderM α) :
    NotesOnly P (fetch s id >>= f) := by
  intro deps a later run
  unfold fetch at run
  rw [missing] at run
  cases run

theorem notesOnly_inlineWith {id : Id} (own : ∀ d, s.get? id = some d → d.name ≠ "" → P id)
    (each : ∀ d, s.get? id = some d → d.name = "" → ∀ i ∈ d.shape.inside, NotesOnly P (inline i)) :
    NotesOnly P (inlineWith cfg s inline id) := by
  cases found : s.get? id with
  | none => exact notesOnly_missing found _
  | some d => exact notesOnly_composes.inlineWith found (notesOnly_reference (own d found)) (each d found)

theorem notesOnly_inlineDepth (own : ∀ i d, s.get? i = some d → d.name ≠ "" → P i) (depth : Nat)
    (id : Id) : NotesOnly P (inlineDepth cfg s depth id) := by
  induction depth generalizing id with
  | zero => exact notesOnly_throw _
  | succ depth ih => exact notesOnly_inlineWith (own id) fun _ _ _ i _ => ih i

theorem notesOnly_declaration (own : ∀ i d, s.get? i = some d → d.name ≠ "" → P i) (id : Id) :
    NotesOnly P (declarationText cfg s id) := by
  cases found : s.get? id with
  | none => exact notesOnly_missing found _
  | some d =>
    by_cases named : d.name = ""
    · rw [declarationText_unnamed found named]
      exact notesOnly_throw _
    · exact notesOnly_composes.declaration found named fun _ _ _ i _ => notesOnly_inlineDepth own _ i

end

end Typesmith.Model

namespace Typesmith.Declaration

open Model

/-- The visits of a walk that had already been to some descriptors, and the failure that ends it while
there is something left to visit. -/
inductive Course {ε : Type} (n : Nat) (render : Id → Except ε Visit) :
    List Id → List Id → List Visit → Option ε → Prop
  | done {visited : List Id} : Course n render visited [] [] none
  | pass {visited rest : List Id} {id : Id} {vs : List Visit} {stop : Option ε}
      (known : n ≤ id ∨ id ∈ visited) (onward : Course n render visited rest vs stop) :
      Course n render visited (id :: rest) vs stop
  | fail {visited rest : List Id} {id : Id} {e : ε} (small : id < n) (new : id ∉ visited)
      (failed : render id = .error e) : Course n render visited (id :: rest) [] (some e)
  | visit {visited rest : List Id} {id : Id} {v : Visit} {vs : List Visit} {stop : Option ε}
      (small : id < n) (new : id ∉ visited) (shown : render id = .ok v)
      (onward : Course n render (id :: visited) (v.deps ++ rest) vs stop) :
      Course n render visited (id :: rest) (v :: vs) stop

def record {ε : Type} (vs : List Visit) : Option ε → Except ε (List Visit)
  | none => .ok vs
  | some e => .error e

section

variable {ε : Type} {n : Nat} {render : Id → Except ε Visit} {visited stack : List Id}
  {vs : List Visit} {stop : Option ε}

theorem course_exists (n : Nat) (render : Id → Except ε Visit) (visited stack : List Id) :
    ∃ vs stop, Course n render visited stack vs stop := by
  induction visited, stack using walk.induct n render with
  | case1 visited => exact ⟨[], none, .done⟩
  | case2 visited id rest large ih =>
    obtain ⟨vs, stop, course⟩ := ih
    exact ⟨vs, stop, .pass (.inl large) course⟩
  | case3 visited id rest small seen ih =>
    obtain ⟨vs, stop, course⟩ := ih
    exact ⟨vs, stop, .pass (.inr (by simpa using seen)) course⟩
  | case4 visited id rest small new e failed =>
    exact ⟨[], some e, .fail (Nat.lt_of_not_le small) (by simpa using new) failed⟩
  | case5 visited id rest small new v shown e failed ih =>
    obtain ⟨vs, stop, course⟩ := ih
    exact ⟨v :: vs, stop, .visit (Nat.lt_of_not_le small) (by simpa using new) shown course⟩
  | case6 visited id rest small new v shown visits done ih =>
    obtain ⟨vs, stop, course⟩ := ih
    exact ⟨v :: vs, stop, .visit (Nat.lt_of_not_le small) (by simpa using new) shown course⟩

theorem Course.walk_eq (course : Course n render visited stack vs stop) :
    walk n render visited stack = record vs stop := by
  induction course with
  | done =>
    rw [walk]
    rfl
  | @pass visited rest id vs stop known onward ih =>
    rw [walk, ← ih]
    split
    · rfl
    · have seen : visited.contains id = true := by simpa using known.resolve_left ‹_›
      rw [dif_pos seen]
  | @fail visited rest id e small new failed =>
    have unseen : ¬ visited.contains id = true := by simpa using new
    rw [walk, dif_neg (Nat.not_le.mpr small), dif_neg unseen, failed]
    rfl
  | @visit visited rest id v vs stop small new shown onward ih =>
    have unseen : ¬ visited.contains id = true := by simpa using new
    rw [walk, dif_neg (Nat.not_le.mpr small), dif_neg unseen, shown]
    dsimp only
    rw [ih]
    cases stop <;> rfl

theorem course_of_walk (run : walk n render visited stack = .ok vs) :
    Course n render visited stack vs none := by
  obtain ⟨vs, stop, course⟩ := course_exists n render visited stack
  rw [course.walk_eq] at run
  cases stop with
  | none =>
    cases run
    exact course
  | some e => cases run

variable (own : ∀ id v, render id = .ok v → v.id = id)

include own

theorem Course.shown (course : Course n render visited stack vs stop) :
    ∀ v ∈ vs, v.id < n ∧ render v.id = .ok v := by
  induction course with
  | done => simp
  | pass known onward ih => exact ih
  | fail small new failed => simp
  | @visit visited rest id v vs stop small new shown onward ih =>
    intro w inside
    rcases List.mem_cons.mp inside with rfl | later
    · rw [own id w shown]
      exact ⟨small, shown⟩
    · exact ih w later

theorem Course.new (course : Course n render visited stack vs stop) : ∀ v ∈ vs, v.id ∉ visited := by
  induction course with
  | done => simp
  | pass known onward ih => exact ih
  | fail small new failed => simp
  | @visit visited rest id v vs stop small new shown onward ih =>
    intro w inside
    rcases List.mem_cons.mp inside with rfl | later
    · rw [own id w shown]
      exact new
    · intro seen
      exact ih w later (List.mem_cons_of_mem _ seen)

theorem Course.once (course : Course n render visited stack vs stop) : (vs.map (·.id)).Nodup := by
  induction course with
  | done => exact List.nodup_nil
  | pass known onward ih => exact ih
  | fail small new failed => exact List.nodup_nil
  | @visit visited rest id v vs stop small new shown onward ih =>
    rw [List.map_cons, List.nodup_cons]
    refine ⟨?_, ih⟩
    intro again
    obtain ⟨w, inside, same⟩ := List.mem_map.mp again
    apply onward.new own w inside
    rw [same, own id v shown]
    exact List.mem_cons_self

theorem Course.reached (course : Course n render visited stack vs stop) (whole : stop = none) :
    ∀ i, (i ∈ stack ∨ ∃ v ∈ vs, i ∈ v.deps) → i < n → i ∈ visited ∨ i ∈ vs.map (·.id) := by
  induction course with
  | done => simp
  | pass known onward ih =>
    intro i found small
    rcases found with listed | named
    · rcases List.mem_cons.mp listed with rfl | later
      · exact .inl (known.resolve_left (Nat.not_le.mpr small))
      · exact ih whole i (.inl later) small
    · exact ih whole i (.inr named) small
  | fail small new failed => cases whole
  | @visit visited rest id v vs stop _ new shown onward ih =>
    intro i found small
    -- it is this visit, or comes up in the rest of the walk
    have later : i = id ∨ i ∈ v.deps ++ rest ∨ ∃ w ∈ vs, i ∈ w.deps := by
      rcases found with listed | ⟨w, among, named⟩
      · rcases List.mem_cons.mp listed with rfl | behind
        · exact .inl rfl
        · exact .inr (.inl (List.mem_append_right _ behind))
      · rcases List.mem_cons.mp among with rfl | behind
        · exact .inr (.inl (List.mem_append_left _ named))
        · exact .inr (.inr ⟨w, behind, named⟩)
    rw [List.map_cons, List.mem_cons, own id v shown]
    rcases later with rfl | further
    · exact .inr (.inl rfl)
    · rcases ih whole i further small with before | after
      · rcases List.mem_cons.mp before with rfl | older
        · exact .inr (.inl rfl)
        · exact .inl older
      · exact .inr (.inr after)

end

/-- The visits of a walk that had already been to some descriptors. -/
structure Walked {ε : Type} (n : Nat) (render : Id → Except ε Visit) (visited stack : List Id)
    (visits : List Visit) : Prop where
  shown : ∀ v ∈ visits, render v.id = .ok v
  once : (visits.map (·.id)).Nodup
  new : ∀ v ∈ visits, v.id ∉ visited
  reached : ∀ i ∈ stack, i < n → i ∈ visited ∨ i ∈ visits.map (·.id)
  closed : ∀ v ∈ visits, ∀ i ∈ v.deps, i < n → i ∈ visited ∨ i ∈ visits.map (·.id)

theorem walk_walked {ε : Type} {n : Nat} {render : Id → Except ε Visit}
    (own : ∀ id v, render id = .ok v → v.id = id) {visited stack : List Id} {visits : List Visit}
    (run : walk n render visited stack = .ok visits) : Walked n render visited stack visits := by
  have course := course_of_walk run
  have reached := course.reached own rfl
  constructor
  case shown => exact fun v inside => (course.shown own v inside).2
  case once => exact course.once own
  case new => exact course.new own
  case reached => exact fun i listed => reached i (.inl listed)
  case closed => exact fun v inside i named => reached i (.inr ⟨v, inside, named⟩)

/-- A walk that gives up after so many steps. Unlike the walk itself it can be computed. -/
def walkWithin {ε : Type} (n : Nat) (render : Id → Except ε Visit) :
    Nat → List Id → List Id → Option (List Visit)
  | 0, _, _ => none
  | _ + 1, _, [] => some []
  | steps + 1, visited, id :: rest =>
    if n ≤ id ∨ id ∈ visited then walkWithin n render steps visited rest
    else
      (render id).toOption.bind fun visit =>
        (walkWithin n render steps (id :: visited) (visit.deps ++ rest)).map (visit :: ·)

theorem walk_of_walkWithin {ε : Type} {n steps : Nat} {render : Id → Except ε Visit}
    {visited stack : List Id} {visits : List Visit}
    (done : walkWithin n render steps visited stack = some visits) :
    walk n render visited stack = .ok visits := by
  induction steps generalizing visited stack visits with
  | zero => cases done
  | succ steps ih =>
    cases stack with
    | nil =>
      cases done
      rw [walk]
    | cons id rest =>
      rw [walkWithin] at done
      split at done
      · rename_i passed
        rw [walk]
        by_cases large : n ≤ id
        · rw [dif_pos large, ih done]
        · rw [dif_neg large, dif_pos (by simpa using passed.resolve_left large), ih done]
      · rename_i fresh
        obtain ⟨small, new⟩ := not_or.mp fresh
        obtain ⟨v, shown, later⟩ := Option.bind_eq_some_iff.mp done
        obtain ⟨vs, walked, rfl⟩ := Option.map_eq_some_iff.mp later
        rw [walk, dif_neg small, dif_neg (by simpa using new), eq_ok_of_toOption shown]
        simp only [ih walked]

variable {cfg : Setting} {s : Store}

def visitsWithin (steps : Nat) (cfg : Setting) (s : Store) (roots : List Container) :
    Option (List Visit) :=
  walkWithin s.descriptors.size (visit cfg s) steps [] roots.flatten

theorem collect_of_visitsWithin {steps : Nat} {roots : List Container} {vs : List Visit}
    (done : visitsWithin steps cfg s roots = some vs) :
    collect cfg s roots = .ok (sortByName (vs.map (ofVisit s))) := by
  have walked : visits cfg s roots = .ok vs := walk_of_walkWithin done
  rw [collect, walked]
  rfl

def HasName (s : Store) (id : Id) : Prop :=
  ∃ d, s.get? id = some d ∧ d.name ≠ ""

theorem HasName.lt {id : Id} (named : HasName s id) : id < s.descriptors.size := by
  obtain ⟨d, found, _⟩ := named
  exact Store.get?_lt found

theorem HasName.nameOf {id : Id} (named : HasName s id) : nameOf s id ≠ "" := by
  obtain ⟨d, found, filled⟩ := named
  simpa [Declaration.nameOf, found] using filled

theorem hasName_of_nameOf {id : Id} (named : nameOf s id ≠ "") : HasName s id := by
  unfold nameOf at named
  cases found : s.get? id with
  | none => simp [found] at named
  | some d => exact ⟨d, found, by simpa [found] using named⟩

theorem HasName.grows {t : Store} {id : Id} (found : HasName s id) (grows : Grows s t) : HasName t id := by
  obtain ⟨d, stored, filled⟩ := found
  exact ⟨d, by rw [grows.kept id (Store.get?_lt stored), stored], filled⟩

theorem nameOf_grows {t : Store} {id : Id} (grows : Grows s t) (inside : id < s.descriptors.size) :
    nameOf t id = nameOf s id := by
  rw [nameOf, nameOf, grows.kept id inside]

theorem visit_id {id : Id} {v : Visit} (shown : visit cfg s id = .ok v) : v.id = id := by
  obtain ⟨⟨text, deps⟩, _, made⟩ := except_bind_ok.mp shown
  cases made
  rfl

theorem visit_deps {id : Id} {v : Visit} (shown : visit cfg s id = .ok v) : ∀ i ∈ v.deps, HasName s i := by
  obtain ⟨⟨text, deps⟩, run, made⟩ := except_bind_ok.mp shown
  cases made
  have only : NotesOnly (HasName s) (declarationText cfg s id) :=
    notesOnly_declaration (fun i d found named => ⟨d, found, named⟩) id
  exact only [] text deps run (by simp)

theorem visit_named {id : Id} {v : Visit} (shown : visit cfg s id = .ok v) : HasName s id := by
  obtain ⟨⟨text, deps⟩, run, _⟩ := except_bind_ok.mp shown
  unfold declarationText fetch at run
  split at run
  · rename_i d found
    refine ⟨d, found, ?_⟩
    intro empty
    rw [pure_bind, if_pos empty] at run
    cases run
  · cases run

theorem ofVisit_name (s : Store) (v : Visit) : (ofVisit s v).name = nameOf s v.id := by
  unfold ofVisit nameOf
  cases s.get? v.id <;> rfl

/-- What a collection declares: the visits of a walk over the roots, in another order. -/
theorem collect_walked {roots : List Container} {ds : List Declaration}
    (collected : collect cfg s roots = .ok ds) :
    ∃ vs, Walked s.descriptors.size (visit cfg s) [] roots.flatten vs ∧
      List.Perm ds (vs.map (ofVisit s)) := by
  obtain ⟨vs, run, made⟩ := except_bind_ok.mp collected
  cases made
  exact ⟨vs, walk_walked (fun _ _ => visit_id) run, List.mergeSort_perm _ _⟩

theorem mem_names_iff {ds : List Declaration} {vs : List Visit}
    (perm : List.Perm ds (vs.map (ofVisit s))) {name : String} :
    name ∈ ds.map (·.name) ↔ ∃ v ∈ vs, nameOf s v.id = name := by
  rw [(perm.map _).mem_iff, List.map_map, List.mem_map]
  simp only [Function.comp, ofVisit_name]

theorem collect_roots {roots : List Container} {ds : List Declaration}
    (collected : collect cfg s roots = .ok ds) {i : Id} (root : i ∈ roots.flatten)
    (named : HasName s i) : nameOf s i ∈ ds.map (·.name) := by
  obtain ⟨vs, walked, perm⟩ := collect_walked collected
  have reached := walked.reached i root named.lt
  obtain ⟨v, visited, same⟩ := List.mem_map.mp (reached.resolve_left List.not_mem_nil)
  exact (mem_names_iff perm).mpr ⟨v, visited, congrArg _ same⟩

theorem collect_closed {roots : List Container} {ds : List Declaration}
    (collected : collect cfg s roots = .ok ds) {d : Declaration} (member : d ∈ ds) {dep : String}
    (depends : dep ∈ d.dependencies) : dep ∈ ds.map (·.name) := by
  obtain ⟨vs, walked, perm⟩ := collect_walked collected
  obtain ⟨v, visited, rfl⟩ := List.mem_map.mp (perm.mem_iff.mp member)
  obtain ⟨i, noted, rfl⟩ := List.mem_map.mp (List.mem_mergeSort.mp depends)
  have noted : i ∈ v.deps := (List.mem_filter.mp noted).1
  have named := visit_deps (walked.shown v visited) i noted
  have reached := walked.closed v visited i noted named.lt
  obtain ⟨w, found, same⟩ := List.mem_map.mp (reached.resolve_left List.not_mem_nil)
  exact (mem_names_iff perm).mpr ⟨w, found, congrArg _ same⟩

end Typesmith.Declaration
