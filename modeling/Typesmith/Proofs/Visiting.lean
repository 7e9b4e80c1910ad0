import Typesmith.Proofs.Collecting

namespace Typesmith.Declaration

open Model

def ending {σ ε : Type} : Option ε → ExceptT ε (StateM σ) Unit
  | none => pure ()
  | some e => throw e

section

variable {ε : Type} {n : Nat} {render : Id → Except ε Visit} {visited stack : List Id}
  {vs : List Visit} {stop : Option ε}

/-- A visitor sees the visits one after another, whatever it does with them. -/
theorem Course.tour_eq {σ : Type} (course : Course n render visited stack vs stop)
    (visitor : Visitor σ ε) :
    tour n render visitor visited stack = (do vs.forM visitor; ending stop) := by
  induction course with
  | done =>
    rw [tour]
    rfl
  | @pass visited rest id vs stop known onward ih =>
    rw [tour, ← ih]
    split
    · rfl
    · have seen : visited.contains id = true := by simpa using known.resolve_left ‹_›
      rw [dif_pos seen]
  | @fail visited rest id e small new failed =>
    have unseen : ¬ visited.contains id = true := by simpa using new
    rw [tour, dif_neg (Nat.not_le.mpr small), dif_neg unseen, failed]
    rfl
  | @visit visited rest id v vs stop small new shown onward ih =>
    have unseen : ¬ visited.contains id = true := by simpa using new
    have onward : tour n render visitor visited (id :: rest) = (do
        visitor v
        tour n render visitor (id :: visited) (v.deps ++ rest)) := by
      rw [tour, dif_neg (Nat.not_le.mpr small), dif_neg unseen, shown]
      rfl
    rw [onward, ih]
    change _ = (do (do visitor v; vs.forM visitor); ending stop)
    rw [bind_assoc]

theorem Course.tour_stopped {σ : Type} (course : Course n render visited stack vs stop)
    (visitor : Visitor σ ε) {before after : List Visit} {v : Visit} {first middle last : σ} {e : ε}
    (split : vs = before ++ v :: after)
    (seen : (before.forM visitor).run first = (.ok (), middle))
    (refused : (visitor v).run middle = (.error e, last)) :
    (tour n render visitor visited stack).run first = (.error e, last) := by
  have here : ((v :: after).forM visitor).run middle = (.error e, last) := by
    change (visitor v >>= fun _ => after.forM visitor).run middle = _
    rw [run_bind, refused]
  have all : (vs.forM visitor).run first = (.error e, last) := by
    rw [split, List.forM_eq_forM, List.forM_append, run_bind]
    rw [List.forM_eq_forM] at seen
    rw [seen]
    exact here
  rw [course.tour_eq visitor, run_bind, all]

variable (own : ∀ id v, render id = .ok v → v.id = id)

include own

theorem Course.discovered (course : Course n render visited stack vs stop) :
    ∀ before v after, vs = before ++ v :: after → v.id ∈ stack ∨ ∃ w ∈ before, v.id ∈ w.deps := by
  induction course with
  | done => simp
  | pass known onward ih =>
    intro before v after split
    exact (ih before v after split).imp_left (List.mem_cons_of_mem _)
  | fail small new failed => simp
  | @visit visited rest id v vs stop small new shown onward ih =>
    intro before w after split
    cases before with
    | nil =>
      obtain ⟨rfl, _⟩ := List.cons.inj split
      rw [own id v shown]
      exact .inl List.mem_cons_self
    | cons u before =>
      obtain ⟨rfl, onward⟩ := List.cons.inj split
      rcases ih before w after onward with stacked | ⟨x, inside, named⟩
      · rcases List.mem_append.mp stacked with named | later
        · exact .inr ⟨v, List.mem_cons_self, named⟩
        · exact .inl (List.mem_cons_of_mem _ later)
      · exact .inr ⟨x, List.mem_cons_of_mem _ inside, named⟩

/-- A walk is ended by something that it did not get to see. -/
theorem Course.stopped {e : ε} (course : Course n render visited stack vs stop) (halt : stop = some e) :
    ∃ i, i < n ∧ render i = .error e ∧ i ∉ vs.map (·.id) ∧
      (i ∈ stack ∨ ∃ w ∈ vs, i ∈ w.deps) := by
  induction course with
  | done => cases halt
  | pass known onward ih =>
    obtain ⟨i, small, failed, unseen, found⟩ := ih halt
    exact ⟨i, small, failed, unseen, found.imp_left (List.mem_cons_of_mem _)⟩
  | @fail visited rest id e' small new failed =>
    cases halt
    exact ⟨id, small, failed, by simp, .inl List.mem_cons_self⟩
  | @visit visited rest id v vs stop small new shown onward ih =>
    obtain ⟨i, within, failed, unseen, found⟩ := ih halt
    refine ⟨i, within, failed, ?_, ?_⟩
    · rw [List.map_cons, List.mem_cons, not_or]
      refine ⟨?_, unseen⟩
      rintro rfl
      rw [own id v shown, shown] at failed
      cases failed
    · rcases found with stacked | ⟨w, inside, named⟩
      · rcases List.mem_append.mp stacked with named | later
        · exact .inr ⟨v, List.mem_cons_self, named⟩
        · exact .inl (List.mem_cons_of_mem _ later)
      · exact .inr ⟨w, List.mem_cons_of_mem _ inside, named⟩

end

inductive Reachable (cfg : Setting) (s : Store) (roots : List Container) : Id → Prop
  | root {i : Id} (listed : i ∈ roots.flatten) (stored : i < s.descriptors.size) :
      Reachable cfg s roots i
  | named {i j : Id} {v : Visit} (before : Reachable cfg s roots i) (shown : visit cfg s i = .ok v)
      (named : j ∈ v.deps) : Reachable cfg s roots j

variable {cfg : Setting} {s : Store} {roots : List Container} {vs : List Visit} {stop : Option Failure}

theorem Course.reachable
    (course : Course s.descriptors.size (Declaration.visit cfg s) [] roots.flatten vs stop) :
    ∀ v ∈ vs, Reachable cfg s roots v.id := by
  -- by the place of the visit: whatever names it was seen before it
  suffices ∀ before v after, vs = before ++ v :: after → Reachable cfg s roots v.id by
    intro v inside
    obtain ⟨before, after, split⟩ := List.append_of_mem inside
    exact this before v after split
  intro before
  induction length : before.length using Nat.strongRecOn generalizing before with
  | _ length ih =>
    intro v after split
    subst length
    have seen : v ∈ vs := by
      rw [split]
      simp
    rcases course.discovered (fun _ _ => visit_id) before v after split with root | ⟨w, earlier, named⟩
    · exact .root root (course.shown (fun _ _ => visit_id) v seen).1
    · obtain ⟨first, second, parts⟩ := List.append_of_mem earlier
      have whole : vs = first ++ w :: (second ++ v :: after) := by
        rw [split, parts]
        simp
      have shorter : first.length < before.length := by
        rw [parts]
        simp
      have shown := (course.shown (fun _ _ => visit_id) w (by rw [whole]; simp)).2
      exact .named (ih first.length shorter first rfl w _ whole) shown named

/-- A walk that is not ended early sees all that can be reached. -/
theorem Course.complete
    (course : Course s.descriptors.size (Declaration.visit cfg s) [] roots.flatten vs none)
    {i : Id} (reachable : Reachable cfg s roots i) : i ∈ vs.map (·.id) := by
  have walked := walk_walked (fun _ _ => visit_id) course.walk_eq
  induction reachable with
  | root listed stored => exact (walked.reached _ listed stored).resolve_left List.not_mem_nil
  | @named i j v before shown named ih =>
    obtain ⟨w, inside, same⟩ := List.mem_map.mp ih
    have again := walked.shown w inside
    rw [same, shown] at again
    cases again
    exact (walked.closed v inside j named (visit_deps shown j named).lt).resolve_left List.not_mem_nil

/-- Every visitor is shown the same visits, in the same order, until it stops the walk itself or a text
fails: each descriptor at most once, only what can be reached, and nothing that is neither a root nor
named by something shown before. Nothing is missing where all texts succeed. A visitor that stops the
walk is shown nothing more, and a walk that a text ends had not come to see its descriptor. -/
theorem renderAll_visits (cfg : Setting) (s : Store) (roots : List Container) :
    ∃ (vs : List Visit) (stop : Option Failure),
      (∀ (σ : Type) (visitor : Visitor σ Failure),
        renderAll cfg s visitor roots = (do vs.forM visitor; ending stop)) ∧
      visits cfg s roots = record vs stop ∧
      (vs.map (·.id)).Nodup ∧
      (∀ v ∈ vs, visit cfg s v.id = .ok v ∧ Reachable cfg s roots v.id) ∧
      (∀ before v after, vs = before ++ v :: after →
        v.id ∈ roots.flatten ∨ ∃ w ∈ before, v.id ∈ w.deps) ∧
      ((∀ i, Reachable cfg s roots i → ∃ v, visit cfg s i = .ok v) →
        stop = none ∧ ∀ i, i ∈ vs.map (·.id) ↔ Reachable cfg s roots i) ∧
      (∀ (σ : Type) (visitor : Visitor σ Failure) before v after (first middle last : σ) e,
        vs = before ++ v :: after → (before.forM visitor).run first = (.ok (), middle) →
        (visitor v).run middle = (.error e, last) →
        (renderAll cfg s visitor roots).run first = (.error e, last)) ∧
      (∀ e, stop = some e → ∃ i, Reachable cfg s roots i ∧ visit cfg s i = .error e ∧
        i ∉ vs.map (·.id)) := by
  obtain ⟨vs, stop, course⟩ := course_exists s.descriptors.size (visit cfg s) [] roots.flatten
  have ended : ∀ e, stop = some e → ∃ i, Reachable cfg s roots i ∧ visit cfg s i = .error e ∧
      i ∉ vs.map (·.id) := by
    intro e halt
    obtain ⟨i, small, failed, unseen, found⟩ := course.stopped (fun _ _ => visit_id) halt
    refine ⟨i, ?_, failed, unseen⟩
    rcases found with root | ⟨w, inside, named⟩
    · exact .root root small
    · exact .named (course.reachable w inside) (course.shown (fun _ _ => visit_id) w inside).2 named
  refine ⟨vs, stop, fun _ visitor => course.tour_eq visitor, course.walk_eq,
    course.once fun _ _ => visit_id, ?_, course.discovered fun _ _ => visit_id, ?_, ?_, ended⟩
  · intro v inside
    exact ⟨(course.shown (fun _ _ => visit_id) v inside).2, course.reachable v inside⟩
  · intro succeeds
    have whole : stop = none := by
      cases halt : stop with
      | none => rfl
      | some e =>
        obtain ⟨i, reachable, failed, _⟩ := ended e halt
        obtain ⟨v, shown⟩ := succeeds i reachable
        rw [shown] at failed
        cases failed
    subst whole
    refine ⟨rfl, fun i => ⟨?_, course.complete⟩⟩
    intro inside
    obtain ⟨v, visited, rfl⟩ := List.mem_map.mp inside
    exact course.reachable v visited
  · intro σ visitor before v after first middle last e split seen refused
    exact course.tour_stopped visitor split seen refused

end Typesmith.Declaration
