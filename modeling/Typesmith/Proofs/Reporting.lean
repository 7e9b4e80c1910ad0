import Typesmith.Proofs.Blaming
import Typesmith.Proofs.Coverage
import Typesmith.Proofs.Unfolding

namespace Typesmith.Declaration

open Model

/-- A walk comes to its end when everything on the stack has a text, and everything that a text names. -/
theorem walk_total {ε : Type} {n : Nat} {render : Id → Except ε Visit} {good : Id → Prop}
    (each : ∀ id, good id → ∃ v, render id = .ok v ∧ ∀ i ∈ v.deps, good i) {visited stack : List Id}
    (start : ∀ i ∈ stack, good i) : ∃ visits, walk n render visited stack = .ok visits := by
  obtain ⟨vs, stop, course⟩ := course_exists n render visited stack
  have whole : stop = none := by
    induction course with
    | done => rfl
    | pass known onward ih => exact ih fun i later => start i (List.mem_cons_of_mem _ later)
    | @fail visited rest id e small new failed =>
      obtain ⟨v, shown, _⟩ := each id (start id List.mem_cons_self)
      cases shown.symm.trans failed
    | @visit visited rest id v vs stop small new shown onward ih =>
      -- what is put on the stack was named by a visit, so it is good again
      obtain ⟨w, again, named⟩ := each id (start id List.mem_cons_self)
      cases again.symm.trans shown
      exact ih fun i inside => (List.mem_append.mp inside).elim (named i) fun later =>
        start i (List.mem_cons_of_mem _ later)
  exact ⟨vs, by rw [course.walk_eq, whole]; rfl⟩

variable {cfg : Setting} {s : Store}

theorem visit_total (tidy : Tidy s) (unfolds : Unfolds s) {id : Id} (named : HasName s id) :
    ∃ v, visit cfg s id = .ok v ∧ ∀ i ∈ v.deps, HasName s i := by
  obtain ⟨d, found, filled⟩ := named
  have texts : ∀ j e, s.get? j = some e → ∀ i ∈ e.shape.inside, Completes (inlineText cfg s i) :=
    fun j e stored i inside => (tidy.grounded unfolds).completes (unfolds j e stored i inside).lt (by omega)
  obtain ⟨⟨text, deps⟩, run⟩ := completes_composes.declaration found filled texts []
  have shown : visit cfg s id = .ok ⟨id, text, deps⟩ := except_bind_ok.mpr ⟨_, run, rfl⟩
  exact ⟨_, shown, visit_deps shown⟩

theorem collect_total (tidy : Tidy s) (unfolds : Unfolds s) {roots : List Container}
    (rooted : ∀ i ∈ roots.flatten, HasName s i) : ∃ ds, collect cfg s roots = .ok ds := by
  obtain ⟨vs, done⟩ : ∃ vs, visits cfg s roots = .ok vs :=
    walk_total (fun _ => visit_total tidy unfolds) rooted
  exact ⟨_, except_bind_ok.mpr ⟨vs, done, rfl⟩⟩

end Typesmith.Declaration

namespace Typesmith

def Problem.Outward (p : Problem) : Prop :=
  ∀ f, p.fault? = some f → ¬ f.Internal

end Typesmith

namespace Typesmith.Conversion

open Model Declaration

section

variable {cfg : Model.Setting} {q : Request} {doc : Document} {s t : Store}

/-- A root set with a store in which all that it leads to has a text. -/
structure Ready (skips : List String) (r : Roots) (s : Store) : Prop where
  grown : Grown skips r s
  unfolds : Unfolds s

theorem Ready.of_quiet {skips : List String} {r : Roots} (ready : Ready skips r s) (quiet : Quiet s t) :
    Ready skips r t :=
  ⟨ready.grown.of_quiet quiet, ready.unfolds.of_same quiet.descriptors⟩

theorem Ready.add {skips : List String} {r r' : Roots} {ref : String} (ready : Ready skips r s)
    (run : Returns (r.add cfg skips ref) s r' t) : Ready skips r' t := by
  obtain ⟨_, gathered⟩ := ready.grown
  obtain ⟨c, found, _⟩ := returns_add.mp run
  exact ⟨ready.grown.add run, findOrCreate_unfolds found gathered.tidy ready.unfolds⟩

theorem Ready.collect_total {skips : List String} {r : Roots} (ready : Ready skips r s)
    (cfg : Model.Setting) : ∃ ds, collect cfg s r.containers = .ok ds := by
  obtain ⟨_, gathered⟩ := ready.grown
  exact Declaration.collect_total gathered.tidy ready.unfolds gathered.rooted

theorem addComponents_ready {r : Roots} (run : Succeeds (addComponents q cfg doc) {} r t) :
    Ready q.skips r t := by
  refine addComponents_keeps (fun _ => Ready q.skips) ?_ ?_ run ⟨⟨[], gathered_fresh q.skips⟩, unfolds_fresh⟩
  · exact fun _ _ _ _ _ _ quiet ready => ready.of_quiet quiet
  · exact fun _ _ _ _ _ _ added ready => ready.add added

theorem addEntryPoints_ready {r : Roots} {entries : List EntryPoint}
    {out : Roots × List (String × List String)} (run : Succeeds (addEntryPoints q cfg r entries) s out t)
    (ready : Ready q.skips r s) : Ready q.skips out.1 t := by
  refine addEntryPoints_keeps (fun _ b => Ready q.skips b.1) ?_ ?_ run ready
  · exact fun _ _ _ _ _ ready => ready
  · exact fun _ _ _ _ _ _ added ready => ready.add added

theorem aliasOf_failsOnly (name ref : String) (c : Container) :
    FailsOnly Failure.Outward (aliasOf cfg s name ref c) := by
  have text : ∀ i deps, FailsOnly Failure.Outward ((inlineText cfg s i).run deps) := by
    rintro i deps _ failed
    rw [inlineDepth_failsOnly s _ i deps _ failed]
    trivial
  unfold aliasOf
  split
  · exact failsOnly_ok _
  · exact (failsOnly_composes.container (fun i _ => text i) []).bind fun _ => failsOnly_ok _

theorem add_stopsOnly (rules : cfg.rules = Rule.defaults) (skips : List String) (r : Roots)
    (ref : String) : StopsOnly Failure.Outward (r.add cfg skips ref) := by
  refine (findOrCreate_stopsOnly rules ref).bind fun c => ?_
  refine StopsOnly.bind (fun _ => failsOnly_ok _) fun s => stopsOnly_lift ?_
  unfold Roots.take
  dsimp only
  split
  · exact failsOnly_ok _
  · exact (aliasOf_failsOnly _ _ c).bind fun _ => failsOnly_ok _

theorem converting_error {α : Type} {step : ConvertM α} {place : Option String} {p : Problem}
    (failed : ((converting place step).run s).1 = .error p) :
    ∃ e, (step.run s).1 = .error e ∧ p.fault? = (Problem.failure e).fault? := by
  unfold converting at failed
  simp only [ExceptT.run_mk, bind, StateT.bind] at failed
  rcases ran : step.run s with ⟨e | a, t⟩
  · refine ⟨e, rfl, ?_⟩
    rw [ran] at failed
    cases place <;> cases failed <;> rfl
  · rw [ran] at failed
    cases failed

theorem converting_stopsOnly {α : Type} {step : ConvertM α} (only : StopsOnly Failure.Outward step)
    (place : Option String) : StopsOnly Problem.Outward (converting place step) := by
  intro s p failed f shown
  obtain ⟨e, stopped, same⟩ := converting_error failed
  have outward := only s e stopped
  rw [same] at shown
  cases e with
  | fault g =>
    cases shown
    exact outward
  | _ => cases shown

theorem note_stopsOnly (lines : List String) : StopsOnly Problem.Outward (note lines) :=
  fun _ => failsOnly_ok _

theorem addComponents_stopsOnly (rules : cfg.rules = Rule.defaults) :
    StopsOnly Problem.Outward (addComponents q cfg doc) := by
  refine StopsOnly.foldlM (fun r component => ?_) _ _
  dsimp only
  split
  · exact (note_stopsOnly _).bind fun _ => stopsOnly_pure r
  · exact converting_stopsOnly (add_stopsOnly rules _ r _) none

theorem entryPointsOf_stopsOnly : StopsOnly Problem.Outward (entryPointsOf q cfg doc) := by
  refine (note_stopsOnly _).bind fun _ => ?_
  dsimp only
  split
  · exact stopsOnly_pure _
  · rename_i place fault failed
    refine stopsOnly_throw ?_
    rintro _ ⟨⟩
    exact (EntryPoint.synthesize_stopsOnly _ doc _ _ failed).not_internal

theorem addEntryPoints_stopsOnly (rules : cfg.rules = Rule.defaults) (r : Roots)
    (entries : List EntryPoint) : StopsOnly Problem.Outward (addEntryPoints q cfg r entries) := by
  refine StopsOnly.foldlM (fun known e => ?_) _ _
  obtain ⟨r, listed⟩ := known
  dsimp only
  split
  · exact stopsOnly_pure _
  · exact (converting_stopsOnly (add_stopsOnly rules _ r _) _).bind fun _ => stopsOnly_pure _

theorem error_bind {α β : Type} {x : RunM α} {f : α → RunM β} {p : Problem}
    (failed : (perform (x >>= f) s).1 = .error p) :
    (perform x s).1 = .error p ∨ ∃ a m, Succeeds x s a m ∧ (perform (f a) m).1 = .error p := by
  rw [perform_bind] at failed
  rcases ran : perform x s with ⟨e | a, m⟩ <;> rw [ran] at failed
  · cases failed
    exact .inl rfl
  · exact .inr ⟨a, m, ran, failed⟩

theorem conclude_succeeds {roots : Roots} {listed : List (String × List String)} {p : Problem}
    (collected : ∃ ds, collect cfg s roots.containers = .ok ds) :
    (perform (conclude cfg doc roots listed) s).1 ≠ .error p := by
  obtain ⟨ds, collected⟩ := collected
  have done : Succeeds (conclude cfg doc roots listed) s _ s :=
    succeeds_conclude.mpr ⟨ds, collected, rfl, rfl⟩
  rw [show perform (conclude cfg doc roots listed) s = _ from done]
  intro failed
  cases failed

end

/-- A run never fails with an internal fault, and once all that is asked for was taken in it does not fail at
all: everything that was gathered can be declared. -/
theorem run_faults_outward (q : Request) (foreign : Option DocumentLoader) (doc : Document) :
    (∀ p f, (outcome q foreign doc).answer = .error p → p.fault? = some f → ¬ f.Internal) ∧
    ∀ roots s, Succeeds (addComponents q (q.setting foreign doc) doc) {} roots s →
      (∃ ds, collect (q.setting foreign doc) s roots.containers = .ok ds) ∧
      ∀ entries m all listed t, Succeeds (entryPointsOf q (q.setting foreign doc) doc) s entries m →
        Succeeds (addEntryPoints q (mountAll (q.setting foreign doc) entries) roots entries) m
          (all, listed) t →
        ∃ ds, collect (mountAll (q.setting foreign doc) entries) t all.containers = .ok ds := by
  have gathered {roots : Roots} {entries : List EntryPoint} {all : Roots × List (String × List String)}
      {s m t : Store} (components : Succeeds (addComponents q (q.setting foreign doc) doc) {} roots s)
      (found : Succeeds (entryPointsOf q (q.setting foreign doc) doc) s entries m)
      (added : Succeeds (addEntryPoints q (mountAll (q.setting foreign doc) entries) roots entries) m all t) :
      Ready q.skips all.1 t :=
    addEntryPoints_ready added ((addComponents_ready components).of_quiet (quiet_entryPointsOf found))
  constructor
  · intro p f failed
    suffices outward : p.Outward from outward f
    rcases error_bind failed with first | ⟨roots, s, components, failed⟩
    · exact addComponents_stopsOnly rfl {} p first
    split at failed
    · exact absurd failed (conclude_succeeds ((addComponents_ready components).collect_total _))
    rcases error_bind failed with second | ⟨entries, m, found, failed⟩
    · exact entryPointsOf_stopsOnly s p second
    rcases error_bind failed with third | ⟨⟨all, listed⟩, t, added, failed⟩
    · have rules : (mountAll (q.setting foreign doc) entries).rules = Rule.defaults := by
        rw [mountAll_eq]
        rfl
      exact addEntryPoints_stopsOnly rules roots entries m p third
    · exact absurd failed (conclude_succeeds ((gathered components found added).collect_total _))
  · intro roots s components
    refine ⟨(addComponents_ready components).collect_total _, ?_⟩
    intro entries m all listed t found added
    exact (gathered components found added).collect_total _

def broken : Document where
  path := ""
  name := ""
  root := .obj [("components", .obj [("schemas", .obj [
    ("A", .obj [("$ref", .str "#/components/schemas/B")])])]), ("openapi", .str "3.0.0")]

theorem run_faults_outward_broken :
    (∃ p f, (outcome {} none broken).answer = .error p ∧ p.fault? = some f ∧ f.code = .reference ∧
      ¬ f.Internal) ∧
    ∃ roots s entries m all listed t,
      Succeeds (addComponents {} (Request.setting {} none petShop) petShop) {} roots s ∧
      Succeeds (entryPointsOf {} (Request.setting {} none petShop) petShop) s entries m ∧
      Succeeds (addEntryPoints {} (mountAll (Request.setting {} none petShop) entries) roots entries) m
        (all, listed) t ∧
      ∃ ds, collect (mountAll (Request.setting {} none petShop) entries) t all.containers = .ok ds := by
  constructor
  · have evaluated : (match (outcome {} none broken).answer with
        | .error p => p.fault?.map (·.code)
        | .ok _ => none) = some .reference := by
      simp only [outcome, run, addComponents, Roots.add, findOrCreate, deepening_eq]
      decide +kernel
    cases answer : (outcome {} none broken).answer with
    | ok r =>
      rw [answer] at evaluated
      cases evaluated
    | error p =>
      rw [answer] at evaluated
      obtain ⟨f, cause, code⟩ := Option.map_eq_some_iff.mp evaluated
      exact ⟨p, f, rfl, cause, code, (run_faults_outward {} none broken).1 p f answer cause⟩
  · obtain ⟨x, sound, _⟩ := petShop_trace
    refine ⟨x.roots, x.early, x.entries, x.mounted, x.all, x.listed, x.store, sound.components,
      sound.found, sound.added, ?_⟩
    exact ((run_faults_outward {} none petShop).2 _ _ sound.components).2 _ _ _ _ _ sound.found sound.added

end Typesmith.Conversion
