import Typesmith.Conversion.Run
import Typesmith.Proofs.Rooting

namespace Typesmith.Conversion

open Model Declaration

variable {α β : Type} {s t : Store}

/-- What a step of a run leaves behind when it starts from a store. -/
def perform (x : RunM α) (s : Store) : Except Problem α × Store := x.run s

def Succeeds (x : RunM α) (s : Store) (a : α) (t : Store) : Prop :=
  perform x s = (.ok a, t)

@[simp] theorem perform_pure (a : α) (s : Store) : perform (pure a) s = (.ok a, s) := rfl

@[simp] theorem perform_throw (p : Problem) (s : Store) :
    perform (throw p : RunM α) s = (.error p, s) := rfl

theorem perform_bind (x : RunM α) (f : α → RunM β) (s : Store) :
    perform (x >>= f) s = match perform x s with
      | (.ok a, t) => perform (f a) t
      | (.error p, t) => (.error p, t) := by
  change (match perform x s with | (r, t) => (ExceptT.bindCont f r) t) = _
  rcases perform x s with ⟨_ | _, _⟩ <;> rfl

theorem succeeds_pure {a b : α} : Succeeds (pure a) s b t ↔ a = b ∧ s = t := by
  simp [Succeeds]

theorem not_succeeds_throw {p : Problem} {a : α} : ¬ Succeeds (throw p) s a t := by
  simp [Succeeds]

theorem succeeds_bind {x : RunM α} {f : α → RunM β} {b : β} :
    Succeeds (x >>= f) s b t ↔ ∃ a m, Succeeds x s a m ∧ Succeeds (f a) m b t :=
  run_bind_ok_iff

theorem succeeds_converting {place : Option String} {step : ConvertM α} {a : α} :
    Succeeds (converting place step) s a t ↔ Returns step s a t := by
  rcases ran : exec step s with ⟨_ | b, m⟩
  · have failed : ∃ p, perform (converting place step) s = (.error p, m) := by
      unfold perform converting
      simp only [ExceptT.run_mk, bind, StateT.bind]
      rw [show step.run s = _ from ran]
      exact ⟨_, rfl⟩
    obtain ⟨p, failed⟩ := failed
    simp [Succeeds, Returns, ran, failed]
  · have done : perform (converting place step) s = (.ok b, m) := by
      unfold perform converting
      simp only [ExceptT.run_mk, bind, StateT.bind]
      rw [show step.run s = _ from ran]
      rfl
    simp [Succeeds, Returns, ran, done]

theorem quiet_note (lines : List String) {u : Unit} (run : Succeeds (note lines) s u t) : Quiet s t := by
  cases run
  exact ⟨rfl, rfl, .refl _, List.prefix_rfl⟩

/-- What every round of a loop adds to what is known of the rounds before it, the loop adds up. -/
theorem Succeeds.rounds {f : β → α → RunM β} {l : List α} {b r : β} (keep : List α → β → Store → Prop)
    (each : ∀ done b x s c t, Succeeds (f b x) s c t → keep done b s → keep (done ++ [x]) c t)
    (run : Succeeds (l.foldlM f b) s r t) (start : keep [] b s) : keep l r t := by
  suffices ∀ done, keep done b s → keep (done ++ l) r t by simpa using this [] start
  clear start
  induction l generalizing b s with
  | nil =>
    obtain ⟨rfl, rfl⟩ := succeeds_pure.mp run
    intro done before
    rwa [List.append_nil]
  | cons x l ih =>
    obtain ⟨c, m, first, rest⟩ := succeeds_bind.mp run
    intro done before
    have all := ih rest (done ++ [x]) (each done b x s c m first before)
    rwa [List.append_assoc] at all

def Passed (q : Request) (component : String) : Prop :=
  component ∈ q.skips ∨ Naming.modelName component ∈ q.skips

theorem addComponents_keeps {q : Request} {cfg : Model.Setting} {doc : Document} {r : Roots}
    (keep : List (String × Json) → Roots → Store → Prop)
    (skipped : ∀ done r component s t, Passed q component.1 → Quiet s t → keep done r s →
      keep (done ++ [component]) r t)
    (taken : ∀ done r component s r' t,
      Returns (r.add cfg q.skips (Reference.component component.1)) s r' t → keep done r s →
      keep (done ++ [component]) r' t)
    (run : Succeeds (addComponents q cfg doc) s r t) (start : keep [] {} s) :
    keep doc.components r t := by
  refine Succeeds.rounds keep ?_ run start
  intro done r component s r' t round before
  dsimp only at round
  split at round
  · rename_i passed
    simp only [Bool.or_eq_true, List.contains_eq_mem, decide_eq_true_eq] at passed
    obtain ⟨_, m, noted, round⟩ := succeeds_bind.mp round
    obtain ⟨rfl, rfl⟩ := succeeds_pure.mp round
    exact skipped done r component s m passed (quiet_note _ noted) before
  · exact taken done r component s r' t (succeeds_converting.mp round) before

theorem addEntryPoints_keeps {q : Request} {cfg : Model.Setting} {r : Roots} {entries : List EntryPoint}
    {out : Roots × List (String × List String)}
    (keep : List EntryPoint → Roots × List (String × List String) → Store → Prop)
    (skipped : ∀ done b e s, e.name ∈ q.skips → keep done b s → keep (done ++ [e]) b s)
    (taken : ∀ done b e s r' t, Returns (b.1.add cfg q.skips e.ref) s r' t → keep done b s →
      keep (done ++ [e]) (r', if (r'.declaredAt e.ref).isEmpty then b.2 else
        Json.setField e.name (r'.declaredAt e.ref) b.2) t)
    (run : Succeeds (addEntryPoints q cfg r entries) s out t) (start : keep [] (r, []) s) :
    keep entries out t := by
  refine Succeeds.rounds keep ?_ run start
  rintro done ⟨r, listed⟩ e s out t round before
  dsimp only at round
  split at round
  · rename_i passed
    obtain ⟨rfl, rfl⟩ := succeeds_pure.mp round
    exact skipped done _ e s (by simpa using passed) before
  · obtain ⟨r', m, added, round⟩ := succeeds_bind.mp round
    obtain ⟨rfl, rfl⟩ := succeeds_pure.mp round
    exact taken done (r, listed) e s r' m (succeeds_converting.mp added) before

def Grown (skips : List String) (r : Roots) (s : Store) : Prop :=
  ∃ refs, Gathered skips refs s r

theorem Grown.of_quiet {skips : List String} {r : Roots} (grown : Grown skips r s) (quiet : Quiet s t) :
    Grown skips r t := by
  obtain ⟨refs, gathered⟩ := grown
  exact ⟨refs, gathered.grows (gathered.tidy.of_quiet quiet) quiet.grows⟩

theorem Grown.add {cfg : Model.Setting} {skips : List String} {r r' : Roots} {ref : String}
    (grown : Grown skips r s) (run : Returns (r.add cfg skips ref) s r' t) : Grown skips r' t := by
  obtain ⟨refs, gathered⟩ := grown
  exact ⟨_, gathered.add run⟩

theorem addComponents_grown {q : Request} {cfg : Model.Setting} {doc : Document} {r : Roots}
    (run : Succeeds (addComponents q cfg doc) {} r t) : Grown q.skips r t := by
  refine addComponents_keeps (fun _ => Grown q.skips) ?_ ?_ run ⟨[], gathered_fresh q.skips⟩
  · exact fun _ _ _ _ _ _ quiet grown => grown.of_quiet quiet
  · exact fun _ _ _ _ _ _ added grown => grown.add added

theorem addEntryPoints_grown {q : Request} {cfg : Model.Setting} {r : Roots} {entries : List EntryPoint}
    {out : Roots × List (String × List String)}
    (run : Succeeds (addEntryPoints q cfg r entries) s out t) (grown : Grown q.skips r s) :
    Grown q.skips out.1 t := by
  refine addEntryPoints_keeps (fun _ b => Grown q.skips b.1) ?_ ?_ run grown
  · exact fun _ _ _ _ _ grown => grown
  · exact fun _ _ _ _ _ _ added grown => grown.add added

theorem quiet_entryPointsOf {q : Request} {cfg : Model.Setting} {doc : Document}
    {entries : List EntryPoint} (run : Succeeds (entryPointsOf q cfg doc) s entries t) : Quiet s t := by
  obtain ⟨_, m, noted, run⟩ := succeeds_bind.mp run
  dsimp only at run
  split at run
  · obtain ⟨_, rfl⟩ := succeeds_pure.mp run
    exact quiet_note _ noted
  · exact absurd run not_succeeds_throw

/-- What is declared in the end: all that can be reached from the roots, and the aliases. -/
structure Declares (skips : List String) (r : Result) (cfg : Model.Setting) (s : Store) (roots : Roots)
    (ds : List Declaration) : Prop where
  grown : Grown skips roots s
  collected : collect cfg s roots.containers = .ok ds
  all : r.declarations = sortByName (ds ++ roots.aliases)

theorem succeeds_conclude {cfg : Model.Setting} {doc : Document} {roots : Roots}
    {listed : List (String × List String)} {r : Result} :
    Succeeds (conclude cfg doc roots listed) s r t ↔ ∃ ds, collect cfg s roots.containers = .ok ds ∧
      r = ⟨doc, sortByName (ds ++ roots.aliases), listed, s.warnings⟩ ∧ s = t := by
  unfold conclude
  constructor
  · intro run
    obtain ⟨_, _, got, run⟩ := succeeds_bind.mp run
    cases got
    split at run
    · exact absurd run not_succeeds_throw
    · obtain ⟨rfl, rfl⟩ := succeeds_pure.mp run
      exact ⟨_, ‹_›, rfl, rfl⟩
  · rintro ⟨ds, collected, rfl, rfl⟩
    refine succeeds_bind.mpr ⟨s, s, rfl, ?_⟩
    rw [collected]
    rfl

theorem run_declares {q : Request} {foreign : Option DocumentLoader} {doc : Document} {r : Result}
    (run : Succeeds (run q foreign doc) {} r t) :
    ∃ cfg s roots ds, Declares q.skips r cfg s roots ds := by
  obtain ⟨roots, m, components, run⟩ := succeeds_bind.mp run
  have grown := addComponents_grown components
  split at run
  · obtain ⟨ds, collected, rfl, _⟩ := succeeds_conclude.mp run
    exact ⟨_, m, roots, ds, grown, collected, rfl⟩
  · obtain ⟨entries, k, found, run⟩ := succeeds_bind.mp run
    obtain ⟨⟨roots', listed⟩, l, added, run⟩ := succeeds_bind.mp run
    obtain ⟨ds, collected, rfl, _⟩ := succeeds_conclude.mp run
    have after := addEntryPoints_grown added (grown.of_quiet (quiet_entryPointsOf found))
    exact ⟨_, l, roots', ds, after, collected, rfl⟩

/-- Whatever a declaration of a run names is declared by the run, unless an alias names a model that
is to be skipped. -/
theorem dependencies_declared {q : Request} {foreign : Option DocumentLoader} {doc : Document}
    {r : Result} (done : (outcome q foreign doc).answer = .ok r) :
    ∀ d ∈ r.declarations, ∀ dep ∈ d.dependencies, dep ∈ r.declarations.map (·.name) ∨
      (d.kind = Kind.any.label ∧ dep ∈ q.skips) := by
  have ran : Succeeds (run q foreign doc) {} r (perform (run q foreign doc) {}).2 := Prod.ext done rfl
  obtain ⟨cfg, s, roots, ds, ⟨refs, gathered⟩, collected, all⟩ := run_declares ran
  have names : ∀ name, name ∈ r.declarations.map (·.name) ↔
      name ∈ ds.map (·.name) ∨ name ∈ roots.aliases.map (·.name) := by
    intro name
    rw [all, sortByName, ((List.mergeSort_perm _ _).map _).mem_iff, List.map_append, List.mem_append]
  intro d inside dep depends
  rw [all, sortByName, List.mem_mergeSort, List.mem_append] at inside
  rw [names]
  rcases inside with declared | aliased
  · exact .inl (.inl (collect_closed collected declared depends))
  · obtain ⟨kind, linked⟩ := gathered.linked d aliased
    rcases linked dep depends with skipped | ⟨i, root, rfl⟩
    · exact .inr ⟨kind, skipped⟩
    · exact .inl (.inl (collect_roots collected root (gathered.rooted i root)))

theorem succeeds_components {q : Request} {foreign : Option DocumentLoader} {doc : Document}
    {roots : Roots} {ds : List Declaration} (only : q.componentsOnly = true)
    (added : Succeeds (addComponents q (q.setting foreign doc) doc) {} roots s)
    (collected : collect (q.setting foreign doc) s roots.containers = .ok ds) :
    Succeeds (run q foreign doc) {} ⟨doc, sortByName (ds ++ roots.aliases), [], s.warnings⟩ s := by
  refine succeeds_bind.mpr ⟨roots, s, added, ?_⟩
  rw [if_pos only]
  exact succeeds_conclude.mpr ⟨ds, collected, rfl, rfl⟩

/-- What a run over components alone comes to before the declarations are sorted, if it succeeds and
visits the descriptors in so many steps. -/
def componentsWithin (steps : Nat) (q : Request) (doc : Document) : Option (Roots × Store × List Visit) :=
  match perform (addComponents q (q.setting none doc) doc) {} with
  | (.ok roots, s) => (visitsWithin steps (q.setting none doc) s roots.containers).map (roots, s, ·)
  | (.error _, _) => none

theorem succeeds_of_componentsWithin {steps : Nat} {q : Request} {doc : Document} {roots : Roots}
    {vs : List Visit} (only : q.componentsOnly = true)
    (done : componentsWithin steps q doc = some (roots, s, vs)) :
    Succeeds (run q none doc) {}
      ⟨doc, sortByName (sortByName (vs.map (ofVisit s)) ++ roots.aliases), [], s.warnings⟩ s := by
  unfold componentsWithin at done
  split at done
  · rename_i added
    obtain ⟨_, visited, same⟩ := Option.map_eq_some_iff.mp done
    cases same
    exact succeeds_components only added (collect_of_visitsWithin visited)
  · cases done

def outline : Document where
  path := ""
  name := ""
  root := .obj [("components", .obj [("schemas", .obj [
      ("A", .obj [("$ref", .str "#/components/schemas/B")]),
      ("B", .obj [("properties", .obj [("c", .obj [("$ref", .str "#/components/schemas/C")])]),
        ("type", .str "object")]),
      ("C", .obj [("type", .str "string")])])]),
    ("openapi", .str "3.0.0")]

theorem dependencies_declared_outline :
    ∃ r, (outcome { componentsOnly := true, skips := ["C"] } none outline).answer = .ok r ∧
      (∃ d ∈ r.declarations, d.dependencies = ["C"]) ∧
      ∀ d ∈ r.declarations, ∀ dep ∈ d.dependencies, dep ∈ r.declarations.map (·.name) ∨
        (d.kind = Kind.any.label ∧ dep ∈ ["C"]) := by
  have evaluated : (componentsWithin 5 { componentsOnly := true, skips := ["C"] } outline).map
      (fun x => (x.2.2.map fun v => (v.id, v.deps), nameOf x.2.1 1)) = some ([(0, [1]), (1, [])], "C") := by
    simp only [componentsWithin, addComponents, Roots.add, findOrCreate, deepening_eq]
    decide +kernel
  obtain ⟨⟨roots, s, vs⟩, ran, same⟩ := Option.map_eq_some_iff.mp evaluated
  obtain ⟨visits, name⟩ := Prod.mk.inj same
  obtain ⟨v, _, rfl, first, _⟩ := List.map_eq_cons_iff.mp visits
  obtain ⟨id, deps⟩ := Prod.mk.inj first
  have done := succeeds_of_componentsWithin (q := { componentsOnly := true, skips := ["C"] }) rfl ran
  refine ⟨_, congrArg Prod.fst done, ⟨ofVisit s v, by simp [sortByName], ?_⟩,
    dependencies_declared (congrArg Prod.fst done)⟩
  simp [ofVisit, id, deps, name, Text.sort]

/-- An alias does not bring its target along: one that is to be skipped is named and not declared. -/
theorem dependency_undeclared_skipped :
    ∃ r, (outcome { componentsOnly := true, skips := ["B", "C"] } none outline).answer = .ok r ∧
      ∃ d ∈ r.declarations, d.dependencies = ["B"] ∧ "B" ∉ r.declarations.map (·.name) := by
  have evaluated : (componentsWithin 5 { componentsOnly := true, skips := ["B", "C"] } outline).map
      (fun x => (x.2.2.map (·.id), x.1.aliases.map fun d => (d.name, d.dependencies))) =
      some ([], [("A", ["B"])]) := by
    simp only [componentsWithin, addComponents, Roots.add, findOrCreate, deepening_eq]
    decide +kernel
  obtain ⟨⟨roots, s, vs⟩, ran, same⟩ := Option.map_eq_some_iff.mp evaluated
  obtain ⟨visits, aliases⟩ := Prod.mk.inj same
  obtain rfl := List.map_eq_nil_iff.mp visits
  obtain ⟨d, only, linked⟩ := List.map_eq_singleton_iff.mp aliases
  obtain ⟨name, target⟩ := Prod.mk.inj linked
  have done := succeeds_of_componentsWithin (q := { componentsOnly := true, skips := ["B", "C"] }) rfl ran
  dsimp only at only
  refine ⟨_, congrArg Prod.fst done, d, ?_, target, ?_⟩
  · simp [sortByName, only]
  · simp [sortByName, only, name]

end Typesmith.Conversion
