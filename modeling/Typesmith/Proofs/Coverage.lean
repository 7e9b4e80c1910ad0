import Typesmith.Proofs.Closure

namespace Typesmith.Conversion

open Model Declaration

variable {s t : Store}

/-- A root of this name is declared, or an alias. -/
def Realised (s : Store) (r : Roots) (name : String) : Prop :=
  (∃ i ∈ r.containers.flatten, nameOf s i = name) ∨ ∃ d ∈ r.aliases, d.name = name

/-- What is owed to the references that were taken in, given by their canonical forms, and to the names
that were noted for them. -/
structure Covered (overrides : List (String × String)) (skips refs : List String) (s : Store)
    (r : Roots) : Prop where
  owned : ∀ ref ∈ refs, ∃ name, s.names.lookup? ref = some name ∧
    (name ∉ skips → overrides.lookup name = none → Realised s r name)
  noted : ∀ entry ∈ r.declared, ∀ name ∈ entry.2, Realised s r name

theorem Realised.grows {r : Roots} {name : String} (realised : Realised s r name)
    (rooted : ∀ i ∈ r.containers.flatten, HasName s i) (grows : Grows s t) : Realised t r name := by
  refine realised.imp_left ?_
  rintro ⟨i, root, rfl⟩
  exact ⟨i, root, nameOf_grows grows (rooted i root).lt⟩

theorem Covered.grows {overrides : List (String × String)} {skips refs : List String} {r : Roots}
    (covered : Covered overrides skips refs s r) (rooted : ∀ i ∈ r.containers.flatten, HasName s i)
    (grows : Grows s t) : Covered overrides skips refs t r := by
  constructor
  · intro ref inside
    obtain ⟨name, held, due⟩ := covered.owned ref inside
    refine ⟨name, grows.names.kept _ _ held, ?_⟩
    exact fun allowed free => (due allowed free).grows rooted grows
  · intro entry inside name listed
    exact (covered.noted entry inside name listed).grows rooted grows

structure Accounted (overrides : List (String × String)) (skips refs : List String) (s : Store)
    (r : Roots) : Prop where
  gathered : Gathered skips refs s r
  covered : Covered overrides skips refs s r
  earned : s.names.Earned

theorem accounted_fresh (overrides : List (String × String)) (skips : List String) :
    Accounted overrides skips [] {} {} := by
  refine ⟨gathered_fresh skips, ⟨?_, ?_⟩, ?_⟩
  · intro ref inside
    cases inside
  · intro entry inside
    cases inside
  · intro name owner inside
    cases inside

theorem Accounted.of_quiet {overrides : List (String × String)} {skips refs : List String} {r : Roots}
    (accounted : Accounted overrides skips refs s r) (quiet : Quiet s t) :
    Accounted overrides skips refs t r := by
  have gathered := accounted.gathered
  exact ⟨gathered.grows (gathered.tidy.of_quiet quiet) quiet.grows,
    accounted.covered.grows gathered.rooted quiet.grows, quiet.names.earned accounted.earned⟩

section

variable {cfg : Setting} {skips refs : List String} {r r' : Roots} {ref : String}

theorem Added.realised {c : Container} {name : String} (added : Added cfg skips ref c s r r')
    (realised : Realised s r name) : Realised s r' name := by
  rcases realised with ⟨i, root, same⟩ | ⟨d, inside, same⟩
  · exact .inl ⟨i, added.mem_of_mem root, same⟩
  · refine .inr ⟨d, ?_, same⟩
    rcases added.aliases with ⟨unchanged, _⟩ | ⟨_, _, grown, _⟩
    · rw [unchanged]
      exact inside
    · rw [grown]
      exact List.mem_append_left _ inside

theorem Realised.add {name : String} (realised : Realised s r name)
    (gathered : Gathered skips refs s r) (run : Returns (r.add cfg skips ref) s r' t) :
    Realised t r' name := by
  obtain ⟨c, found, taken⟩ := returns_add.mp run
  obtain ⟨_, grows, _⟩ := findOrCreate_tidy found gathered.tidy
  exact (take_added taken).realised (realised.grows gathered.rooted grows)

theorem Added.kept {c : Container} {name : String} (added : Added cfg skips ref c s r r')
    (kept : name ∈ (keptOf skips s c).map (nameOf s)) : Realised s r' name := by
  obtain ⟨i, inside, same⟩ := List.mem_map.mp kept
  exact .inl ⟨i, added.mem_of_kept inside, same⟩

theorem Added.settled {c : Container} {own : String} (added : Added cfg skips ref c t r r') (tidy : Tidy t)
    (listed : (Reference.normalize ref, c) ∈ t.index)
    (held : t.names.lookup? (Reference.normalize ref) = some own)
    (older : ∀ entry ∈ r.declared, ∀ name ∈ entry.2, Realised t r' name) :
    (own ∉ skips → cfg.overrides.lookup own = none → Realised t r' own) ∧
      ∀ entry ∈ r'.declared, ∀ name ∈ entry.2, Realised t r' name := by
  have filled : own ≠ "" := tidy.named _ (Registry.mem_issued_of_lookup? held)
  rcases added.aliases with ⟨_, declared, settled⟩ | ⟨name, d, grown, declared, other, _, _, made⟩
  · constructor
    · intro allowed free
      rcases settled own held with empty | kept | skipped | replaced
      · exact absurd empty filled
      · exact added.kept kept
      · exact absurd skipped allowed
      · rw [free] at replaced
        cases replaced
    · intro entry inside name named
      rw [declared] at inside
      rcases List.mem_cons.mp inside with rfl | earlier
      · exact added.kept named
      · exact older entry earlier name named
  · rw [held] at other
    cases other
    obtain ⟨called, _⟩ := aliasOf_declares tidy listed made
    have aliased : Realised t r' own := by
      refine .inr ⟨d, ?_, called⟩
      rw [grown]
      exact List.mem_append_right _ (List.mem_singleton_self d)
    refine ⟨fun _ _ => aliased, ?_⟩
    intro entry inside name named
    rw [declared] at inside
    rcases List.mem_cons.mp inside with rfl | earlier
    · rw [List.mem_singleton.mp named]
      exact aliased
    · exact older entry earlier name named

/-- Taking in one more reference keeps all that is owed to the earlier ones, and pays what it is owed
itself. -/
theorem Accounted.add (accounted : Accounted cfg.overrides skips refs s r)
    (run : Returns (r.add cfg skips ref) s r' t) :
    Accounted cfg.overrides skips (refs ++ [Reference.normalize ref]) t r' := by
  have gathered := accounted.gathered.add run
  obtain ⟨c, found, taken⟩ := returns_add.mp run
  obtain ⟨tidy, grows, listed⟩ := findOrCreate_tidy found accounted.gathered.tidy
  have added := take_added taken
  have before := accounted.covered.grows accounted.gathered.rooted grows
  obtain ⟨own, held⟩ := tidy.owned (Reference.normalize ref) (List.mem_map.mpr ⟨_, listed, rfl⟩)
  have older : ∀ entry ∈ r.declared, ∀ name ∈ entry.2, Realised t r' name :=
    fun entry inside name named => added.realised (before.noted entry inside name named)
  obtain ⟨due, noted⟩ := added.settled tidy listed held older
  refine ⟨gathered, ⟨?_, noted⟩, grows.names.earned accounted.earned⟩
  intro other inside
  rcases List.mem_append.mp inside with earlier | last
  · obtain ⟨name, held, due⟩ := before.owned other earlier
    exact ⟨name, held, fun allowed free => added.realised (due allowed free)⟩
  · rw [List.mem_singleton.mp last]
    exact ⟨own, held, due⟩

end

theorem addComponents_accounted {q : Request} {cfg : Setting} {doc : Document} {r : Roots}
    (run : Succeeds (addComponents q cfg doc) {} r t) :
    ∃ refs, Accounted cfg.overrides q.skips refs t r ∧ ∀ component ∈ doc.components,
      Passed q component.1 ∨ Reference.normalize (Reference.component component.1) ∈ refs := by
  refine addComponents_keeps (fun done r s => ∃ refs,
    Accounted cfg.overrides q.skips refs s r ∧ ∀ component ∈ done,
      Passed q component.1 ∨ Reference.normalize (Reference.component component.1) ∈ refs) ?_ ?_ run
    ⟨[], accounted_fresh _ _, by simp⟩
  · rintro done r component s t passed quiet ⟨refs, accounted, before⟩
    refine ⟨refs, accounted.of_quiet quiet, ?_⟩
    intro other inside
    rcases List.mem_append.mp inside with earlier | last
    · exact before other earlier
    · rw [List.mem_singleton.mp last]
      exact .inl passed
  · rintro done r component s r' t added ⟨refs, accounted, before⟩
    refine ⟨_, accounted.add added, ?_⟩
    intro other inside
    rcases List.mem_append.mp inside with earlier | last
    · exact (before other earlier).imp_right (List.mem_append_left _)
    · rw [List.mem_singleton.mp last]
      exact .inr (List.mem_append_right _ (List.mem_singleton_self _))

structure Listed (overrides : List (String × String)) (skips refs : List String)
    (done : List EntryPoint) (r : Roots) (listed : List (String × List String)) (s : Store)
    (all : List String) : Prop where
  accounted : Accounted overrides skips all s r
  earlier : refs ⊆ all
  taken : ∀ e ∈ done, e.name ∈ skips ∨ Reference.normalize e.ref ∈ all
  declared : ∀ entry ∈ listed, ∀ name ∈ entry.2, Realised s r name

theorem addEntryPoints_listed {q : Request} {cfg : Setting} {r : Roots} {entries : List EntryPoint}
    {refs : List String} {out : Roots × List (String × List String)}
    (run : Succeeds (addEntryPoints q cfg r entries) s out t)
    (accounted : Accounted cfg.overrides q.skips refs s r) :
    ∃ all, Listed cfg.overrides q.skips refs entries out.1 out.2 t all := by
  refine addEntryPoints_keeps (fun done out s => ∃ all,
    Listed cfg.overrides q.skips refs done out.1 out.2 s all) ?_ ?_ run
    ⟨refs, accounted, List.Subset.refl _, by simp, by simp⟩
  · rintro done b e s skipped ⟨all, before⟩
    refine ⟨all, before.accounted, before.earlier, ?_, before.declared⟩
    intro other inside
    rcases List.mem_append.mp inside with earlier | last
    · exact before.taken other earlier
    · rw [List.mem_singleton.mp last]
      exact .inl skipped
  · rintro done ⟨r, listed⟩ e s r' t added ⟨all, before⟩
    have after := before.accounted.add added
    refine ⟨_, after, fun ref inside => List.mem_append_left _ (before.earlier inside), ?_, ?_⟩
    · intro other inside
      rcases List.mem_append.mp inside with earlier | last
      · exact (before.taken other earlier).imp_right (List.mem_append_left _)
      · rw [List.mem_singleton.mp last]
        exact .inr (List.mem_append_right _ (List.mem_singleton_self _))
    · have older : ∀ entry ∈ listed, ∀ name ∈ entry.2, Realised t r' name :=
        fun entry inside name named =>
          (before.declared entry inside name named).add before.accounted.gathered added
      intro entry inside name named
      dsimp only at inside
      split at inside
      · exact older entry inside name named
      · rcases Json.mem_setField inside with rfl | earlier
        · obtain ⟨names, found, inside⟩ : ∃ names, r'.declared.lookup (Reference.normalize e.ref) =
              some names ∧ name ∈ names := by
            dsimp only [Roots.declaredAt] at named
            cases found : r'.declared.lookup (Reference.normalize e.ref) with
            | none => simp [found] at named
            | some names => exact ⟨names, rfl, by simpa [found] using named⟩
          exact after.covered.noted _ (Json.mem_of_lookup found) name inside
        · exact older entry earlier name named

def Synthesizes (q : Request) (foreign : Option DocumentLoader) (doc : Document)
    (entries : List EntryPoint) : Prop :=
  ((EntryPoint.synthesize ⟨(q.setting foreign doc).resolver, q.contentType⟩ doc).run.run {}).1 =
    .ok entries

theorem synthesizes_of_run {q : Request} {foreign : Option DocumentLoader} {doc : Document}
    {entries : List EntryPoint}
    (run : Succeeds (entryPointsOf q (q.setting foreign doc) doc) s entries t) :
    Synthesizes q foreign doc entries := by
  obtain ⟨_, m, _, run⟩ := succeeds_bind.mp run
  dsimp only at run
  split at run
  · rename_i answer
    obtain ⟨rfl, _⟩ := succeeds_pure.mp run
    exact answer
  · exact absurd run not_succeeds_throw

theorem mountAll_eq (cfg : Setting) (entries : List EntryPoint) :
    mountAll cfg entries = { cfg with resolver := (mountAll cfg entries).resolver } := by
  unfold mountAll
  induction entries generalizing cfg with
  | nil => rfl
  | cons e entries ih =>
    rw [List.foldl_cons, ih]

/-- What a run that is done owes to the document, and what it declares. -/
structure Settled (q : Request) (foreign : Option DocumentLoader) (doc : Document) (r : Result)
    (s : Store) (refs : List String) (roots : Roots) : Prop where
  accounted : Accounted q.overrides q.skips refs s roots
  components : ∀ component ∈ doc.components,
    Passed q component.1 ∨ Reference.normalize (Reference.component component.1) ∈ refs
  entries : q.componentsOnly = false → ∃ entries, Synthesizes q foreign doc entries ∧
    ∀ e ∈ entries, e.name ∈ q.skips ∨ Reference.normalize e.ref ∈ refs
  listed : ∀ entry ∈ r.entryPoints, ∀ name ∈ entry.2, Realised s roots name
  realised : ∀ name, Realised s roots name → name ∈ r.declarations.map (·.name)
  issued : ∀ name ∈ r.declarations.map (·.name), name ∈ s.names.issued.map (·.1)

theorem mem_declarations_iff {ds aliases : List Declaration} {name : String} :
    name ∈ (sortByName (ds ++ aliases)).map (·.name) ↔
      name ∈ ds.map (·.name) ∨ ∃ d ∈ aliases, d.name = name := by
  rw [sortByName, ((List.mergeSort_perm _ _).map _).mem_iff, List.map_append, List.mem_append,
    List.mem_map (l := aliases)]

theorem Gathered.declares {cfg : Setting} {skips refs : List String} {roots : Roots}
    {ds : List Declaration} (gathered : Gathered skips refs s roots)
    (collected : collect cfg s roots.containers = .ok ds) {name : String}
    (realised : Realised s roots name) :
    name ∈ (sortByName (ds ++ roots.aliases)).map (·.name) := by
  rw [mem_declarations_iff]
  refine realised.imp_left ?_
  rintro ⟨i, root, rfl⟩
  exact collect_roots collected root (gathered.rooted i root)

theorem Gathered.issued {cfg : Setting} {skips refs : List String} {roots : Roots}
    {ds : List Declaration} (gathered : Gathered skips refs s roots)
    (collected : collect cfg s roots.containers = .ok ds) {name : String}
    (declared : name ∈ (sortByName (ds ++ roots.aliases)).map (·.name)) :
    name ∈ s.names.issued.map (·.1) := by
  rcases mem_declarations_iff.mp declared with visited | ⟨d, inside, rfl⟩
  · obtain ⟨vs, walked, perm⟩ := collect_walked collected
    obtain ⟨v, shown, rfl⟩ := (mem_names_iff perm).mp visited
    obtain ⟨d, stored, named⟩ := visit_named (walked.shown v shown)
    have held := gathered.tidy.held v.id d stored named
    have same : nameOf s v.id = d.name := by simp [nameOf, stored]
    rw [same]
    exact List.mem_map.mpr ⟨_, held, rfl⟩
  · exact List.mem_map.mpr ⟨_, Registry.mem_issued_of_lookup? (gathered.held d inside), rfl⟩

theorem run_settled {q : Request} {foreign : Option DocumentLoader} {doc : Document} {r : Result}
    (run : Succeeds (run q foreign doc) {} r t) :
    ∃ refs roots, Settled q foreign doc r t refs roots := by
  obtain ⟨roots, m, components, run⟩ := succeeds_bind.mp run
  obtain ⟨refs, accounted, taken⟩ := addComponents_accounted components
  split at run
  · rename_i only
    obtain ⟨ds, collected, rfl, rfl⟩ := succeeds_conclude.mp run
    refine ⟨refs, roots, accounted, taken, ?_, ?_, ?_, ?_⟩
    · intro full
      rw [only] at full
      cases full
    · intro entry inside
      cases inside
    · exact fun name realised => accounted.gathered.declares collected realised
    · exact fun name declared => accounted.gathered.issued collected declared
  · obtain ⟨entries, k, found, run⟩ := succeeds_bind.mp run
    obtain ⟨⟨roots', listed⟩, l, added, run⟩ := succeeds_bind.mp run
    obtain ⟨ds, collected, rfl, rfl⟩ := succeeds_conclude.mp run
    have before := accounted.of_quiet (quiet_entryPointsOf found)
    rw [mountAll_eq] at added
    obtain ⟨all, after⟩ := addEntryPoints_listed added before
    refine ⟨all, roots', after.accounted, ?_, ?_, after.declared, ?_, ?_⟩
    · exact fun component inside => (taken component inside).imp_right fun known => after.earlier known
    · exact fun _ => ⟨entries, synthesizes_of_run found, after.taken⟩
    · exact fun name realised => after.accounted.gathered.declares collected realised
    · exact fun name declared => after.accounted.gathered.issued collected declared

/-- A component that is not left out owns a name, and the run declares that name unless it is skipped
or replaced. What the run lists for its entry points, it declares. -/
theorem components_declared {q : Request} {foreign : Option DocumentLoader} {doc : Document}
    {r : Result} (done : Succeeds (run q foreign doc) {} r s) :
    (∀ component ∈ doc.components, component.1 ∉ q.skips → Naming.modelName component.1 ∉ q.skips →
      ∃ name, s.names.lookup? (Reference.normalize (Reference.component component.1)) = some name ∧
        (name ∉ q.skips → q.overrides.lookup name = none → name ∈ r.declarations.map (·.name))) ∧
    ∀ entry ∈ r.entryPoints, ∀ name ∈ entry.2, name ∈ r.declarations.map (·.name) := by
  obtain ⟨refs, roots, settled⟩ := run_settled done
  constructor
  · intro component inside byName byModelName
    have known := (settled.components component inside).resolve_left (not_or.mpr ⟨byName, byModelName⟩)
    obtain ⟨name, held, due⟩ := settled.accounted.covered.owned _ known
    exact ⟨name, held, fun allowed free => settled.realised name (due allowed free)⟩
  · intro entry inside name named
    exact settled.realised name (settled.listed entry inside name named)

theorem succeeds_whole {q : Request} {foreign : Option DocumentLoader} {doc : Document}
    {roots all : Roots} {entries : List EntryPoint} {listed : List (String × List String)}
    {m t : Store} {ds : List Declaration} (whole : q.componentsOnly = false)
    (components : Succeeds (addComponents q (q.setting foreign doc) doc) {} roots s)
    (found : Succeeds (entryPointsOf q (q.setting foreign doc) doc) s entries m)
    (added : Succeeds (addEntryPoints q (mountAll (q.setting foreign doc) entries) roots entries) m
      (all, listed) t)
    (collected : collect (mountAll (q.setting foreign doc) entries) t all.containers = .ok ds) :
    Succeeds (run q foreign doc) {} ⟨doc, sortByName (ds ++ all.aliases), listed, t.warnings⟩ t := by
  refine succeeds_bind.mpr ⟨roots, s, components, ?_⟩
  rw [if_neg (by simp [whole])]
  refine succeeds_bind.mpr ⟨entries, m, found, ?_⟩
  exact succeeds_bind.mpr ⟨_, t, added, succeeds_conclude.mpr ⟨ds, collected, rfl, rfl⟩⟩

/-- The parts of a run over a whole document, before the declarations are sorted. -/
structure Trace where
  roots : Roots
  early : Store
  entries : List EntryPoint
  mounted : Store
  all : Roots
  listed : List (String × List String)
  store : Store
  visits : List Visit

/-- The parts of a run that succeeds and visits the descriptors in so many steps. -/
def traceWithin (steps : Nat) (q : Request) (doc : Document) : Option Trace :=
  match perform (addComponents q (q.setting none doc) doc) {} with
  | (.error _, _) => none
  | (.ok roots, early) =>
    match perform (entryPointsOf q (q.setting none doc) doc) early with
    | (.error _, _) => none
    | (.ok entries, mounted) =>
      match perform (addEntryPoints q (mountAll (q.setting none doc) entries) roots entries) mounted with
      | (.error _, _) => none
      | (.ok (all, listed), store) =>
        (visitsWithin steps (mountAll (q.setting none doc) entries) store all.containers).map
          (⟨roots, early, entries, mounted, all, listed, store, ·⟩)

structure Trace.Sound (q : Request) (doc : Document) (x : Trace) : Prop where
  components : Succeeds (addComponents q (q.setting none doc) doc) {} x.roots x.early
  found : Succeeds (entryPointsOf q (q.setting none doc) doc) x.early x.entries x.mounted
  added : Succeeds (addEntryPoints q (mountAll (q.setting none doc) x.entries) x.roots x.entries)
    x.mounted (x.all, x.listed) x.store
  collected : collect (mountAll (q.setting none doc) x.entries) x.store x.all.containers =
    .ok (sortByName (x.visits.map (ofVisit x.store)))

theorem sound_of_traceWithin {steps : Nat} {q : Request} {doc : Document} {x : Trace}
    (done : traceWithin steps q doc = some x) : x.Sound q doc := by
  unfold traceWithin at done
  split at done
  · cases done
  · rename_i components
    split at done
    · cases done
    · rename_i found
      split at done
      · cases done
      · rename_i added
        obtain ⟨vs, visited, rfl⟩ := Option.map_eq_some_iff.mp done
        exact ⟨components, found, added, collect_of_visitsWithin visited⟩

theorem Trace.Sound.run {q : Request} {doc : Document} {x : Trace} (sound : x.Sound q doc)
    (whole : q.componentsOnly = false) : Succeeds (run q none doc) {}
      ⟨doc, sortByName (sortByName (x.visits.map (ofVisit x.store)) ++ x.all.aliases), x.listed,
        x.store.warnings⟩ x.store :=
  succeeds_whole whole sound.components sound.found sound.added sound.collected

def petShop : Document where
  path := ""
  name := ""
  root := .obj [
    ("components", .obj [("schemas", .obj [("Pet", .obj [("type", .str "string")])])]),
    ("openapi", .str "3.0.0"),
    ("paths", .obj [("/", .obj [("get", .obj [("operationId", .str "find"),
      ("parameters", .arr [.obj [("in", .str "query"), ("name", .str "pet"),
        ("schema", .obj [("$ref", .str "#/components/schemas/Pet")])]])])])])]

theorem petShop_trace :
    ∃ x : Trace, x.Sound {} petShop ∧ x.listed = [("FindParameters", ["FindParameters"])] := by
  have evaluated : (traceWithin 5 {} petShop).map (·.listed) =
      some [("FindParameters", ["FindParameters"])] := by
    simp only [traceWithin, addComponents, addEntryPoints, Roots.add, findOrCreate, deepening_eq]
    decide +kernel
  obtain ⟨x, traced, listed⟩ := Option.map_eq_some_iff.mp evaluated
  exact ⟨x, sound_of_traceWithin traced, listed⟩

theorem components_declared_petShop :
    ∃ r s, Succeeds (run {} none petShop) {} r s ∧
      r.entryPoints = [("FindParameters", ["FindParameters"])] ∧
      (∀ component ∈ petShop.components, component.1 ∉ [] → Naming.modelName component.1 ∉ [] →
        ∃ name, s.names.lookup? (Reference.normalize (Reference.component component.1)) = some name ∧
          (name ∉ [] → List.lookup name ([] : List (String × String)) = none →
            name ∈ r.declarations.map (·.name))) ∧
      ∀ entry ∈ r.entryPoints, ∀ name ∈ entry.2, name ∈ r.declarations.map (·.name) := by
  obtain ⟨x, sound, listed⟩ := petShop_trace
  have done := sound.run rfl
  exact ⟨_, x.store, done, listed, components_declared done⟩

end Typesmith.Conversion
