import Typesmith.Proofs.Coverage

namespace Typesmith.Model

variable {α β : Type}

/-- Whatever the first step of rendering gives, the second gives too. -/
def Confirms (x y : RenderM α) : Prop :=
  ∀ deps a later, x.run deps = .ok (a, later) → y.run deps = .ok (a, later)

theorem Confirms.refl (x : RenderM α) : Confirms x x :=
  fun _ _ _ run => run

theorem confirms_throw (e : Failure) (y : RenderM α) : Confirms (throw e) y := by
  intro deps a later run
  cases run

theorem Confirms.bind {x y : RenderM α} {f g : α → RenderM β} (first : Confirms x y)
    (rest : ∀ deps a later, x.run deps = .ok (a, later) → Confirms (f a) (g a)) :
    Confirms (x >>= f) (y >>= g) := by
  intro deps b later run
  rw [StateT.run_bind] at run ⊢
  obtain ⟨⟨a, middle⟩, one, two⟩ := except_bind_ok.mp run
  exact except_bind_ok.mpr ⟨_, first deps a middle one, rest deps a middle one middle b later two⟩

theorem Confirms.map {x y : RenderM α} (same : Confirms x y) (f : α → β) :
    Confirms (do return f (← x)) (do return f (← y)) :=
  same.bind fun _ _ _ _ => .refl _

theorem confirms_mapM {f g : α → RenderM β} (each : ∀ x, Confirms (f x) (g x)) (l : List α) :
    Confirms (l.mapM f) (l.mapM g) := by
  induction l with
  | nil => exact .refl _
  | cons x l ih =>
    rw [List.mapM_cons, List.mapM_cons]
    exact (each x).bind fun _ _ _ _ => ih.map _

section

variable {inline inline' : Inliner} (each : ∀ i, Confirms (inline i) (inline' i))

include each

theorem confirms_container (c : Container) :
    Confirms (inlineContainer inline c) (inlineContainer inline' c) :=
  (confirms_mapM each c).map _

theorem confirms_member (p : Property) : Confirms (memberText inline p) (memberText inline' p) :=
  (confirms_container each p.types).bind fun _ _ _ _ => .refl _

theorem confirms_object (sets : List (List Property)) (closed : Bool) :
    Confirms (inlineObject inline sets closed) (inlineObject inline' sets closed) := by
  unfold inlineObject
  split
  · exact .refl _
  · refine (confirms_mapM (fun set => ?_) sets).map _
    unfold inlineSet
    split
    · exact .refl _
    · exact (confirms_mapM (confirms_member each) set).map _

theorem confirms_declareObject (name comments : String) (sets : List (List Property)) (closed : Bool) :
    Confirms (declareObject inline name comments sets closed)
      (declareObject inline' name comments sets closed) := by
  unfold declareObject
  split
  · refine Confirms.map ?_ _
    exact (confirms_mapM (fun p => (confirms_member each p).map _) _).map _
  · exact (confirms_object each _ _).map _

theorem confirms_array (items : List Container) :
    Confirms (inlineArray inline items) (inlineArray inline' items) := by
  unfold inlineArray
  split
  · exact .refl _
  · exact (confirms_mapM (fun c => (confirms_container each c).map _) items).map _

theorem confirms_cases (cases : List (String × Container)) :
    Confirms (inlineGeneric inline cases) (inlineGeneric inline' cases) := by
  refine (confirms_mapM (fun kc => ?_) cases).map _
  exact confirms_container each kc.2

theorem confirms_generic (d : Descriptor) (parameter : String) (cases : List (String × Container)) :
    Confirms (declareGeneric inline d parameter cases) (declareGeneric inline' d parameter cases) := by
  unfold declareGeneric
  split
  · exact .refl _
  · refine (confirms_mapM (fun kc => ?_) _).map _
    exact (confirms_container each kc.2).map _

end

section

variable {s t : Store} {inline inline' : Inliner}

def Reads (s : Store) (inline : Inliner) : Prop :=
  ∀ i deps r, (inline i).run deps = .ok r → i < s.descriptors.size

theorem fetch_ok {id : Id} {deps later : List Id} {d : Descriptor}
    (run : (fetch s id).run deps = .ok (d, later)) : s.get? id = some d := by
  unfold fetch at run
  split at run
  · cases run
    assumption
  · cases run

theorem Reads.head (reads : Reads s inline) {i : Id} {rest : Container} {deps later : List Id}
    {text : String} (run : (inlineContainer inline (i :: rest)).run deps = .ok (text, later)) :
    i < s.descriptors.size := by
  obtain ⟨⟨texts, middle⟩, all, _⟩ := except_bind_ok.mp run
  rw [List.mapM_cons] at all
  obtain ⟨first, one, _⟩ := except_bind_ok.mp all
  exact reads i deps first one

variable (grows : Grows s t) (reads : Reads s inline) (each : ∀ i, Confirms (inline i) (inline' i))

include grows

theorem confirms_fetch (id : Id) : Confirms (fetch s id) (fetch t id) := by
  intro deps d later run
  have found := fetch_ok run
  unfold fetch at run ⊢
  rwa [grows.kept id (Store.get?_lt found)]

include reads each

/-- The description that a branch is shown with is read off a descriptor that was rendered before. -/
theorem confirms_branches (c : Fragment.Combinator) (own : String) (branches : List Container)
    (seen : List String) :
    Confirms (branchTexts s inline c own seen branches) (branchTexts t inline' c own seen branches) := by
  induction branches generalizing seen with
  | nil => exact .refl _
  | cons branch rest ih =>
    refine (confirms_container each branch).bind fun deps text later run => ?_
    have described : branchDescription t branch = branchDescription s branch := by
      cases branch with
      | nil => rfl
      | cons i others => simp only [branchDescription, grows.kept i (reads.head run)]
    split
    · exact ih seen
    · rw [described]
      exact (ih (text :: seen)).map _

theorem confirms_someOf (d : Descriptor) (c : Fragment.Combinator) (branches : List Container) :
    Confirms (inlineSomeOf s inline d c branches) (inlineSomeOf t inline' d c branches) :=
  (confirms_branches grows reads each c _ branches []).bind fun _ _ _ _ => .refl _

theorem confirms_inlineWith (cfg : Setting) (id : Id) :
    Confirms (inlineWith cfg s inline id) (inlineWith cfg t inline' id) := by
  refine (confirms_fetch grows id).bind fun _ d _ _ => ?_
  split
  · exact .refl _
  · exact .refl _
  · split
    · exact .refl _
    · split
      · exact .refl _
      · exact confirms_array each _
      · exact confirms_someOf grows reads each d _ _
      · exact confirms_cases each _
      · exact confirms_object each _ _
      · exact .refl _

/-- Whether a union comes to a single record can only change for a branch that is not rendered. -/
theorem confirms_union (d : Descriptor) (c : Fragment.Combinator) (branches : List Container) :
    Confirms
      (match singleObject? s branches with
        | some (sets, closed) => declareObject inline d.name d.comments sets closed
        | none => do return d.alias (← inlineSomeOf s inline d c branches))
      (match singleObject? t branches with
        | some (sets, closed) => declareObject inline' d.name d.comments sets closed
        | none => do return d.alias (← inlineSomeOf t inline' d c branches)) := by
  by_cases same : singleObject? t branches = singleObject? s branches
  · rw [same]
    split
    · exact confirms_declareObject each _ _ _ _
    · exact (confirms_someOf grows reads each d c branches).map _
  · intro deps text later run
    exfalso
    apply same
    unfold singleObject?
    split
    · rename_i i
      have inside : i < s.descriptors.size := by
        cases found : s.get? i with
        | some e => exact Store.get?_lt found
        | none =>
          have other : singleObject? s [[i]] = none := by simp [singleObject?, found]
          rw [other] at run
          obtain ⟨⟨_, _⟩, texts, _⟩ := except_bind_ok.mp run
          obtain ⟨⟨_, _⟩, branch, _⟩ := except_bind_ok.mp texts
          obtain ⟨⟨_, _⟩, container, _⟩ := except_bind_ok.mp branch
          exact reads.head container
      rw [grows.kept i inside]
    · rfl

end

variable {cfg : Setting} {s t : Store}

theorem reads_inlineDepth (depth : Nat) : Reads s (inlineDepth cfg s depth) := by
  intro i deps r run
  cases depth with
  | zero => cases run
  | succ depth =>
    obtain ⟨⟨d, _⟩, found, _⟩ := except_bind_ok.mp run
    exact Store.get?_lt (fetch_ok found)

theorem confirms_inlineDepth (grows : Grows s t) {n m : Nat} (le : n ≤ m) (id : Id) :
    Confirms (inlineDepth cfg s n id) (inlineDepth cfg t m id) := by
  induction n generalizing m id with
  | zero => exact confirms_throw _ _
  | succ n ih =>
    obtain ⟨m, rfl⟩ := Nat.exists_eq_add_of_lt le
    exact confirms_inlineWith grows (reads_inlineDepth n) (fun i => ih (Nat.le_add_right n m) i) cfg id

theorem confirms_declaration (grows : Grows s t) (id : Id) :
    Confirms (declarationText cfg s id) (declarationText cfg t id) := by
  have reads : Reads s (inlineText cfg s) := reads_inlineDepth _
  have each : ∀ i, Confirms (inlineText cfg s i) (inlineText cfg t i) :=
    confirms_inlineDepth grows (Nat.succ_le_succ grows.size)
  refine (confirms_fetch grows id).bind fun _ d _ _ => ?_
  split
  · exact confirms_throw _ _
  · split
    · exact .refl _
    · exact .refl _
    · exact .refl _
    · exact (confirms_array each _).map _
    · exact confirms_generic each d _ _
    · exact confirms_declareObject each _ _ _ _
    · exact confirms_union grows reads each d _ _

end Typesmith.Model

namespace Typesmith.Declaration

open Model

theorem walk_stays {ε : Type} {n : Nat} {render : Id → Except ε Visit}
    (own : ∀ id v, render id = .ok v → v.id = id) {P : Id → Prop}
    (closed : ∀ id v, P id → render id = .ok v → ∀ i ∈ v.deps, P i) {visited stack : List Id}
    {visits : List Visit} (run : walk n render visited stack = .ok visits) (start : ∀ i ∈ stack, P i) :
    ∀ v ∈ visits, P v.id := by
  have course := course_of_walk run
  generalize none = stop at course
  clear run
  induction course with
  | done => simp
  | pass known onward ih => exact ih fun i later => start i (List.mem_cons_of_mem _ later)
  | fail small new failed => simp
  | @visit visited rest id v vs stop small new shown onward ih =>
    have first : P id := start id List.mem_cons_self
    have further : ∀ i ∈ v.deps ++ rest, P i := by
      intro i inside
      rcases List.mem_append.mp inside with named | later
      · exact closed id v first shown i named
      · exact start i (List.mem_cons_of_mem _ later)
    intro w inside
    rcases List.mem_cons.mp inside with rfl | later
    · rw [own id w shown]
      exact first
    · exact ih further w later

variable {cfg : Setting} {s t : Store}

theorem inlineDepth_resolver (resolver : Resolver) (depth : Nat) (id : Id) :
    inlineDepth { cfg with resolver } s depth id = inlineDepth cfg s depth id := by
  induction depth generalizing id with
  | zero => rfl
  | succ depth ih =>
    have inside : inlineDepth { cfg with resolver } s depth = inlineDepth cfg s depth := funext ih
    change inlineWith _ s _ id = inlineWith cfg s _ id
    rw [inside]
    rfl

/-- What is declared does not depend on where references lead: they were followed before. -/
theorem visit_resolver (resolver : Resolver) : visit { cfg with resolver } s = visit cfg s := by
  have inside : inlineText { cfg with resolver } s = inlineText cfg s :=
    funext fun id => inlineDepth_resolver resolver _ id
  funext id
  simp only [visit, declarationText, inside]
  rfl

theorem collect_resolver (resolver : Resolver) (roots : List Container) :
    collect { cfg with resolver } s roots = collect cfg s roots := by
  simp only [collect, visits, visit_resolver]

theorem visit_grows (grows : Grows s t) {id : Id} {v : Visit} (shown : visit cfg s id = .ok v) :
    visit cfg t id = .ok v := by
  obtain ⟨⟨text, deps⟩, run, made⟩ := except_bind_ok.mp shown
  exact except_bind_ok.mpr ⟨_, confirms_declaration grows id [] text deps run, made⟩

theorem ofVisit_grows (grows : Grows s t) {id : Id} {v : Visit} (shown : visit cfg s id = .ok v) :
    ofVisit t v = ofVisit s v := by
  have own : t.get? v.id = s.get? v.id := by
    rw [visit_id shown]
    exact grows.kept id (visit_named shown).lt
  have names : (v.deps.filter (· ≠ v.id)).map (nameOf t) = (v.deps.filter (· ≠ v.id)).map (nameOf s) := by
    refine List.map_congr_left fun i inside => ?_
    exact nameOf_grows grows (visit_deps shown i (List.mem_filter.mp inside).1).lt
  simp only [ofVisit, own, names]

/-- What is declared of some roots is declared of more roots after the store has grown. -/
theorem collect_grows {roots more : List Container} {ds all : List Declaration} (grows : Grows s t)
    (rooted : ∀ i ∈ roots.flatten, HasName s i) (kept : roots.flatten ⊆ more.flatten)
    (collected : collect cfg s roots = .ok ds) (again : collect cfg t more = .ok all) : ds ⊆ all := by
  obtain ⟨vs, run, made⟩ := except_bind_ok.mp collected
  cases made
  obtain ⟨ws, walked, perm⟩ := collect_walked again
  -- whatever the shorter walk can show, the longer walk has shown
  have shows : ∀ id v, id ∈ ws.map (·.id) → visit cfg s id = .ok v → v ∈ ws := by
    intro id v inside shown
    obtain ⟨w, visited, rfl⟩ := List.mem_map.mp inside
    have same := walked.shown w visited
    rw [visit_grows grows shown] at same
    cases same
    exact visited
  have within : ∀ v ∈ vs, v.id ∈ ws.map (·.id) := by
    refine walk_stays (fun _ _ => visit_id) (P := (· ∈ ws.map (·.id))) ?_ run ?_
    · intro id v inside shown i named
      have depends := visit_deps shown i named
      exact (walked.closed v (shows id v inside shown) i named
        (Nat.lt_of_lt_of_le depends.lt grows.size)).resolve_left List.not_mem_nil
    · intro i root
      exact (walked.reached i (kept root)
        (Nat.lt_of_lt_of_le (rooted i root).lt grows.size)).resolve_left List.not_mem_nil
  have first := walk_walked (fun _ _ => visit_id) run
  intro d inside
  obtain ⟨v, visited, rfl⟩ := List.mem_map.mp (List.mem_mergeSort.mp inside)
  rw [← ofVisit_grows grows (first.shown v visited), perm.mem_iff]
  exact List.mem_map.mpr ⟨v, shows v.id v (within v visited) (first.shown v visited), rfl⟩

end Typesmith.Declaration

namespace Typesmith.Conversion

open Model Declaration

variable {s t : Store}

structure Enlarges (s : Store) (r : Roots) (t : Store) (r' : Roots) : Prop where
  grows : Grows s t
  containers : r.containers.flatten ⊆ r'.containers.flatten
  aliases : r.aliases ⊆ r'.aliases

theorem Enlarges.add {cfg : Setting} {skips refs : List String} {s₀ : Store} {r₀ r r' : Roots}
    {ref : String} (enlarges : Enlarges s₀ r₀ s r) (gathered : Gathered skips refs s r)
    (run : Returns (r.add cfg skips ref) s r' t) : Enlarges s₀ r₀ t r' := by
  obtain ⟨c, found, taken⟩ := returns_add.mp run
  obtain ⟨_, grows, _⟩ := findOrCreate_tidy found gathered.tidy
  have added := take_added taken
  refine ⟨enlarges.grows.trans grows, ?_, ?_⟩
  · rw [added.containers]
    exact fun i root => List.mem_append_left _ (enlarges.containers root)
  · rcases added.aliases with ⟨same, _⟩ | ⟨_, _, longer, _⟩
    · rw [same]
      exact enlarges.aliases
    · rw [longer]
      exact fun d inside => List.mem_append_left _ (enlarges.aliases inside)

theorem addEntryPoints_enlarges {q : Request} {cfg : Setting} {r : Roots} {entries : List EntryPoint}
    {out : Roots × List (String × List String)}
    (run : Succeeds (addEntryPoints q cfg r entries) s out t) (grown : Grown q.skips r s) :
    Enlarges s r t out.1 := by
  refine (addEntryPoints_keeps (fun _ b m => Grown q.skips b.1 m ∧ Enlarges s r m b.1) ?_ ?_ run
    ⟨grown, .refl s, List.Subset.refl _, List.Subset.refl _⟩).2
  · exact fun _ _ _ _ _ before => before
  · rintro _ b e m r' t added ⟨grown, enlarges⟩
    refine ⟨grown.add added, ?_⟩
    obtain ⟨_, gathered⟩ := grown
    exact enlarges.add gathered added

/-- Every declaration of a run over the components alone is among those of the run over the whole
document, and the warnings of the first come first in the second. -/
theorem components_undisturbed {q : Request} {foreign : Option DocumentLoader} {doc : Document}
    {r r' : Result} (alone : (outcome { q with componentsOnly := true } foreign doc).answer = .ok r)
    (whole : (outcome { q with componentsOnly := false } foreign doc).answer = .ok r') :
    r.declarations ⊆ r'.declarations ∧ r.warnings <+: r'.warnings := by
  have short : Succeeds (run { q with componentsOnly := true } foreign doc) {} r _ := Prod.ext alone rfl
  have long : Succeeds (run { q with componentsOnly := false } foreign doc) {} r' _ := Prod.ext whole rfl
  obtain ⟨roots, s, components, short⟩ := succeeds_bind.mp short
  obtain ⟨ds, collected, rfl, _⟩ := succeeds_conclude.mp short
  obtain ⟨_, _, again, long⟩ := succeeds_bind.mp long
  -- the components are taken in the same way in both runs
  have same := again.symm.trans components
  obtain ⟨rfl, rfl⟩ : _ = roots ∧ _ = s := by simpa using same
  obtain ⟨entries, m, found, long⟩ := succeeds_bind.mp long
  obtain ⟨⟨all, listed⟩, t, added, long⟩ := succeeds_bind.mp long
  obtain ⟨ds', collected', rfl, _⟩ := succeeds_conclude.mp long
  have grown := addComponents_grown components
  have quiet := quiet_entryPointsOf found
  have enlarges := addEntryPoints_enlarges added (grown.of_quiet quiet)
  have grows := quiet.grows.trans enlarges.grows
  obtain ⟨_, gathered⟩ := grown
  refine ⟨?_, grows.warnings⟩
  rw [mountAll_eq, collect_resolver] at collected'
  have declared := collect_grows grows gathered.rooted enlarges.containers collected collected'
  intro d inside
  simp only [sortByName, List.mem_mergeSort, List.mem_append] at inside ⊢
  exact inside.imp (fun visited => declared visited) fun aliased => enlarges.aliases aliased

theorem components_undisturbed_petShop :
    ∃ r r', (outcome { componentsOnly := true } none petShop).answer = .ok r ∧
      (outcome { componentsOnly := false } none petShop).answer = .ok r' ∧ r.declarations ≠ [] ∧
      r.declarations ⊆ r'.declarations ∧ r.warnings <+: r'.warnings := by
  have evaluated : (componentsWithin 5 { componentsOnly := true } petShop).map (·.2.2.length) = some 1 := by
    simp only [componentsWithin, addComponents, Roots.add, findOrCreate, deepening_eq]
    decide +kernel
  obtain ⟨⟨roots, s, vs⟩, ran, visits⟩ := Option.map_eq_some_iff.mp evaluated
  obtain ⟨v, rfl⟩ := List.length_eq_one_iff.mp visits
  have alone := congrArg Prod.fst (succeeds_of_componentsWithin rfl ran)
  obtain ⟨x, sound, _⟩ := petShop_trace
  have whole := congrArg Prod.fst (sound.run rfl)
  refine ⟨_, _, alone, whole, ?_, components_undisturbed (q := {}) alone whole⟩
  exact List.ne_nil_of_length_pos (by simp [sortByName])

end Typesmith.Conversion
