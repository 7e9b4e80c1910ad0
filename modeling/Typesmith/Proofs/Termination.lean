import Typesmith.Proofs.Exploring

namespace Typesmith.Model

open Fragment

theorem Bounded.ends {cfg : Setting} {ref : String} (bounded : Bounded cfg ref) {s : Store}
    (named : s.names.Named) : Ends (findOrCreate cfg ref) s := by
  obtain ⟨places, all⟩ := bounded.finite
  have first : ∀ f, cfg.resolver.fragment (Reference.normalize ref) = .ok f →
      Met cfg ref (Reference.normalize ref) (true, f) := fun _ resolved => .first resolved
  have aliases : Acc (fun next ref => Leads cfg ref next) (Reference.normalize ref) := by
    constructor
    rintro next ⟨f, resolved, isRef, rfl⟩
    exact (bounded.aliases _ _ (first f resolved)).inv ⟨f, resolved, isRef, rfl⟩
  have pending : Pending places (Walk.remaining id places s.known + 1) s :=
    ⟨named, Nat.lt_succ_self _⟩
  exact (steady_find bounded all (fun _ _ met => handled_met bounded all _ met) aliases rfl first
    pending).ends

theorem Met.inside {cfg : Setting} {ref place : String} {x y : Spot} (met : Met cfg ref place x)
    (path : Relation.ReflTransGen (NestsPlainly cfg place) x y) : Met cfg ref place y := by
  induction path with
  | refl => exact met
  | tail _ next ih => exact ih.nested next.1

/-- Where nothing is merged, references only have to lead to something. -/
theorem bounded_of_unmerged {cfg : Setting} {ref : String}
    (finite : ∃ places : List String, ∀ place x, Met cfg ref place x → place ∈ places)
    (aliases : ∀ place x, Met cfg ref place x → Acc (fun next ref => Leads cfg ref next) place)
    (unmerged : ∀ place x, Met cfg ref place x → ¬ Merging cfg x.2) : Bounded cfg ref := by
  refine ⟨finite, aliases, ?_, ?_⟩
  · intro place x raw members met _ written kind combined
    exact absurd ⟨raw, _, members, written, kind, combined, .inl rfl⟩ (unmerged place x met)
  · intro place x met
    constructor
    rintro z ⟨y, path, merged⟩
    exact absurd merged.2 (unmerged place y (met.inside path))

/-- A request comes to an end when nothing it leads to goes on without end, whatever cycles of
references there are: finitely many places, no reference that leads to references only, and no merging
inside what was merged without end. The last holds wherever nothing is merged at all. Without
overrides, nothing less will do: a request that succeeds met nothing endless. -/
theorem findOrCreate_ends (cfg : Setting) (ref : String) :
    (Bounded cfg ref → ∀ s : Store, s.names.Named → Ends (findOrCreate cfg ref) s) ∧
    ((∃ places : List String, ∀ place x, Met cfg ref place x → place ∈ places) →
      (∀ place x, Met cfg ref place x → Acc (fun next ref => Leads cfg ref next) place) →
      (∀ place x, Met cfg ref place x → ¬ Merging cfg x.2) →
      ∀ s : Store, s.names.Named → Ends (findOrCreate cfg ref) s) ∧
    (cfg.overrides = [] → ∀ c t, Returns (findOrCreate cfg ref) {} c t → Bounded cfg ref) := by
  refine ⟨fun bounded _ named => bounded.ends named, ?_, fun plain _ _ run => bounded_of_returns plain run⟩
  intro finite aliases unmerged s named
  exact (bounded_of_unmerged finite aliases unmerged).ends named

def extendedList : Setting where
  resolver := { root := .obj [("allOf", .arr [.obj [("$ref", .str "#")],
                  .obj [("properties", .obj [("next", .obj [("$ref", .str "#")])]),
                    ("type", .str "object")]])] }

theorem findOrCreate_ends_extendedList :
    Bounded extendedList "#" ∧ Ends (findOrCreate extendedList "#") {} := by
  have request : Returns (findOrCreate extendedList "#") {} [0] _ :=
    returns_deepening_first _ (by decide +kernel)
  have bounded := (findOrCreate_ends extendedList "#").2.2 rfl _ _ request
  exact ⟨bounded, (findOrCreate_ends extendedList "#").1 bounded {} (fun _ member => by cases member)⟩

section

variable {α β : Type} {x : ConvertM α} {f : α → ConvertM β} {s : Store}

theorem not_ends_bind_first (endless : ¬ Ends x s) : ¬ Ends (x >>= f) s := by
  have cut : (exec x s).1 = .error .tooDeep := not_not.mp endless
  rcases ended : exec x s with ⟨r, t⟩
  rw [ended] at cut
  cases cut
  rw [Ends, exec_bind, ended]
  exact fun ends => ends rfl

theorem not_ends_bind_rest {a : α} {t : Store} (first : Returns x s a t) (endless : ¬ Ends (f a) t) :
    ¬ Ends (x >>= f) s := by
  rw [Ends, exec_bind, first]
  exact endless

theorem exec_classifyRaw (cfg : Setting) (raw : Json) (ref : String) (s : Store) :
    ∃ t, Returns (classifyRaw cfg raw ref) s (kindOf cfg raw) t := by
  rcases ended : exec (classifyRaw cfg raw ref) s with ⟨e | kind, t⟩
  · unfold classifyRaw at ended
    dsimp only at ended
    split at ended <;> cases ended
  · obtain ⟨rfl, _⟩ := returns_classifyRaw ended
    exact ⟨t, ended⟩

end

def selfExtending : Setting where
  resolver := { root := .obj [("A", .obj [("properties", .obj [("_", .obj [("allOf",
                  .arr [.obj [("$ref", .str "#/A")]])])]), ("type", .str "object")])] }

def extension : Fragment :=
  { allOf := [{ keywords := { ref := some "#/A" } }] }

def extended : Fragment :=
  { keywords := { types := ["object"] }, properties := [("_", extension)] }

theorem extension_toJson :
    extension.toJson? = some (.obj [("allOf", .arr [.obj [("$ref", .str "#/A")]])]) := by
  simp [toJson?, write?, writeItems?, writeList?, writeOption?, writeNamed?, writeExtent?,
    writeDependencies?, closeNamed, inOrder, extension]
  rfl

theorem extended_toJson :
    extended.toJson? = some (.obj [("properties", .obj [("_", .obj [("allOf",
      .arr [.obj [("$ref", .str "#/A")]])])]), ("type", .str "object")]) := by
  simp [toJson?, write?, writeItems?, writeList?, writeOption?, writeNamed?, writeExtent?,
    writeDependencies?, closeNamed, inOrder, extended, extension]
  rfl

theorem extension_merge :
    merge? ([extended] ++ [untitled extension.commonPart]) = some extended := by
  have nothing : (untitled extension.commonPart).toJson? = some (.obj []) := by
    simp [toJson?, write?, writeItems?, writeList?, writeOption?, writeNamed?, writeExtent?,
      writeDependencies?, closeNamed, inOrder, extension, commonPart, untitled]
    rfl
  simp only [merge?, List.cons_append, List.nil_append, List.mapM_cons, List.mapM_nil, extended_toJson,
    nothing]
  rfl

theorem extension_branches (depth : Nat) {o : Options} (base : o.base = "#/A") (s : Store) :
    Returns (branchFragments selfExtending (depth + 1) .allOf extension extension.allOf o) s
      [extended] s := by
  have gathered : gather selfExtending (depth + 1) extension.allOf o.base =
      .ok ⟨[extended], ["#/A"]⟩ := by
    rw [base]
    rfl
  have agree : conflictingTypes (extension.commonPart :: [extended]) = false := by decide
  unfold branchFragments composite
  simp only [Returns, exec_bind, gathered, exec_lift, agree, Bool.false_eq_true, if_false,
    extension_merge, exec_pure]
  rfl

theorem extension_combinator : extension.combinator? = some (.allOf, extension.allOf) := rfl

theorem convertDepth_node (cfg : Setting) (depth : Nat) {f : Fragment} {raw : Json} (o : Options)
    (isRef : f.isRef = false) (nullable : keepsNull f = false) (single : isMultiType f = false)
    (written : f.toJson? = some raw) :
    convertDepth cfg (depth + 1) f o = (do
      let kind ← classifyRaw cfg raw o.ref
      convertKind cfg depth (convertDepth cfg depth) kind f o false) := by
  have same : stripped f = f := by simp [stripped, nullable]
  rw [convertDepth_succ, convertWith_eq, same, written, nullable]
  simp only [isRef, single, Bool.false_eq_true, if_false]

theorem not_ends_node {cfg : Setting} {depth : Nat} {f : Fragment} {raw : Json} {o : Options}
    (kind : Kind) (isRef : f.isRef = false) (nullable : keepsNull f = false)
    (single : isMultiType f = false) (written : f.toJson? = some raw) (classified : kindOf cfg raw = kind)
    (endless : ∀ t, ¬ Ends (convertKind cfg depth (convertDepth cfg depth) kind f o false) t) (s : Store) :
    ¬ Ends (convertDepth cfg (depth + 1) f o) s := by
  obtain ⟨t, first⟩ := exec_classifyRaw cfg raw o.ref s
  rw [convertDepth_node cfg depth o isRef nullable single written]
  refine not_ends_bind_rest first ?_
  rw [classified]
  exact endless t

/-- However deep one looks, the record is inside its property and the property is inside the record. -/
theorem not_ends_selfExtending (depth : Nat) {o : Options} (base : o.base = "#/A") (s : Store) :
    ¬ Ends (convertDepth selfExtending depth extension o) s ∧
      ¬ Ends (convertDepth selfExtending depth extended o) s := by
  induction depth generalizing o s with
  | zero => exact ⟨fun ends => ends rfl, fun ends => ends rfl⟩
  | succ depth ih =>
    constructor
    · refine not_ends_node .someOf rfl (by decide) (by decide) extension_toJson (by decide) ?_ s
      intro t
      simp only [convertKind, convertSomeOf, extension_combinator]
      refine not_ends_bind_rest (returns_claim.mpr ⟨rfl, rfl⟩) ?_
      cases depth with
      | zero => exact not_ends_bind_first (fun ends => ends rfl)
      | succ depth =>
        refine not_ends_bind_rest (extension_branches depth base _) ?_
        simp only [List.foldlM_cons, bind_assoc]
        exact not_ends_bind_first (ih (o := o.child _) base _).2
    · refine not_ends_node .object rfl (by decide) (by decide) extended_toJson (by decide) ?_ s
      intro t
      simp only [convertKind, convertObject]
      refine not_ends_bind_rest (returns_claim.mpr ⟨rfl, rfl⟩) ?_
      simp only [convertProperties, extended, List.mapM_cons, bind_assoc]
      exact not_ends_bind_first (ih (o := o.child _) base _).1

/-- The request for the record has no end, though its only cycle goes through a property and a member
of `allOf`. -/
theorem findOrCreate_endless_selfExtending : ¬ Ends (findOrCreate selfExtending "#/A") {} := by
  refine not_ends_deepening ?_
  intro depth
  have resolved : resolve selfExtending (Reference.normalize "#/A") = .ok extended := rfl
  have absent : Store.lookup? {} (Reference.normalize "#/A") = none := rfl
  have place : Reference.normalize "#/A" = "#/A" := by decide
  unfold findOrCreateWith
  refine not_ends_bind_rest (exec_get {}) ?_
  simp only [absent]
  refine not_ends_bind_rest (returns_lift.mpr ⟨resolved, rfl⟩) ?_
  refine not_ends_bind_rest (exec_modifyGet _ _) ?_
  exact (not_ends_selfExtending depth place _).2

end Typesmith.Model
