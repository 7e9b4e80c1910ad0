import Typesmith.Conversion.Roots
import Typesmith.Proofs.Collecting
import Typesmith.Proofs.Ownership

namespace Typesmith.Conversion

open Model Declaration

variable {cfg : Setting} {s t : Store}

theorem mem_named {c : Container} {i : Id} : i ∈ named s c ↔ i ∈ c ∧ HasName s i := by
  simp only [named, List.mem_filter, decide_eq_true_eq]
  exact and_congr_right fun _ => ⟨hasName_of_nameOf, HasName.nameOf⟩

/-- A container of the index where it is used names the descriptors in it and no others: one without
a name has nothing inside it. -/
theorem notesOnly_listed (tidy : Tidy s) {ref : String} {c : Container} (listed : (ref, c) ∈ s.index) :
    NotesOnly (· ∈ named s c) (inlineContainer (inlineText cfg s) c) := by
  refine notesOnly_composes.container fun i inside => notesOnly_inlineWith ?_ ?_
  · intro d found filled
    exact mem_named.mpr ⟨inside, d, found, filled⟩
  · intro d found empty
    obtain ⟨e, stored, closed⟩ := tidy.listed ref c listed i inside
    rw [stored] at found
    cases found
    have bare := tidy.bare i _ stored (closed.resolve_left (not_not.mpr empty))
    rw [bare.inside]
    simp

theorem aliasOf_declares (tidy : Tidy s) {name ref owner : String} {c : Container} {d : Declaration}
    (listed : (owner, c) ∈ s.index) (made : aliasOf cfg s name ref c = .ok d) :
    d.name = name ∧ d.ref = ref ∧ d.kind = Kind.any.label ∧
      ∀ dep ∈ d.dependencies, ∃ i ∈ named s c, nameOf s i = dep := by
  unfold aliasOf at made
  split at made
  · rename_i i single
    cases made
    refine ⟨rfl, rfl, rfl, ?_⟩
    intro dep depends
    rw [single]
    exact ⟨i, List.mem_singleton_self i, (List.mem_singleton.mp depends).symm⟩
  · obtain ⟨⟨text, deps⟩, run, made⟩ := except_bind_ok.mp made
    cases made
    refine ⟨rfl, rfl, rfl, ?_⟩
    intro dep depends
    obtain ⟨i, noted, rfl⟩ := List.mem_map.mp depends
    exact ⟨i, notesOnly_listed tidy listed [] text deps run (by simp) i noted, rfl⟩

theorem mem_keptOf {skips : List String} {c : Container} {i : Id} :
    i ∈ keptOf skips s c ↔ i ∈ c ∧ HasName s i ∧ nameOf s i ∉ skips := by
  simp only [keptOf, List.mem_filter, mem_named, Bool.not_eq_true', List.contains_eq_mem,
    decide_eq_false_iff_not, and_assoc]

/-- What taking a reference into the root set comes to: the kept members of its container are new
roots, and a name that none of them has may get an alias. -/
structure Added (cfg : Setting) (skips : List String) (ref : String) (c : Container) (s : Store)
    (r r' : Roots) : Prop where
  containers : r'.containers.flatten = r.containers.flatten ++ keptOf skips s c
  aliases : (r'.aliases = r.aliases ∧
      r'.declared = (Reference.normalize ref, (keptOf skips s c).map (nameOf s)) :: r.declared ∧
      ∀ name, s.names.lookup? (Reference.normalize ref) = some name → name = "" ∨
        name ∈ (keptOf skips s c).map (nameOf s) ∨ name ∈ skips ∨
        (cfg.overrides.lookup name).isSome = true) ∨
    ∃ name d, r'.aliases = r.aliases ++ [d] ∧
      r'.declared = (Reference.normalize ref, [name]) :: r.declared ∧
      s.names.lookup? (Reference.normalize ref) = some name ∧
      (∀ i ∈ keptOf skips s c, nameOf s i ≠ name) ∧ name ∉ skips ∧
      aliasOf cfg s name (Reference.normalize ref) c = .ok d

theorem take_added {skips : List String} {r r' : Roots} {ref : String} {c : Container}
    (taken : r.take cfg skips (Reference.normalize ref) c s = .ok r') :
    Added cfg skips ref c s r r' := by
  have roots : (if (keptOf skips s c).isEmpty then r else
      { r with containers := r.containers ++ [keptOf skips s c] }).containers.flatten =
        r.containers.flatten ++ keptOf skips s c := by
    split
    · rename_i empty
      rw [List.isEmpty_iff.mp empty, List.append_nil]
    · simp
  have aliases : (if (keptOf skips s c).isEmpty then r else
      { r with containers := r.containers ++ [keptOf skips s c] }).aliases = r.aliases := by
    split <;> rfl
  have declared : (if (keptOf skips s c).isEmpty then r else
      { r with containers := r.containers ++ [keptOf skips s c] }).declared = r.declared := by
    split <;> rfl
  unfold Roots.take at taken
  dsimp only at taken
  split at taken
  · rename_i settled
    simp only [Bool.or_eq_true, decide_eq_true_eq, List.contains_eq_mem, or_assoc] at settled
    cases taken
    refine ⟨roots, .inl ⟨aliases, congrArg (_ :: ·) declared, ?_⟩⟩
    intro name held
    rwa [held] at settled
  · rename_i wanted
    simp only [Bool.or_eq_true, decide_eq_true_eq, List.contains_eq_mem, not_or] at wanted
    obtain ⟨⟨⟨filled, missing⟩, allowed⟩, _⟩ := wanted
    obtain ⟨d, made, taken⟩ := except_bind_ok.mp taken
    cases taken
    have held : s.names.lookup? (Reference.normalize ref) =
        some ((s.names.lookup? (Reference.normalize ref)).getD "") := by
      cases lookup : s.names.lookup? (Reference.normalize ref) with
      | none => simp [lookup] at filled
      | some name => rfl
    refine ⟨roots, .inr ⟨_, d, congrArg (· ++ [d]) aliases, congrArg (_ :: ·) declared, held, ?_,
      allowed, made⟩⟩
    exact fun i inside same => missing (List.mem_map.mpr ⟨i, inside, same⟩)

theorem returns_add {skips : List String} {r r' : Roots} {ref : String} :
    Returns (r.add cfg skips ref) s r' t ↔ ∃ c, Returns (findOrCreate cfg ref) s c t ∧
      r.take cfg skips (Reference.normalize ref) c t = .ok r' := by
  constructor
  · intro run
    obtain ⟨c, m, found, run⟩ := returns_bind.mp run
    obtain ⟨_, _, got, run⟩ := returns_bind.mp run
    cases got
    obtain ⟨taken, rfl⟩ := returns_lift.mp run
    exact ⟨c, found, taken⟩
  · rintro ⟨c, found, taken⟩
    exact returns_bind.mpr ⟨c, t, found, returns_bind.mpr ⟨t, t, rfl, returns_lift.mpr ⟨taken, rfl⟩⟩⟩

/-- What holds after some references, given by their canonical forms, were taken in. -/
structure Gathered (skips refs : List String) (s : Store) (r : Roots) : Prop where
  tidy : Tidy s
  rooted : ∀ i ∈ r.containers.flatten, HasName s i
  asked : List.Sublist (r.aliases.map (·.ref)) refs
  held : ∀ d ∈ r.aliases, s.names.lookup? d.ref = some d.name
  renamed : ∀ d ∈ r.aliases, ∃ c, (d.ref, c) ∈ s.index ∧ ∀ i ∈ c, nameOf s i ≠ d.name
  /-- What an alias names is a root, unless it is skipped. -/
  linked : ∀ d ∈ r.aliases, d.kind = Kind.any.label ∧
    ∀ dep ∈ d.dependencies, dep ∈ skips ∨ ∃ i ∈ r.containers.flatten, nameOf s i = dep

theorem gathered_fresh (skips : List String) : Gathered skips [] {} {} := by
  constructor
  · exact tidy_fresh
  · simp
  · exact List.Sublist.slnil
  all_goals simp

theorem Gathered.grows {skips refs : List String} {r : Roots} (gathered : Gathered skips refs s r)
    (tidy : Tidy t) (grows : Grows s t) : Gathered skips refs t r := by
  refine ⟨tidy, ?_, gathered.asked, ?_, ?_, ?_⟩
  · exact fun i root => (gathered.rooted i root).grows grows
  · exact fun d inside => grows.names.kept _ _ (gathered.held d inside)
  · intro d inside
    obtain ⟨c, listed, other⟩ := gathered.renamed d inside
    refine ⟨c, grows.log.subset listed, ?_⟩
    intro i member
    obtain ⟨_, stored, _⟩ := gathered.tidy.listed _ c listed i member
    rw [nameOf_grows grows (Store.get?_lt stored)]
    exact other i member
  · intro d inside
    obtain ⟨kind, deps⟩ := gathered.linked d inside
    refine ⟨kind, ?_⟩
    intro dep depends
    rcases deps dep depends with skipped | ⟨i, root, same⟩
    · exact .inl skipped
    · refine .inr ⟨i, root, ?_⟩
      rw [nameOf_grows grows (gathered.rooted i root).lt]
      exact same

theorem Added.mem_of_mem {skips : List String} {r r' : Roots} {ref : String} {c : Container}
    (added : Added cfg skips ref c s r r') {i : Id} (root : i ∈ r.containers.flatten) :
    i ∈ r'.containers.flatten := by
  rw [added.containers]
  exact List.mem_append_left _ root

theorem Added.mem_of_kept {skips : List String} {r r' : Roots} {ref : String} {c : Container}
    (added : Added cfg skips ref c s r r') {i : Id} (kept : i ∈ keptOf skips s c) :
    i ∈ r'.containers.flatten := by
  rw [added.containers]
  exact List.mem_append_right _ kept

theorem Added.rooted {skips : List String} {r r' : Roots} {ref : String} {c : Container}
    (added : Added cfg skips ref c s r r') (before : ∀ i ∈ r.containers.flatten, HasName s i) :
    ∀ i ∈ r'.containers.flatten, HasName s i := by
  intro i root
  rw [added.containers] at root
  rcases List.mem_append.mp root with older | new
  · exact before i older
  · exact (mem_keptOf.mp new).2.1

/-- What the reference of a new alias stands for goes by other names: a member of this name would have been
kept or skipped. -/
theorem nameOf_ne_of_missing {skips : List String} {c : Container} {name : String} (filled : name ≠ "")
    (missing : ∀ i ∈ keptOf skips s c, nameOf s i ≠ name) (allowed : name ∉ skips) {i : Id}
    (inside : i ∈ c) : nameOf s i ≠ name := by
  intro same
  have named := hasName_of_nameOf (by rwa [same])
  exact missing i (mem_keptOf.mpr ⟨inside, named, by rwa [same]⟩) same

theorem Gathered.add {skips refs : List String} {r r' : Roots} {ref : String}
    (gathered : Gathered skips refs s r) (run : Returns (r.add cfg skips ref) s r' t) :
    Gathered skips (refs ++ [Reference.normalize ref]) t r' := by
  obtain ⟨c, found, taken⟩ := returns_add.mp run
  have added := take_added taken
  obtain ⟨tidy, grows, listed⟩ := findOrCreate_tidy found gathered.tidy
  have before := gathered.grows tidy grows
  have linked : ∀ d ∈ r.aliases, d.kind = Kind.any.label ∧
      ∀ dep ∈ d.dependencies, dep ∈ skips ∨ ∃ i ∈ r'.containers.flatten, nameOf t i = dep := by
    intro d inside
    obtain ⟨kind, deps⟩ := before.linked d inside
    refine ⟨kind, fun dep depends => (deps dep depends).imp_right ?_⟩
    rintro ⟨i, root, same⟩
    exact ⟨i, added.mem_of_mem root, same⟩
  rcases added.aliases with ⟨same, _⟩ | ⟨name, d, grown, _, held, missing, allowed, made⟩
  · refine ⟨tidy, added.rooted before.rooted, ?_, same ▸ before.held, same ▸ before.renamed, same ▸ linked⟩
    rw [same]
    exact before.asked.trans (List.sublist_append_left _ _)
  · obtain ⟨rfl, owner, kind, deps⟩ := aliasOf_declares tidy listed made
    rw [← owner] at held listed
    -- of an older alias everything is known, so the new one is to be looked at
    have split : ∀ e ∈ r'.aliases, e ∈ r.aliases ∨ e = d := by
      intro e inside
      simpa [grown] using inside
    refine ⟨tidy, added.rooted before.rooted, ?asked, ?held, ?renamed, ?linked⟩
    case asked =>
      rw [grown, List.map_append]
      refine before.asked.append ?_
      rw [List.map_singleton, owner]
    case held =>
      intro e inside
      rcases split e inside with older | rfl
      · exact before.held e older
      · exact held
    case renamed =>
      intro e inside
      rcases split e inside with older | rfl
      · exact before.renamed e older
      · have filled := tidy.named _ (Registry.mem_issued_of_lookup? held)
        exact ⟨c, listed, fun i member => nameOf_ne_of_missing filled missing allowed member⟩
    case linked =>
      intro e inside
      rcases split e inside with older | rfl
      · exact linked e older
      · refine ⟨kind, fun dep depends => ?_⟩
        obtain ⟨i, member, rfl⟩ := deps dep depends
        obtain ⟨member, named⟩ := mem_named.mp member
        by_cases skipped : nameOf t i ∈ skips
        · exact .inl skipped
        · exact .inr ⟨i, added.mem_of_kept (mem_keptOf.mpr ⟨member, named, skipped⟩), rfl⟩

/-- No descriptor has the name of an alias: the name belongs to the reference of the alias, so the
descriptor would be in the container of that reference. -/
theorem Gathered.unused {skips refs : List String} {r : Roots} (gathered : Gathered skips refs s r)
    {d : Declaration} (inside : d ∈ r.aliases) (i : Id) : nameOf s i ≠ d.name := by
  intro same
  have held := Registry.mem_issued_of_lookup? (gathered.held d inside)
  have filled := gathered.tidy.named _ held
  obtain ⟨e, stored, named⟩ : HasName s i := hasName_of_nameOf (by rw [same]; exact filled)
  have title : e.name = d.name := by simpa [nameOf, stored] using same
  have owns := gathered.tidy.held i e stored named
  rw [title] at owns
  have owner := gathered.tidy.distinct.owner_unique owns held
  have owned : e.ref ≠ "" := by
    intro empty
    have nobody := gathered.held d inside
    rw [← owner, empty] at nobody
    cases nobody
  obtain ⟨c, listed, other⟩ := gathered.renamed d inside
  exact other i (gathered.tidy.placed i e c stored owned (owner ▸ listed)) same

def Roots.addAll (cfg : Setting) (skips : List String) (r : Roots) (asked : List (Resolver × String)) :
    ConvertM Roots :=
  asked.foldlM (fun r q => r.add { cfg with resolver := q.1 } skips q.2) r

theorem Gathered.addAll {skips refs : List String} {r r' : Roots} {asked : List (Resolver × String)}
    (gathered : Gathered skips refs s r) (run : Returns (r.addAll cfg skips asked) s r' t) :
    Gathered skips (refs ++ asked.map fun q => Reference.normalize q.2) t r' := by
  induction asked generalizing refs r s with
  | nil =>
    obtain ⟨rfl, rfl⟩ := returns_pure.mp run
    rw [List.map_nil, List.append_nil]
    exact gathered
  | cons q asked ih =>
    obtain ⟨middle, m, first, rest⟩ := returns_bind.mp run
    have all := ih (gathered.add first) rest
    rw [List.append_assoc] at all
    exact all

theorem collect_distinct (tidy : Tidy s) {roots : List Container} {ds : List Declaration}
    (collected : collect cfg s roots = .ok ds) : (ds.map (·.name)).Nodup := by
  obtain ⟨vs, walked, perm⟩ := collect_walked collected
  rw [(perm.map _).nodup_iff, List.map_map]
  refine List.Nodup.map_on ?_ (List.Nodup.of_map _ walked.once)
  intro v first w second same
  simp only [Function.comp, ofVisit_name] at same
  have place := tidy.nameOf_inj (visit_named (walked.shown v first)) same
  exact List.inj_on_of_nodup_map walked.once first second place

theorem Gathered.distinct {skips refs : List String} {r : Roots} (gathered : Gathered skips refs s r)
    (different : refs.Nodup) : (r.aliases.map (·.name)).Nodup := by
  have owners := gathered.asked.nodup different
  refine List.Nodup.map_on ?_ (List.Nodup.of_map _ owners)
  intro d first e second same
  have one := Registry.mem_issued_of_lookup? (gathered.held d first)
  have other := Registry.mem_issued_of_lookup? (gathered.held e second)
  rw [same] at one
  exact List.inj_on_of_nodup_map owners first second (gathered.tidy.distinct.owner_unique one other)

/-- No two declarations have the same name: descriptors have theirs to themselves, references that
differ own different names, and an alias is only declared for a name that no descriptor has. -/
theorem declared_names_distinct {skips : List String} {asked : List (Resolver × String)} {r : Roots}
    {ds : List Declaration} (different : (asked.map fun q => Reference.normalize q.2).Nodup)
    (run : Returns (({} : Roots).addAll cfg skips asked) {} r s)
    (collected : collect cfg s r.containers = .ok ds) : ((ds ++ r.aliases).map (·.name)).Nodup := by
  have gathered := (gathered_fresh skips).addAll run
  rw [List.nil_append] at gathered
  rw [List.map_append, List.nodup_append]
  refine ⟨collect_distinct gathered.tidy collected, gathered.distinct different, ?_⟩
  intro name declared other aliased
  obtain ⟨vs, _, perm⟩ := collect_walked collected
  obtain ⟨v, _, rfl⟩ := (mem_names_iff perm).mp declared
  obtain ⟨d, inside, rfl⟩ := List.mem_map.mp aliased
  exact gathered.unused inside v.id

def twoNames : Model.Setting where
  resolver := { root := .obj [
    ("P", .obj [("properties", .obj [("k", .obj [("enum", .arr [.str "c"])])]), ("type", .str "object")]),
    ("p", .obj [("$ref", .str "#/P")])] }

theorem declared_names_distinct_twoNames :
    ∃ r s ds, Returns (({} : Roots).addAll twoNames []
        [(twoNames.resolver, "#/p"), (twoNames.resolver, "#/P")]) {} r s ∧
      collect twoNames s r.containers = .ok ds ∧ ds.length = 2 ∧ r.aliases.map (·.name) = ["P"] ∧
      ((ds ++ r.aliases).map (·.name)).Nodup := by
  have evaluated : (exec (do
      let r ← ({} : Roots).addAll twoNames []
        [(twoNames.resolver, "#/p"), (twoNames.resolver, "#/P")]
      let s ← get
      return ((visitsWithin 5 twoNames s r.containers).map (·.length), r.aliases.map (·.name))) {}).1 =
      .ok (some 2, ["P"]) := by
    simp only [Roots.addAll, Roots.add, findOrCreate, deepening_eq]
    decide +kernel
  obtain ⟨r, s, run, rest⟩ := returns_bind.mp (returns_of_ok evaluated)
  obtain ⟨_, _, got, rest⟩ := returns_bind.mp rest
  obtain ⟨rfl, rfl⟩ := returns_get.mp got
  obtain ⟨same, _⟩ := returns_pure.mp rest
  obtain ⟨visits, aliases⟩ := Prod.mk.inj same
  obtain ⟨vs, visited, two⟩ := Option.map_eq_some_iff.mp visits
  have collected := collect_of_visitsWithin visited
  exact ⟨r, s, _, run, collected, by simpa [sortByName] using two, aliases,
    declared_names_distinct (by decide) run collected⟩

end Typesmith.Conversion
