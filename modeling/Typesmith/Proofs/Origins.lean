import Typesmith.Proofs.Coverage
import Typesmith.Proofs.Keys

namespace Typesmith

namespace Naming

def builtinNames : List String :=
  ["any", "string", "number", "boolean", "null", "never", "Array", "Record", "Blob"]

def unreservedBuiltins : List String :=
  ["Array", "Record", "Blob"]

theorem mem_unreservedBuiltins {name : String} (legal : Legal name) (builtin : name ∈ builtinNames) :
    name ∈ unreservedBuiltins := by
  have split : ∀ name ∈ builtinNames, isReserved name = true ∨ name ∈ unreservedBuiltins := by decide
  refine (split name builtin).resolve_left ?_
  rw [legal.unreserved]
  exact Bool.false_ne_true

theorem unreservedBuiltins_subset : unreservedBuiltins ⊆ builtinNames := by
  decide

/-- A name without a number that is not made for an enum. -/
def Unadorned (name : String) : Prop :=
  '_' ∉ name.toList ∧ name.toList.head? ≠ some 'E'

instance (name : String) : Decidable (Unadorned name) :=
  inferInstanceAs (Decidable (_ ∧ _))

theorem unadorned_builtin : ∀ name ∈ builtinNames, Unadorned name := by
  decide

theorem head_sanitize {c : Char} {name : String} {rest : List Char} (letters : name.toList = c :: rest)
    (kept : isIdentPart c = true) :
    (sanitize name).toList.head? = some c ∨ (sanitize name).toList.head? = some '_' := by
  have filtered : name.toList.filter isIdentPart = c :: rest.filter isIdentPart := by
    rw [letters, List.filter_cons_of_pos kept]
  rw [sanitize, filtered]
  dsimp only
  split
  · exact .inr (by simp)
  · exact .inl (by simp)

end Naming

namespace Registry

open Naming

theorem Earned.derived {r : Registry} (earned : r.Earned) {name owner : String}
    (issued : (name, owner) ∈ r.issued) (owned : owner ≠ "") : Derived (baseName owner) name :=
  (earned name owner issued owned).imp_right fun ⟨n, _, numbered, _⟩ => ⟨n, numbered⟩

theorem not_unadorned_numbered (base : String) (n : Nat) : ¬ Unadorned (numbered base n) :=
  fun plain => plain.1 (by simp [numbered])

end Registry

namespace Model

open Naming Registry

theorem HoistedName.not_unadorned {name : String} (hoisted : HoistedName name) : ¬ Unadorned name := by
  obtain ⟨hint, rfl | ⟨n, rfl⟩⟩ := hoisted
  · rintro ⟨noUnderscore, notE⟩
    have letters : ("Enum" ++ hint).toList = 'E' :: ("num".toList ++ hint.toList) := by
      rw [String.toList_append]
      rfl
    rcases head_sanitize letters (by decide) with first | first
    · exact notE first
    · exact noUnderscore (List.mem_of_head? first)
  · exact not_unadorned_numbered _ n

def Descriptor.Attributed (d : Descriptor) : Prop :=
  d.ref = "" → d.name = "" ∨ d.kind = .enum ∧ HoistedName d.name

def Attributed (s : Store) : Prop :=
  ∀ i d, s.get? i = some d → d.Attributed

section

variable {cfg : Setting} {s t : Store}

theorem attributed_fresh : Attributed {} := by
  intro i d found
  simp [Store.get?] at found

theorem Attributed.of_same (attributed : Attributed s) (same : t.descriptors = s.descriptors) : Attributed t := by
  intro i d found
  rw [Store.get?, same] at found
  exact attributed i d found

theorem Attributed.push (attributed : Attributed s) {d : Descriptor} (new : d.Attributed) :
    Attributed (s.push d).2 := by
  intro i e found
  rw [Store.get?_push] at found
  split at found
  · cases found
    exact new
  · exact attributed i e found

theorem Attributed.setShape (attributed : Attributed s) (id : Id) (shape : Shape) :
    Attributed (s.setShape id shape) := by
  intro i d found
  rw [Store.get?_setShape] at found
  split at found
  · obtain ⟨e, older, rfl⟩ := Option.map_eq_some_iff.mp found
    exact attributed i e older
  · exact attributed i d found

theorem Attributed.touches (attributed : Attributed s) {id : Id} (touches : Touches id s t) : Attributed t := by
  cases touches with
  | nothing => exact attributed
  | shape shape => exact attributed.setShape id shape
  | any shape => exact (attributed.push fun _ => .inl rfl).setShape id shape

theorem Attributed.register (attributed : Attributed s) (ref : String) (c : Container) :
    Attributed (s.register ref c) :=
  attributed.of_same (s.descriptors_register ref c)

theorem Attributed.claimed (attributed : Attributed s) {d : Descriptor} (new : d.Attributed) (nullable : Bool) :
    Attributed (claimed d nullable s) := by
  have made : Attributed (s.push { d with nullable }).2 := attributed.push new
  unfold Model.claimed
  refine Attributed.register ?_ _ _
  split
  · exact made.push fun _ => .inl rfl
  · exact made

theorem Titled.attributed {kind : Kind} {o : Options} {start : Store} {name : String} (f : Fragment)
    (titled : Titled kind o s start name) (owned : o.ref = "" → o.name = "") :
    (opening kind f { o with name }).Attributed := by
  intro unowned
  rw [opening_ref] at unowned
  rcases opening_name kind f { o with name } with own | ⟨empty, _⟩
  · rw [own, opening_kind]
    cases titled with
    | own => exact .inl (owned unowned)
    | new enum _ _ _ hoisted => exact .inr ⟨enum, hoisted⟩
  · exact .inl empty

/-- A conversion that is asked for a name only with a reference makes no other names than those of enums. -/
def Attributes : Converts := fun _ o s _ t => (o.ref = "" → o.name = "") → Attributed s → Attributed t

theorem Attributes.finds {ref : String} {c : Container} (found : Finds cfg Attributes ref s c t)
    (attributed : Attributed s) : Attributed t := by
  have owned := normalize_ne_empty ref
  cases found with
  | known => exact attributed
  | @replaced f name other names =>
    have before : Attributed { s with names } := attributed.of_same rfl
    have named : (externalDescriptor f { ref := Reference.normalize ref } other).Attributed := by
      intro unowned
      rw [externalDescriptor] at unowned
      exact absurd unowned owned
    exact before.claimed named false
  | converted _ _ _ _ inside => exact inside (fun unowned => absurd unowned owned) (attributed.of_same rfl)

theorem attributes_step {f : Fragment} {o : Options} {c : Container} (step : Step cfg Attributes f o s c t) :
    Attributes f o s c t := by
  intro owned attributed
  cases step with
  | ref _ found => exact (Attributes.finds found attributed).register _ _
  | union _ _ _ inside => exact inside owned attributed
  | types _ _ _ each =>
    have inside := each.keeps Attributed (fun _ _ _ _ _ one => one fun _ => rfl) (fun _ _ kept => kept) attributed
    refine Attributed.register ?_ _ _
    unfold sideBySide
    split
    · exact inside.push fun _ => .inl rfl
    · exact inside
  | node _ _ _ built =>
    -- only the descriptor that is opened here gets a name; what is below is asked for without one
    obtain ⟨titled, quiet, _, each⟩ := built
    have before := attributed.of_same quiet.descriptors
    have opened := before.claimed (titled.attributed (stripped f) owned) (keepsNull f)
    have inside := each.keeps Attributed (fun _ _ _ _ _ one => one fun _ => rfl)
      (fun cs m kept => kept.touches (noted_touches _ _ _ cs m)) opened
    exact inside.touches (finished_touches _ _ _ _ _)

theorem findOrCreate_attributed {ref : String} {c : Container} (run : Returns (findOrCreate cfg ref) s c t)
    (attributed : Attributed s) : Attributed t :=
  Attributes.finds (findOrCreate_keeps (P := Attributes) (fun _ _ _ _ _ => attributes_step) run) attributed

end

end Model

namespace Conversion

open Model Declaration Registry Naming

/-- What the name of a declaration is made from, with a number behind it where that was taken. -/
inductive Origin (name ref : String) : Prop
  | reference (owned : ref ≠ "") (derived : Derived (baseName ref) name)
  | hoisted (unowned : ref = "") (made : HoistedName name)

theorem Origin.legal {name ref : String} (origin : Origin name ref) : Naming.Legal name := by
  cases origin with
  | reference _ derived => exact derived.legal (modelName_legal _)
  | hoisted _ made =>
    obtain ⟨hint, derived⟩ := made
    exact derived.legal (sanitize_legal _)

theorem Origin.of_unadorned {name ref : String} (origin : Origin name ref) (plain : Unadorned name) :
    ref ≠ "" ∧ baseName ref = name := by
  cases origin with
  | reference owned derived =>
    rcases derived with own | ⟨n, rfl⟩
    · exact ⟨owned, own.symm⟩
    · exact absurd plain (not_unadorned_numbered _ n)
  | hoisted _ made => exact absurd plain made.not_unadorned

theorem Origin.of_builtin {name ref : String} (origin : Origin name ref) (builtin : name ∈ builtinNames) :
    name ∈ unreservedBuiltins ∧ ref ≠ "" ∧ baseName ref = name :=
  ⟨mem_unreservedBuiltins origin.legal builtin, origin.of_unadorned (unadorned_builtin name builtin)⟩

section

variable {q : Request} {cfg : Model.Setting} {foreign : Option DocumentLoader} {doc : Document} {s t : Store}

theorem addComponents_attributed {r : Roots} (run : Succeeds (addComponents q cfg doc) {} r t) : Attributed t := by
  refine addComponents_keeps (fun _ _ => Attributed) ?_ ?_ run attributed_fresh
  · exact fun _ _ _ _ _ _ quiet attributed => attributed.of_same quiet.descriptors
  · intro _ _ _ _ _ _ added attributed
    obtain ⟨_, found, _⟩ := returns_add.mp added
    exact findOrCreate_attributed found attributed

theorem addEntryPoints_attributed {r : Roots} {entries : List EntryPoint}
    {out : Roots × List (String × List String)} (run : Succeeds (addEntryPoints q cfg r entries) s out t)
    (attributed : Attributed s) : Attributed t := by
  refine addEntryPoints_keeps (fun _ _ => Attributed) ?_ ?_ run attributed
  · exact fun _ _ _ _ _ attributed => attributed
  · intro _ _ _ _ _ _ added attributed
    obtain ⟨_, found, _⟩ := returns_add.mp added
    exact findOrCreate_attributed found attributed

theorem stored_origin (tidy : Tidy s) (earned : s.names.Earned) (attributed : Attributed s) {i : Id}
    {d : Descriptor} (found : s.get? i = some d) (named : d.name ≠ "") :
    (d.name, d.ref) ∈ s.names.issued ∧ Origin d.name d.ref := by
  have held := tidy.held i d found named
  refine ⟨held, ?_⟩
  by_cases owned : d.ref = ""
  · exact .hoisted owned ((attributed i d found owned).resolve_left named).2
  · exact .reference owned (earned.derived held owned)

theorem Accounted.origin {overrides : List (String × String)} {skips refs : List String} {roots : Roots}
    {ds : List Declaration} (accounted : Accounted overrides skips refs s roots) (attributed : Attributed s)
    (collected : collect cfg s roots.containers = .ok ds) :
    ∀ d ∈ sortByName (ds ++ roots.aliases), (d.name, d.ref) ∈ s.names.issued ∧ Origin d.name d.ref := by
  intro d inside
  rw [sortByName, List.mem_mergeSort, List.mem_append] at inside
  rcases inside with declared | aliased
  · obtain ⟨vs, walked, perm⟩ := collect_walked collected
    obtain ⟨v, visited, rfl⟩ := List.mem_map.mp (perm.mem_iff.mp declared)
    obtain ⟨e, stored, named⟩ := visit_named (walked.shown v visited)
    have name : (ofVisit s v).name = e.name := by simp [ofVisit, stored]
    have ref : (ofVisit s v).ref = e.ref := by simp [ofVisit, stored]
    rw [name, ref]
    exact stored_origin accounted.gathered.tidy accounted.earned attributed stored named
  · have found := accounted.gathered.held d aliased
    have held := mem_issued_of_lookup? found
    have owned : d.ref ≠ "" := by
      intro empty
      rw [empty] at found
      cases found
    exact ⟨held, .reference owned (accounted.earned.derived held owned)⟩

theorem run_origin {r : Result} (ran : Succeeds (run q foreign doc) {} r t) :
    ∀ d ∈ r.declarations, (d.name, d.ref) ∈ t.names.issued ∧ Origin d.name d.ref := by
  obtain ⟨roots, m, components, ran⟩ := succeeds_bind.mp ran
  obtain ⟨refs, accounted, _⟩ := addComponents_accounted components
  have attributed := addComponents_attributed components
  split at ran
  · obtain ⟨ds, collected, rfl, rfl⟩ := succeeds_conclude.mp ran
    exact accounted.origin attributed collected
  · obtain ⟨entries, k, found, ran⟩ := succeeds_bind.mp ran
    obtain ⟨⟨roots', listed⟩, l, added, ran⟩ := succeeds_bind.mp ran
    obtain ⟨ds, collected, rfl, rfl⟩ := succeeds_conclude.mp ran
    have quiet := quiet_entryPointsOf found
    have before := accounted.of_quiet quiet
    have attributed' := addEntryPoints_attributed added (attributed.of_same quiet.descriptors)
    rw [mountAll_eq] at added
    obtain ⟨_, after⟩ := addEntryPoints_listed added before
    exact after.accounted.origin attributed' collected

theorem declared_legal {r : Result} (done : (outcome q foreign doc).answer = .ok r) :
    ∀ d ∈ r.declarations, Naming.Legal d.name := by
  have ran : Succeeds (run q foreign doc) {} r (perform (run q foreign doc) {}).2 := Prod.ext done rfl
  exact fun d inside => (run_origin ran d inside).2.legal

/-- Whatever the names in a document are, every declared name is an identifier and no reserved word. It is
made from its reference or, for an enum without one, from a hint. -/
theorem declared_names_legal {r : Result} (done : (outcome q foreign doc).answer = .ok r) :
    ∀ d ∈ r.declarations, isIdentifier d.name = true ∧ isReserved d.name = false ∧ Origin d.name d.ref := by
  have ran : Succeeds (run q foreign doc) {} r (perform (run q foreign doc) {}).2 := Prod.ext done rfl
  intro d inside
  have origin := (run_origin ran d inside).2
  exact ⟨origin.legal.identifier, origin.legal.unreserved, origin⟩

end

def labels : Document where
  path := ""
  name := ""
  root := .obj [("components", .obj [("schemas", .obj [
      ("1 é", .obj [("type", .str "string")]),
      ("1-é", .obj [("properties", .obj [("tag", .obj [("enum", .arr [.str "x"]), ("type", .str "string")])]),
        ("type", .str "object")])])]),
    ("openapi", .str "3.0.0")]

theorem declared_names_legal_labels :
    ∃ r, (outcome { componentsOnly := true } none labels).answer = .ok r ∧
      ["_1É", "_1É_1", "Enum_1É_1Tag"] ⊆ r.declarations.map (·.name) ∧
      ∀ d ∈ r.declarations, isIdentifier d.name = true ∧ isReserved d.name = false ∧
        Origin d.name d.ref := by
  have evaluated : (componentsWithin 5 { componentsOnly := true } labels).map
      (fun x => x.2.2.map fun v => nameOf x.2.1 v.id) = some ["_1É", "_1É_1", "Enum_1É_1Tag"] := by
    simp only [componentsWithin, addComponents, Roots.add, findOrCreate, deepening_eq]
    decide +kernel
  obtain ⟨⟨roots, s, vs⟩, ran, names⟩ := Option.map_eq_some_iff.mp evaluated
  have done := succeeds_of_componentsWithin (q := { componentsOnly := true }) rfl ran
  refine ⟨_, congrArg Prod.fst done, ?_, declared_names_legal (congrArg Prod.fst done)⟩
  intro name inside
  rw [← names] at inside
  rw [mem_declarations_iff, sortByName, mem_names_iff (List.mergeSort_perm _ _)]
  exact .inl (List.mem_map.mp inside)

section

variable {q : Request} {foreign : Option DocumentLoader} {doc : Document} {s : Store}

theorem baseName_component {name : String} (free : '\\' ∉ name.toList) :
    baseName (Reference.normalize (Reference.component name)) = modelName name := by
  rw [baseName, Reference.parse_normalize, (EntryPoint.lastSegment_component_iff name).mpr free]

/-- Of the built-in types, those that are not reserved are declared, and they are declared for the
references whose last segments come to their names. A schema with such a name is declared under it,
unless it is skipped or replaced or another reference has the name. -/
theorem builtin_declared_iff {r : Result} (done : Succeeds (run q foreign doc) {} r s) :
    (∀ d ∈ r.declarations, d.name ∈ builtinNames ↔
      d.ref ≠ "" ∧ d.name = baseName d.ref ∧ baseName d.ref ∈ unreservedBuiltins) ∧
    ∀ component ∈ doc.components, component.1 ∉ q.skips → '\\' ∉ component.1.toList →
      modelName component.1 ∈ unreservedBuiltins → modelName component.1 ∉ q.skips →
      q.overrides.lookup (modelName component.1) = none →
      modelName component.1 ∈ r.declarations.map (·.name) ∨
        ∃ owner ≠ Reference.normalize (Reference.component component.1),
          (modelName component.1, owner) ∈ s.names.issued := by
  constructor
  · intro d inside
    have origin := (run_origin done d inside).2
    constructor
    · intro builtin
      obtain ⟨unreserved, owned, own⟩ := origin.of_builtin builtin
      exact ⟨owned, own.symm, own ▸ unreserved⟩
    · rintro ⟨_, own, unreserved⟩
      exact own ▸ unreservedBuiltins_subset unreserved
  · intro component inside byName free builtin byModelName kept
    obtain ⟨refs, roots, settled⟩ := run_settled done
    have known := (settled.components component inside).resolve_left (not_or.mpr ⟨byName, byModelName⟩)
    obtain ⟨name, held, due⟩ := settled.accounted.covered.owned _ known
    have earned := settled.accounted.earned name _ (mem_issued_of_lookup? held) (normalize_ne_empty _)
    rw [baseName_component free] at earned
    rcases earned with own | ⟨_, other, _, different, taken⟩
    · rw [own] at due
      exact .inl (settled.realised _ (due byModelName kept))
    · exact .inr ⟨other, different, taken⟩

end

def shelf : Document where
  path := ""
  name := ""
  root := .obj [("components", .obj [("schemas", .obj [
      ("Array", .obj [("items", .obj [("type", .str "string")]), ("type", .str "array")])])]),
    ("openapi", .str "3.0.0")]

theorem shelf_run : ∃ r s d, Succeeds (run { componentsOnly := true } none shelf) {} r s ∧
    d ∈ r.declarations ∧ d.name = "Array" ∧ d.text = "export type Array = Array<string>;" ∧
    s.names.issued = [("Array", "#/components/schemas/Array")] := by
  have evaluated : (componentsWithin 5 { componentsOnly := true } shelf).map
      (fun x => (x.2.2.map fun v => (nameOf x.2.1 v.id, v.text), x.2.1.names.issued)) =
      some ([("Array", "export type Array = Array<string>;")], [("Array", "#/components/schemas/Array")]) := by
    simp only [componentsWithin, addComponents, Roots.add, findOrCreate, deepening_eq]
    decide +kernel
  obtain ⟨⟨roots, s, vs⟩, ran, same⟩ := Option.map_eq_some_iff.mp evaluated
  obtain ⟨visits, issued⟩ := Prod.mk.inj same
  obtain ⟨v, rfl, shown⟩ := List.map_eq_singleton_iff.mp visits
  obtain ⟨name, text⟩ := Prod.mk.inj shown
  have done := succeeds_of_componentsWithin (q := { componentsOnly := true }) rfl ran
  exact ⟨_, s, ofVisit s v, done, by simp [sortByName], (ofVisit_name s v).trans name, text, issued⟩

theorem builtin_declared_iff_shelf :
    ∃ r s, Succeeds (run { componentsOnly := true } none shelf) {} r s ∧
      (∀ d ∈ r.declarations, d.name ∈ builtinNames ↔
        d.ref ≠ "" ∧ d.name = baseName d.ref ∧ baseName d.ref ∈ unreservedBuiltins) ∧
      "Array" ∈ r.declarations.map (·.name) := by
  obtain ⟨r, s, _, done, _, _, _, issued⟩ := shelf_run
  obtain ⟨builtins, schemas⟩ := builtin_declared_iff done
  have declared := schemas ("Array", _) List.mem_cons_self List.not_mem_nil (by decide) (by decide)
    List.not_mem_nil rfl
  refine ⟨r, s, done, builtins, declared.resolve_right ?_⟩
  rintro ⟨owner, other, held⟩
  have own : Reference.normalize (Reference.component "Array") = "#/components/schemas/Array" := by decide
  have base : modelName "Array" = "Array" := by decide
  rw [own] at other
  rw [issued, base] at held
  simp [other] at held

/-- The list is written with its own name, which hides the built-in type. -/
theorem builtin_captured_shelf :
    ∃ r, (outcome { componentsOnly := true } none shelf).answer = .ok r ∧
      ∃ d ∈ r.declarations, d.name = "Array" ∧ d.name ∈ builtinNames ∧
        d.text = "export type Array = Array<string>;" := by
  obtain ⟨r, s, d, done, declared, name, text, _⟩ := shelf_run
  refine ⟨r, congrArg Prod.fst done, d, declared, name, ?_, text⟩
  rw [name]
  decide

end Conversion

end Typesmith
