import Typesmith.Model.Comment
import Typesmith.Proofs.Keys
import Typesmith.Proofs.Moving
import Typesmith.Proofs.Viewing

namespace Typesmith

open Fragment (mapRefsValue)

namespace Json

/-- The text is the value of a field `$ref` somewhere inside the value. -/
inductive Refers (s : String) : Json → Prop
  | here {fields : List (String × Json)} (named : ("$ref", .str s) ∈ fields) : Refers s (.obj fields)
  | field {fields : List (String × Json)} {key : String} {v : Json} (inside : (key, v) ∈ fields)
      (later : Refers s v) : Refers s (.obj fields)
  | item {items : List Json} {v : Json} (inside : v ∈ items) (later : Refers s v) : Refers s (.arr items)

section refers

variable {s : String}

theorem refers_arr_cons {v : Json} {rest : List Json} :
    Refers s (.arr (v :: rest)) ↔ Refers s v ∨ Refers s (.arr rest) := by
  constructor
  · intro found
    cases found with
    | item inside later =>
      rcases List.mem_cons.mp inside with rfl | inside
      · exact .inl later
      · exact .inr (.item inside later)
  · intro found
    rcases found with found | found
    · exact .item List.mem_cons_self found
    · cases found with
      | item inside later => exact .item (List.mem_cons_of_mem _ inside) later

theorem refers_obj_cons {key : String} {v : Json} {rest : List (String × Json)} :
    Refers s (.obj ((key, v) :: rest)) ↔
      (key = "$ref" ∧ v = .str s) ∨ Refers s v ∨ Refers s (.obj rest) := by
  constructor
  · intro found
    cases found with
    | here named =>
      rcases List.mem_cons.mp named with same | named
      · cases same
        exact .inl ⟨rfl, rfl⟩
      · exact .inr (.inr (.here named))
    | field inside later =>
      rcases List.mem_cons.mp inside with same | inside
      · cases same
        exact .inr (.inl later)
      · exact .inr (.inr (.field inside later))
  · intro found
    rcases found with ⟨rfl, rfl⟩ | found | found
    · exact .here List.mem_cons_self
    · exact .field List.mem_cons_self found
    · cases found with
      | here named => exact .here (List.mem_cons_of_mem _ named)
      | field inside later => exact .field (List.mem_cons_of_mem _ inside) later

end refers

variable (change : String → String)

mutual

theorem mapRefs_eq_self_iff (v : Json) :
    v.mapRefs change = v ↔ ∀ s, v.Refers s → change s = s := by
  cases v with
  | arr items =>
    rw [mapRefs, Json.arr.injEq]
    exact mapRefsItems_eq_self_iff items
  | obj fields =>
    rw [mapRefs, Json.obj.injEq]
    exact mapRefsFields_eq_self_iff fields
  | _ =>
    refine ⟨fun _ s found => ?_, fun _ => rfl⟩
    cases found

theorem mapRefsItems_eq_self_iff (items : List Json) :
    mapRefsItems change items = items ↔ ∀ s, (Json.arr items).Refers s → change s = s := by
  cases items with
  | nil =>
    refine ⟨fun _ s found => ?_, fun _ => rfl⟩
    cases found with
    | item inside => cases inside
  | cons v rest =>
    rw [mapRefsItems, List.cons.injEq, mapRefs_eq_self_iff v, mapRefsItems_eq_self_iff rest]
    simp only [refers_arr_cons, or_imp, forall_and]

theorem mapRefsFields_eq_self_iff (fields : List (String × Json)) :
    mapRefsFields change fields = fields ↔ ∀ s, (Json.obj fields).Refers s → change s = s := by
  cases fields with
  | nil =>
    refine ⟨fun _ s found => ?_, fun _ => rfl⟩
    cases found with
    | here named => cases named
    | field inside => cases inside
  | cons field rest =>
    obtain ⟨key, v⟩ := field
    have others := mapRefsFields_eq_self_iff rest
    have inner := mapRefs_eq_self_iff v
    simp only [refers_obj_cons, or_imp, forall_and, and_imp]
    cases v with
    | str t =>
      rw [← inner]
      by_cases named : key = "$ref"
      · simp [mapRefsFields, mapRefs, others, named]
      · simp [mapRefsFields, mapRefs, others, named]
    | _ => simpa [mapRefsFields] using and_congr inner others

end

theorem step?_mapRefsValue (v : Json) (key : String) :
    (v.mapRefs change).step? key = (v.step? key).map (mapRefsValue change key) := by
  cases v with
  | obj fields => exact Fragment.lookup_mapRefsValue change key fields
  | arr items =>
    by_cases named : key = "$ref"
    · subst named
      rfl
    · have plain : ∀ w : Json, mapRefsValue change key w = w.mapRefs change := by
        intro w
        cases w <;> simp [mapRefsValue, mapRefs, named]
      simp only [mapRefs, step?, getElem?_mapRefsItems, Option.map_bind, Function.comp_def, funext plain]
  | _ => rfl

theorem mapRefsValue_step? (first second : String) (w : Json) :
    (mapRefsValue change first w).step? second = (w.mapRefs change).step? second := by
  cases w <;> rfl

theorem along?_mapRefs (v : Json) (path : List String) (key : String) :
    (v.mapRefs change).along? (path ++ [key]) =
      (v.along? (path ++ [key])).map (mapRefsValue change key) := by
  induction path generalizing v with
  | nil =>
    simp only [List.nil_append, along?_cons, step?_mapRefsValue]
    cases v.step? key <;> rfl
  | cons first rest ih =>
    rw [List.cons_append, along?_cons, along?_cons, step?_mapRefsValue, Option.map_bind, Option.bind_map]
    refine Option.bind_congr fun w _ => ?_
    -- a text has nothing inside, so its own change does not matter further down
    have below : (mapRefsValue change first w).along? (rest ++ [key]) =
        (w.mapRefs change).along? (rest ++ [key]) := by
      cases rest <;> simp only [List.nil_append, List.cons_append, along?_cons, mapRefsValue_step?]
    exact below.trans (ih w)

end Json

namespace Fragment

open Json (keys)

variable (change : String → String)

/-- Keywords that say the same to a reader, where the data of the second ones is that of the first ones with
the references in it changed. -/
structure Follows (k l : Keywords) : Prop where
  title : l.title = k.title
  description : l.description = k.description
  values : l.enum = k.enum.map (Json.mapRefs change)
  fallback : l.defaultValue = k.defaultValue.map (Json.mapRefs change)
  sample : l.exampleValue = k.exampleValue.map (Json.mapRefs change)

section keywords

variable {k l k' l' : Keywords} {key : String} {v : Json}

theorem setKeyword_quiet (other : foldKey key ∉ ["title", "description", "enum", "default", "example"])
    (set : setKeyword k key v = some l) :
    l.title = k.title ∧ l.description = k.description ∧ l.enum = k.enum ∧
      l.defaultValue = k.defaultValue ∧ l.exampleValue = k.exampleValue := by
  unfold setKeyword at set
  split at set
  all_goals
    first
    | exact absurd (by simp only [*]; decide) other
    | (obtain ⟨_, _, rfl⟩ := Option.map_eq_some_iff.mp set
       exact ⟨rfl, rfl, rfl, rfl, rfl⟩)
    | (cases set
       exact ⟨rfl, rfl, rfl, rfl, rfl⟩)

theorem mapRefsValue_of_folded (folded : foldKey key ≠ "$ref") (v : Json) :
    mapRefsValue change key v = v.mapRefs change := by
  have other : key ≠ "$ref" := by
    rintro rfl
    exact folded (by decide)
  cases v <;> simp [mapRefsValue, Json.mapRefs, other]

theorem readText_mapRefs (old : String) (v : Json) : readText old (v.mapRefs change) = readText old v := by
  cases v <;> rfl

theorem readValue_mapRefs (v : Json) :
    readValue (v.mapRefs change) = (readValue v).map (Json.mapRefs change) := by
  cases v <;> rfl

variable {change} in
theorem Follows.setKeyword_quiet (follows : Follows change k l)
    (other : foldKey key ∉ ["title", "description", "enum", "default", "example"]) {w : Json}
    (set : setKeyword k key v = some k') (changed : setKeyword l key w = some l') : Follows change k' l' := by
  obtain ⟨title, description, values, fallback, sample⟩ := Fragment.setKeyword_quiet other set
  obtain ⟨title', description', values', fallback', sample'⟩ := Fragment.setKeyword_quiet other changed
  constructor
  · rw [title', title, follows.title]
  · rw [description', description, follows.description]
  · rw [values', values, follows.values]
  · rw [fallback', fallback, follows.fallback]
  · rw [sample', sample, follows.sample]

theorem Follows.setKeyword (follows : Follows change k l) (set : setKeyword k key v = some k')
    (changed : setKeyword l key (mapRefsValue change key v) = some l') : Follows change k' l' := by
  by_cases told : foldKey key ∈ ["title", "description", "enum", "default", "example"]
  · have folded : foldKey key ≠ "$ref" := by
      intro named
      rw [named] at told
      exact absurd told (by decide)
    rw [mapRefsValue_of_folded change folded] at changed
    obtain ⟨title, description, values, fallback, sample⟩ := follows
    simp only [List.mem_cons, List.not_mem_nil, or_false] at told
    unfold Fragment.setKeyword at set changed
    rcases told with named | named | named | named | named
    · rw [named] at set changed
      obtain ⟨t, read, rfl⟩ := Option.map_eq_some_iff.mp set
      obtain ⟨t', read', rfl⟩ := Option.map_eq_some_iff.mp changed
      rw [readText_mapRefs, title, read] at read'
      cases read'
      exact ⟨rfl, description, values, fallback, sample⟩
    · rw [named] at set changed
      obtain ⟨t, read, rfl⟩ := Option.map_eq_some_iff.mp set
      obtain ⟨t', read', rfl⟩ := Option.map_eq_some_iff.mp changed
      rw [readText_mapRefs, description, read] at read'
      cases read'
      exact ⟨title, rfl, values, fallback, sample⟩
    · rw [named] at set changed
      cases v with
      | null =>
        cases set
        cases changed
        exact ⟨title, description, rfl, fallback, sample⟩
      | arr items =>
        cases set
        cases changed
        exact ⟨title, description, mapRefsItems_eq_map change items, fallback, sample⟩
      | _ => cases set
    · rw [named] at set changed
      cases set
      cases changed
      exact ⟨title, description, values, readValue_mapRefs change v, sample⟩
    · rw [named] at set changed
      cases set
      cases changed
      exact ⟨title, description, values, fallback, readValue_mapRefs change v⟩
  · exact follows.setKeyword_quiet told set changed

end keywords

section fragments

variable {s t s' t' : Fragment} {key : String} {v : Json} {fields : List (String × Json)}

theorem Follows.readField (follows : Follows change s.keywords t.keywords)
    (read : readField s (key, v) = some s')
    (changed : readField t (key, mapRefsValue change key v) = some t') :
    Follows change s'.keywords t'.keywords := by
  cases kind : Branch.ofKey key with
  | none =>
    obtain ⟨k, set, rfl⟩ := readField_keyword kind read
    obtain ⟨l, set', rfl⟩ := readField_keyword kind changed
    exact follows.setKeyword change set set'
  | some b =>
    rw [(readField_branch kind read).1, (readField_branch kind changed).1]
    exact follows

theorem mapRefsFields_cons (key : String) (v : Json) (rest : List (String × Json)) :
    Json.mapRefsFields change ((key, v) :: rest) =
      (key, mapRefsValue change key v) :: Json.mapRefsFields change rest := by
  cases v <;> rfl

theorem Follows.decodeFields (follows : Follows change s.keywords t.keywords)
    (read : decodeFields fields s = some s')
    (changed : decodeFields (Json.mapRefsFields change fields) t = some t') :
    Follows change s'.keywords t'.keywords := by
  induction fields generalizing s t with
  | nil =>
    cases read
    cases changed
    exact follows
  | cons field rest ih =>
    obtain ⟨key, v⟩ := field
    rw [decodeFields_cons, Option.bind_eq_some_iff] at read
    rw [mapRefsFields_cons, decodeFields_cons, Option.bind_eq_some_iff] at changed
    obtain ⟨m, first, read⟩ := read
    obtain ⟨n, first', changed⟩ := changed
    exact ih (follows.readField change first first') read changed

theorem follows_decode {f g : Fragment} (read : decode? v = some f)
    (changed : decode? (v.mapRefs change) = some g) : Follows change f.keywords g.keywords := by
  cases v with
  | null =>
    cases read
    cases changed
    exact ⟨rfl, rfl, rfl, rfl, rfl⟩
  | obj fields =>
    rw [Json.mapRefs, decode?] at changed
    rw [decode?] at read
    have begun : Follows change (start fields).keywords (start (Json.mapRefsFields change fields)).keywords :=
      ⟨rfl, rfl, rfl, rfl, rfl⟩
    exact begun.decodeFields change read changed
  | _ => cases read

theorem isDeprecated_mapRefs {f g : Fragment} (read : decode? v = some f)
    (changed : decode? (v.mapRefs change) = some g) : g.isDeprecated = f.isDeprecated := by
  cases v with
  | null =>
    cases read
    cases changed
    rfl
  | obj fields =>
    rw [Json.mapRefs] at changed
    have unknown : "deprecated" ∉ knownKeys := by decide
    have plain : isExtension "deprecated" = false := by decide
    have before := decode_unknown read unknown
    have after := decode_unknown changed unknown
    rw [plain] at before after
    simp only [Bool.false_eq_true, ↓reduceIte] at before after
    rw [isDeprecated, isDeprecated, after, before, lookup_mapRefsValue]
    cases fields.lookup "deprecated" with
    | none => rfl
    | some w => cases w <;> rfl
  | _ => cases read

end fragments

end Fragment

namespace Model

open Fragment

variable {change : String → String} {k l : Keywords} {f g : Fragment}

theorem enumMembers_of_kept (follows : Follows change f.keywords g.keywords)
    (kept : ∀ d ∈ f.keywords.enum, ∀ s, d.Refers s → change s = s) : enumMembers g = enumMembers f := by
  have same : ∀ d ∈ f.keywords.enum, d.mapRefs change = d := fun d inside =>
    (Json.mapRefs_eq_self_iff change d).mpr (kept d inside)
  have values : f.keywords.enum.map (Json.mapRefs change) = f.keywords.enum := by
    rw [List.map_congr_left same, List.map_id']
  rw [enumMembers, enumMembers, follows.values, values]

theorem docComment_of_kept (follows : Follows change f.keywords g.keywords)
    (deprecated : g.isDeprecated = f.isDeprecated)
    (kept : ∀ d ∈ f.keywords.exampleValue, ∀ s, d.Refers s → change s = s) (indent : String) :
    docComment (some g) indent = docComment (some f) indent := by
  have sample : g.keywords.exampleValue = f.keywords.exampleValue := by
    rw [follows.sample]
    cases found : f.keywords.exampleValue with
    | none => rfl
    | some d => rw [Option.map_some, (Json.mapRefs_eq_self_iff change d).mpr (kept d found)]
  have lines : docLines g = docLines f := by
    simp only [docLines, follows.title, follows.description, deprecated, sample]
  simp only [docComment, lines]

end Model

namespace Json

open Fragment (decode? Follows)
open Model (enumMembers docComment)

/-- Every text named `$ref` is passed through the function, wherever it stands. Any other value stays as it
was exactly when the texts named `$ref` inside it do, and so do the members of an enum and the comments. -/
theorem mapRefs_changes (change : String → String) (v : Json) :
    (∀ path key, (v.mapRefs change).along? (path ++ [key]) =
      (v.along? (path ++ [key])).map (mapRefsValue change key)) ∧
    (∀ path s, v.along? (path ++ ["$ref"]) = some (.str s) →
      (v.mapRefs change).along? (path ++ ["$ref"]) = some (.str (change s))) ∧
    (∀ path key d, v.along? (path ++ [key]) = some d → (key = "$ref" → d.str? = none) →
      (v.mapRefs change).along? (path ++ [key]) = some (d.mapRefs change) ∧
        (d.mapRefs change = d ↔ ∀ s, d.Refers s → change s = s)) ∧
    (∀ f g, decode? v = some f → decode? (v.mapRefs change) = some g →
      Follows change f.keywords g.keywords ∧
      ((∀ d ∈ f.keywords.enum, ∀ s, d.Refers s → change s = s) → enumMembers g = enumMembers f) ∧
      ((∀ d ∈ f.keywords.exampleValue, ∀ s, d.Refers s → change s = s) →
        ∀ indent, docComment (some g) indent = docComment (some f) indent)) := by
  refine ⟨along?_mapRefs change v, ?_, ?_, ?_⟩
  · intro path s found
    rw [along?_mapRefs, found]
    rfl
  · intro path key d found value
    refine ⟨?_, mapRefs_eq_self_iff change d⟩
    rw [along?_mapRefs, found, Option.map_some]
    cases d with
    | str s =>
      have other : key ≠ "$ref" := fun named => by cases value named
      simp [mapRefsValue, mapRefs, other]
    | _ => rfl
  · intro f g read changed
    have follows := Fragment.follows_decode change read changed
    have deprecated := Fragment.isDeprecated_mapRefs change read changed
    exact ⟨follows, Model.enumMembers_of_kept follows, Model.docComment_of_kept follows deprecated⟩

def choice : Json :=
  .obj [("enum", .arr [.str "cat", .obj [("name", .str "dog")]]),
    ("oneOf", .arr [.obj [("$ref", .str "#/defs/Cat")]])]

theorem choice_words {s : String}
    (found : Refers s (.arr [.str "cat", .obj [("name", .str "dog")]])) : False := by
  simp only [refers_arr_cons, refers_obj_cons] at found
  rcases found with found | ((⟨named, _⟩ | found | found) | found)
  · cases found
  · exact absurd named (by decide)
  · cases found
  · cases found with
    | here named => cases named
    | field inside => cases inside
  · cases found with
    | item inside => cases inside

theorem mapRefs_changes_choice :
    (choice.mapRefs ("common.yaml" ++ ·)).along? ["oneOf", "0", "$ref"] =
        some (.str "common.yaml#/defs/Cat") ∧
      (choice.mapRefs ("common.yaml" ++ ·)).along? ["enum"] = choice.along? ["enum"] ∧
      ∃ f g, decode? choice = some f ∧ decode? (choice.mapRefs ("common.yaml" ++ ·)) = some g ∧
        enumMembers g = enumMembers f := by
  obtain ⟨_, references, others, fragments⟩ := mapRefs_changes ("common.yaml" ++ ·) choice
  refine ⟨references ["oneOf", "0"] "#/defs/Cat" rfl, ?_, ?_⟩
  · have words := others [] "enum" (.arr [.str "cat", .obj [("name", .str "dog")]]) rfl (by decide)
    rw [words.2.mpr fun s found => (choice_words found).elim] at words
    exact words.1
  · have before : (decode? choice).isSome = true := by decide +kernel
    have after : (decode? (choice.mapRefs ("common.yaml" ++ ·))).isSome = true := by decide +kernel
    obtain ⟨f, read⟩ := Option.isSome_iff_exists.mp before
    obtain ⟨g, changed⟩ := Option.isSome_iff_exists.mp after
    have listed : (decode? choice).map (·.keywords.enum) =
      some [.str "cat", .obj [("name", .str "dog")]] := rfl
    rw [read, Option.map_some, Option.some.injEq] at listed
    refine ⟨f, g, read, changed, (fragments f g read changed).2.1 fun d inside s found => ?_⟩
    rw [listed] at inside
    exact (choice_words (.item inside found)).elim

theorem mapRefs_enum_ne :
    ((Json.obj [("enum", .arr [.obj [("$ref", .str "x")]])]).mapRefs ("p" ++ ·)).get? "enum" ≠
      (Json.obj [("enum", .arr [.obj [("$ref", .str "x")]])]).get? "enum" := by
  have changed : ((Json.obj [("enum", .arr [.obj [("$ref", .str "x")]])]).mapRefs ("p" ++ ·)).get? "enum" =
      some (.arr [.obj [("$ref", .str "px")]]) := rfl
  intro same
  have items : Json.arr [.obj [("$ref", .str "px")]] = .arr [.obj [("$ref", .str "x")]] :=
    Option.some.inj (changed.symm.trans same)
  simp at items

end Json

end Typesmith
