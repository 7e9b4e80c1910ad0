import Typesmith.Fragment.Merge
import Typesmith.Proofs.Decoding

namespace Typesmith.Fragment

open Json (keys Ascending)

def Declares (fields : List (String × Json)) (name : String) : Prop :=
  ∃ l, fields.lookup "properties" = some (.obj l) ∧ name ∈ keys l

def Requires (fields : List (String × Json)) (name : String) : Prop :=
  ∃ l, fields.lookup "required" = some (.arr l) ∧ .str name ∈ l

/-- Fields whose properties and required names have the right types and one spelling. -/
structure Orderly (fields : List (String × Json)) : Prop where
  ascending : Ascending fields
  spelled : ∀ key ∈ keys fields, ∀ word ∈ ["properties", "required"], foldKey key = word → key = word
  properties : ∀ v, fields.lookup "properties" = some v → ∃ l, v = .obj l
  required : ∀ v, fields.lookup "required" = some v → ∃ l, v = .arr l

/-- No unknown keyword reads as one of those that matter here. -/
def Unmistakable (f : Fragment) : Prop :=
  ∀ kv ∈ f.keywords.extensions ++ f.keywords.extras,
    foldKey kv.1 ≠ "properties" ∧ foldKey kv.1 ≠ "required" ∧ kv.1 ≠ "$ref"

def Plain (f : Fragment) : Prop :=
  ∀ name ∈ keys f.properties, isPlainName name = true

section reading

theorem decodeFields_frame {fields : List (String × Json)} {s t : Fragment}
    (read : decodeFields fields s = some t) :
    t.keywords.ref = s.keywords.ref ∧ t.keywords.extensions = s.keywords.extensions ∧
      t.keywords.extras = s.keywords.extras ∧
      ((∀ key ∈ keys fields, foldKey key ≠ "required") → t.keywords.required = s.keywords.required) := by
  induction fields generalizing s with
  | nil =>
    simp only [decodeFields, Option.some.injEq] at read
    subst read
    exact ⟨rfl, rfl, rfl, fun _ => rfl⟩
  | cons field rest ih =>
    rw [decodeFields_cons, Option.bind_eq_some_iff] at read
    obtain ⟨m, first, others⟩ := read
    obtain ⟨ref, extensions, extras, required⟩ := ih others
    obtain ⟨ref', extensions', extras', required'⟩ := readField_frame first
    refine ⟨ref.trans ref', extensions.trans extensions', extras.trans extras', ?_⟩
    intro none
    rw [required fun key member => none key (List.mem_cons_of_mem _ member),
      required' (none field.1 List.mem_cons_self)]

theorem decodeFields_properties {fields : List (String × Json)} {s t : Fragment} {name : String}
    (objects : ∀ kv ∈ fields, foldKey kv.1 = "properties" → kv.1 = "properties" ∧ ∃ l, kv.2 = .obj l)
    (read : decodeFields fields s = some t) :
    name ∈ keys t.properties ↔
      (∃ l, ("properties", .obj l) ∈ fields ∧ name ∈ keys l) ∨ name ∈ keys s.properties := by
  induction fields generalizing s with
  | nil =>
    simp only [decodeFields, Option.some.injEq] at read
    subst read
    simp
  | cons field rest ih =>
    rw [decodeFields_cons, Option.bind_eq_some_iff] at read
    obtain ⟨m, first, others⟩ := read
    rw [ih (fun kv member => objects kv (List.mem_cons_of_mem _ member)) others]
    by_cases own : foldKey field.1 = "properties"
    · obtain ⟨key, v⟩ := field
      obtain ⟨same, l, value⟩ := objects (key, v) List.mem_cons_self own
      dsimp only at same value
      subst same value
      rw [readField_declares first]
      simp only [List.mem_cons, Prod.mk.injEq, Json.obj.injEq, true_and]
      constructor
      · rintro (⟨l', member, named⟩ | named | older)
        · exact .inl ⟨l', .inr member, named⟩
        · exact .inl ⟨l, .inl rfl, named⟩
        · exact .inr older
      · rintro (⟨l', rfl | member, named⟩ | older)
        · exact .inr (.inl named)
        · exact .inl ⟨l', member, named⟩
        · exact .inr (.inr older)
    · rw [readField_properties own first]
      have skip : ∀ l, ("properties", Json.obj l) ∈ field :: rest ↔ ("properties", Json.obj l) ∈ rest := by
        intro l
        rw [List.mem_cons]
        constructor
        · rintro (rfl | member)
          · exact absurd (by decide : foldKey "properties" = "properties") own
          · exact member
        · exact .inr
      simp only [skip]

theorem decodeFields_required {fields : List (String × Json)} {s t : Fragment} {v : Json}
    (ascending : (keys fields).Nodup)
    (spelled : ∀ key ∈ keys fields, foldKey key = "required" → key = "required")
    (found : fields.lookup "required" = some v) (read : decodeFields fields s = some t) :
    readTexts v = some t.keywords.required := by
  induction fields generalizing s with
  | nil => cases found
  | cons field rest ih =>
    rw [decodeFields_cons, Option.bind_eq_some_iff] at read
    obtain ⟨m, first, others⟩ := read
    obtain ⟨once, distinct⟩ := List.nodup_cons.mp ascending
    obtain ⟨key, w⟩ := field
    by_cases same : "required" = key
    · subst same
      simp only [List.lookup_cons, beq_self_eq_true, Option.some.injEq] at found
      subst found
      -- the other fields leave the list alone
      have kept := (decodeFields_frame others).2.2.2 ?_
      · rw [kept]
        exact readField_required first
      · intro other inside reads
        have same := spelled other (List.mem_cons_of_mem _ inside) reads
        subst same
        exact once inside
    · rw [Json.lookup_cons_ne same] at found
      exact ih distinct (fun other inside => spelled other (List.mem_cons_of_mem _ inside)) found others

theorem Orderly.decode {fields : List (String × Json)} {m : Fragment} (orderly : Orderly fields)
    (read : decode? (.obj fields) = some m) :
    (∀ name, name ∈ keys m.properties ↔ Declares fields name) ∧
      (∀ name, Requires fields name → name ∈ m.keywords.required) ∧ Unmistakable m ∧
      ("$ref" ∉ keys fields → m.isRef = false) := by
  have distinct := orderly.ascending.nodup
  rw [decode?] at read
  obtain ⟨ref, extensions, extras, _⟩ := decodeFields_frame read
  refine ⟨?_, ?_, ?_, ?_⟩
  · intro name
    have objects : ∀ kv ∈ fields, foldKey kv.1 = "properties" →
        kv.1 = "properties" ∧ ∃ l, kv.2 = .obj l := by
      rintro ⟨key, v⟩ member reads
      have same := orderly.spelled key (List.mem_map.mpr ⟨_, member, rfl⟩) _ (by simp) reads
      subst same
      exact ⟨rfl, orderly.properties v ((Json.mem_iff_lookup distinct).mp member)⟩
    rw [decodeFields_properties objects read]
    simp [start, Declares, Json.mem_iff_lookup distinct]
  · rintro name ⟨l, found, member⟩
    exact readTexts_mem (decodeFields_required distinct
      (fun key inside => orderly.spelled key inside _ (by simp)) found read) member
  · intro kv member
    rw [extensions, extras] at member
    have unknown : kv ∈ fields ∧ kv.1 ∉ knownKeys := by
      simp only [start, List.mem_append, List.mem_filter, List.contains_eq_mem, Bool.not_eq_eq_eq_not,
        Bool.not_true, decide_eq_false_iff_not] at member
      rcases member with ⟨inside, _⟩ | ⟨inside, _⟩ <;> exact inside
    obtain ⟨inside, unknown⟩ := unknown
    have key : kv.1 ∈ keys fields := List.mem_map.mpr ⟨kv, inside, rfl⟩
    refine ⟨?_, ?_, ?_⟩
    · intro reads
      rw [orderly.spelled kv.1 key _ (by simp) reads] at unknown
      exact unknown (by decide)
    · intro reads
      rw [orderly.spelled kv.1 key _ (by simp) reads] at unknown
      exact unknown (by decide)
    · intro reads
      rw [reads] at unknown
      exact unknown (by decide)
  · intro absent
    rw [isRef, ref, start, Json.lookup_eq_none_iff.mpr absent]
    rfl

end reading

section merging

theorem declares_merge {a b : List (String × Json)} (first : Orderly a) (second : Orderly b)
    (name : String) : Declares (Json.mergeFields a b) name ↔ Declares a name ∨ Declares b name := by
  simp only [Declares, Json.lookup_mergeFields "properties" second.ascending.nodup]
  cases old : a.lookup "properties" with
  | none =>
    cases new : b.lookup "properties" with
    | none => simp [Json.mergedValue]
    | some v => simp [Json.mergedValue]
  | some u =>
    obtain ⟨l, rfl⟩ := first.properties u old
    cases new : b.lookup "properties" with
    | none => simp [Json.mergedValue]
    | some v =>
      obtain ⟨l', rfl⟩ := second.properties v new
      simp [Json.mergedValue, Json.mergeValue, Json.keys_mergeFields]

theorem requires_merge {a b : List (String × Json)} (first : Orderly a) (second : Orderly b)
    (name : String) : Requires (Json.mergeFields a b) name ↔ Requires a name ∨ Requires b name := by
  simp only [Requires, Json.lookup_mergeFields "required" second.ascending.nodup]
  cases old : a.lookup "required" with
  | none =>
    cases new : b.lookup "required" with
    | none => simp [Json.mergedValue]
    | some v => simp [Json.mergedValue]
  | some u =>
    obtain ⟨l, rfl⟩ := first.required u old
    cases new : b.lookup "required" with
    | none => simp [Json.mergedValue]
    | some v =>
      obtain ⟨l', rfl⟩ := second.required v new
      simp [Json.mergedValue, Json.mergeValue, Json.str_mem_union]

theorem mergedValue_shape {shape : Json → Prop}
    (keeps : ∀ u v, shape u → shape v → shape (Json.mergeValue u v)) {old new : Option Json} {v : Json}
    (first : ∀ u, old = some u → shape u) (second : ∀ u, new = some u → shape u)
    (found : Json.mergedValue old new = some v) : shape v := by
  rcases Json.mergedValue_cases found with before | after | ⟨u, w, before, after, rfl⟩
  · exact first v before
  · exact second v after
  · exact keeps u w (first u before) (second w after)

theorem Orderly.merge {a b : List (String × Json)} (first : Orderly a) (second : Orderly b) :
    Orderly (Json.mergeFields a b) := by
  constructor
  · exact Json.ascending_mergeFields b first.ascending
  · intro key member word among reads
    rcases (Json.keys_mergeFields a b).mp member with older | newer
    · exact first.spelled key older word among reads
    · exact second.spelled key newer word among reads
  · intro v found
    rw [Json.lookup_mergeFields "properties" second.ascending.nodup] at found
    refine mergedValue_shape ?_ first.properties second.properties found
    rintro _ _ ⟨l, rfl⟩ ⟨l', rfl⟩
    exact ⟨_, by rw [Json.mergeValue]⟩
  · intro v found
    rw [Json.lookup_mergeFields "required" second.ascending.nodup] at found
    refine mergedValue_shape ?_ first.required second.required found
    rintro _ _ ⟨l, rfl⟩ ⟨l', rfl⟩
    exact ⟨_, by rw [Json.mergeValue]⟩

end merging

section references

variable (change : String → String)

theorem keys_mapRefsFields (fields : List (String × Json)) :
    keys (Json.mapRefsFields change fields) = keys fields := by
  induction fields with
  | nil => rfl
  | cons field rest ih =>
    obtain ⟨key, v⟩ := field
    cases v <;> simp [Json.mapRefsFields, ih]

def mapRefsValue (key : String) : Json → Json
  | .str s => .str (if key = "$ref" then change s else s)
  | j => j.mapRefs change

theorem lookup_mapRefsValue (key : String) (fields : List (String × Json)) :
    (Json.mapRefsFields change fields).lookup key = (fields.lookup key).map (mapRefsValue change key) := by
  induction fields with
  | nil => rfl
  | cons field rest ih =>
    obtain ⟨k, v⟩ := field
    by_cases same : key = k
    · subst same
      cases v <;> simp [Json.mapRefsFields, mapRefsValue]
    · cases v <;> simp only [Json.mapRefsFields, Json.lookup_cons_ne same, ih]

theorem lookup_mapRefsFields {key : String} (other : key ≠ "$ref") (fields : List (String × Json)) :
    (Json.mapRefsFields change fields).lookup key = (fields.lookup key).map (Json.mapRefs change) := by
  rw [lookup_mapRefsValue]
  congr 1
  funext v
  cases v <;> simp [mapRefsValue, Json.mapRefs, other]

theorem declares_mapRefs (fields : List (String × Json)) (name : String) :
    Declares (Json.mapRefsFields change fields) name ↔ Declares fields name := by
  simp only [Declares, lookup_mapRefsFields change (by decide : "properties" ≠ "$ref")]
  cases fields.lookup "properties" with
  | none => simp
  | some v => cases v <;> simp [Json.mapRefs, keys_mapRefsFields]

theorem Orderly.mapRefs {fields : List (String × Json)} (orderly : Orderly fields) :
    Orderly (Json.mapRefsFields change fields) := by
  constructor
  · rw [Ascending, keys_mapRefsFields]
    exact orderly.ascending
  · rw [keys_mapRefsFields]
    exact orderly.spelled
  · intro v found
    rw [lookup_mapRefsFields change (by decide)] at found
    obtain ⟨u, old, rfl⟩ := Option.map_eq_some_iff.mp found
    obtain ⟨l, rfl⟩ := orderly.properties u old
    exact ⟨_, by rw [Json.mapRefs]⟩
  · intro v found
    rw [lookup_mapRefsFields change (by decide)] at found
    obtain ⟨u, old, rfl⟩ := Option.map_eq_some_iff.mp found
    obtain ⟨l, rfl⟩ := orderly.required u old
    exact ⟨_, by rw [Json.mapRefs]⟩

end references

section writing

def namedField (key : String) : Json → List (String × Json)
  | .obj [] => []
  | j => [(key, j)]

def Among (words : List String) (fields : List (String × Json)) : Prop :=
  ∀ key ∈ keys fields, key ∈ words

theorem Among.append {words : List String} {a b : List (String × Json)} (first : Among words a)
    (second : Among words b) : Among words (a ++ b) := by
  intro key member
  rw [Json.keys_append, List.mem_append] at member
  rcases member with member | member
  · exact first key member
  · exact second key member

section among

variable {words : List String} {key : String} (member : key ∈ words)
include member

theorem among_namedField (j : Json) : Among words (namedField key j) := by
  unfold namedField
  split <;> simp [Among, member]

theorem among_valueField (v : Option Json) : Among words (valueField key v) := by
  cases v <;> simp [Among, valueField, member]

theorem among_listField (l : List Json) : Among words (listField key l) := by
  unfold listField
  split <;> simp [Among, member]

theorem among_textField (t : String) : Among words (textField key t) := by
  unfold textField
  split <;> simp [Among, member]

theorem among_flagField (b : Bool) : Among words (flagField key b) := by
  unfold flagField
  split <;> simp [Among, member]

theorem among_numberField (n : Option Decimal) : Among words (numberField key n) := by
  cases n <;> simp [Among, numberField, member]

end among

theorem among_typesField {words : List String} (member : "type" ∈ words) (types : List String) :
    Among words (typesField types) := by
  unfold typesField
  split <;> simp [Among, member]

def frontKeys : List String :=
  ["id", "description", "type", "nullable", "format", "title", "default", "maximum",
   "exclusiveMaximum", "minimum", "exclusiveMinimum", "maxLength", "minLength", "pattern",
   "maxItems", "minItems", "uniqueItems", "multipleOf", "enum", "maxProperties", "minProperties"]

theorem leadingFields_eq (k : Keywords) :
    ∃ front, leadingFields k = front ++ listField "required" (k.required.map .str) ∧
      Among frontKeys front := by
  refine ⟨_, rfl, ?_⟩
  repeat' apply Among.append
  all_goals
    first
    | apply among_textField
    | apply among_typesField
    | apply among_flagField
    | apply among_valueField
    | apply among_numberField
    | apply among_listField
  all_goals decide

def backKeys : List String :=
  ["$schema", "discriminator", "readOnly", "xml", "externalDocs", "example"]

theorem trailingFields_eq (k : Keywords) :
    ∃ back, trailingFields k = k.extensions ++ valueField "$ref" (k.ref.map .str) ++ back ++ k.extras ∧
      Among backKeys back := by
  refine ⟨textField "$schema" k.schemaUrl ++ textField "discriminator" k.discriminator
    ++ flagField "readOnly" k.readOnly ++ valueField "xml" (k.xml.map markupHintJson)
    ++ valueField "externalDocs" (k.externalDocs.map externalDocsJson)
    ++ valueField "example" k.exampleValue, by simp only [trailingFields, List.append_assoc], ?_⟩
  repeat' apply Among.append
  all_goals
    first
    | apply among_textField
    | apply among_flagField
    | apply among_valueField
  all_goals decide

theorem mem_keys_trailingFields {k : Keywords} {key : String} (member : key ∈ keys (trailingFields k)) :
    (∃ kv ∈ k.extensions ++ k.extras, kv.1 = key) ∨ (key = "$ref" ∧ k.ref.isSome = true) ∨
      key ∈ backKeys := by
  obtain ⟨back, split, among⟩ := trailingFields_eq k
  rw [split] at member
  simp only [Json.keys_append, List.mem_append] at member
  rcases member with ((unknown | reference) | known) | unknown
  · obtain ⟨kv, inside, rfl⟩ := List.mem_map.mp unknown
    exact .inl ⟨kv, List.mem_append_left _ inside, rfl⟩
  · cases ref : k.ref with
    | none => simp [ref, valueField] at reference
    | some r =>
      have key : key = "$ref" := by simpa [ref, valueField] using reference
      exact .inr (.inl ⟨key, rfl⟩)
  · exact .inr (.inr (among key known))
  · obtain ⟨kv, inside, rfl⟩ := List.mem_map.mp unknown
    exact .inl ⟨kv, List.mem_append_right _ inside, rfl⟩

theorem keys_writeNamed {fs : List (String × Fragment)} {out : List (String × Option Int × Json)}
    (written : writeNamed? fs = some out) : keys out = keys fs := by
  induction fs generalizing out with
  | nil =>
    simp only [writeNamed?, Option.some.injEq] at written
    subst written
    rfl
  | cons field rest ih =>
    obtain ⟨name, f⟩ := field
    simp only [writeNamed?, Option.bind_eq_bind, Option.bind_eq_some_iff, Option.pure_def,
      Option.some.injEq] at written
    obtain ⟨j, _, js, tail, rfl⟩ := written
    rw [Json.keys_cons, Json.keys_cons, ih tail]

theorem mem_keys_inOrder {fields : List (String × Option Int × Json)} {name : String} :
    name ∈ keys (inOrder fields) ↔ name ∈ keys fields := by
  simp [inOrder, keys, List.mem_mergeSort]

/-- The object that a fragment is written as, made of the written forms of its parts. -/
inductive WrittenParts (f : Fragment) : Json → Prop
  | intro {items negated extra additional : Option Json} {allOf oneOf anyOf : List Json}
      {named definitions : List (String × Option Int × Json)} {props patterns : Json}
      {dependencies : List (String × Json)} (itemsWritten : writeItems? f.items = some items)
      (allWritten : writeList? f.allOf = some allOf) (oneWritten : writeList? f.oneOf = some oneOf)
      (anyWritten : writeList? f.anyOf = some anyOf)
      (namedWritten : writeNamed? f.properties = some named)
      (extraWritten : writeExtent? f.additionalProperties = some extra)
      (closed : closeNamed (inOrder named) = some props) :
      WrittenParts f (.obj (leadingFields f.keywords ++ valueField "items" items ++
        listField "allOf" allOf ++ listField "oneOf" oneOf ++ listField "anyOf" anyOf ++
        valueField "not" negated ++ namedField "properties" props ++
        valueField "additionalProperties" extra ++ namedField "patternProperties" patterns ++
        namedField "dependencies" (.obj dependencies) ++ valueField "additionalItems" additional ++
        namedField "definitions" (.obj (definitions.map fun x => (x.1, x.2.2))) ++
        trailingFields f.keywords))

theorem write_cases {f : Fragment} {j : Json} (written : write? f = some j) : WrittenParts f j := by
  obtain ⟨k, items, allOf, oneOf, anyOf, negated, properties, additionalProperties,
    patternProperties, dependencies, additionalItems, definitions⟩ := f
  rw [write?] at written
  obtain ⟨_, itemsWritten, written⟩ := Option.bind_eq_some_iff.mp written
  obtain ⟨_, allWritten, written⟩ := Option.bind_eq_some_iff.mp written
  obtain ⟨_, oneWritten, written⟩ := Option.bind_eq_some_iff.mp written
  obtain ⟨_, anyWritten, written⟩ := Option.bind_eq_some_iff.mp written
  obtain ⟨_, _, written⟩ := Option.bind_eq_some_iff.mp written
  obtain ⟨_, namedWritten, written⟩ := Option.bind_eq_some_iff.mp written
  obtain ⟨_, extraWritten, written⟩ := Option.bind_eq_some_iff.mp written
  obtain ⟨_, _, written⟩ := Option.bind_eq_some_iff.mp written
  obtain ⟨_, _, written⟩ := Option.bind_eq_some_iff.mp written
  obtain ⟨_, _, written⟩ := Option.bind_eq_some_iff.mp written
  obtain ⟨_, _, written⟩ := Option.bind_eq_some_iff.mp written
  obtain ⟨_, closed, written⟩ := Option.bind_eq_some_iff.mp written
  obtain ⟨_, _, written⟩ := Option.bind_eq_some_iff.mp written
  cases Option.some.inj written
  exact .intro itemsWritten allWritten oneWritten anyWritten namedWritten extraWritten closed

/-- The fields of a fragment: its properties stand between keywords of other names. -/
theorem write_eq {f : Fragment} {j : Json} (written : write? f = some j) :
    ∃ before after named, writeNamed? f.properties = some named ∧
      Among ["items", "allOf", "oneOf", "anyOf", "not"] before ∧
      Among ["additionalProperties", "patternProperties", "dependencies", "additionalItems",
        "definitions"] after ∧
      ∃ props, closeNamed (inOrder named) = some props ∧
        j = .obj (leadingFields f.keywords ++ before ++ namedField "properties" props ++ after ++
          trailingFields f.keywords) := by
  cases write_cases written with
  | @intro items negated extra additional allOf oneOf anyOf named definitions props patterns dependencies
      _ _ _ _ namedWritten _ closed =>
    refine ⟨valueField "items" items ++ listField "allOf" allOf ++ listField "oneOf" oneOf ++
        listField "anyOf" anyOf ++ valueField "not" negated,
      valueField "additionalProperties" extra ++ namedField "patternProperties" patterns ++
        namedField "dependencies" (.obj dependencies) ++ valueField "additionalItems" additional ++
        namedField "definitions" (.obj (definitions.map fun x => (x.1, x.2.2))),
      named, namedWritten, ?_, ?_, props, closed, ?_⟩
    · repeat' apply Among.append
      all_goals first | apply among_valueField | apply among_listField
      all_goals decide
    · repeat' apply Among.append
      all_goals first | apply among_valueField | apply among_namedField
      all_goals decide
    · simp only [List.append_assoc]

theorem canonical_obj (fields : List (String × Json)) :
    Json.canonical (.obj fields) = .obj (Json.sortFields (Json.canonicalFields fields)) := by
  rw [Json.canonical, Json.mkObj]

theorem canonicalItems_str (l : List String) :
    Json.canonicalItems (l.map .str) = l.map .str := by
  induction l with
  | nil => rfl
  | cons s rest ih => simp [Json.canonicalItems, Json.canonical, ih]

theorem lookup_canonical {key : String} (v : Json) (before : List (String × Json))
    {after : List (String × Json)} (last : key ∉ keys after) :
    (Json.sortFields (Json.canonicalFields (before ++ (key, v) :: after))).lookup key =
      some v.canonical := by
  rw [Json.canonicalFields_append, Json.canonicalFields]
  exact Json.lookup_sortFields_of_last (by rwa [Json.keys_canonicalFields])

theorem mem_keys_canonical {key : String} {fields : List (String × Json)} :
    key ∈ keys (Json.sortFields (Json.canonicalFields fields)) ↔ key ∈ keys fields := by
  rw [Json.mem_keys_sortFields, Json.keys_canonicalFields]

theorem lookup_items {key : String} (items : List Json) {before after : List (String × Json)}
    (first : key ∉ keys before) (last : key ∉ keys after) :
    (Json.sortFields (Json.canonicalFields (before ++ (listField key items ++ after)))).lookup key =
      if Json.canonicalItems items = [] then none else some (.arr (Json.canonicalItems items)) := by
  cases items with
  | nil =>
    rw [Json.canonicalItems, if_pos rfl, Json.lookup_eq_none_iff, mem_keys_canonical]
    simpa [listField] using ⟨first, last⟩
  | cons j rest =>
    rw [if_neg (by simp [Json.canonicalItems])]
    have found := lookup_canonical (.arr (j :: rest)) before last
    rw [Json.canonical] at found
    exact found

theorem lookup_listField {key : String} (l : List String) {before after : List (String × Json)}
    (first : key ∉ keys before) (last : key ∉ keys after) :
    (Json.sortFields (Json.canonicalFields (before ++ (listField key (l.map .str) ++ after)))).lookup key =
      if l = [] then none else some (.arr (l.map .str)) := by
  rw [lookup_items _ first last, canonicalItems_str]
  simp only [List.map_eq_nil_iff]

theorem lookup_namedField {key : String} (props : List (String × Json))
    {before after : List (String × Json)} (first : key ∉ keys before) (last : key ∉ keys after) :
    (Json.sortFields (Json.canonicalFields (before ++ (namedField key (.obj props) ++ after)))).lookup key =
      if props = [] then none else some (.obj (Json.sortFields (Json.canonicalFields props))) := by
  cases props with
  | nil =>
    rw [if_pos rfl, Json.lookup_eq_none_iff, mem_keys_canonical]
    simpa [namedField] using ⟨first, last⟩
  | cons p rest =>
    rw [if_neg (by simp)]
    have found := lookup_canonical (.obj (p :: rest)) before last
    rw [canonical_obj] at found
    exact found

theorem toJson_keywords (k : Keywords) :
    toJson? { keywords := k } = some (Json.canonical (.obj (leadingFields k ++ trailingFields k))) := by
  simp [toJson?, write?, writeItems?, writeList?, writeOption?, writeNamed?, writeExtent?,
    writeDependencies?, closeNamed, inOrder, valueField, listField]

def otherKeys : List String :=
  frontKeys ++ ["items", "allOf", "oneOf", "anyOf", "not"] ++ ["additionalProperties",
    "patternProperties", "dependencies", "additionalItems", "definitions"] ++ backKeys

theorem otherKeys_spelled :
    ∀ key ∈ otherKeys, foldKey key ≠ "properties" ∧ foldKey key ≠ "required" ∧ key ≠ "$ref" := by
  decide +kernel

theorem not_mem_trailing {f : Fragment} (unmistakable : Unmistakable f) {word : String}
    (among : word ∈ ["properties", "required"]) : word ∉ keys (trailingFields f.keywords) := by
  have folded : ∀ word ∈ ["properties", "required"],
      foldKey word = word ∧ word ≠ "$ref" ∧ word ∉ backKeys := by
    decide
  obtain ⟨fold, reference, back⟩ := folded word among
  intro member
  rcases mem_keys_trailingFields member with ⟨kv, inside, rfl⟩ | ⟨rfl, _⟩ | known
  · obtain ⟨properties, required, _⟩ := unmistakable kv inside
    simp only [List.mem_cons, List.not_mem_nil, or_false] at among
    rcases among with same | same
    · exact properties (fold.trans same)
    · exact required (fold.trans same)
  · exact reference rfl
  · exact back known

structure Layout (f : Fragment) where
  front : List (String × Json)
  between : List (String × Json)
  props : List (String × Json)
  back : List (String × Json)
  amongFront : Among frontKeys front
  amongBetween : Among ["items", "allOf", "oneOf", "anyOf", "not"] between
  amongBack : Among ["additionalProperties", "patternProperties", "dependencies", "additionalItems",
    "definitions"] back
  names : ∀ name, name ∈ keys props ↔ name ∈ keys f.properties

namespace Layout

variable {f : Fragment}

def fields (l : Layout f) : List (String × Json) :=
  l.front ++ (listField "required" (f.keywords.required.map .str) ++ (l.between ++
    (namedField "properties" (.obj l.props) ++ (l.back ++ trailingFields f.keywords))))

theorem lookup_required (l : Layout f) (unmistakable : Unmistakable f) :
    (Json.sortFields (Json.canonicalFields l.fields)).lookup "required" =
      if f.keywords.required = [] then none else some (.arr (f.keywords.required.map .str)) := by
  refine lookup_listField f.keywords.required ?_ ?_
  · exact fun member => absurd (l.amongFront "required" member) (by decide)
  · simp only [Json.keys_append, List.mem_append, not_or]
    refine ⟨fun member => absurd (l.amongBetween "required" member) (by decide), fun member => ?_,
      fun member => absurd (l.amongBack "required" member) (by decide),
      not_mem_trailing unmistakable (by decide)⟩
    exact absurd (among_namedField (List.mem_singleton.mpr rfl) _ _ member) (by decide)

theorem lookup_properties (l : Layout f) (unmistakable : Unmistakable f) :
    (Json.sortFields (Json.canonicalFields l.fields)).lookup "properties" =
      if l.props = [] then none else some (.obj (Json.sortFields (Json.canonicalFields l.props))) := by
  have regroup : l.fields = (l.front ++ (listField "required" (f.keywords.required.map .str) ++
      l.between)) ++ (namedField "properties" (.obj l.props) ++
        (l.back ++ trailingFields f.keywords)) := by
    simp only [fields, List.append_assoc]
  rw [regroup]
  refine lookup_namedField l.props ?_ ?_
  · simp only [Json.keys_append, List.mem_append, not_or]
    refine ⟨fun member => absurd (l.amongFront "properties" member) (by decide), fun member => ?_,
      fun member => absurd (l.amongBetween "properties" member) (by decide)⟩
    exact absurd (among_listField (List.mem_singleton.mpr rfl) _ _ member) (by decide)
  · simp only [Json.keys_append, List.mem_append, not_or]
    exact ⟨fun member => absurd (l.amongBack "properties" member) (by decide),
      not_mem_trailing unmistakable (by decide)⟩

theorem mem_keys (l : Layout f) {key : String} (member : key ∈ keys l.fields) :
    key = "required" ∨ key = "properties" ∨ key ∈ otherKeys ∨
      (∃ kv ∈ f.keywords.extensions ++ f.keywords.extras, kv.1 = key) ∨
      (key = "$ref" ∧ f.isRef = true) := by
  simp only [fields, Json.keys_append, List.mem_append] at member
  rw [otherKeys, List.mem_append, List.mem_append, List.mem_append]
  rcases member with member | member | member | member | member | member
  · exact .inr (.inr (.inl (.inl (.inl (.inl (l.amongFront key member))))))
  · exact .inl (List.mem_singleton.mp (among_listField (List.mem_singleton.mpr rfl) _ key member))
  · exact .inr (.inr (.inl (.inl (.inl (.inr (l.amongBetween key member))))))
  · exact .inr (.inl (List.mem_singleton.mp
      (among_namedField (List.mem_singleton.mpr rfl) _ key member)))
  · exact .inr (.inr (.inl (.inl (.inr (l.amongBack key member)))))
  · rcases mem_keys_trailingFields member with unknown | reference | known
    · exact .inr (.inr (.inr (.inl unknown)))
    · exact .inr (.inr (.inr (.inr reference)))
    · exact .inr (.inr (.inl (.inr known)))

theorem spelled (l : Layout f) (unmistakable : Unmistakable f) {key word : String}
    (member : key ∈ keys l.fields) (among : word ∈ ["properties", "required"])
    (reads : foldKey key = word) : key = word := by
  have other : foldKey key ≠ "properties" ∧ foldKey key ≠ "required" → key = word := by
    rintro ⟨properties, required⟩
    simp only [List.mem_cons, List.not_mem_nil, or_false] at among
    rcases among with same | same
    · exact absurd (reads.trans same) properties
    · exact absurd (reads.trans same) required
  rcases l.mem_keys member with rfl | rfl | known | ⟨kv, inside, rfl⟩ | ⟨rfl, _⟩
  · rw [← reads]
    decide
  · rw [← reads]
    decide
  · obtain ⟨properties, required, _⟩ := otherKeys_spelled key known
    exact other ⟨properties, required⟩
  · obtain ⟨properties, required, _⟩ := unmistakable kv inside
    exact other ⟨properties, required⟩
  · exact other (by decide)

theorem no_reference (l : Layout f) (unmistakable : Unmistakable f) (isRef : f.isRef = false) :
    "$ref" ∉ keys l.fields := by
  intro member
  rcases l.mem_keys member with same | same | known | ⟨kv, inside, same⟩ | ⟨_, reference⟩
  · exact absurd same (by decide)
  · exact absurd same (by decide)
  · exact (otherKeys_spelled _ known).2.2 rfl
  · exact (unmistakable kv inside).2.2 same
  · rw [isRef] at reference
    cases reference

end Layout

theorem write_layout {f : Fragment} {j : Json} (plain : Plain f) (written : write? f = some j) :
    ∃ l : Layout f, j = .obj l.fields := by
  obtain ⟨between, back, named, namedWritten, amongBetween, amongBack, props, closed, rfl⟩ :=
    write_eq written
  obtain ⟨front, lead, amongFront⟩ := leadingFields_eq f.keywords
  have names : ∀ name, name ∈ keys (inOrder named) ↔ name ∈ keys f.properties := by
    intro name
    rw [mem_keys_inOrder, keys_writeNamed namedWritten]
  have all : ((inOrder named).all fun kv => isPlainName kv.1) = true := by
    rw [List.all_eq_true]
    intro kv member
    exact plain kv.1 ((names kv.1).mp (List.mem_map.mpr ⟨kv, member, rfl⟩))
  rw [closeNamed, if_pos all] at closed
  cases closed
  refine ⟨⟨front, between, inOrder named, back, amongFront, amongBetween, amongBack, names⟩, ?_⟩
  simp only [Layout.fields, lead, List.append_assoc]

theorem toJson_orderly {f : Fragment} {j : Json} (plain : Plain f) (unmistakable : Unmistakable f)
    (written : toJson? f = some j) :
    ∃ fields, j = .obj fields ∧ Orderly fields ∧
      (∀ name, Declares fields name ↔ name ∈ keys f.properties) ∧
      (∀ name, Requires fields name ↔ name ∈ f.keywords.required) ∧
      (f.isRef = false → "$ref" ∉ keys fields) := by
  obtain ⟨raw, spelled, rfl⟩ := Option.map_eq_some_iff.mp written
  obtain ⟨l, rfl⟩ := write_layout plain spelled
  have required := l.lookup_required unmistakable
  have properties := l.lookup_properties unmistakable
  refine ⟨_, canonical_obj _, ⟨Json.ascending_sortFields _, ?_, ?_, ?_⟩, ?_, ?_, ?_⟩
  · intro key member word among reads
    exact l.spelled unmistakable (mem_keys_canonical.mp member) among reads
  · intro v found
    rw [properties] at found
    split at found
    · cases found
    · cases found
      exact ⟨_, rfl⟩
  · intro v found
    rw [required] at found
    split at found
    · cases found
    · cases found
      exact ⟨_, rfl⟩
  · intro name
    rw [Declares, properties, ← l.names]
    split <;> simp [*, mem_keys_canonical]
  · intro name
    rw [Requires, required]
    split <;> simp [*]
  · intro isRef
    rw [mem_keys_canonical]
    exact l.no_reference unmistakable isRef

end writing

theorem toJson_required {f : Fragment} {fields : List (String × Json)} (plain : Plain f)
    (unmistakable : Unmistakable f) (written : toJson? f = some (.obj fields)) :
    fields.lookup "required" =
      if f.keywords.required = [] then none else some (.arr (f.keywords.required.map .str)) := by
  obtain ⟨raw, spelled, same⟩ := Option.map_eq_some_iff.mp written
  obtain ⟨l, rfl⟩ := write_layout plain spelled
  rw [canonical_obj] at same
  cases same
  exact l.lookup_required unmistakable

theorem mapRefsItems_eq_map (change : String → String) (items : List Json) :
    Json.mapRefsItems change items = items.map (Json.mapRefs change) := by
  induction items with
  | nil => rfl
  | cons v rest ih => rw [Json.mapRefsItems, List.map_cons, ih]

theorem mapRefsItems_texts (change : String → String) (l : List String) :
    Json.mapRefsItems change (l.map .str) = l.map .str := by
  rw [mapRefsItems_eq_map, List.map_map]
  exact List.map_congr_left fun s _ => rfl

theorem mapRefs_required {change : String → String} {s t : Fragment} (plain : Plain s)
    (unmistakable : Unmistakable s) (changed : s.mapRefs? change = some t) :
    t.keywords.required = s.keywords.required := by
  simp only [mapRefs?, Option.bind_eq_bind, Option.bind_eq_some_iff] at changed
  obtain ⟨raw, written, read⟩ := changed
  obtain ⟨fields, rfl, orderly, _⟩ := toJson_orderly plain unmistakable written
  have required := toJson_required plain unmistakable written
  have changed := lookup_mapRefsFields change (by decide : "required" ≠ "$ref") fields
  rw [Json.mapRefs, decode?] at read
  have tidy := orderly.mapRefs change
  rw [required] at changed
  split at changed
  · rename_i none
    have absent := Json.lookup_eq_none_iff.mp changed
    have kept := (decodeFields_frame read).2.2.2 ?_
    · rw [kept, none]
      rfl
    · intro key inside reads
      exact absent (tidy.spelled key inside _ (by simp) reads ▸ inside)
  · rw [Option.map_some, Json.mapRefs, mapRefsItems_texts] at changed
    have texts := decodeFields_required tidy.ascending.nodup
      (fun key inside => tidy.spelled key inside _ (by simp)) changed read
    rw [readTexts_texts, Option.some.injEq] at texts
    exact texts.symm

theorem mapRefs_names {change : String → String} {s t : Fragment} (plain : Plain s)
    (unmistakable : Unmistakable s) (changed : s.mapRefs? change = some t) :
    (∀ name, name ∈ keys t.properties ↔ name ∈ keys s.properties) ∧
      t.keywords.required = s.keywords.required ∧ Unmistakable t ∧
      (s.isRef = false → t.isRef = false) := by
  have required := mapRefs_required plain unmistakable changed
  simp only [mapRefs?, Option.bind_eq_bind, Option.bind_eq_some_iff] at changed
  obtain ⟨raw, written, read⟩ := changed
  obtain ⟨fields, rfl, orderly, declares, _, reference⟩ :=
    toJson_orderly plain unmistakable written
  rw [Json.mapRefs] at read
  obtain ⟨names, _, clear, isRef⟩ := (orderly.mapRefs change).decode read
  refine ⟨?_, required, clear, ?_⟩
  · intro name
    rw [names, declares_mapRefs, declares]
  · intro none
    refine isRef ?_
    rw [keys_mapRefsFields]
    exact reference none

theorem merge_fold {fs : List Fragment} {raws : List Json} {acc : List (String × Json)}
    (plain : ∀ f ∈ fs, Plain f) (unmistakable : ∀ f ∈ fs, Unmistakable f)
    (written : fs.mapM toJson? = some raws) (orderly : Orderly acc) :
    ∃ fields, raws.foldl Json.merge (.obj acc) = .obj fields ∧ Orderly fields ∧
      (∀ name, Declares fields name ↔ Declares acc name ∨ ∃ f ∈ fs, name ∈ keys f.properties) ∧
      (∀ name, Requires fields name ↔ Requires acc name ∨ ∃ f ∈ fs, name ∈ f.keywords.required) ∧
      ("$ref" ∉ keys acc → (∀ f ∈ fs, f.isRef = false) → "$ref" ∉ keys fields) := by
  induction fs generalizing raws acc with
  | nil =>
    cases written
    exact ⟨acc, rfl, orderly, by simp, by simp, fun absent _ => absent⟩
  | cons f rest ih =>
    simp only [List.mapM_cons, Option.bind_eq_bind, Option.bind_eq_some_iff, Option.pure_def,
      Option.some.injEq] at written
    obtain ⟨raw, head, raws, tail, rfl⟩ := written
    obtain ⟨fields, rfl, tidy, declares, requires, reference⟩ :=
      toJson_orderly (plain f List.mem_cons_self) (unmistakable f List.mem_cons_self) head
    obtain ⟨out, folded, orderly', declares', requires', reference'⟩ :=
      ih (fun g member => plain g (List.mem_cons_of_mem _ member))
        (fun g member => unmistakable g (List.mem_cons_of_mem _ member)) tail (orderly.merge tidy)
    refine ⟨out, folded, orderly', ?_, ?_, ?_⟩
    · intro name
      rw [declares', declares_merge orderly tidy, declares, or_assoc]
      simp
    · intro name
      rw [requires', requires_merge orderly tidy, requires, or_assoc]
      simp
    · intro absent none
      refine reference' ?_ (fun g member => none g (List.mem_cons_of_mem _ member))
      rw [Json.keys_mergeFields, not_or]
      exact ⟨absent, reference (none f List.mem_cons_self)⟩

theorem merge_orderly {fs : List Fragment} {m : Fragment} (plain : ∀ f ∈ fs, Plain f)
    (unmistakable : ∀ f ∈ fs, Unmistakable f) (merged : merge? fs = some m) :
    ∃ fields, decode? (.obj fields) = some m ∧ Orderly fields ∧
      (∀ name, Declares fields name ↔ ∃ f ∈ fs, name ∈ keys f.properties) ∧
      (∀ name, Requires fields name ↔ ∃ f ∈ fs, name ∈ f.keywords.required) ∧
      ((∀ f ∈ fs, f.isRef = false) → "$ref" ∉ keys fields) := by
  simp only [merge?, Option.bind_eq_bind, Option.bind_eq_some_iff] at merged
  obtain ⟨raws, written, read⟩ := merged
  have empty : Orderly ([] : List (String × Json)) :=
    ⟨List.Pairwise.nil, by simp, by simp, by simp⟩
  obtain ⟨fields, folded, orderly, declares, requires, reference⟩ :=
    merge_fold plain unmistakable written empty
  rw [folded] at read
  refine ⟨fields, read, orderly, ?_, ?_, reference (by simp)⟩
  · simpa [Declares] using declares
  · simpa [Requires] using requires

/-- A merged fragment declares and requires what any of its parts does. -/
theorem merge_names {fs : List Fragment} {m : Fragment} (plain : ∀ f ∈ fs, Plain f)
    (unmistakable : ∀ f ∈ fs, Unmistakable f) (merged : merge? fs = some m) :
    (∀ name, name ∈ keys m.properties ↔ ∃ f ∈ fs, name ∈ keys f.properties) ∧
      (∀ f ∈ fs, ∀ name ∈ f.keywords.required, name ∈ m.keywords.required) ∧
      ((∀ f ∈ fs, f.isRef = false) → m.isRef = false) := by
  obtain ⟨fields, read, orderly, declares, requires, reference⟩ :=
    merge_orderly plain unmistakable merged
  obtain ⟨names, required, _, isRef⟩ := orderly.decode read
  refine ⟨?_, ?_, fun none => isRef (reference none)⟩
  · intro name
    rw [names, declares]
  · intro f member name listed
    exact required name ((requires name).mpr ⟨f, member, listed⟩)

theorem merge_unmistakable {fs : List Fragment} {m : Fragment} (plain : ∀ f ∈ fs, Plain f)
    (unmistakable : ∀ f ∈ fs, Unmistakable f) (merged : merge? fs = some m) : Unmistakable m := by
  obtain ⟨fields, read, orderly, _⟩ := merge_orderly plain unmistakable merged
  exact (orderly.decode read).2.2.1

end Typesmith.Fragment
