import Typesmith.Proofs.Candor
import Typesmith.Proofs.Classifying

namespace Typesmith.Model

open Fragment
open Json (keys canonical)

inductive TypeSeen where
  | absent
  | text (name : String)
  | other
  deriving DecidableEq

/-- What the usual rules see of a value. -/
structure Features where
  generic : Bool
  combined : Bool
  valued : Bool
  type : TypeSeen
  record : Bool
  list : Bool
  classed : Bool

def TypeSeen.kind (record list : Bool) : TypeSeen → Kind
  | absent => if record then .object else if list then .array else .any
  | text name => typeKind name
  | other => .any

def TypeSeen.among (types : List String) : TypeSeen → Bool
  | text name => types.contains name
  | _ => false

def TypeSeen.isAbsent : TypeSeen → Bool
  | absent => true
  | _ => false

def Features.kind (seen : Features) : Kind :=
  if seen.generic then .generic
  else if seen.combined then .someOf
  else if seen.valued then .enum
  else if seen.type.kind seen.record seen.list = .any && seen.classed then .external
  else seen.type.kind seen.record seen.list

def typeSeen : Option Json → TypeSeen
  | none => .absent
  | some (.str name) => .text name
  | some _ => .other

def features (j : Json) : Features where
  generic := ((j.get? genericKeyword).bind (·.get? "cases")).isSome
  combined := Rule.hasItems "oneOf" j || Rule.hasItems "anyOf" j || Rule.hasItems "allOf" j
  valued := Rule.hasItems "enum" j
  type := typeSeen (j.get? "type")
  record := (j.get? "properties").isSome || (j.get? "additionalProperties").isSome
  list := (j.get? "items").isSome
  classed := Rule.hasText "instanceof" j || Rule.hasText "x-instanceof" j

theorem typeKind_unknown {name : String} (unknown : name ∉ typeNames) : typeKind name = .any := by
  simp only [typeNames, List.mem_cons, List.not_mem_nil, or_false, not_or] at unknown
  unfold typeKind
  split <;> simp_all

theorem kind_typed (j : Json) :
    (((Rule.defaults.drop 5).find? (Rule.fits j)).map (·.kind)).getD .any =
      if (features j).type.kind (features j).record (features j).list = .any && (features j).classed
      then .external else (features j).type.kind (features j).record (features j).list := by
  -- each rule as a question about the features
  have classed : Rule.fits j ⟨"instance", .external⟩ = (features j).classed := rfl
  have typed (types : List String) : Rule.hasType types j = (features j).type.among types := by
    simp only [features, typeSeen, Rule.hasType]
    cases j.get? "type" with
    | none => rfl
    | some t => cases t <;> rfl
  have untyped (key : String) : Rule.hasUntyped key j =
      ((j.get? key).isSome && (features j).type.isAbsent) := by
    simp only [features, typeSeen, Rule.hasUntyped]
    cases j.get? "type" with
    | none => rfl
    | some t => cases t <;> rfl
  have number : Rule.fits j ⟨"number", .number⟩ = Rule.hasType ["number", "integer"] j := rfl
  have string : Rule.fits j ⟨"string", .string⟩ = Rule.hasType ["string"] j := rfl
  have object : Rule.fits j ⟨"object", .object⟩ = (Rule.hasType ["object"] j ||
    Rule.hasUntyped "properties" j || Rule.hasUntyped "additionalProperties" j) := rfl
  have array : Rule.fits j ⟨"array", .array⟩ =
    (Rule.hasType ["array"] j || Rule.hasUntyped "items" j) := rfl
  have boolean : Rule.fits j ⟨"boolean", .boolean⟩ = Rule.hasType ["boolean"] j := rfl
  have null : Rule.fits j ⟨"null", .null⟩ = Rule.hasType ["null"] j := rfl
  have record : (features j).record =
    ((j.get? "properties").isSome || (j.get? "additionalProperties").isSome) := rfl
  have list : (features j).list = (j.get? "items").isSome := rfl
  simp only [Rule.defaults, List.drop_succ_cons, List.drop_zero, List.find?_cons, number, string,
    object, array, boolean, null, classed, typed, untyped, list, record, TypeSeen.kind]
  cases (features j).type with
  | absent =>
    cases (j.get? "properties").isSome <;> cases (j.get? "additionalProperties").isSome <;>
      cases (j.get? "items").isSome <;> cases (features j).classed <;> cases Rule.fits j ⟨"any", .any⟩ <;> rfl
  | text name =>
    by_cases known : name ∈ typeNames
    · simp only [typeNames, List.mem_cons, List.not_mem_nil, or_false] at known
      rcases known with rfl | rfl | rfl | rfl | rfl | rfl | rfl <;>
        simp [typeKind, TypeSeen.among, TypeSeen.isAbsent]
    · have unknown := typeKind_unknown known
      simp only [typeNames, List.mem_cons, List.not_mem_nil, or_false, not_or] at known
      cases (features j).classed <;> cases Rule.fits j ⟨"any", .any⟩ <;>
        simp [known, unknown, TypeSeen.among, TypeSeen.isAbsent]
  | other =>
    cases (features j).classed <;> cases Rule.fits j ⟨"any", .any⟩ <;>
      simp [TypeSeen.among, TypeSeen.isAbsent]

/-- The kind by the usual rules is the kind of the features. -/
theorem kind_features (j : Json) :
    ((Rule.match? Rule.defaults j).map (·.kind)).getD .any = (features j).kind := by
  have generic : Rule.fits j ⟨"generic", .generic⟩ = (features j).generic := rfl
  have oneOf : Rule.fits j ⟨"oneof", .someOf⟩ = Rule.hasItems "oneOf" j := rfl
  have anyOf : Rule.fits j ⟨"anyof", .someOf⟩ = Rule.hasItems "anyOf" j := rfl
  have allOf : Rule.fits j ⟨"allof", .someOf⟩ = Rule.hasItems "allOf" j := rfl
  have enum : Rule.fits j ⟨"enum", .enum⟩ = (features j).valued := rfl
  have combined : (features j).combined =
    (Rule.hasItems "oneOf" j || Rule.hasItems "anyOf" j || Rule.hasItems "allOf" j) := rfl
  have rest := kind_typed j
  have split : Rule.defaults = [⟨"generic", .generic⟩, ⟨"oneof", .someOf⟩, ⟨"anyof", .someOf⟩,
    ⟨"allof", .someOf⟩, ⟨"enum", .enum⟩] ++ Rule.defaults.drop 5 := rfl
  rw [Rule.match?, split]
  simp only [List.cons_append, List.nil_append, List.find?_cons, generic, oneOf, anyOf, allOf, enum,
    Features.kind, combined]
  cases (features j).generic <;> cases Rule.hasItems "oneOf" j <;> cases Rule.hasItems "anyOf" j <;>
    cases Rule.hasItems "allOf" j <;> cases (features j).valued <;>
    first | exact rest | rfl

def Features.ofFragment (f : Fragment) : Features where
  generic := ((f.keywords.extensions.lookup genericKeyword).bind (·.get? "cases")).isSome
  combined := f.combinator?.isSome
  valued := !f.keywords.enum.isEmpty
  type :=
    match f.keywords.types with
    | [] => .absent
    | [name] => .text name
    | _ => .other
  record := !f.properties.isEmpty || f.additionalProperties.isSome
  list := f.items.isSome
  classed := externalName f ≠ ""

section type

variable {f : Fragment}

theorem Features.type_nil (types : f.keywords.types = []) : (ofFragment f).type = .absent := by
  simp only [ofFragment, types]

theorem Features.type_single {name : String} (types : f.keywords.types = [name]) :
    (ofFragment f).type = .text name := by
  simp only [ofFragment, types]

theorem Features.type_several {name other : String} {rest : List String}
    (types : f.keywords.types = name :: other :: rest) : (ofFragment f).type = .other := by
  simp only [ofFragment, types]

end type

/-- The keywords that are kept as they were found have unknown names, each of them once, and those
that start with `x-` stand apart. -/
structure WellKept (k : Keywords) : Prop where
  unknown : ∀ key ∈ keys k.extensions ++ keys k.extras, key ∉ knownKeys
  marked : ∀ key ∈ keys k.extensions, isExtension key = true
  unmarked : ∀ key ∈ keys k.extras, isExtension key = false
  extensions : (keys k.extensions).Nodup
  extras : (keys k.extras).Nodup

section written

theorem lookup_isSome {key : String} {fields : List (String × Json)} :
    (fields.lookup key).isSome = true ↔ key ∈ keys fields := by
  rw [Option.isSome_iff_ne_none, Ne, Json.lookup_eq_none_iff, not_not]

theorem get?_isSome (key : String) (fields : List (String × Json)) :
    ((canonical (.obj fields)).get? key).isSome = true ↔ key ∈ keys fields := by
  rw [canonical_obj, Json.get?, lookup_isSome, mem_keys_canonical]

theorem get?_canonical {fields : List (String × Json)} (once : (keys fields).Nodup) (key : String) :
    (canonical (.obj fields)).get? key = (fields.lookup key).map canonical := by
  rw [canonical_obj, Json.get?]
  cases found : fields.lookup key with
  | none => exact Json.lookup_eq_none_iff.mpr (by rwa [mem_keys_canonical, ← Json.lookup_eq_none_iff])
  | some v =>
    obtain ⟨before, after, split, _⟩ := List.lookup_eq_some_iff.mp found
    subst split
    refine lookup_canonical v before ?_
    rw [Json.keys_append, List.nodup_append, Json.keys_cons, List.nodup_cons] at once
    exact once.2.1.1

theorem writeItems_isSome {items : Option (ItemsOf Fragment)} {out : Option Json}
    (written : writeItems? items = some out) : out.isSome = items.isSome := by
  cases items with
  | none =>
    cases written
    rfl
  | some items =>
    cases items with
    | hollow =>
      cases written
      rfl
    | one f =>
      obtain ⟨_, _, rfl⟩ := Option.map_eq_some_iff.mp written
      rfl
    | many fs =>
      obtain ⟨_, _, rfl⟩ := Option.map_eq_some_iff.mp written
      rfl

theorem writeExtent_isSome {extent : Option (ExtentOf Fragment)} {out : Option Json}
    (written : writeExtent? extent = some out) : out.isSome = extent.isSome := by
  cases extent with
  | none =>
    cases written
    rfl
  | some extent =>
    cases extent with
    | described f =>
      obtain ⟨_, _, rfl⟩ := Option.map_eq_some_iff.mp written
      rfl
    | _ =>
      cases written
      rfl

theorem spellNamed_opened (field : String × Json) (rest : List (String × Json)) :
    ∃ more, spellNamed (field :: rest) = '\x7b' :: '"' :: more := by
  unfold spellNamed
  cases rest with
  | nil =>
    simp only [List.map_cons, List.map_nil, Text.join, String.toList_ofList, List.cons_append]
    exact ⟨_, rfl⟩
  | cons next rest =>
    simp only [List.map_cons, Text.join, String.toList_append, String.toList_ofList, List.cons_append]
    exact ⟨_, rfl⟩

theorem readFields_ne_nil {fuel : Nat} {s rest : List Char} {fields : List (String × Json)}
    (read : Json.readFields fuel s = some (fields, rest)) : fields ≠ [] := by
  cases fuel with
  | zero => cases read
  | succ fuel =>
    rw [Json.readFields] at read
    obtain ⟨⟨_, _⟩, _, read⟩ := Option.bind_eq_some_iff.mp read
    obtain ⟨⟨_, _⟩, _, read⟩ := Option.bind_eq_some_iff.mp read
    simp only at read
    split at read
    · obtain ⟨_, _, read⟩ := Option.bind_eq_some_iff.mp read
      cases read
      simp
    · cases read
      simp
    · cases read

theorem readValue_opened {fuel : Nat} {more rest : List Char} {j : Json}
    (read : Json.readValue (fuel + 1) ('\x7b' :: '"' :: more) = some (j, rest)) : j ≠ .obj [] := by
  have brace : Json.skipBlanks ('\x7b' :: '"' :: more) = '\x7b' :: '"' :: more := rfl
  have quote : Json.skipBlanks ('"' :: more) = '"' :: more := rfl
  simp only [Json.readValue, brace, quote] at read
  obtain ⟨⟨fields, after⟩, named, same⟩ := Option.bind_eq_some_iff.mp read
  cases same
  rw [Json.mkObj, Ne, Json.obj.injEq]
  intro empty
  obtain ⟨field, more, rfl⟩ := List.exists_cons_of_ne_nil (readFields_ne_nil named)
  have member : field.1 ∈ keys (Json.sortFields (field :: more)) :=
    Json.mem_keys_sortFields.mpr List.mem_cons_self
  rw [empty] at member
  cases member

theorem closeNamed_hollow {fields : List (String × Json)} {props : Json}
    (closed : closeNamed fields = some props) : props = .obj [] ↔ fields = [] := by
  cases fields with
  | nil =>
    cases closed
    simp
  | cons field rest =>
    refine ⟨?_, by simp⟩
    rintro rfl
    rw [closeNamed] at closed
    split at closed
    · cases closed
    · simp only at closed
      split at closed
      · obtain ⟨more, opened⟩ := spellNamed_opened field rest
        rw [opened, Json.parse?] at closed
        simp only [String.toList_ofList, Option.bind_eq_bind, Option.bind_eq_some_iff] at closed
        obtain ⟨⟨j, rest⟩, read, last⟩ := closed
        have same : j = .obj [] := by
          split at last <;> cases last <;> rfl
        exact absurd same (readValue_opened read)
      · cases closed

theorem WellKept.own {k : Keywords} (kept : WellKept k) {key : String} (known : key ∈ knownKeys)
    (other : key ∉ "$ref" :: backKeys) : key ∉ keys (trailingFields k) := by
  rw [List.mem_cons, not_or] at other
  intro member
  rcases mem_keys_trailingFields member with ⟨kv, inside, rfl⟩ | ⟨reference, _⟩ | back
  · refine kept.unknown kv.1 ?_ known
    rw [← Json.keys_append]
    exact List.mem_map_of_mem inside
  · exact other.1 reference
  · exact other.2 back

theorem toJson_sections {f : Fragment} {raw : Json} (written : f.toJson? = some raw) :
    ∃ items lists props extra rest, items.isSome = f.items.isSome ∧
      (props = .obj [] ↔ f.properties = []) ∧ extra.isSome = f.additionalProperties.isSome ∧
      Among ["allOf", "oneOf", "anyOf", "not"] lists ∧
      Among ["patternProperties", "dependencies", "additionalItems", "definitions"] rest ∧
      raw = canonical (.obj (leadingFields f.keywords ++ (valueField "items" items ++ (lists ++
        (namedField "properties" props ++ (valueField "additionalProperties" extra ++ (rest ++
          trailingFields f.keywords))))))) := by
  obtain ⟨j, spelled, rfl⟩ := Option.map_eq_some_iff.mp written
  cases write_cases spelled with
  | @intro items negated extra additional allOf oneOf anyOf named definitions props patterns dependencies
      itemsWritten _ _ _ namedWritten extraWritten closed =>
    refine ⟨items, listField "allOf" allOf ++ listField "oneOf" oneOf ++ listField "anyOf" anyOf ++
        valueField "not" negated, props, extra,
      namedField "patternProperties" patterns ++ namedField "dependencies" (.obj dependencies) ++
        valueField "additionalItems" additional ++
        namedField "definitions" (.obj (definitions.map fun x => (x.1, x.2.2))),
      writeItems_isSome itemsWritten, ?_, writeExtent_isSome extraWritten, ?_, ?_, ?_⟩
    · have same := congrArg List.length (keys_writeNamed namedWritten)
      simp only [keys, List.length_map] at same
      rw [closeNamed_hollow closed, ← List.length_eq_zero_iff, inOrder, List.length_map,
        List.length_mergeSort, same, List.length_eq_zero_iff]
    · repeat' apply Among.append
      all_goals first | apply among_valueField | apply among_listField
      all_goals decide
    · repeat' apply Among.append
      all_goals first | apply among_valueField | apply among_namedField
      all_goals decide
    · simp only [List.append_assoc]

theorem typeSeen_typesField (types : List String) :
    typeSeen ((canonical (.obj (typesField types))).get? "type") =
      match types with
      | [] => .absent
      | [name] => .text name
      | _ => .other := by
  rw [get?_canonical (by unfold typesField; split <;> simp)]
  match types with
  | [] => rfl
  | [_] => rfl
  | _ :: _ :: _ => rfl

theorem hasText_canonical {key : String} {raw : Json} {v : Option Json}
    (found : raw.get? key = v.map canonical) :
    Rule.hasText key raw = (((v.bind Json.str?).getD "") ≠ "" : Bool) := by
  rw [Rule.hasText, Json.text, found]
  cases v with
  | none => rfl
  | some v => cases v <;> rfl

theorem not_mem_of_known {words : List String} {fields : List (String × Json)} {key : String}
    (among : Among words fields) (unknown : key ∉ knownKeys)
    (known : ∀ word ∈ words, word ∈ knownKeys) : key ∉ keys fields :=
  fun member => unknown (known key (among key member))

theorem toJson_unknown {f : Fragment} (kept : WellKept f.keywords) {raw : Json}
    (written : f.toJson? = some raw) {key : String} (unknown : key ∉ knownKeys) :
    raw.get? key =
      (if isExtension key then f.keywords.extensions.lookup key
        else f.keywords.extras.lookup key).map canonical := by
  obtain ⟨items, lists, props, extra, rest, _, _, _, amongLists, amongRest, rfl⟩ :=
    toJson_sections written
  obtain ⟨back, split, amongBack⟩ := trailingFields_eq f.keywords
  have leading : key ∉ keys (leadingFields f.keywords) :=
    not_mem_leading (fun member => unknown ((by decide : ∀ word ∈ frontKeys ++ ["required"],
      word ∈ knownKeys) key member)) _
  rw [get_right leading,
    get_right (not_mem_of_known (among_valueField (List.mem_singleton.mpr rfl) _) unknown (by decide)),
    get_right (not_mem_of_known amongLists unknown (by decide)),
    get_right (not_mem_of_known (among_namedField (List.mem_singleton.mpr rfl) _) unknown (by decide)),
    get_right (not_mem_of_known (among_valueField (List.mem_singleton.mpr rfl) _) unknown (by decide)),
    get_right (not_mem_of_known amongRest unknown (by decide)), split, List.append_assoc,
    List.append_assoc]
  have reference := not_mem_of_known
    (among_valueField (List.mem_singleton.mpr rfl) (f.keywords.ref.map .str)) unknown
    (by decide : ∀ word ∈ ["$ref"], word ∈ knownKeys)
  have behind := not_mem_of_known amongBack unknown (by decide)
  cases extension : isExtension key with
  | true =>
    have apart : key ∉ keys f.keywords.extras := fun member =>
      Bool.false_ne_true ((kept.unmarked key member).symm.trans extension)
    rw [get_left (by simp [reference, behind, apart]), get?_canonical kept.extensions]
    rfl
  | false =>
    have apart : key ∉ keys f.keywords.extensions := fun member =>
      Bool.false_ne_true (extension.symm.trans (kept.marked key member))
    rw [get_right apart, get_right reference, get_right behind, get?_canonical kept.extras]
    rfl

theorem toJson_leading {f : Fragment} (kept : WellKept f.keywords) {raw : Json}
    (written : f.toJson? = some raw) {key : String} (leading : key ∈ frontKeys) :
    raw.get? key = (canonical (.obj (leadingFields f.keywords))).get? key := by
  obtain ⟨items, lists, props, extra, rest, _, _, _, amongLists, amongRest, rfl⟩ :=
    toJson_sections written
  have apart : ∀ word ∈ frontKeys, word ∈ knownKeys ∧ word ∉ "$ref" :: backKeys ∧ word ≠ "items" ∧
      word ∉ ["allOf", "oneOf", "anyOf", "not"] ∧ word ≠ "properties" ∧ word ≠ "additionalProperties" ∧
      word ∉ ["patternProperties", "dependencies", "additionalItems", "definitions"] := by decide
  obtain ⟨known, last, one, two, three, four, five⟩ := apart key leading
  have props : key ∉ keys (namedField "properties" props) := fun member =>
    three (List.mem_singleton.mp (among_namedField (List.mem_singleton.mpr rfl) _ key member))
  refine get_left ?_ _
  simp only [Json.keys_append, List.mem_append, mem_keys_valueField, not_or]
  exact ⟨fun same => one same.1, fun member => two (amongLists key member), props,
    fun same => four same.1, fun member => five (amongRest key member), kept.own known last⟩

theorem toJson_type {f : Fragment} (kept : WellKept f.keywords) {raw : Json}
    (written : f.toJson? = some raw) :
    typeSeen (raw.get? "type") = (Features.ofFragment f).type := by
  rw [toJson_leading kept written (by decide), leadingFields_split, get_right (by simp [beforeTypes]),
    get_left (by simp [beforeEnum, afterEnum]), typeSeen_typesField]
  rfl

theorem toJson_enum {f : Fragment} (kept : WellKept f.keywords) {raw : Json}
    (written : f.toJson? = some raw) : Rule.hasItems "enum" raw = !f.keywords.enum.isEmpty := by
  refine hasItems_of_get ?_
  rw [toJson_leading kept written (by decide), leadingFields_split, get_right (by simp [beforeTypes]),
    get_right (by simp), get_right (by simp [beforeEnum]), get_left (by simp [afterEnum]), get_listField]

theorem toJson_branches {f : Fragment} (kept : WellKept f.keywords) {raw : Json}
    (written : f.toJson? = some raw) :
    (raw.get? "items").isSome = f.items.isSome ∧
      (raw.get? "properties").isSome = !f.properties.isEmpty ∧
      (raw.get? "additionalProperties").isSome = f.additionalProperties.isSome := by
  have leading : ∀ key ∉ frontKeys ++ ["required"], key ∉ keys (leadingFields f.keywords) :=
    fun key other => not_mem_leading other _
  have last : ∀ key ∈ ["items", "properties", "additionalProperties"],
      key ∉ keys (trailingFields f.keywords) := by
    have plain : ∀ key ∈ ["items", "properties", "additionalProperties"],
      key ∈ knownKeys ∧ key ∉ "$ref" :: backKeys := by decide
    exact fun key listed => kept.own (plain key listed).1 (plain key listed).2
  have apart : ∀ key ∈ ["items", "properties", "additionalProperties"],
      key ∉ frontKeys ++ ["required"] ∧ key ∉ ["allOf", "oneOf", "anyOf", "not"] ∧
        key ∉ ["patternProperties", "dependencies", "additionalItems", "definitions"] := by decide
  obtain ⟨items, lists, props, extra, rest, itemsSome, propsSome, extraSome, amongLists, amongRest,
    rfl⟩ := toJson_sections written
  -- none of the three names comes up in what is written around their fields
  have own : ∀ key ∈ ["items", "properties", "additionalProperties"],
      key ∉ keys (leadingFields f.keywords) ∧ key ∉ keys lists ∧ key ∉ keys rest := by
    intro key listed
    obtain ⟨front, combinator, other⟩ := apart key listed
    exact ⟨leading key front, fun member => combinator (amongLists key member),
      fun member => other (amongRest key member)⟩
  have named (key : String) : key ∈ keys (namedField "properties" props) ↔
      key = "properties" ∧ f.properties ≠ [] := by
    rw [Ne, ← propsSome]
    unfold namedField
    split <;> simp_all
  have present (key : String) (listed : key ∈ ["items", "properties", "additionalProperties"]) :
      ((canonical (.obj (leadingFields f.keywords ++ (valueField "items" items ++ (lists ++
        (namedField "properties" props ++ (valueField "additionalProperties" extra ++ (rest ++
          trailingFields f.keywords)))))))).get? key).isSome = true ↔
      (key = "items" ∧ f.items.isSome = true) ∨ (key = "properties" ∧ f.properties ≠ []) ∨
        (key = "additionalProperties" ∧ f.additionalProperties.isSome = true) := by
    obtain ⟨front, combinator, other⟩ := own key listed
    rw [get?_isSome]
    simp only [Json.keys_append, List.mem_append, front, combinator, other, last key listed, named,
      mem_keys_valueField, ← Option.isSome_iff_ne_none, itemsSome, extraSome, false_or, or_false]
  refine ⟨?_, ?_, ?_⟩
  · exact Bool.eq_iff_iff.mpr ((present "items" (by decide)).trans (by simp))
  · exact Bool.eq_iff_iff.mpr ((present "properties" (by decide)).trans (by simp))
  · exact Bool.eq_iff_iff.mpr ((present "additionalProperties" (by decide)).trans (by simp))

theorem WellKept.classed {f : Fragment} (kept : WellKept f.keywords) :
    (Features.ofFragment f).classed =
      (((f.keywords.extras.lookup "instanceof").bind Json.str?).getD "" ≠ "" ||
        ((f.keywords.extensions.lookup "x-instanceof").bind Json.str?).getD "" ≠ "" : Bool) := by
  have plain : f.keywords.extensions.lookup "instanceof" = none :=
    Json.lookup_eq_none_iff.mpr fun member => absurd (kept.marked _ member) (by decide)
  have marked : f.keywords.extras.lookup "x-instanceof" = none :=
    Json.lookup_eq_none_iff.mpr fun member => absurd (kept.unmarked _ member) (by decide)
  have first : f.extraText "instanceof" =
      ((f.keywords.extras.lookup "instanceof").bind Json.str?).getD "" := by
    rw [extraText, plain]
    cases f.keywords.extras.lookup "instanceof" with
    | none => rfl
    | some v => cases v <;> rfl
  have second : f.extraText "x-instanceof" =
      ((f.keywords.extensions.lookup "x-instanceof").bind Json.str?).getD "" := by
    rw [extraText, marked]
    cases f.keywords.extensions.lookup "x-instanceof" with
    | none => rfl
    | some v => cases v <;> rfl
  simp only [Features.ofFragment, externalName, first, second]
  by_cases empty : ((f.keywords.extras.lookup "instanceof").bind Json.str?).getD "" = "" <;> simp [empty]

/-- A written fragment has the features of the fragment. -/
theorem features_toJson {f : Fragment} (kept : WellKept f.keywords) {raw : Json}
    (written : f.toJson? = some raw) : features raw = Features.ofFragment f := by
  have own : ∀ key ∈ ["oneOf", "anyOf", "allOf"], key ∉ keys (trailingFields f.keywords) := by
    have plain : ∀ key ∈ ["oneOf", "anyOf", "allOf"], key ∈ knownKeys ∧ key ∉ "$ref" :: backKeys := by
      decide
    exact fun key listed => kept.own (plain key listed).1 (plain key listed).2
  obtain ⟨one, any, all⟩ := toJson_combinators own written
  obtain ⟨items, properties, extra⟩ := toJson_branches kept written
  have generic := toJson_unknown kept written (by decide : genericKeyword ∉ knownKeys)
  have plain := toJson_unknown kept written (by decide : "instanceof" ∉ knownKeys)
  have marked := toJson_unknown kept written (by decide : "x-instanceof" ∉ knownKeys)
  rw [if_pos (by decide)] at generic marked
  rw [if_neg (by decide)] at plain
  have cases (v : Option Json) : ((v.map canonical).bind (·.get? "cases")).isSome =
      (v.bind (·.get? "cases")).isSome := by
    match v with
    | some (.obj fields) =>
      rw [Bool.eq_iff_iff, Option.map_some, Option.bind_some, get?_isSome, ← lookup_isSome]
      rfl
    | none | some .null | some (.bool _) | some (.num _) | some (.str _) | some (.arr _) => rfl
  simp only [features, toJson_type kept written, toJson_enum kept written, one, any, all, items,
    properties, extra, generic, cases, hasText_canonical plain, hasText_canonical marked, ← kept.classed,
    ← isSome_combinator]
  rfl

end written

theorem kindOf_features {cfg : Setting} (rules : cfg.rules = Rule.defaults) {f : Fragment}
    (kept : WellKept f.keywords) {raw : Json} (written : f.toJson? = some raw) :
    kindOf cfg raw = (Features.ofFragment f).kind := by
  rw [kindOf_eq, rules, kind_features, features_toJson kept written]

theorem WellKept.congr {k l : Keywords} (kept : WellKept k) (extensions : l.extensions = k.extensions)
    (extras : l.extras = k.extras) : WellKept l := by
  obtain ⟨unknown, marked, unmarked, once, others⟩ := kept
  constructor <;> simpa only [extensions, extras]

theorem WellKept.stripped {f : Fragment} (kept : WellKept f.keywords) : WellKept (stripped f).keywords := by
  unfold Model.stripped
  split
  · exact kept.congr rfl rfl
  · exact kept

theorem WellKept.branch {f g : Fragment} (kept : WellKept f.keywords) (listed : g ∈ typeBranches f) :
    WellKept g.keywords := by
  obtain ⟨t, _, rfl⟩ := List.mem_map.mp listed
  exact kept.congr rfl rfl

theorem mem_keys_filter (test : String → Bool) {key : String} {fields : List (String × Json)} :
    key ∈ keys (fields.filter fun kv => test kv.1) ↔ key ∈ keys fields ∧ test key = true := by
  simp only [keys, List.mem_map, List.mem_filter]
  constructor
  · rintro ⟨kv, ⟨inside, passes⟩, rfl⟩
    exact ⟨⟨kv, inside, rfl⟩, passes⟩
  · rintro ⟨⟨kv, inside, rfl⟩, passes⟩
    exact ⟨kv, ⟨inside, passes⟩, rfl⟩

theorem decode_wellKept {fields : List (String × Json)} {f : Fragment} (once : (keys fields).Nodup)
    (read : decode? (.obj fields) = some f) : WellKept f.keywords := by
  rw [decode?] at read
  obtain ⟨extensions, extras⟩ := decodeFields_kept read
  have sublist (test other : String → Bool) : (keys ((fields.filter fun kv => test kv.1).filter
      fun kv => other kv.1)).Nodup :=
    once.sublist ((List.filter_sublist.trans List.filter_sublist).map _)
  have known (test : String → Bool) {key : String} (member : key ∈ keys ((fields.filter fun kv =>
      !knownKeys.contains kv.1).filter fun kv => test kv.1)) : key ∉ knownKeys ∧ test key = true := by
    obtain ⟨inside, passes⟩ := (mem_keys_filter test).mp member
    have fresh := ((mem_keys_filter fun key => !knownKeys.contains key).mp inside).2
    exact ⟨by simpa using fresh, passes⟩
  constructor
  · rw [extensions, extras]
    intro key member
    rcases List.mem_append.mp member with inside | inside
    · exact (known isExtension inside).1
    · exact (known (fun key => !isExtension key) inside).1
  · rw [extensions]
    exact fun key member => (known isExtension member).2
  · rw [extras]
    intro key member
    simpa using (known (fun key => !isExtension key) member).2
  · rw [extensions]
    exact sublist (fun key => !knownKeys.contains key) isExtension
  · rw [extras]
    exact sublist (fun key => !knownKeys.contains key) fun key => !isExtension key

end Typesmith.Model
