import Typesmith.Proofs.Declaring
import Typesmith.Proofs.Step

namespace Typesmith.Fragment

open Json

structure Ordinary (f : Fragment) : Prop where
  extensions : f.keywords.extensions = []
  extras : f.keywords.extras = []
  ref : f.keywords.ref = none

section

variable {key name : String}

@[simp] theorem mem_keys_textField (s : String) : key ∈ keys (textField name s) ↔ key = name ∧ s ≠ "" := by
  unfold textField
  split <;> simp [*]

@[simp] theorem mem_keys_flagField (b : Bool) : key ∈ keys (flagField name b) ↔ key = name ∧ b = true := by
  unfold flagField
  split <;> simp [*]

@[simp] theorem mem_keys_numberField (n : Option Decimal) :
    key ∈ keys (numberField name n) ↔ key = name ∧ n ≠ none := by
  cases n <;> simp [numberField]

@[simp] theorem mem_keys_valueField (v : Option Json) :
    key ∈ keys (valueField name v) ↔ key = name ∧ v ≠ none := by
  cases v <;> simp [valueField]

@[simp] theorem mem_keys_listField (l : List Json) :
    key ∈ keys (listField name l) ↔ key = name ∧ l ≠ [] := by
  unfold listField
  cases l <;> simp

@[simp] theorem mem_keys_typesField (types : List String) :
    key ∈ keys (typesField types) ↔ key = "type" ∧ types ≠ [] := by
  unfold typesField
  split <;> simp_all

end

theorem lookup_reverse_none {key : String} {fields : List (String × Json)} (other : key ∉ keys fields) :
    (canonicalFields fields).reverse.lookup key = none := by
  have same : keys (canonicalFields fields).reverse = (keys fields).reverse := by
    rw [← keys_canonicalFields fields, keys, List.map_reverse, keys]
  rw [lookup_eq_none_iff, same, List.mem_reverse]
  exact other

theorem get_right {key : String} {a : List (String × Json)} (other : key ∉ keys a)
    (b : List (String × Json)) :
    (canonical (.obj (a ++ b))).get? key = (canonical (.obj b)).get? key := by
  simp only [canonical_obj, Json.get?, lookup_sortFields, canonicalFields_append, List.reverse_append,
    List.lookup_append, lookup_reverse_none other, Option.or_none]

theorem get_left {key : String} {b : List (String × Json)} (other : key ∉ keys b)
    (a : List (String × Json)) :
    (canonical (.obj (a ++ b))).get? key = (canonical (.obj a)).get? key := by
  simp only [canonical_obj, Json.get?, lookup_sortFields, canonicalFields_append, List.reverse_append,
    List.lookup_append, lookup_reverse_none other, Option.none_or]

theorem writeList_empty {fs : List Fragment} {js : List Json} (written : writeList? fs = some js) :
    js = [] ↔ fs = [] := by
  cases fs with
  | nil =>
    cases written
    simp
  | cons f rest =>
    simp only [writeList?, Option.bind_eq_bind, Option.bind_eq_some_iff, Option.pure_def,
      Option.some.injEq] at written
    obtain ⟨_, _, _, _, rfl⟩ := written
    simp

theorem write_combinators {f : Fragment} {j : Json} (written : write? f = some j) :
    ∃ items allOf oneOf anyOf after, (allOf = [] ↔ f.allOf = []) ∧ (oneOf = [] ↔ f.oneOf = []) ∧
      (anyOf = [] ↔ f.anyOf = []) ∧
      Among ["not", "properties", "additionalProperties", "patternProperties", "dependencies",
        "additionalItems", "definitions"] after ∧
      j = .obj (leadingFields f.keywords ++ (valueField "items" items ++ (listField "allOf" allOf ++
        (listField "oneOf" oneOf ++ (listField "anyOf" anyOf ++
          (after ++ trailingFields f.keywords)))))) := by
  cases write_cases written with
  | @intro items negated extra additional allOf oneOf anyOf _ definitions props patterns dependencies
      _ allWritten oneWritten anyWritten _ _ _ =>
    refine ⟨items, allOf, oneOf, anyOf, valueField "not" negated ++ namedField "properties" props ++
        valueField "additionalProperties" extra ++ namedField "patternProperties" patterns ++
        namedField "dependencies" (.obj dependencies) ++ valueField "additionalItems" additional ++
        namedField "definitions" (.obj (definitions.map fun x => (x.1, x.2.2))),
      writeList_empty allWritten, writeList_empty oneWritten, writeList_empty anyWritten, ?_, ?_⟩
    · repeat' apply Among.append
      all_goals first | apply among_valueField | apply among_namedField
      all_goals decide
    · simp only [List.append_assoc]

theorem Ordinary.trailing {f : Fragment} (ordinary : Ordinary f) :
    Among backKeys (trailingFields f.keywords) := by
  intro key member
  rcases mem_keys_trailingFields member with ⟨kv, inside, _⟩ | ⟨_, isRef⟩ | known
  · simp [ordinary.extensions, ordinary.extras] at inside
  · simp [ordinary.ref] at isRef
  · exact known

/-- What the rules look at in a written fragment. -/
structure Outline (f : Fragment) (raw : Json) : Prop where
  object : ∃ fields, raw = .obj fields
  generic : raw.get? "x-typegen-generic" = none
  allOf : Rule.hasItems "allOf" raw = !f.allOf.isEmpty
  oneOf : Rule.hasItems "oneOf" raw = !f.oneOf.isEmpty
  anyOf : Rule.hasItems "anyOf" raw = !f.anyOf.isEmpty
  enum : Rule.hasItems "enum" raw = !f.keywords.enum.isEmpty
  type : ∀ t, f.keywords.types = [t] → raw.get? "type" = some (.str t)

theorem get_listField (key : String) (l : List Json) :
    (canonical (.obj (listField key l))).get? key =
      if l.isEmpty then none else some (.arr (canonicalItems l)) := by
  cases l with
  | nil => rfl
  | cons j rest =>
    simp [listField, canonical, canonicalFields, mkObj, sortFields, setField, Json.get?]

theorem hasItems_of_get {key : String} {raw : Json} {l : List Json}
    (found : raw.get? key = if l.isEmpty then none else some (.arr (canonicalItems l))) :
    Rule.hasItems key raw = !l.isEmpty := by
  rw [Rule.hasItems, Json.items, found]
  cases l <;> rfl

theorem isEmpty_congr {α β : Type} {a : List α} {b : List β} (same : a = [] ↔ b = []) :
    a.isEmpty = b.isEmpty := by
  rw [Bool.eq_iff_iff, List.isEmpty_iff, List.isEmpty_iff]
  exact same

def beforeTypes (k : Keywords) : List (String × Json) :=
  textField "id" k.id ++ textField "description" k.description

def beforeEnum (k : Keywords) : List (String × Json) :=
  flagField "nullable" k.nullable ++ textField "format" k.format ++ textField "title" k.title
    ++ valueField "default" k.defaultValue ++ numberField "maximum" k.maximum
    ++ flagField "exclusiveMaximum" k.exclusiveMaximum ++ numberField "minimum" k.minimum
    ++ flagField "exclusiveMinimum" k.exclusiveMinimum ++ numberField "maxLength" k.maxLength
    ++ numberField "minLength" k.minLength ++ textField "pattern" k.pattern
    ++ numberField "maxItems" k.maxItems ++ numberField "minItems" k.minItems
    ++ flagField "uniqueItems" k.uniqueItems ++ numberField "multipleOf" k.multipleOf

def afterEnum (k : Keywords) : List (String × Json) :=
  numberField "maxProperties" k.maxProperties ++ numberField "minProperties" k.minProperties
    ++ listField "required" (k.required.map .str)

theorem leadingFields_split (k : Keywords) :
    leadingFields k = beforeTypes k ++ (typesField k.types ++ (beforeEnum k ++
      (listField "enum" k.enum ++ afterEnum k))) := by
  unfold leadingFields beforeTypes beforeEnum afterEnum
  simp only [List.append_assoc]

theorem not_mem_leading {key : String} (other : key ∉ frontKeys ++ ["required"]) (k : Keywords) :
    key ∉ keys (leadingFields k) := by
  obtain ⟨front, split, among⟩ := leadingFields_eq k
  rw [List.mem_append, not_or] at other
  rw [split, keys_append, List.mem_append, not_or]
  refine ⟨fun member => other.1 (among key member), fun member => other.2 ?_⟩
  exact among_listField (List.mem_singleton.mpr rfl) _ key member

theorem not_mem_behind {f : Fragment} {after : List (String × Json)} {key : String}
    (among : Among ["not", "properties", "additionalProperties", "patternProperties", "dependencies",
      "additionalItems", "definitions"] after)
    (other : key ∉ ["not", "properties", "additionalProperties", "patternProperties", "dependencies",
      "additionalItems", "definitions"]) (last : key ∉ keys (trailingFields f.keywords)) :
    key ∉ keys (after ++ trailingFields f.keywords) := by
  rw [keys_append, List.mem_append, not_or]
  exact ⟨fun member => other (among key member), last⟩

/-- A combinator is written where there are members and no unknown keyword has its name. -/
theorem toJson_combinators {f : Fragment}
    (own : ∀ key ∈ ["oneOf", "anyOf", "allOf"], key ∉ keys (trailingFields f.keywords)) {raw : Json}
    (written : f.toJson? = some raw) :
    Rule.hasItems "oneOf" raw = !f.oneOf.isEmpty ∧ Rule.hasItems "anyOf" raw = !f.anyOf.isEmpty ∧
      Rule.hasItems "allOf" raw = !f.allOf.isEmpty := by
  obtain ⟨j, spelled, rfl⟩ := Option.map_eq_some_iff.mp written
  obtain ⟨items, allOf, oneOf, anyOf, after, all, one, any, among, rfl⟩ := write_combinators spelled
  refine ⟨?_, ?_, ?_⟩
  · refine (hasItems_of_get ?_).trans (by rw [isEmpty_congr one])
    rw [get_right (not_mem_leading (by decide) _), get_right (by simp), get_right (by simp), get_left,
      get_listField]
    have last := not_mem_behind among (by decide) (own "oneOf" (by decide))
    simp only [keys_append, List.mem_append, mem_keys_listField] at last ⊢
    simp [last]
  · refine (hasItems_of_get ?_).trans (by rw [isEmpty_congr any])
    rw [get_right (not_mem_leading (by decide) _), get_right (by simp), get_right (by simp),
      get_right (by simp), get_left (not_mem_behind among (by decide) (own "anyOf" (by decide))),
      get_listField]
  · refine (hasItems_of_get ?_).trans (by rw [isEmpty_congr all])
    rw [get_right (not_mem_leading (by decide) _), get_right (by simp), get_left, get_listField]
    have last := not_mem_behind among (by decide) (own "allOf" (by decide))
    simp only [keys_append, List.mem_append, mem_keys_listField] at last ⊢
    simp [last]

theorem toJson_outline {f : Fragment} (ordinary : Ordinary f) {raw : Json}
    (written : f.toJson? = some raw) : Outline f raw := by
  have last : ∀ key, key ∉ backKeys → key ∉ keys (trailingFields f.keywords) :=
    fun key other member => other (ordinary.trailing key member)
  have combined : ∀ key ∈ ["oneOf", "anyOf", "allOf"], key ∉ backKeys := by decide
  obtain ⟨one, any, all⟩ := toJson_combinators (fun key inside => last key (combined key inside)) written
  obtain ⟨j, spelled, rfl⟩ := Option.map_eq_some_iff.mp written
  obtain ⟨items, allOf, oneOf, anyOf, after, _, _, _, among, rfl⟩ := write_combinators spelled
  have middle : ∀ key, key ≠ "items" → key ≠ "allOf" → key ≠ "oneOf" → key ≠ "anyOf" →
      key ∉ keys (after ++ trailingFields f.keywords) →
      key ∉ keys (valueField "items" items ++ (listField "allOf" allOf ++ (listField "oneOf" oneOf ++
        (listField "anyOf" anyOf ++ (after ++ trailingFields f.keywords))))) := by
    intro key items allOf oneOf anyOf last
    simp only [keys_append, List.mem_append, mem_keys_valueField, mem_keys_listField] at last ⊢
    simp [items, allOf, oneOf, anyOf, last]
  have late : ∀ key, _ → key ∉ backKeys → key ∉ keys (after ++ trailingFields f.keywords) :=
    fun key other behind => not_mem_behind among other (last key behind)
  refine ⟨⟨_, canonical_obj _⟩, ?_, all, one, any, ?_, ?_⟩
  · rw [get_right (not_mem_leading (by decide) _), get_right (by simp), get_right (by simp),
      get_right (by simp), get_right (by simp), canonical_obj]
    exact lookup_eq_none_iff.mpr (by rw [mem_keys_canonical]; exact late _ (by decide) (by decide))
  · refine hasItems_of_get ?_
    rw [get_left (middle "enum" (by decide) (by decide) (by decide) (by decide)
        (late _ (by decide) (by decide))),
      leadingFields_split, get_right (by simp [beforeTypes]), get_right (by simp),
      get_right (by simp [beforeEnum]), get_left (by simp [afterEnum]), get_listField]
  · intro t types
    rw [get_left (middle "type" (by decide) (by decide) (by decide) (by decide)
        (late _ (by decide) (by decide))),
      leadingFields_split, get_right (by simp [beforeTypes]), get_left (by simp [beforeEnum, afterEnum]),
      types]
    rfl

end Typesmith.Fragment

namespace Typesmith.Model

open Fragment

def typeKind : String → Kind
  | "number" | "integer" => .number
  | "string" => .string
  | "object" => .object
  | "array" => .array
  | "boolean" => .boolean
  | "null" => .null
  | _ => .any

def readKind (f : Fragment) : Kind :=
  if f.combinator?.isSome then .someOf
  else if !f.keywords.enum.isEmpty then .enum
  else typeKind (f.keywords.types.headD "")

theorem isSome_combinator (f : Fragment) :
    f.combinator?.isSome = (!f.oneOf.isEmpty || !f.anyOf.isEmpty || !f.allOf.isEmpty) := by
  unfold combinator?
  cases f.oneOf.isEmpty <;> cases f.anyOf.isEmpty <;> cases f.allOf.isEmpty <;> rfl

theorem kindOf_eq (cfg : Setting) (raw : Json) :
    kindOf cfg raw = ((Rule.match? cfg.rules raw).map (·.kind)).getD .any := by
  rw [kindOf, Rule.classify]
  split
  · split <;> rfl
  · rfl

/-- By the usual rules a fragment is a union or an intersection only when it has members. -/
theorem combinator?_ne_none {cfg : Setting} (rules : cfg.rules = Rule.defaults) {f : Fragment} {raw : Json}
    (own : ∀ key ∈ ["oneOf", "anyOf", "allOf"], key ∉ Json.keys (trailingFields f.keywords))
    (written : f.toJson? = some raw) (kind : kindOf cfg raw = .someOf) : f.combinator? ≠ none := by
  obtain ⟨one, any, all⟩ := toJson_combinators own written
  rw [kindOf_eq, rules] at kind
  cases found : Rule.match? Rule.defaults raw with
  | none =>
    rw [found] at kind
    cases kind
  | some r =>
    rw [found] at kind
    have fits := List.find?_some found
    have listed := List.mem_of_find?_eq_some found
    have chosen : r = ⟨"oneof", .someOf⟩ ∨ r = ⟨"anyof", .someOf⟩ ∨ r = ⟨"allof", .someOf⟩ := by
      have checked : ∀ r ∈ Rule.defaults, r.kind = .someOf →
          r = ⟨"oneof", .someOf⟩ ∨ r = ⟨"anyof", .someOf⟩ ∨ r = ⟨"allof", .someOf⟩ := by decide
      exact checked r listed kind
    intro hollow
    have nothing := isSome_combinator f
    simp only [hollow, Option.isSome_none, Bool.false_eq, Bool.or_eq_false_iff] at nothing
    obtain ⟨⟨noOne, noAny⟩, noAll⟩ := nothing
    rcases chosen with rfl | rfl | rfl
    · exact Bool.false_ne_true ((one.trans noOne).symm.trans fits)
    · exact Bool.false_ne_true ((any.trans noAny).symm.trans fits)
    · exact Bool.false_ne_true ((all.trans noAll).symm.trans fits)

theorem kindOf_outline {cfg : Setting} (rules : cfg.rules = Rule.defaults) {f : Fragment} {raw : Json}
    (outline : Outline f raw)
    (known : f.combinator? = none → f.keywords.enum = [] →
      ∃ t ∈ typeNames, f.keywords.types = [t]) : kindOf cfg raw = readKind f := by
  have kind : kindOf cfg raw = ((Rule.match? Rule.defaults raw).map (·.kind)).getD .any := by
    rw [kindOf_eq, rules]
  have generic : Rule.fits raw ⟨"generic", .generic⟩ = false := by
    simp [Rule.fits, Rule.shape?, outline.generic]
  have oneOf : Rule.fits raw ⟨"oneof", .someOf⟩ = !f.oneOf.isEmpty := outline.oneOf
  have anyOf : Rule.fits raw ⟨"anyof", .someOf⟩ = !f.anyOf.isEmpty := outline.anyOf
  have allOf : Rule.fits raw ⟨"allof", .someOf⟩ = !f.allOf.isEmpty := outline.allOf
  have enum : Rule.fits raw ⟨"enum", .enum⟩ = !f.keywords.enum.isEmpty := outline.enum
  rw [kind, Rule.match?, Rule.defaults, readKind]
  simp only [List.find?_cons, generic, oneOf, anyOf, allOf, enum]
  by_cases combined : f.combinator?.isSome = true
  · rw [if_pos combined]
    rw [isSome_combinator] at combined
    revert combined
    cases f.oneOf.isEmpty <;> cases f.anyOf.isEmpty <;> cases f.allOf.isEmpty <;> simp
  · rw [if_neg combined]
    have single : f.combinator? = none := by simpa using combined
    rw [isSome_combinator] at combined
    simp only [Bool.or_eq_true, not_or, Bool.not_eq_true] at combined
    obtain ⟨⟨one, any⟩, all⟩ := combined
    rw [one, any, all]
    by_cases values : f.keywords.enum = []
    · obtain ⟨t, inside, types⟩ := known single values
      have type := outline.type t types
      simp only [typeNames, List.mem_cons, List.not_mem_nil, or_false] at inside
      rcases inside with rfl | rfl | rfl | rfl | rfl | rfl | rfl <;>
        simp [values, types, typeKind, Rule.fits, Rule.shape?, Rule.hasType, Rule.hasUntyped, type]
    · have some : (!f.keywords.enum.isEmpty) = true := by simpa using values
      rw [some]
      rfl

end Typesmith.Model
