import Typesmith.Proofs.Classifying
import Typesmith.Proofs.Identity

namespace Typesmith.Model

open Fragment

/-- Whether a value has a type whose values have no parts. -/
def fitsType (name : String) (v : Json) : Bool :=
  match name, v with
  | "string", .str _ => true
  | "number", .num _ => true
  | "integer", .num n => n.isWhole
  | "boolean", .bool _ => true
  | "null", .null => true
  | _, _ => false

def fitsToken (token : String) (v : Json) : Bool :=
  match token, v with
  | "any", _ => true
  | "string", .str _ => true
  | "number", .num _ => true
  | "boolean", .bool _ => true
  | "null", .null => true
  | _, _ => false

def isLiteral : Json → Bool
  | .bool _ | .num _ | .str _ => true
  | _ => false

/-- The fragments that this is about: a reference alone; a type without parts; some literals of a
type; records; lists; alternatives. All but the reference may be nullable and have a title and a
description. -/
inductive Expressible : Fragment → Prop
  | reference (ref : String) : Expressible { keywords := { ref := some ref } }
  | scalar {type format : String} (title description : String) (nullable : Bool)
      (scalar : isScalarType type = true) (text : type = "string" → format ≠ "binary") :
      Expressible { keywords := { title, description, nullable, format, types := [type] } }
  | literals {type : String} {enum : List Json} (title description format : String) (nullable : Bool)
      (typed : type ∈ ["string", "number", "integer"]) (some : enum ≠ [])
      (literal : ∀ v ∈ enum, isLiteral v = true) :
      Expressible { keywords := { title, description, nullable, format, types := [type], enum } }
  | record {properties : List (String × Fragment)} {extent : Option (ExtentOf Fragment)}
      (title description : String) (nullable : Bool) (required : List String)
      (listed : ∀ p ∈ properties, Expressible p.2)
      (extra : ∀ g, extent = some (.described g) → Expressible g) :
      Expressible
        { keywords := { title, description, nullable, types := ["object"], required }
          properties, additionalProperties := extent }
  | list {item : Option Fragment} (title description : String) (nullable : Bool)
      (items : ∀ g, item = some g → Expressible g) :
      Expressible
        { keywords := { title, description, nullable, types := ["array"] }, items := item.map .one }
  | oneOf {members : List Fragment} (title description : String) (nullable : Bool)
      (some : members ≠ []) (each : ∀ g ∈ members, Expressible g) :
      Expressible { keywords := { title, description, nullable }, oneOf := members }
  | anyOf {members : List Fragment} (title description : String) (nullable : Bool)
      (some : members ≠ []) (each : ∀ g ∈ members, Expressible g) :
      Expressible { keywords := { title, description, nullable }, anyOf := members }

/-- The values of a fragment that was read at a place. The relation is the least one, so a fragment
that only goes in circles has no values. -/
inductive Valid (cfg : Setting) : String → Fragment → Json → Prop
  | null {place : String} {f : Fragment} (isRef : f.isRef = false)
      (nullable : f.keywords.nullable = true) : Valid cfg place f .null
  | reference {place : String} {f g : Fragment} {v : Json} (isRef : f.isRef = true)
      (resolved : cfg.resolver.fragment (aliasTarget f place) = .ok g)
      (target : Valid cfg (aliasTarget f place) g v) : Valid cfg place f v
  | scalar {place type : String} {f : Fragment} {v : Json} (types : f.keywords.types = [type])
      (plain : f.keywords.enum = []) (typed : fitsType type v = true) : Valid cfg place f v
  | literal {place type : String} {f : Fragment} {v w : Json} (types : f.keywords.types = [type])
      (typed : fitsType type v = true) (listed : w ∈ f.keywords.enum) (same : w.same v = true) :
      Valid cfg place f v
  | record {place : String} {f : Fragment} {fields : List (String × Json)}
      (types : f.keywords.types = ["object"])
      (required : ∀ name ∈ f.keywords.required, name ∈ Json.keys fields)
      (listed : ∀ p ∈ f.properties, ∀ v, (p.1, v) ∈ fields → Valid cfg place p.2 v)
      (allowed : f.additionalProperties = some .forbidden →
        ∀ kv ∈ fields, kv.1 ∈ Json.keys f.properties)
      (extra : ∀ g, f.additionalProperties = some (.described g) →
        ∀ kv ∈ fields, kv.1 ∉ Json.keys f.properties → Valid cfg place g kv.2) :
      Valid cfg place f (.obj fields)
  | list {place : String} {f : Fragment} {vs : List Json} (types : f.keywords.types = ["array"])
      (each : ∀ g ∈ f.itemFragments, ∀ v ∈ vs, Valid cfg place g v) : Valid cfg place f (.arr vs)
  | member {place : String} {f g : Fragment} {c : Combinator} {members : List Fragment} {v : Json}
      (combined : f.combinator? = some (c, members)) (separate : c ≠ .allOf) (inside : g ∈ members)
      (valid : Valid cfg place g v) : Valid cfg place f v

mutual

/-- The values that a descriptor of a store takes. -/
inductive Admits (s : Store) : Id → Json → Prop
  | token {id : Id} {d : Descriptor} {token : String} {v : Json} (found : s.get? id = some d)
      (shape : d.shape = .value token) (typed : fitsToken token v = true) : Admits s id v
  | literal {id : Id} {d : Descriptor} {members : List Member} {m : Member} {v : Json}
      (found : s.get? id = some d) (shape : d.shape = .enum members) (listed : m ∈ members)
      (same : m.value.same v = true) : Admits s id v
  | anyList {id : Id} {d : Descriptor} {vs : List Json} (found : s.get? id = some d)
      (shape : d.shape = .array []) : Admits s id (.arr vs)
  | list {id : Id} {d : Descriptor} {items : List Container} {c : Container} {vs : List Json}
      (found : s.get? id = some d) (shape : d.shape = .array items) (chosen : c ∈ items)
      (each : ∀ v ∈ vs, Inhabits s c v) : Admits s id (.arr vs)
  | union {id : Id} {d : Descriptor} {comb : Combinator} {branches : List Container} {c : Container}
      {v : Json} (found : s.get? id = some d) (shape : d.shape = .someOf comb branches)
      (separate : comb ≠ .allOf) (chosen : c ∈ branches) (inside : Inhabits s c v) : Admits s id v
  | intersection {id : Id} {d : Descriptor} {branches : List Container} {v : Json}
      (found : s.get? id = some d) (shape : d.shape = .someOf .allOf branches)
      (each : ∀ c ∈ branches, Inhabits s c v) : Admits s id v
  | closed {id : Id} {d : Descriptor} {sets : List (List Property)} (found : s.get? id = some d)
      (shape : d.shape = .object sets true) : Admits s id (.obj [])
  | record {id : Id} {d : Descriptor} {sets : List (List Property)} {set : List Property}
      {fields : List (String × Json)} (found : s.get? id = some d) (shape : d.shape = .object sets false)
      (chosen : set ∈ sets)
      (required : ∀ p ∈ set, p.isIndex = false → p.required = true → p.name ∈ Json.keys fields)
      (listed : ∀ p ∈ set, p.isIndex = false → ∀ v, (p.name, v) ∈ fields → Inhabits s p.types v)
      (others : ∀ p ∈ set, p.isIndex = true → ∀ kv ∈ fields,
        (∀ q ∈ set, q.isIndex = false → q.name ≠ kv.1) → Inhabits s p.types kv.2) :
      Admits s id (.obj fields)

inductive Inhabits (s : Store) : Container → Json → Prop
  | intro {c : Container} {id : Id} {v : Json} (member : id ∈ c) (admits : Admits s id v) :
      Inhabits s c v

end

def parts (f : Fragment) : List Fragment :=
  f.properties.map (·.2) ++ extraFragments f ++ f.itemFragments ++ f.oneOf ++ f.anyOf

inductive Mentions : Fragment → String → Prop
  | itself {f : Fragment} (isRef : f.isRef = true) : Mentions f f.ref
  | inside {f g : Fragment} {ref : String} (part : g ∈ parts f) (mentions : Mentions g ref) :
      Mentions f ref

def componentNames (cfg : Setting) : List String :=
  Json.keys ((cfg.resolver.root.getD "components").fieldsAt "schemas")

/-- The places that the components of a document lead to. -/
inductive Linked (cfg : Setting) : String → Prop
  | component {name : String} (listed : name ∈ componentNames cfg) :
      Linked cfg (Reference.normalize (Reference.component name))
  | next {place ref : String} {f : Fragment} (linked : Linked cfg place)
      (resolved : cfg.resolver.fragment place = .ok f) (mentions : Mentions f ref) :
      Linked cfg (Reference.normalize (Reference.qualify ref place))

inductive Asked (cfg : Setting) (s : Store) : Store → Prop
  | none : Asked cfg s s
  | more {ref : String} {c : Container} {t u : Store} (before : Asked cfg s t)
      (linked : Linked cfg (Reference.normalize ref))
      (last : Returns (findOrCreate cfg ref) t c u) : Asked cfg s u

section stripping

variable {f : Fragment}

theorem stripped_cases (f : Fragment) :
    (keepsNull f = true ∧ stripped f = withoutNull f) ∨ (keepsNull f = false ∧ stripped f = f) := by
  unfold stripped
  cases keepsNull f <;> simp

@[simp] theorem stripped_properties (f : Fragment) : (stripped f).properties = f.properties := by
  unfold stripped
  split <;> rfl

@[simp] theorem stripped_required (f : Fragment) :
    (stripped f).keywords.required = f.keywords.required := by
  unfold stripped
  split <;> rfl

@[simp] theorem stripped_format (f : Fragment) : (stripped f).keywords.format = f.keywords.format := by
  unfold stripped
  split <;> rfl

@[simp] theorem stripped_extent (f : Fragment) :
    (stripped f).additionalProperties = f.additionalProperties := by
  unfold stripped
  split <;> rfl

@[simp] theorem stripped_itemFragments (f : Fragment) :
    (stripped f).itemFragments = f.itemFragments := by
  unfold stripped
  split <;> rfl

@[simp] theorem stripped_combinator (f : Fragment) : (stripped f).combinator? = f.combinator? := by
  unfold stripped
  split <;> rfl

theorem stripped_parts (f : Fragment) : parts (stripped f) = parts f := by
  unfold stripped
  split <;> rfl

@[simp] theorem stripped_extensions (f : Fragment) :
    (stripped f).keywords.extensions = f.keywords.extensions := by
  unfold stripped
  split <;> rfl

@[simp] theorem stripped_extras (f : Fragment) : (stripped f).keywords.extras = f.keywords.extras := by
  unfold stripped
  split <;> rfl

@[simp] theorem stripped_ref (f : Fragment) : (stripped f).keywords.ref = f.keywords.ref := by
  unfold stripped
  split <;> rfl

theorem stripped_types {type : String} (types : f.keywords.types = [type]) :
    (stripped f).keywords.types = [type] := by
  rcases stripped_cases f with ⟨kept, same⟩ | ⟨_, same⟩
  · rw [same]
    simp only [keepsNull, onlyNull, types, Bool.and_eq_true] at kept
    have other : type ≠ "null" := by
      rintro rfl
      simp at kept
    simp [withoutNull, nonNullTypes, types, other]
  · rw [same, types]

theorem stripped_untyped (types : f.keywords.types = []) : (stripped f).keywords.types = [] := by
  rcases stripped_cases f with ⟨_, same⟩ | ⟨_, same⟩
  · rw [same]
    simp [withoutNull, nonNullTypes, types]
  · rw [same, types]

theorem mem_stripped_enum {v : Json} (some : v.isNull = false) :
    v ∈ (stripped f).keywords.enum ↔ v ∈ f.keywords.enum := by
  rcases stripped_cases f with ⟨_, same⟩ | ⟨_, same⟩
  · rw [same]
    simp [withoutNull, some]
  · rw [same]

end stripping

/-- A fragment that is read by a combinator, by its values or by its only type. -/
structure Legible (g : Fragment) : Prop where
  ordinary : Ordinary g
  single : isMultiType g = false
  typed : g.combinator? = none → g.keywords.enum = [] → ∃ type ∈ typeNames, g.keywords.types = [type]
  plain : ∀ c members, g.combinator? = some (c, members) →
    c ≠ .allOf ∧ g.commonPart.hasStructure = false

theorem legible_typed {f : Fragment} {type : String} (extensions : f.keywords.extensions = [])
    (extras : f.keywords.extras = []) (ref : f.keywords.ref = none) (alone : f.combinator? = none)
    (known : type ∈ typeNames) (types : f.keywords.types = [type]) : Legible (stripped f) := by
  refine ⟨⟨by simp [extensions], by simp [extras], by simp [ref]⟩, ?_, ?_, ?_⟩
  · simp [isMultiType, stripped_types types]
  · exact fun _ _ => ⟨type, known, stripped_types types⟩
  · intro c members combined
    rw [stripped_combinator, alone] at combined
    cases combined

theorem legible_combined {f : Fragment} {c : Combinator} {members : List Fragment}
    (extensions : f.keywords.extensions = []) (extras : f.keywords.extras = [])
    (ref : f.keywords.ref = none) (untyped : f.keywords.types = [])
    (combined : f.combinator? = some (c, members)) (separate : c ≠ .allOf)
    (plain : (stripped f).commonPart.hasStructure = false) : Legible (stripped f) := by
  refine ⟨⟨by simp [extensions], by simp [extras], by simp [ref]⟩, ?_, ?_, ?_⟩
  · simp [isMultiType, stripped_untyped untyped]
  · intro alone
    rw [stripped_combinator, combined] at alone
    cases alone
  · intro c members other
    rw [stripped_combinator, combined] at other
    cases other
    exact ⟨separate, plain⟩

theorem Expressible.legible {f : Fragment} (expressible : Expressible f) (isRef : f.isRef = false) :
    Legible (stripped f) := by
  cases expressible with
  | reference ref => cases isRef
  | @scalar type _ _ _ _ scalar _ =>
    have known : type ∈ typeNames := by
      simp only [isScalarType, List.contains_eq_mem, decide_eq_true_eq] at scalar
      revert scalar
      simp only [typeNames, List.mem_cons, List.not_mem_nil, or_false]
      tauto
    exact legible_typed rfl rfl rfl rfl known rfl
  | @literals type _ _ _ _ _ typed _ _ =>
    have known : type ∈ typeNames := by
      revert typed
      simp only [typeNames, List.mem_cons, List.not_mem_nil, or_false]
      tauto
    exact legible_typed rfl rfl rfl rfl known rfl
  | record => exact legible_typed rfl rfl rfl rfl (by decide) rfl
  | list => exact legible_typed rfl rfl rfl rfl (by decide) rfl
  | @oneOf members _ _ nullable some each =>
    obtain ⟨g, rest, rfl⟩ := List.exists_cons_of_ne_nil some
    exact legible_combined rfl rfl rfl rfl rfl (by decide) (by cases nullable <;> rfl)
  | @anyOf members _ _ nullable some each =>
    obtain ⟨g, rest, rfl⟩ := List.exists_cons_of_ne_nil some
    exact legible_combined rfl rfl rfl rfl rfl (by decide) (by cases nullable <;> rfl)

theorem Legible.kindOf {cfg : Setting} (rules : cfg.rules = Rule.defaults) {g : Fragment} {raw : Json}
    (legible : Legible g) (written : g.toJson? = some raw) : kindOf cfg raw = readKind g :=
  kindOf_outline rules (toJson_outline legible.ordinary written) legible.typed

theorem Expressible.part {f g : Fragment} (expressible : Expressible f) (inside : g ∈ parts f) :
    Expressible g := by
  cases expressible with
  | reference ref => cases inside
  | scalar => cases inside
  | literals => cases inside
  | record _ _ _ _ listed extra =>
    simp only [parts, itemFragments, List.append_nil, List.mem_append, List.mem_map] at inside
    rcases inside with ⟨p, member, rfl⟩ | described
    · exact listed p member
    · unfold extraFragments at described
      split at described
      · rename_i h same
        rw [List.mem_singleton.mp described]
        exact extra h same
      · cases described
  | @list item _ _ _ items =>
    cases item with
    | none => cases inside
    | some h =>
      have same : g = h := by simpa [parts, itemFragments, extraFragments] using inside
      rw [same]
      exact items h rfl
  | oneOf _ _ _ _ each => exact each g (by simpa [parts, itemFragments, extraFragments] using inside)
  | anyOf _ _ _ _ each => exact each g (by simpa [parts, itemFragments, extraFragments] using inside)

section

variable {f : Fragment} {type : String}

theorem Expressible.alone (expressible : Expressible f) (types : f.keywords.types = [type]) :
    f.isRef = false ∧ f.combinator? = none := by
  cases expressible with
  | scalar => exact ⟨rfl, rfl⟩
  | literals => exact ⟨rfl, rfl⟩
  | record => exact ⟨rfl, rfl⟩
  | list => exact ⟨rfl, rfl⟩
  | _ => cases types

theorem Expressible.text (expressible : Expressible f) (types : f.keywords.types = [type])
    (plain : f.keywords.enum = []) : type = "string" → f.keywords.format ≠ "binary" := by
  cases expressible with
  | scalar _ _ _ _ text =>
    cases types
    exact text
  | literals _ _ _ _ _ some => exact absurd plain some
  | record =>
    cases types
    intro same
    exact absurd same (by decide)
  | list =>
    cases types
    intro same
    exact absurd same (by decide)
  | _ => cases types

theorem Expressible.plain (expressible : Expressible f) (types : f.keywords.types = [type])
    (parted : type ∉ ["string", "number", "integer"]) : f.keywords.enum = [] := by
  cases expressible with
  | literals _ _ _ _ typed =>
    cases types
    exact absurd typed parted
  | _ => rfl

theorem Expressible.literal (expressible : Expressible f) {v : Json} (listed : v ∈ f.keywords.enum) :
    v.isNull = false := by
  cases expressible with
  | literals _ _ _ _ _ _ literal =>
    have scalar := literal v listed
    cases v with
    | null => cases scalar
    | _ => rfl
  | _ => cases listed

theorem Expressible.isRef_of_combined (expressible : Expressible f)
    {combination : Combinator × List Fragment} (combined : f.combinator? = some combination) :
    f.isRef = false := by
  cases expressible with
  | reference => cases combined
  | _ => rfl

theorem mem_parts_of_member {c : Combinator} {members : List Fragment} {g : Fragment}
    (combined : f.combinator? = some (c, members)) (separate : c ≠ .allOf) (inside : g ∈ members) :
    g ∈ parts f := by
  simp only [parts, List.mem_append]
  unfold combinator? at combined
  split at combined
  · cases combined
    exact .inl (.inr inside)
  · split at combined
    · cases combined
      exact .inr inside
    · split at combined
      · cases combined
        exact absurd rfl separate
      · cases combined

end

/-- A fragment of the language all of whose references lead to places that components lead to. -/
structure Within (cfg : Setting) (place : String) (f : Fragment) : Prop where
  expressible : Expressible f
  linked : ∀ ref, Mentions f ref → Linked cfg (Reference.normalize (Reference.qualify ref place))

theorem Within.part {cfg : Setting} {place : String} {f g : Fragment} (within : Within cfg place f)
    (inside : g ∈ parts f) : Within cfg place g :=
  ⟨within.expressible.part inside, fun ref mentions => within.linked ref (.inside inside mentions)⟩

/-- All components of the document, and all that they lead to, are in the language. -/
def Spoken (cfg : Setting) : Prop :=
  ∀ place f, Linked cfg place → cfg.resolver.fragment place = .ok f → Expressible f

theorem Spoken.within {cfg : Setting} (spoken : Spoken cfg) {place : String} {f : Fragment}
    (linked : Linked cfg place) (resolved : cfg.resolver.fragment place = .ok f) :
    Within cfg place f :=
  ⟨spoken place f linked resolved, fun _ mentions => linked.next resolved mentions⟩

end Typesmith.Model
