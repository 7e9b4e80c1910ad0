import Typesmith.Proofs.Features

namespace Typesmith.Fragment

open Json (keys)

def Branch.held (f : Fragment) : Branch → Bool
  | .items => f.items.isSome
  | .allOf => !f.allOf.isEmpty
  | .oneOf => !f.oneOf.isEmpty
  | .anyOf => !f.anyOf.isEmpty
  | .properties => !f.properties.isEmpty
  | .additionalProperties => f.additionalProperties.isSome
  | _ => false

def Branch.filled (v : Json) : Branch → Bool
  | .items | .additionalProperties => !v.isNull
  | .allOf | .oneOf | .anyOf => !(v.arr?.getD []).isEmpty
  | .properties => !(v.obj?.getD []).isEmpty
  | _ => false

def seenBranches : List Branch :=
  [.items, .allOf, .oneOf, .anyOf, .properties, .additionalProperties]

section view

variable {β : Type} {word : String} {fields : List (String × Json)} {s t : Fragment}

theorem decodeFields_untouched {view : Fragment → β}
    (other : ∀ s t field, foldKey field.1 ≠ foldKey word → readField s field = some t → view t = view s)
    (absent : ∀ key ∈ keys fields, foldKey key ≠ foldKey word) (read : decodeFields fields s = some t) :
    view t = view s := by
  induction fields generalizing s with
  | nil =>
    cases read
    rfl
  | cons field rest ih =>
    rw [decodeFields_cons, Option.bind_eq_some_iff] at read
    obtain ⟨m, first, others⟩ := read
    have later := ih (fun key inside => absent key (List.mem_cons_of_mem _ inside)) others
    exact later.trans (other s m field (absent _ List.mem_cons_self) first)

theorem decodeFields_view (view : Fragment → β) {a : β} (value : Json → β)
    (other : ∀ s t field, foldKey field.1 ≠ foldKey word → readField s field = some t → view t = view s)
    (own : ∀ s t v, view s = a → readField s (word, v) = some t → view t = value v)
    (once : (keys fields).Nodup) (exact : ∀ key ∈ keys fields, foldKey key = foldKey word → key = word)
    (begun : view s = a) (read : decodeFields fields s = some t) :
    view t = ((fields.lookup word).map value).getD a := by
  induction fields generalizing s with
  | nil =>
    cases read
    exact begun
  | cons field rest ih =>
    obtain ⟨key, v⟩ := field
    rw [decodeFields_cons, Option.bind_eq_some_iff] at read
    obtain ⟨m, first, others⟩ := read
    obtain ⟨apart, once⟩ := List.nodup_cons.mp once
    have exact' : ∀ key ∈ keys rest, foldKey key = foldKey word → key = word :=
      fun key inside => exact key (List.mem_cons_of_mem _ inside)
    by_cases same : key = word
    · subst same
      rw [List.lookup_cons_self, Option.map_some, Option.getD_some, ← own s m v begun first]
      refine decodeFields_untouched other (fun key inside folded => ?_) others
      exact apart (exact' key inside folded ▸ inside)
    · have folded : foldKey key ≠ foldKey word := fun folded => same (exact key List.mem_cons_self folded)
      rw [List.lookup_cons, beq_eq_false_iff_ne.mpr (Ne.symm same)]
      exact ih once exact' ((other s m (key, v) folded first).trans begun) others

end view

section keywords

variable {s t : Fragment} {v : Json}

theorem setKeyword_apart {k l : Keywords} {key : String} (set : setKeyword k key v = some l) :
    (foldKey key ≠ "type" → l.types = k.types) ∧ (foldKey key ≠ "enum" → l.enum = k.enum) := by
  unfold setKeyword at set
  split at set
  case h_3 type =>
    obtain ⟨_, _, rfl⟩ := Option.map_eq_some_iff.mp set
    exact ⟨fun other => absurd type other, fun _ => rfl⟩
  case h_19 enum =>
    exact ⟨fun _ => by split at set <;> cases set <;> rfl, fun other => absurd enum other⟩
  all_goals
    first
    | (obtain ⟨_, _, rfl⟩ := Option.map_eq_some_iff.mp set
       exact ⟨fun _ => rfl, fun _ => rfl⟩)
    | (cases set
       exact ⟨fun _ => rfl, fun _ => rfl⟩)

theorem readField_apart {field : String × Json} (read : readField s field = some t) :
    (foldKey field.1 ≠ "type" → t.keywords.types = s.keywords.types) ∧
      (foldKey field.1 ≠ "enum" → t.keywords.enum = s.keywords.enum) := by
  obtain ⟨key, v⟩ := field
  cases kind : Branch.ofKey key with
  | none =>
    obtain ⟨k, set, rfl⟩ := readField_keyword kind read
    exact setKeyword_apart set
  | some b =>
    rw [(readField_branch kind read).1]
    exact ⟨fun _ => rfl, fun _ => rfl⟩

theorem readField_types (begun : s.keywords.types = []) (read : readField s ("type", v) = some t) :
    t.keywords.types = (readTypes [] v).getD [] := by
  have kind : Branch.ofKey "type" = none := by decide
  have folded : foldKey "type" = "type" := by decide
  obtain ⟨k, set, rfl⟩ := readField_keyword kind read
  unfold setKeyword at set
  rw [folded] at set
  obtain ⟨types, found, rfl⟩ := Option.map_eq_some_iff.mp set
  rw [begun] at found
  rw [found]
  rfl

theorem readField_enum (read : readField s ("enum", v) = some t) :
    t.keywords.enum = v.arr?.getD [] := by
  have kind : Branch.ofKey "enum" = none := by decide
  have folded : foldKey "enum" = "enum" := by decide
  obtain ⟨k, set, rfl⟩ := readField_keyword kind read
  unfold setKeyword at set
  rw [folded] at set
  cases v <;> cases set <;> rfl

end keywords

section branches

variable {s t : Fragment} {b c : Branch} {v : Json}

theorem held_setOne (other : c ≠ b) (f : Fragment) : b.held (s.setOne c f) = b.held s := by
  cases c <;> cases b <;> first | rfl | exact absurd rfl other

theorem held_setMany (other : c ≠ b) (fs : List Fragment) : b.held (s.setMany c fs) = b.held s := by
  cases c <;> cases b <;> first | rfl | exact absurd rfl other

theorem held_setNamed (other : c ≠ b) (fs : List (String × Fragment)) :
    b.held (s.setNamed c fs) = b.held s := by
  cases c <;> cases b <;> first | rfl | exact absurd rfl other

theorem held_clear (other : c ≠ b) : b.held (s.clear c) = b.held s := by
  cases c <;> cases b <;> first | rfl | exact absurd rfl other

theorem held_setOther (other : c ≠ b) (set : s.setOther c v = some t) : b.held t = b.held s := by
  cases c <;> cases set <;> cases b <;> first | rfl | exact absurd rfl other

theorem readField_other {key : String} (other : Branch.ofKey key ≠ some b)
    (read : readField s (key, v) = some t) : b.held t = b.held s := by
  have apart {c : Branch} (kind : Branch.ofKey key = some c) : c ≠ b := by
    rintro rfl
    exact other kind
  cases readsField read with
  | keyword => cases b <;> rfl
  | named kind => exact held_setNamed (apart kind) _
  | dependencies => cases b <;> rfl
  | one kind => exact held_setOne (apart kind) _
  | many kind => exact held_setMany (apart kind) _
  | null kind => exact held_clear (apart kind)
  | other kind set => exact held_setOther (apart kind) set

theorem decodeItems_isEmpty {items : List Json} {fs : List Fragment} (read : decodeItems items = some fs) :
    fs.isEmpty = items.isEmpty := by
  cases items with
  | nil =>
    cases read
    rfl
  | cons j rest =>
    simp only [decodeItems, Option.bind_eq_some_iff, Option.map_eq_some_iff] at read
    obtain ⟨f, _, _, _, rfl⟩ := read
    rfl

theorem properties_setNamed_isEmpty {fields : List (String × Json)} {fs : List (String × Fragment)}
    (named : decodeNamed fields = some fs) (begun : s.properties = []) :
    (s.setNamed .properties fs).properties.isEmpty = fields.isEmpty := by
  have names (name : String) : name ∈ keys (s.setNamed .properties fs).properties ↔ name ∈ keys fields := by
    simp [setNamed, begun, Json.mem_keys_foldl_setField, keys_decodeNamed named]
  cases fields with
  | nil =>
    have none : keys (s.setNamed .properties fs).properties = [] :=
      List.eq_nil_iff_forall_not_mem.mpr fun name inside => List.not_mem_nil ((names name).mp inside)
    simpa [keys] using none
  | cons field rest =>
    have some := (names field.1).mpr List.mem_cons_self
    cases made : (s.setNamed .properties fs).properties with
    | nil =>
      rw [made] at some
      cases some
    | cons _ _ => rfl

theorem readField_listed (list : b ∈ [Branch.allOf, .oneOf, .anyOf]) (read : readField s (b.key, v) = some t) :
    b.held t = b.filled v := by
  have kind : Branch.ofKey b.key = some b := by
    revert list
    cases b <;> decide
  unfold readField at read
  simp only [kind] at read
  simp only [List.mem_cons, List.not_mem_nil, or_false] at list
  cases v with
  | arr items =>
    rcases list with rfl | rfl | rfl <;>
    · obtain ⟨fs, listed, rfl⟩ := Option.map_eq_some_iff.mp read
      simp [Branch.held, Branch.filled, Json.arr?, setMany, decodeItems_isEmpty listed]
  | null => rcases list with rfl | rfl | rfl <;> cases read <;> rfl
  | _ => rcases list with rfl | rfl | rfl <;> cases read

theorem readField_extent (extent : b = .items ∨ b = .additionalProperties)
    (read : readField s (b.key, v) = some t) : b.held t = b.filled v := by
  have kind : Branch.ofKey b.key = some b := by rcases extent with rfl | rfl <;> decide
  unfold readField at read
  simp only [kind] at read
  cases v with
  | obj fields =>
    rcases extent with rfl | rfl <;>
    · obtain ⟨f, _, rfl⟩ := Option.map_eq_some_iff.mp read
      rfl
  | arr items =>
    rcases extent with rfl | rfl
    · obtain ⟨fs, _, rfl⟩ := Option.map_eq_some_iff.mp read
      rfl
    · cases read
      rfl
  | _ => rcases extent with rfl | rfl <;> cases read <;> rfl

theorem readField_own (seen : b ∈ seenBranches) (begun : b.held s = false)
    (read : readField s (b.key, v) = some t) : b.held t = b.filled v := by
  simp only [seenBranches, List.mem_cons, List.not_mem_nil, or_false] at seen
  rcases seen with rfl | rfl | rfl | rfl | rfl | rfl
  · exact readField_extent (.inl rfl) read
  · exact readField_listed (by decide) read
  · exact readField_listed (by decide) read
  · exact readField_listed (by decide) read
  · have kind : Branch.ofKey "properties" = some .properties := by decide
    unfold readField at read
    simp only [Branch.key, kind] at read
    cases v with
    | obj fields =>
      obtain ⟨fs, named, rfl⟩ := Option.map_eq_some_iff.mp read
      have none : s.properties = [] := by simpa [Branch.held] using begun
      simp [Branch.held, Branch.filled, Json.obj?, properties_setNamed_isEmpty named none]
    | null =>
      cases read
      rfl
    | _ => cases read
  · exact readField_extent (.inr rfl) read

end branches

def seenKeys : List String :=
  ["type", "enum"] ++ seenBranches.map Branch.key

/-- Fields that have one name each, where no keyword that the usual rules look at is spelled in another way. -/
structure Spelled (fields : List (String × Json)) : Prop where
  once : (keys fields).Nodup
  exact : ∀ key ∈ keys fields, ∀ word ∈ seenKeys, foldKey key = foldKey word → key = word

section spelled

variable {fields : List (String × Json)} {f : Fragment}

theorem Spelled.types (spelled : Spelled fields) (read : decode? (.obj fields) = some f) :
    f.keywords.types = ((fields.lookup "type").map fun v => (readTypes [] v).getD []).getD [] := by
  rw [decode?] at read
  have folded : foldKey "type" = "type" := by decide
  refine decodeFields_view (fun f => f.keywords.types) (fun v => (readTypes [] v).getD [])
    (fun s t field other read => ?_) (fun s t v begun read => readField_types begun read) spelled.once
    (fun key inside => spelled.exact key inside "type" (by decide)) rfl read
  rw [folded] at other
  exact (readField_apart read).1 other

theorem Spelled.enum (spelled : Spelled fields) (read : decode? (.obj fields) = some f) :
    f.keywords.enum = ((fields.lookup "enum").map fun v => v.arr?.getD []).getD [] := by
  rw [decode?] at read
  have folded : foldKey "enum" = "enum" := by decide
  refine decodeFields_view (fun f => f.keywords.enum) (fun v => v.arr?.getD [])
    (fun s t field other read => ?_) (fun s t v _ read => readField_enum read) spelled.once
    (fun key inside => spelled.exact key inside "enum" (by decide)) rfl read
  rw [folded] at other
  exact (readField_apart read).2 other

theorem Spelled.held (spelled : Spelled fields) (read : decode? (.obj fields) = some f) {b : Branch}
    (seen : b ∈ seenBranches) : b.held f = ((fields.lookup b.key).map b.filled).getD false := by
  rw [decode?] at read
  refine decodeFields_view b.held b.filled (fun s t field other read => ?_)
    (fun s t v begun read => readField_own seen begun read) spelled.once
    (fun key inside => spelled.exact key inside b.key ?_) ?_ read
  · exact readField_other (fun kind => other (foldKey_of_ofKey kind)) read
  · exact List.mem_append_right _ (List.mem_map_of_mem seen)
  · cases b <;> rfl

theorem decode_unknown (read : decode? (.obj fields) = some f) {key : String} (unknown : key ∉ knownKeys) :
    (if isExtension key then f.keywords.extensions else f.keywords.extras).lookup key = fields.lookup key := by
  rw [decode?] at read
  obtain ⟨extensions, extras⟩ := Model.decodeFields_kept read
  have fresh : (!knownKeys.contains key) = true := by simpa using unknown
  split
  · rename_i extension
    rw [extensions]
    exact (lookup_filter isExtension extension _).trans
      (lookup_filter (fun key => !knownKeys.contains key) fresh fields)
  · rename_i plain
    rw [extras]
    exact (lookup_filter (fun key => !isExtension key) (by simpa using plain) _).trans
      (lookup_filter (fun key => !knownKeys.contains key) fresh fields)

end spelled

end Typesmith.Fragment

namespace Typesmith.Model

open Fragment

/-- A value and a fragment that have the same features, but for what the fragment does not keep: the form of
a type that is no text, and parts that hold nothing. -/
structure Mirrors (j : Json) (f : Fragment) : Prop where
  generic : (features j).generic = (Features.ofFragment f).generic
  combined : (features j).combined = (Features.ofFragment f).combined
  valued : (features j).valued = (Features.ofFragment f).valued
  classed : (features j).classed = (Features.ofFragment f).classed
  absent : (features j).type = .absent → f.keywords.types = []
  text : ∀ name, (features j).type = .text name → f.keywords.types = [name]
  record : (Features.ofFragment f).record = true → (features j).record = true
  list : (Features.ofFragment f).list = true → (features j).list = true
  kept : WellKept f.keywords

theorem mirrors_bool (b : Bool) : Mirrors (.bool b) {} := by
  refine ⟨rfl, rfl, rfl, rfl, fun _ => rfl, fun name type => ?_, fun held => ?_, fun held => ?_, ?_⟩
  · cases type
  · cases held
  · cases held
  · constructor <;> simp

section

variable {fields : List (String × Json)} {f : Fragment}

theorem hasItems_eq_held (spelled : Spelled fields) (read : decode? (.obj fields) = some f) {b : Branch}
    (list : b ∈ [Branch.oneOf, .anyOf, .allOf]) : Rule.hasItems b.key (.obj fields) = b.held f := by
  have filled (v : Json) : b.filled v = !(v.arr?.getD []).isEmpty := by
    simp only [List.mem_cons, List.not_mem_nil, or_false] at list
    rcases list with rfl | rfl | rfl <;> rfl
  have seen : b ∈ seenBranches := by
    revert list
    cases b <;> decide
  rw [spelled.held read seen, Rule.hasItems, Json.items, Json.get?]
  cases fields.lookup b.key <;> simp [filled]

theorem isSome_of_held (spelled : Spelled fields) (read : decode? (.obj fields) = some f)
    {b : Branch} (seen : b ∈ seenBranches) (has : b.held f = true) :
    ((Json.obj fields).get? b.key).isSome = true := by
  rw [spelled.held read seen] at has
  cases found : fields.lookup b.key with
  | none => simp [found] at has
  | some v => simp [Json.get?, found]

theorem types_of_absent (spelled : Spelled fields) (read : decode? (.obj fields) = some f)
    (absent : (features (.obj fields)).type = .absent) : f.keywords.types = [] := by
  rw [spelled.types read]
  cases found : fields.lookup "type" with
  | none => rfl
  | some v =>
    simp only [features, Json.get?, found] at absent
    cases v <;> cases absent

theorem types_of_text (spelled : Spelled fields) (read : decode? (.obj fields) = some f) {name : String}
    (text : (features (.obj fields)).type = .text name) : f.keywords.types = [name] := by
  rw [spelled.types read]
  cases found : fields.lookup "type" with
  | none =>
    simp only [features, Json.get?, found] at text
    cases text
  | some v =>
    simp only [features, Json.get?, found] at text
    cases v <;> cases text
    rfl

end

/-- A fragment mirrors the value that it was read from. -/
theorem mirrors_decode {fields : List (String × Json)} {f : Fragment} (spelled : Spelled fields)
    (read : decode? (.obj fields) = some f) : Mirrors (.obj fields) f := by
  have kept := decode_wellKept spelled.once read
  constructor
  case generic =>
    have generic := decode_unknown read (by decide : genericKeyword ∉ knownKeys)
    rw [if_pos (by decide)] at generic
    simp only [features, Features.ofFragment, generic, Json.get?]
  case combined =>
    simp only [features, Features.ofFragment, isSome_combinator]
    rw [show Rule.hasItems "oneOf" _ = _ from hasItems_eq_held spelled read (b := .oneOf) (by decide),
      show Rule.hasItems "anyOf" _ = _ from hasItems_eq_held spelled read (b := .anyOf) (by decide),
      show Rule.hasItems "allOf" _ = _ from hasItems_eq_held spelled read (b := .allOf) (by decide)]
    rfl
  case valued =>
    simp only [features, Features.ofFragment, spelled.enum read, Rule.hasItems, Json.items, Json.get?]
    cases fields.lookup "enum" <;> rfl
  case classed =>
    have plain := decode_unknown read (by decide : "instanceof" ∉ knownKeys)
    have marked := decode_unknown read (by decide : "x-instanceof" ∉ knownKeys)
    rw [if_neg (by decide)] at plain
    rw [if_pos (by decide)] at marked
    rw [kept.classed, plain, marked]
    rfl
  case absent => exact types_of_absent spelled read
  case text => exact fun _ => types_of_text spelled read
  case record =>
    intro held
    simp only [features, Bool.or_eq_true]
    rcases (Bool.or_eq_true _ _).mp held with properties | extra
    · exact .inl (isSome_of_held spelled read (b := .properties) (by decide) properties)
    · exact .inr (isSome_of_held spelled read (b := .additionalProperties) (by decide) extra)
  case list => exact isSome_of_held spelled read (b := .items) (by decide)
  case kept => exact kept

end Typesmith.Model
