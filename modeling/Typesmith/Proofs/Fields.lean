import Mathlib.Data.String.Basic
import Typesmith.Json.Merge

namespace Typesmith.Json

variable {α : Type}

def keys (fields : List (String × α)) : List String :=
  fields.map (·.1)

@[simp] theorem keys_nil : keys ([] : List (String × α)) = [] := rfl

@[simp] theorem keys_cons (field : String × α) (rest : List (String × α)) :
    keys (field :: rest) = field.1 :: keys rest := rfl

@[simp] theorem keys_append (a b : List (String × α)) : keys (a ++ b) = keys a ++ keys b :=
  List.map_append

/-- Names in ascending order, each of them once. -/
def Ascending (fields : List (String × α)) : Prop :=
  (keys fields).Pairwise (· < ·)

theorem lookup_eq_none_iff {fields : List (String × α)} {key : String} :
    fields.lookup key = none ↔ key ∉ keys fields := by
  simp only [List.lookup_eq_none_iff, keys, List.mem_map, not_exists, not_and, bne_iff_ne]
  constructor
  · intro absent field member same
    exact absent field member same.symm
  · intro absent field member same
    exact absent field member same.symm

theorem lookup_of_mem_keys {fields : List (String × α)} {key : String} (member : key ∈ keys fields) :
    ∃ value, fields.lookup key = some value := by
  cases found : fields.lookup key with
  | none => exact absurd member (lookup_eq_none_iff.mp found)
  | some value => exact ⟨value, rfl⟩

theorem mem_of_lookup {fields : List (String × α)} {key : String} {value : α}
    (found : fields.lookup key = some value) : (key, value) ∈ fields := by
  obtain ⟨before, after, split, _⟩ := List.lookup_eq_some_iff.mp found
  rw [split]
  simp

theorem lookup_cons_ne {key k : String} (different : key ≠ k) (v : α)
    (rest : List (String × α)) : ((k, v) :: rest).lookup key = rest.lookup key := by
  have test : (key == k) = false := beq_eq_false_iff_ne.mpr different
  simp only [List.lookup_cons, test]

theorem lookup_setField (key other : String) (value : α) (fields : List (String × α)) :
    (setField key value fields).lookup other =
      if other = key then some value else fields.lookup other := by
  induction fields with
  | nil =>
    by_cases same : other = key
    · simp [setField, same]
    · rw [setField, lookup_cons_ne same, if_neg same]
  | cons field rest ih =>
    obtain ⟨k, v⟩ := field
    unfold setField
    by_cases same : other = key
    · split
      · simp [same]
      · split
        · simp [same]
        · rename_i different
          rw [lookup_cons_ne (same ▸ different), ih]
          simp [same]
    · rw [if_neg same] at ih ⊢
      split
      · rw [lookup_cons_ne same]
      · split
        · rename_i equal
          subst equal
          rw [lookup_cons_ne same, lookup_cons_ne same]
        · rw [List.lookup_cons, ih, List.lookup_cons]

theorem mem_keys_setField {key other : String} {value : α} {fields : List (String × α)} :
    other ∈ keys (setField key value fields) ↔ other = key ∨ other ∈ keys fields := by
  rw [← not_iff_not, ← lookup_eq_none_iff, lookup_setField, not_or, ← lookup_eq_none_iff]
  split <;> simp [*]

theorem mem_setField {key : String} {value : α} {fields : List (String × α)} {field : String × α}
    (inside : field ∈ setField key value fields) : field = (key, value) ∨ field ∈ fields := by
  induction fields with
  | nil => exact .inl (List.mem_singleton.mp inside)
  | cons first rest ih =>
    unfold Json.setField at inside
    split at inside
    · exact (List.mem_cons.mp inside)
    · split at inside
      · exact (List.mem_cons.mp inside).imp_right (List.mem_cons_of_mem _)
      · rcases List.mem_cons.mp inside with rfl | later
        · exact .inr List.mem_cons_self
        · exact (ih later).imp_right (List.mem_cons_of_mem _)

theorem mem_foldl_setField {field : String × α} {fields start : List (String × α)}
    (inside : field ∈ fields.foldl (fun acc kv => setField kv.1 kv.2 acc) start) :
    field ∈ fields ∨ field ∈ start := by
  induction fields generalizing start with
  | nil => exact .inr inside
  | cons first rest ih =>
    rcases ih inside with later | now
    · exact .inl (List.mem_cons_of_mem _ later)
    · rcases mem_setField now with rfl | before
      · exact .inl List.mem_cons_self
      · exact .inr before

theorem ascending_setField (key : String) (value : α) {fields : List (String × α)}
    (ascending : Ascending fields) : Ascending (setField key value fields) := by
  induction fields with
  | nil => simp [Ascending, setField]
  | cons field rest ih =>
    obtain ⟨k, v⟩ := field
    obtain ⟨first, others⟩ := List.pairwise_cons.mp ascending
    unfold setField
    split
    · rename_i before
      refine List.pairwise_cons.mpr ⟨?_, ascending⟩
      intro other member
      rcases List.mem_cons.mp member with rfl | later
      · exact before
      · exact lt_trans before (first other later)
    · split
      · rename_i equal
        subst equal
        exact ascending
      · rename_i notBefore different
        refine List.pairwise_cons.mpr ⟨?_, ih others⟩
        intro other member
        rcases mem_keys_setField.mp member with rfl | later
        · exact lt_of_le_of_ne (not_lt.mp notBefore) (Ne.symm different)
        · exact first other later

theorem lookup_foldl_setField (key : String) (fields : List (String × α))
    (start : List (String × α)) :
    (fields.foldl (fun acc kv => setField kv.1 kv.2 acc) start).lookup key =
      (fields.reverse.lookup key).or (start.lookup key) := by
  induction fields generalizing start with
  | nil => rfl
  | cons field rest ih =>
    obtain ⟨k, v⟩ := field
    rw [List.foldl_cons, ih, lookup_setField, List.reverse_cons, List.lookup_append,
      Option.or_assoc]
    congr 1
    by_cases same : key = k
    · simp [same]
    · rw [lookup_cons_ne same, if_neg same]
      rfl

theorem ascending_foldl_setField (fields : List (String × α)) {start : List (String × α)}
    (ascending : Ascending start) :
    Ascending (fields.foldl (fun acc kv => setField kv.1 kv.2 acc) start) := by
  induction fields generalizing start with
  | nil => exact ascending
  | cons field rest ih => exact ih (ascending_setField field.1 field.2 ascending)

theorem lookup_sortFields (key : String) (fields : List (String × α)) :
    (sortFields fields).lookup key = fields.reverse.lookup key := by
  rw [sortFields, lookup_foldl_setField]
  simp

theorem ascending_sortFields (fields : List (String × α)) : Ascending (sortFields fields) :=
  ascending_foldl_setField fields List.Pairwise.nil

theorem mem_keys_foldl_setField {key : String} {fields start : List (String × α)} :
    key ∈ keys (fields.foldl (fun acc kv => setField kv.1 kv.2 acc) start) ↔
      key ∈ keys fields ∨ key ∈ keys start := by
  induction fields generalizing start with
  | nil => simp
  | cons field rest ih =>
    rw [List.foldl_cons, ih, mem_keys_setField, keys_cons, List.mem_cons]
    tauto

theorem mem_keys_sortFields {key : String} {fields : List (String × α)} :
    key ∈ keys (sortFields fields) ↔ key ∈ keys fields := by
  simp [sortFields, mem_keys_foldl_setField]

theorem lookup_sortFields_eq_some_iff {key : String} {value : α} {fields : List (String × α)} :
    (sortFields fields).lookup key = some value ↔
      ∃ before after, fields = before ++ (key, value) :: after ∧ key ∉ keys after := by
  rw [lookup_sortFields, List.lookup_eq_some_iff]
  have absent : ∀ l : List (String × α), (∀ field ∈ l, (key != field.1) = true) ↔ key ∉ keys l.reverse := by
    intro l
    rw [← List.lookup_eq_none_iff, lookup_eq_none_iff]
    simp [keys]
  constructor
  · rintro ⟨back, front, split, other⟩
    refine ⟨front.reverse, back.reverse, ?_, (absent back).mp other⟩
    rw [← List.reverse_reverse fields, split]
    simp
  · rintro ⟨before, after, rfl, last⟩
    refine ⟨after.reverse, before.reverse, by simp, (absent _).mpr (by rwa [List.reverse_reverse])⟩

theorem lookup_sortFields_of_last {key : String} {value : α} {before after : List (String × α)}
    (last : key ∉ keys after) :
    (sortFields (before ++ (key, value) :: after)).lookup key = some value :=
  lookup_sortFields_eq_some_iff.mpr ⟨before, after, rfl, last⟩

theorem keys_canonicalFields (fields : List (String × Json)) :
    keys (canonicalFields fields) = keys fields := by
  induction fields with
  | nil => rfl
  | cons field rest ih =>
    obtain ⟨k, j⟩ := field
    rw [canonicalFields, keys_cons, keys_cons, ih]

theorem canonicalFields_append (a b : List (String × Json)) :
    canonicalFields (a ++ b) = canonicalFields a ++ canonicalFields b := by
  induction a with
  | nil => rfl
  | cons field rest ih =>
    obtain ⟨k, j⟩ := field
    rw [List.cons_append, canonicalFields, canonicalFields, ih, List.cons_append]

theorem keys_mergeFields {key : String} (dst src : List (String × Json)) :
    key ∈ keys (mergeFields dst src) ↔ key ∈ keys dst ∨ key ∈ keys src := by
  induction src generalizing dst with
  | nil => simp [mergeFields]
  | cons field rest ih =>
    obtain ⟨k, v⟩ := field
    rw [mergeFields, ih, mem_keys_setField, keys_cons, List.mem_cons]
    tauto

theorem ascending_mergeFields {dst : List (String × Json)} (src : List (String × Json))
    (ascending : Ascending dst) : Ascending (mergeFields dst src) := by
  induction src generalizing dst with
  | nil => simpa [mergeFields] using ascending
  | cons field rest ih =>
    obtain ⟨k, v⟩ := field
    rw [mergeFields]
    exact ih (ascending_setField _ _ ascending)

/-- Two values under one name are merged; a value without a partner stays. -/
def mergedValue : Option Json → Option Json → Option Json
  | old, none => old
  | none, some value => some value
  | some old, some value => some (mergeValue old value)

@[simp] theorem mergedValue_none_right (old : Option Json) : mergedValue old none = old := by
  cases old <;> rfl

@[simp] theorem mergedValue_none_left (new : Option Json) : mergedValue none new = new := by
  cases new <;> rfl

theorem mergedValue_cases {old new : Option Json} {v : Json} (found : mergedValue old new = some v) :
    old = some v ∨ new = some v ∨ ∃ u w, old = some u ∧ new = some w ∧ mergeValue u w = v := by
  cases new with
  | none => exact .inl (by rwa [mergedValue_none_right] at found)
  | some w =>
    cases old with
    | none => exact .inr (.inl found)
    | some u => exact .inr (.inr ⟨u, w, rfl, rfl, Option.some.inj found⟩)

theorem lookup_mergeFields {dst src : List (String × Json)} (key : String)
    (distinct : (keys src).Nodup) :
    (mergeFields dst src).lookup key = mergedValue (dst.lookup key) (src.lookup key) := by
  induction src generalizing dst with
  | nil => simp [mergeFields, mergedValue]
  | cons field rest ih =>
    obtain ⟨k, v⟩ := field
    obtain ⟨once, distinct⟩ := List.nodup_cons.mp distinct
    rw [mergeFields, ih distinct, lookup_setField, List.lookup_cons]
    by_cases same : key = k
    · subst same
      have none : rest.lookup key = none := lookup_eq_none_iff.mpr once
      simp only [none, beq_self_eq_true, if_true, mergedValue]
      cases dst.lookup key <;> rfl
    · simp only [if_neg same, beq_eq_false_iff_ne.mpr same]

theorem Ascending.nodup {fields : List (String × α)} (ascending : Ascending fields) :
    (keys fields).Nodup :=
  ascending.imp fun before => ne_of_lt before

theorem mem_iff_lookup {fields : List (String × α)} (distinct : (keys fields).Nodup)
    {key : String} {value : α} : (key, value) ∈ fields ↔ fields.lookup key = some value := by
  constructor
  · intro member
    induction fields with
    | nil => cases member
    | cons field rest ih =>
      obtain ⟨once, others⟩ := List.nodup_cons.mp distinct
      rcases List.mem_cons.mp member with rfl | later
      · simp
      · have different : key ≠ field.1 := by
          rintro rfl
          exact once (List.mem_map.mpr ⟨(field.1, value), later, rfl⟩)
        obtain ⟨k, v⟩ := field
        rw [lookup_cons_ne different]
        exact ih others later
  · exact mem_of_lookup

theorem lookup_sortFields_of_mem {fields : List (String × α)} (distinct : (keys fields).Nodup)
    {key : String} {value : α} (inside : (key, value) ∈ fields) :
    (sortFields fields).lookup key = some value := by
  rw [lookup_sortFields, ← mem_iff_lookup]
  · exact List.mem_reverse.mpr inside
  · rw [keys, List.map_reverse]
    exact (List.reverse_perm _).nodup_iff.mpr distinct

theorem eq_str_of_same {j : Json} {s : String} (equal : j.same (.str s) = true) : j = .str s := by
  cases j <;> simp_all [same]

theorem str_mem_union {s : String} (a b : List Json) :
    .str s ∈ union a b ↔ .str s ∈ a ∨ .str s ∈ b := by
  induction b generalizing a with
  | nil => simp [union]
  | cons j rest ih =>
    have step : union a (j :: rest) = union (addNew a j) rest := rfl
    have added : .str s ∈ addNew a j ↔ .str s ∈ a ∨ .str s = j := by
      unfold addNew
      split
      · rename_i present
        constructor
        · exact .inl
        · rintro (member | rfl)
          · exact member
          · obtain ⟨x, member, equal⟩ := List.any_eq_true.mp present
            rw [eq_str_of_same equal] at member
            exact member
      · simp
    rw [step, ih, added, List.mem_cons, or_assoc]

end Typesmith.Json
