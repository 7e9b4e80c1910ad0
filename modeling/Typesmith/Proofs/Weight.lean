import Typesmith.Model.Convert
import Typesmith.Proofs.Decoding

namespace Typesmith.Fragment

open Model (genericKeyword)

def genericWeight (k : Keywords) : Nat :=
  ((k.extensions.lookup genericKeyword).map Json.size).getD 0

mutual

/-- The number of fragments inside a fragment, itself included, and of values in its cases. -/
def weight : Fragment → Nat
  | ⟨k, items, _, oneOf, anyOf, _, properties, additionalProperties, _, _, _, _⟩ =>
    1 + genericWeight k + weightItems items + weightList oneOf + weightList anyOf
      + weightNamed properties + weightExtent additionalProperties

def weightList : List Fragment → Nat
  | [] => 0
  | f :: rest => weight f + weightList rest

def weightNamed : List (String × Fragment) → Nat
  | [] => 0
  | (_, f) :: rest => weight f + weightNamed rest

def weightItems : Option (ItemsOf Fragment) → Nat
  | some (.one f) => weight f
  | some (.many fs) => weightList fs
  | _ => 0

def weightExtent : Option (ExtentOf Fragment) → Nat
  | some (.described f) => weight f
  | _ => 0

end

theorem weight_eq (f : Fragment) :
    weight f = 1 + genericWeight f.keywords + weightItems f.items + weightList f.oneOf
      + weightList f.anyOf + weightNamed f.properties + weightExtent f.additionalProperties := by
  obtain ⟨⟩ := f
  rw [weight]

theorem weight_le_list {f : Fragment} {l : List Fragment} (inside : f ∈ l) :
    weight f ≤ weightList l := by
  induction l with
  | nil => cases inside
  | cons g rest ih =>
    rw [weightList]
    rcases List.mem_cons.mp inside with rfl | later
    · omega
    · have less := ih later
      omega

theorem weight_le_named {p : String × Fragment} {l : List (String × Fragment)} (inside : p ∈ l) :
    weight p.2 ≤ weightNamed l := by
  induction l with
  | nil => cases inside
  | cons q rest ih =>
    obtain ⟨name, g⟩ := q
    rw [weightNamed]
    rcases List.mem_cons.mp inside with rfl | later
    · exact Nat.le_add_right _ _
    · have less := ih later
      omega

theorem weightNamed_setField (name : String) (f : Fragment) (l : List (String × Fragment)) :
    weightNamed (Json.setField name f l) ≤ weight f + weightNamed l := by
  induction l with
  | nil => simp [Json.setField, weightNamed]
  | cons q rest ih =>
    obtain ⟨other, g⟩ := q
    unfold Json.setField
    split
    · simp [weightNamed]
    · split
      · simp only [weightNamed]
        omega
      · simp only [weightNamed]
        omega

theorem weightNamed_foldl (fs old : List (String × Fragment)) :
    weightNamed (fs.foldl (fun acc kf => Json.setField kf.1 kf.2 acc) old) ≤
      weightNamed old + weightNamed fs := by
  induction fs generalizing old with
  | nil => simp [weightNamed]
  | cons q rest ih =>
    have step := weightNamed_setField q.1 q.2 old
    have tail := ih (Json.setField q.1 q.2 old)
    obtain ⟨name, f⟩ := q
    simp only [List.foldl_cons, weightNamed]
    simp only at step tail
    omega

theorem setOther_weight {s t : Fragment} {b : Branch} {v : Json} (set : s.setOther b v = some t) :
    weight t ≤ weight s := by
  rw [weight_eq, weight_eq s]
  cases b with
  | items =>
    cases set
    simp only [weightItems]
    omega
  | additionalProperties =>
    cases set
    have light : ∀ extent : ExtentOf Fragment, (∀ f, extent ≠ .described f) →
        weightExtent (some extent) = 0 := by
      intro extent plain
      cases extent with
      | described f => exact absurd rfl (plain f)
      | _ => rfl
    rw [light _ (by intro f; split <;> simp)]
    dsimp only
    omega
  | additionalItems =>
    cases set
    exact Nat.le_refl _
  | _ => cases set

theorem clear_weight (s : Fragment) (b : Branch) : weight (s.clear b) ≤ weight s := by
  rw [weight_eq, weight_eq s]
  cases b <;> simp only [clear, weightItems, weightList, weightNamed, weightExtent] <;> omega

theorem setOne_weight (s : Fragment) (b : Branch) (f : Fragment) :
    weight (s.setOne b f) ≤ weight s + weight f := by
  rw [weight_eq, weight_eq s]
  cases b <;> simp only [setOne, weightItems, weightExtent] <;> omega

theorem setMany_weight (s : Fragment) (b : Branch) (fs : List Fragment) :
    weight (s.setMany b fs) ≤ weight s + weightList fs := by
  have items : weightItems (some (if fs.isEmpty then .hollow else .many fs)) ≤ weightList fs := by
    split
    · exact Nat.zero_le _
    · exact Nat.le_refl _
  rw [weight_eq, weight_eq s]
  cases b <;> simp only [setMany] <;> omega

theorem setNamed_weight (s : Fragment) (b : Branch) (fs : List (String × Fragment)) :
    weight (s.setNamed b fs) ≤ weight s + weightNamed fs := by
  have added := weightNamed_foldl fs s.properties
  rw [weight_eq, weight_eq s]
  cases b <;> simp only [setNamed] <;> omega

section reading

variable {n : Nat} (smaller : ∀ j f, Json.size j < n → decode? j = some f → weight f ≤ j.size)
include smaller

theorem decodeItems_weight {items : List Json} {fs : List Fragment} (size : Json.sizeItems items < n)
    (read : decodeItems items = some fs) : weightList fs ≤ Json.sizeItems items := by
  induction items generalizing fs with
  | nil =>
    simp only [decodeItems, Option.some.injEq] at read
    subst read
    simp [weightList]
  | cons j rest ih =>
    simp only [decodeItems, Option.bind_eq_some_iff, Option.map_eq_some_iff] at read
    obtain ⟨f, head, fs, tail, rfl⟩ := read
    simp only [Json.sizeItems] at size ⊢
    have first := smaller j f (by omega) head
    have others := ih (by omega) tail
    simp only [weightList]
    omega

theorem decodeNamed_weight {fields : List (String × Json)} {fs : List (String × Fragment)}
    (size : Json.sizeFields fields < n) (read : decodeNamed fields = some fs) :
    weightNamed fs ≤ Json.sizeFields fields := by
  induction fields generalizing fs with
  | nil =>
    simp only [decodeNamed, Option.some.injEq] at read
    subst read
    simp [weightNamed]
  | cons field rest ih =>
    obtain ⟨key, j⟩ := field
    simp only [decodeNamed, Option.bind_eq_some_iff, Option.map_eq_some_iff] at read
    obtain ⟨f, head, fs, tail, rfl⟩ := read
    simp only [Json.sizeFields] at size ⊢
    have first := smaller j f (by omega) head
    have others := ih (by omega) tail
    simp only [weightNamed]
    omega

theorem readField_weight {s t : Fragment} {key : String} {v : Json} (size : v.size < n)
    (read : readField s (key, v) = some t) : weight t ≤ weight s + v.size := by
  cases readsField read with
  | keyword _ set =>
    rw [weight_eq, weight_eq s]
    simp only [genericWeight, (setKeyword_frame set).2.1]
    omega
  | @named b fields fs _ named =>
    rw [Json.size] at size ⊢
    have bound := decodeNamed_weight smaller (by omega) named
    have step := setNamed_weight s b fs
    omega
  | dependencies =>
    rw [weight_eq, weight_eq s]
    exact Nat.le_add_right _ _
  | @one b fields f _ inside =>
    have bound := smaller (.obj fields) f size inside
    have step := setOne_weight s b f
    omega
  | @many b items fs _ listed =>
    rw [Json.size] at size ⊢
    have bound := decodeItems_weight smaller (by omega) listed
    have step := setMany_weight s b fs
    omega
  | @null b =>
    have step := clear_weight s b
    omega
  | other _ set =>
    have step := setOther_weight set
    omega

end reading

/-- The part of the fields that does not make the fragment a type chosen by a key. -/
def plainSize (fields : List (String × Json)) : Nat :=
  Json.sizeFields (fields.filter fun kv => kv.1 ≠ genericKeyword)

theorem decodeFields_weight {n : Nat}
    (smaller : ∀ j f, Json.size j < n → decode? j = some f → weight f ≤ j.size)
    {fields : List (String × Json)} {s t : Fragment} (size : Json.sizeFields fields < n)
    (read : decodeFields fields s = some t) : weight t ≤ weight s + plainSize fields := by
  induction fields generalizing s with
  | nil =>
    simp only [decodeFields, Option.some.injEq] at read
    subst read
    exact Nat.le_add_right _ _
  | cons field rest ih =>
    rw [decodeFields_cons, Option.bind_eq_some_iff] at read
    obtain ⟨m, first, others⟩ := read
    obtain ⟨key, v⟩ := field
    simp only [Json.sizeFields] at size
    have tail := ih (by omega) others
    by_cases generic : key = genericKeyword
    · have kind : Branch.ofKey key = none := by rw [generic]; decide
      obtain ⟨k, set, rfl⟩ := readField_keyword kind first
      have same : weight { s with keywords := k } = weight s := by
        rw [weight_eq, weight_eq s]
        simp only [genericWeight, (setKeyword_frame set).2.1]
      have skip : plainSize ((key, v) :: rest) = plainSize rest := by
        simp [plainSize, generic]
      omega
    · have step := readField_weight smaller (by omega) first
      have count : plainSize ((key, v) :: rest) = v.size + plainSize rest := by
        simp [plainSize, generic, Json.sizeFields]
      omega

theorem lookup_filter {α : Type} {key : String} (keep : String → Bool) (kept : keep key = true)
    (fields : List (String × α)) : (fields.filter fun kv => keep kv.1).lookup key = fields.lookup key := by
  induction fields with
  | nil => rfl
  | cons field rest ih =>
    obtain ⟨k, v⟩ := field
    by_cases same : key = k
    · subst same
      simp [kept]
    · rw [List.filter_cons, Json.lookup_cons_ne same]
      split
      · rw [Json.lookup_cons_ne same, ih]
      · exact ih

theorem size_lookup_le {fields : List (String × Json)} {key : String} {v : Json}
    (found : fields.lookup key = some v) :
    v.size + Json.sizeFields (fields.filter fun kv => kv.1 ≠ key) ≤ Json.sizeFields fields := by
  have dropped : ∀ l : List (String × Json),
      Json.sizeFields (l.filter fun kv => kv.1 ≠ key) ≤ Json.sizeFields l := by
    intro l
    induction l with
    | nil => exact Nat.le_refl _
    | cons field rest ih =>
      rw [List.filter_cons]
      split
      · simp only [Json.sizeFields]
        omega
      · simp only [Json.sizeFields]
        omega
  induction fields with
  | nil => cases found
  | cons field rest ih =>
    obtain ⟨k, w⟩ := field
    by_cases same : key = k
    · subst same
      simp only [List.lookup_cons, beq_self_eq_true, Option.some.injEq] at found
      subst found
      have less := dropped rest
      rw [List.filter_cons_of_neg (by simp)]
      simp only [Json.sizeFields]
      omega
    · rw [Json.lookup_cons_ne same] at found
      have less := ih found
      rw [List.filter_cons_of_pos (by simpa using Ne.symm same)]
      simp only [Json.sizeFields]
      omega

theorem start_weight (fields : List (String × Json)) :
    weight (start fields) + plainSize fields ≤ Json.sizeFields fields + 1 := by
  have found : (start fields).keywords.extensions.lookup genericKeyword =
      fields.lookup genericKeyword := by
    simp only [start]
    rw [lookup_filter isExtension (by decide),
      lookup_filter (fun key => !knownKeys.contains key) (by decide)]
  have weighs : weight (start fields) = 1 + genericWeight (start fields).keywords := by
    rw [weight_eq]
    simp [start, weightItems, weightList, weightNamed, weightExtent]
  rw [weighs, genericWeight, found]
  cases present : fields.lookup genericKeyword with
  | none =>
    have same : plainSize fields = Json.sizeFields fields := by
      rw [plainSize, List.filter_eq_self.mpr]
      intro kv member
      have absent := Json.lookup_eq_none_iff.mp present
      have different : kv.1 ≠ genericKeyword := by
        intro equal
        exact absent (List.mem_map.mpr ⟨kv, member, equal⟩)
      simpa using different
    simp only [Option.map_none, Option.getD_none]
    omega
  | some v =>
    have bound : v.size + plainSize fields ≤ Json.sizeFields fields := size_lookup_le present
    simp only [Option.map_some, Option.getD_some]
    omega

/-- What is read from a value weighs no more than the value. -/
theorem decode_weight {j : Json} {f : Fragment} (read : decode? j = some f) : weight f ≤ j.size := by
  refine decode_induction (P := fun j f => weight f ≤ j.size) (by decide) ?_ read
  intro fields f smaller read
  have size : (Json.obj fields).size = Json.sizeFields fields + 1 := by rw [Json.size]
  have bound := decodeFields_weight smaller (by omega) read
  have begun := start_weight fields
  omega

end Typesmith.Fragment
