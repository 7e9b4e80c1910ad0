import Typesmith.Fragment.Decode
import Typesmith.Proofs.Fields

namespace Typesmith.Fragment

open Json (keys Ascending)

def readField (s : Fragment) (field : String × Json) : Option Fragment :=
  match Branch.ofKey field.1 with
  | none => (setKeyword s.keywords field.1 field.2).map fun k => { s with keywords := k }
  | some b =>
    match field.2 with
    | .obj fields =>
      if b.takesMap then (decodeNamed fields).map (s.setNamed b)
      else if b = .dependencies then
        (decodeDependencies fields).map fun ds =>
          { s with dependencies := ds.foldl (fun acc kd => Json.setField kd.1 kd.2 acc) s.dependencies }
      else if b.takesOne then (decodeFields fields (start fields)).map (s.setOne b)
      else none
    | .arr items =>
      if b.takesList then (decodeItems items).map (s.setMany b) else s.setOther b (.arr items)
    | v => if v.isNull then some (s.clear b) else s.setOther b v

theorem decodeFields_cons (field : String × Json) (rest : List (String × Json)) (s : Fragment) :
    decodeFields (field :: rest) s = (readField s field).bind (decodeFields rest) := by
  obtain ⟨key, v⟩ := field
  cases kind : Branch.ofKey key with
  | none => cases v <;> simp only [decodeFields, readField, kind, Option.bind_map] <;> rfl
  | some b =>
    cases v with
    | obj fields =>
      simp only [decodeFields, readField, kind]
      split
      · rw [Option.bind_map]
        rfl
      · split
        · rw [Option.bind_map]
          rfl
        · split
          · rw [Option.bind_map]
            rfl
          · rfl
    | arr items =>
      simp only [decodeFields, readField, kind]
      split
      · rw [Option.bind_map]
        rfl
      · rfl
    | _ =>
      simp only [decodeFields, readField, kind]
      split <;> rfl

/-- What reading a field makes of a fragment, by what its keyword takes and what its value is. -/
inductive ReadsField (s : Fragment) (key : String) : Json → Fragment → Prop
  | keyword {v : Json} {k : Keywords} (plain : Branch.ofKey key = none)
      (set : setKeyword s.keywords key v = some k) : ReadsField s key v { s with keywords := k }
  | named {b : Branch} {fields : List (String × Json)} {fs : List (String × Fragment)}
      (kind : Branch.ofKey key = some b) (read : decodeNamed fields = some fs) (takes : b.takesMap = true) :
      ReadsField s key (.obj fields) (s.setNamed b fs)
  | dependencies {fields : List (String × Json)} {ds : List (String × DependencyOf Fragment)}
      (kind : Branch.ofKey key = some .dependencies) (read : decodeDependencies fields = some ds) :
      ReadsField s key (.obj fields)
        { s with dependencies := ds.foldl (fun acc kd => Json.setField kd.1 kd.2 acc) s.dependencies }
  | one {b : Branch} {fields : List (String × Json)} {f : Fragment} (kind : Branch.ofKey key = some b)
      (read : decode? (.obj fields) = some f) (takes : b.takesOne = true) :
      ReadsField s key (.obj fields) (s.setOne b f)
  | many {b : Branch} {items : List Json} {fs : List Fragment} (kind : Branch.ofKey key = some b)
      (read : decodeItems items = some fs) (takes : b.takesList = true) :
      ReadsField s key (.arr items) (s.setMany b fs)
  | null {b : Branch} {v : Json} (kind : Branch.ofKey key = some b) (null : v.isNull = true) :
      ReadsField s key v (s.clear b)
  | other {b : Branch} {v : Json} {t : Fragment} (kind : Branch.ofKey key = some b)
      (set : s.setOther b v = some t) : ReadsField s key v t

theorem readsField {s t : Fragment} {key : String} {v : Json}
    (read : readField s (key, v) = some t) : ReadsField s key v t := by
  unfold readField at read
  cases kind : Branch.ofKey key with
  | none =>
    simp only [kind] at read
    obtain ⟨k, set, rfl⟩ := Option.map_eq_some_iff.mp read
    exact .keyword kind set
  | some b =>
    simp only [kind] at read
    split at read
    · split at read
      · rename_i takes
        obtain ⟨fs, named, rfl⟩ := Option.map_eq_some_iff.mp read
        exact .named kind named takes
      · split at read
        · rename_i own
          subst own
          obtain ⟨ds, listed, rfl⟩ := Option.map_eq_some_iff.mp read
          exact .dependencies kind listed
        · split at read
          · rename_i takes
            obtain ⟨f, one, rfl⟩ := Option.map_eq_some_iff.mp read
            exact .one kind (by rw [decode?]; exact one) takes
          · cases read
    · split at read
      · rename_i takes
        obtain ⟨fs, listed, rfl⟩ := Option.map_eq_some_iff.mp read
        exact .many kind listed takes
      · exact .other kind read
    · split at read
      · rename_i null
        cases read
        exact .null kind null
      · exact .other kind read

theorem setKeyword_frame {k l : Keywords} {key : String} {v : Json} (set : setKeyword k key v = some l) :
    l.ref = k.ref ∧ l.extensions = k.extensions ∧ l.extras = k.extras ∧
      (foldKey key ≠ "required" → l.required = k.required) := by
  unfold setKeyword at set
  split at set
  all_goals
    first
    | (obtain ⟨_, _, rfl⟩ := Option.map_eq_some_iff.mp set
       exact ⟨rfl, rfl, rfl, fun other => by first | rfl | exact absurd ‹_› other⟩)
    | (cases set
       exact ⟨rfl, rfl, rfl, fun _ => rfl⟩)
    | skip
  · split at set
    · cases set
      exact ⟨rfl, rfl, rfl, fun _ => rfl⟩
    · cases set
      exact ⟨rfl, rfl, rfl, fun _ => rfl⟩
    · cases set

theorem properties_clear (s : Fragment) {b : Branch} (other : b ≠ .properties) :
    (s.clear b).properties = s.properties := by
  cases b <;> first | rfl | exact absurd rfl other

theorem properties_setNamed (s : Fragment) {b : Branch} (other : b ≠ .properties)
    (fs : List (String × Fragment)) : (s.setNamed b fs).properties = s.properties := by
  cases b <;> first | rfl | exact absurd rfl other

theorem setOther_frame {s t : Fragment} {b : Branch} {v : Json} (set : s.setOther b v = some t) :
    t.properties = s.properties ∧ t.keywords = s.keywords := by
  cases b <;> simp only [setOther, Option.some.injEq, reduceCtorEq] at set <;> subst set <;>
    exact ⟨rfl, rfl⟩

theorem readField_branch {s t : Fragment} {key : String} {v : Json} {b : Branch}
    (kind : Branch.ofKey key = some b) (read : readField s (key, v) = some t) :
    t.keywords = s.keywords ∧ (b ≠ .properties → t.properties = s.properties) := by
  cases readsField read with
  | keyword plain => cases plain.symm.trans kind
  | named own =>
    cases own.symm.trans kind
    exact ⟨by cases b <;> rfl, fun other => properties_setNamed s other _⟩
  | dependencies => exact ⟨rfl, fun _ => rfl⟩
  | one own =>
    cases own.symm.trans kind
    exact ⟨by cases b <;> rfl, fun _ => by cases b <;> rfl⟩
  | many own =>
    cases own.symm.trans kind
    exact ⟨by cases b <;> rfl, fun _ => by cases b <;> rfl⟩
  | null own =>
    cases own.symm.trans kind
    exact ⟨by cases b <;> rfl, properties_clear s⟩
  | other _ set => exact ⟨(setOther_frame set).2, fun _ => (setOther_frame set).1⟩

theorem readField_keyword {s t : Fragment} {key : String} {v : Json} (kind : Branch.ofKey key = none)
    (read : readField s (key, v) = some t) :
    ∃ k, setKeyword s.keywords key v = some k ∧ t = { s with keywords := k } := by
  cases readsField read with
  | keyword _ set => exact ⟨_, set, rfl⟩
  | _ own => cases own.symm.trans kind

theorem readField_frame {s t : Fragment} {field : String × Json} (read : readField s field = some t) :
    t.keywords.ref = s.keywords.ref ∧ t.keywords.extensions = s.keywords.extensions ∧
      t.keywords.extras = s.keywords.extras ∧
      (foldKey field.1 ≠ "required" → t.keywords.required = s.keywords.required) := by
  obtain ⟨key, v⟩ := field
  cases kind : Branch.ofKey key with
  | none =>
    obtain ⟨k, set, rfl⟩ := readField_keyword kind read
    exact setKeyword_frame set
  | some b =>
    rw [(readField_branch kind read).1]
    exact ⟨rfl, rfl, rfl, fun _ => rfl⟩

theorem foldKey_of_ofKey {key : String} {b : Branch} (kind : Branch.ofKey key = some b) :
    foldKey key = foldKey b.key := by
  have equal := List.find?_some kind
  simpa using (beq_iff_eq.mp equal).symm

theorem readField_properties {s t : Fragment} {field : String × Json}
    (other : foldKey field.1 ≠ "properties") (read : readField s field = some t) :
    t.properties = s.properties := by
  obtain ⟨key, v⟩ := field
  cases kind : Branch.ofKey key with
  | none =>
    obtain ⟨k, _, rfl⟩ := readField_keyword kind read
    rfl
  | some b =>
    refine (readField_branch kind read).2 ?_
    rintro rfl
    exact other ((foldKey_of_ofKey kind).trans (by decide))

theorem keys_decodeNamed {fields : List (String × Json)} {fs : List (String × Fragment)}
    (read : decodeNamed fields = some fs) : keys fs = keys fields := by
  induction fields generalizing fs with
  | nil =>
    simp only [decodeNamed, Option.some.injEq] at read
    subst read
    rfl
  | cons field rest ih =>
    obtain ⟨key, j⟩ := field
    simp only [decodeNamed, Option.bind_eq_some_iff, Option.map_eq_some_iff] at read
    obtain ⟨f, _, others, tail, rfl⟩ := read
    rw [Json.keys_cons, Json.keys_cons, ih tail]

theorem readField_declares {s t : Fragment} {fields : List (String × Json)} {name : String}
    (read : readField s ("properties", .obj fields) = some t) :
    name ∈ keys t.properties ↔ name ∈ keys fields ∨ name ∈ keys s.properties := by
  have kind : Branch.ofKey "properties" = some .properties := by decide
  unfold readField at read
  simp only [kind, Branch.takesMap, if_true] at read
  obtain ⟨fs, named, rfl⟩ := Option.map_eq_some_iff.mp read
  simp only [setNamed, Json.mem_keys_foldl_setField, keys_decodeNamed named]

theorem readField_required {s t : Fragment} {v : Json} (read : readField s ("required", v) = some t) :
    readTexts v = some t.keywords.required := by
  have kind : Branch.ofKey "required" = none := by decide
  obtain ⟨k, set, rfl⟩ := readField_keyword kind read
  have folded : foldKey "required" = "required" := by decide
  unfold setKeyword at set
  rw [folded] at set
  obtain ⟨names, texts, rfl⟩ := Option.map_eq_some_iff.mp set
  exact texts

/-- What is read from a value is empty or read from fields, and everything inside it is read from a
smaller value. -/
theorem decode_induction {P : Json → Fragment → Prop} (empty : P .null {})
    (record : ∀ fields f, (∀ j g, j.size < (Json.obj fields).size → decode? j = some g → P j g) →
      decodeFields fields (start fields) = some f → P (.obj fields) f)
    {j : Json} {f : Fragment} (read : decode? j = some f) : P j f := by
  induction size : j.size using Nat.strongRecOn generalizing j f with
  | _ n ih =>
    subst size
    cases j with
    | null =>
      rw [decode?] at read
      cases read
      exact empty
    | obj fields =>
      rw [decode?] at read
      exact record fields f (fun j g less inner => ih _ less inner rfl) read
    | _ =>
      rw [decode?] at read
      · cases read
      all_goals intros; contradiction

theorem readTexts_mem {l : List Json} {names : List String} {name : String}
    (read : readTexts (.arr l) = some names) (member : .str name ∈ l) : name ∈ names := by
  rw [readTexts] at read
  induction l generalizing names with
  | nil => cases member
  | cons j rest ih =>
    simp only [List.mapM_cons, Option.bind_eq_bind, Option.bind_eq_some_iff, Option.pure_def,
      Option.some.injEq] at read
    obtain ⟨first, head, others, tail, rfl⟩ := read
    rcases List.mem_cons.mp member with rfl | later
    · cases head
      exact List.mem_cons_self
    · exact List.mem_cons_of_mem _ (ih tail later)

theorem readTexts_texts (names : List String) : readTexts (.arr (names.map .str)) = some names := by
  rw [readTexts]
  induction names with
  | nil => rfl
  | cons name rest ih => simp [List.mapM_cons, ih, readText]

end Typesmith.Fragment
