import Mathlib.Data.List.Induction
import Typesmith.Proofs.Declaring
import Typesmith.Proofs.Merging

namespace Typesmith.Json

section laws

variable {a b c v : Json} {dst src : List (String × Json)}

theorem mergeFields_nil_left (ascending : Ascending src) : mergeFields [] src = src := by
  refine Ascending.ext (ascending_mergeFields src .nil) ascending fun key => ?_
  rw [lookup_mergeFields key ascending.nodup, List.lookup_nil, mergedValue_none_left]

theorem merge_empty_left (ordered : Ordered (.obj src)) : merge (.obj []) (.obj src) = .obj src := by
  rw [merge_obj, mergeValue_obj, mergeFields_nil_left ordered.ascending]

theorem merge_empty_right (dst : List (String × Json)) : merge (.obj dst) (.obj []) = .obj dst := by
  rw [merge_obj, mergeValue_obj, mergeFields]

theorem mergeValue_self (ordered : Ordered v) : mergeValue v v = v := by
  induction ordered with
  | arr _ _ => rw [mergeValue_arr, union_self]
  | @obj fields ascending each ih =>
    rw [mergeValue_obj]
    refine congrArg Json.obj (Ascending.ext (ascending_mergeFields _ ascending) ascending fun key => ?_)
    rw [lookup_mergeFields key ascending.nodup]
    cases found : fields.lookup key with
    | none => rfl
    | some w => exact congrArg some (ih (key, w) (mem_of_lookup found))
  | _ => exact mergeValue_apart fun _ => rfl

/-- Wherever both values have something, the two are of one form. -/
def Compatible (a b : Json) : Prop :=
  ∀ path v w, a.within? path = some v → b.within? path = some w → v.form = w.form

theorem Compatible.symm (compatible : Compatible a b) : Compatible b a :=
  fun path v w first second => (compatible path w v second first).symm

theorem Compatible.form (compatible : Compatible a b) : a.form = b.form :=
  compatible [] a b rfl rfl

theorem Compatible.lookup (compatible : Compatible (.obj dst) (.obj src)) {key : String} {v w : Json}
    (first : dst.lookup key = some v) (second : src.lookup key = some w) : Compatible v w := by
  intro path v' w' inside inside'
  refine compatible (key :: path) v' w' ?_ ?_
  · rw [within?_obj, first, Option.bind_some, inside]
  · rw [within?_obj, second, Option.bind_some, inside']

theorem compatible_obj
    (each : ∀ key v w, dst.lookup key = some v → src.lookup key = some w → Compatible v w) :
    Compatible (.obj dst) (.obj src) := by
  intro path v w first second
  cases path with
  | nil =>
    cases first
    cases second
    rfl
  | cons key path =>
    obtain ⟨_, v', same, before, inside⟩ := exists_of_within?_cons first
    obtain ⟨_, w', same', after, inside'⟩ := exists_of_within?_cons second
    cases same
    cases same'
    exact each key v' w' before after path v w inside inside'

theorem compatible_flat (form : a.form = b.form) (flat : a.form ≠ .object) : Compatible a b := by
  intro path v w first second
  cases path with
  | nil =>
    cases first
    cases second
    exact form
  | cons key path =>
    obtain ⟨_, _, rfl, _⟩ := exists_of_within?_cons first
    exact absurd rfl flat

/-- What a merged value has anywhere is of the form of what one of the two has there. -/
theorem form_within_mergeValue (ordered : Ordered b) {path : List String}
    (found : (mergeValue a b).within? path = some v) :
    ∃ w, (a.within? path = some w ∨ b.within? path = some w) ∧ w.form = v.form := by
  induction path generalizing a b with
  | nil =>
    cases found
    refine ⟨b, .inr rfl, ?_⟩
    cases b <;> cases a <;> rfl
  | cons key path ih =>
    by_cases objects : a.form = .object ∧ b.form = .object
    · obtain ⟨dst, rfl⟩ := exists_obj_of_form objects.1
      obtain ⟨src, rfl⟩ := exists_obj_of_form objects.2
      rw [mergeValue_obj, within?_obj, lookup_mergeFields key ordered.ascending.nodup] at found
      rw [within?_obj, within?_obj]
      cases before : dst.lookup key with
      | none =>
        rw [before, mergedValue_none_left] at found
        exact ⟨v, .inr found, rfl⟩
      | some old =>
        cases after : src.lookup key with
        | none =>
          rw [before, after, mergedValue_none_right] at found
          exact ⟨v, .inl found, rfl⟩
        | some new =>
          rw [before, after] at found
          exact ih (ordered.lookup after) found
    · -- a list has nothing inside along names, so lists that are joined do not come up here
      by_cases lists : a.form = .list ∧ b.form = .list
      · obtain ⟨l, rfl⟩ := exists_arr_of_form lists.1
        obtain ⟨m, rfl⟩ := exists_arr_of_form lists.2
        rw [mergeValue_arr] at found
        obtain ⟨_, _, array, _⟩ := exists_of_within?_cons found
        cases array
      · rw [mergeValue_apart] at found
        · exact ⟨v, .inr found, rfl⟩
        · intro same
          cases form : b.form with
          | object => exact absurd ⟨same.trans form, form⟩ objects
          | list => exact absurd ⟨same.trans form, form⟩ lists
          | other => rfl

theorem Compatible.mergeValue (left : Compatible a c) (right : Compatible b c) (ordered : Ordered b) :
    Compatible (Json.mergeValue a b) c := by
  intro path v w inside outside
  obtain ⟨u, here, form⟩ := form_within_mergeValue ordered inside
  rw [← form]
  exact here.elim (left path u w · outside) (right path u w · outside)

/-- Three values that are compatible can be merged from either end. -/
theorem mergeValue_assoc (first : Ordered a) (second : Ordered b) (third : Ordered c)
    (ab : Compatible a b) (bc : Compatible b c) (ac : Compatible a c) :
    mergeValue (mergeValue a b) c = mergeValue a (mergeValue b c) := by
  induction third generalizing a b with
  | @arr items _ _ =>
    obtain ⟨l, rfl⟩ := exists_arr_of_form ac.form
    obtain ⟨m, rfl⟩ := exists_arr_of_form bc.form
    simp only [mergeValue_arr, union_assoc]
  | @obj fields ascending _ ih =>
    obtain ⟨dst, rfl⟩ := exists_obj_of_form ac.form
    obtain ⟨src, rfl⟩ := exists_obj_of_form bc.form
    have middle := ascending_mergeFields fields second.ascending
    simp only [mergeValue_obj]
    refine congrArg Json.obj (Ascending.ext ?_ (ascending_mergeFields _ first.ascending) fun key => ?_)
    · exact ascending_mergeFields _ (ascending_mergeFields _ first.ascending)
    rw [lookup_mergeFields key ascending.nodup, lookup_mergeFields key second.ascending.nodup,
      lookup_mergeFields key middle.nodup, lookup_mergeFields key ascending.nodup]
    cases x : dst.lookup key with
    | none => rw [mergedValue_none_left, mergedValue_none_left]
    | some u =>
      cases y : src.lookup key with
      | none => rw [mergedValue_none_right, mergedValue_none_left]
      | some v =>
        cases z : fields.lookup key with
        | none => rw [mergedValue_none_right, mergedValue_none_right]
        | some w =>
          exact congrArg some (ih (key, w) (mem_of_lookup z) (first.lookup x) (second.lookup y)
            (ab.lookup x y) (bc.lookup y z) (ac.lookup x z))
  | _ => rfl

end laws

def Record (j : Json) : Prop :=
  j.form = .object ∧ Ordered j

section groups

variable {a b c : Json} {l m : List Json}

theorem record_canonical (fields : List (String × Json)) : Record (canonical (.obj fields)) := by
  refine ⟨?_, ordered_canonical _⟩
  rw [canonical, mkObj]
  rfl

theorem merge_eq_mergeValue (first : Record a) (second : Record b) : merge a b = mergeValue a b := by
  obtain ⟨_, rfl⟩ := exists_obj_of_form first.1
  obtain ⟨_, rfl⟩ := exists_obj_of_form second.1
  exact merge_obj _ _

theorem Record.merge_self (record : Record a) : Json.merge a a = a := by
  rw [merge_eq_mergeValue record record, mergeValue_self record.2]

theorem Record.merge_empty (record : Record a) :
    Json.merge (.obj []) a = a ∧ Json.merge a (.obj []) = a := by
  obtain ⟨fields, rfl⟩ := exists_obj_of_form record.1
  exact ⟨merge_empty_left record.2, merge_empty_right fields⟩

theorem Record.merge (first : Record a) (second : Record b) : Record (Json.merge a b) := by
  rw [merge_eq_mergeValue first second]
  refine ⟨?_, first.2.mergeValue second.2⟩
  obtain ⟨_, rfl⟩ := exists_obj_of_form first.1
  obtain ⟨_, rfl⟩ := exists_obj_of_form second.1
  rw [mergeValue_obj]
  rfl

theorem merge_assoc (first : Record a) (second : Record b) (third : Record c) (ab : Compatible a b)
    (bc : Compatible b c) (ac : Compatible a c) : merge (merge a b) c = merge a (merge b c) := by
  rw [merge_eq_mergeValue (first.merge second) third, merge_eq_mergeValue first second,
    mergeValue_assoc first.2 second.2 third.2 ab bc ac, merge_eq_mergeValue first (second.merge third),
    merge_eq_mergeValue second third]

theorem record_empty : Record (.obj []) :=
  ⟨rfl, .obj .nil fun _ inside => nomatch inside⟩

theorem Record.foldl (start : Record a) (records : ∀ j ∈ l, Record j) :
    Record (l.foldl Json.merge a) := by
  induction l generalizing a with
  | nil => exact start
  | cons j rest ih =>
    exact ih (start.merge (records j List.mem_cons_self)) fun k inside =>
      records k (List.mem_cons_of_mem _ inside)

theorem compatible_foldl (start : Record a) (records : ∀ j ∈ l, Record j) (own : Compatible a c)
    (each : ∀ j ∈ l, Compatible j c) : Compatible (l.foldl merge a) c := by
  induction l generalizing a with
  | nil => exact own
  | cons j rest ih =>
    have first := records j List.mem_cons_self
    refine ih (start.merge first) (fun k inside => records k (List.mem_cons_of_mem _ inside)) ?_
      fun k inside => each k (List.mem_cons_of_mem _ inside)
    rw [merge_eq_mergeValue start first]
    exact own.mergeValue (each j List.mem_cons_self) first.2

theorem compatible_empty (record : Record a) : Compatible (.obj []) a := by
  intro path v w nothing found
  cases path with
  | nil =>
    cases nothing
    cases found
    exact record.1.symm
  | cons key path => cases nothing

theorem foldl_merge_eq (start : Record a) (records : ∀ j ∈ l, Record j)
    (own : ∀ j ∈ l, Compatible a j) (each : l.Pairwise Compatible) :
    l.foldl merge a = merge a (l.foldl merge (.obj [])) := by
  induction l using List.reverseRecOn with
  | nil =>
    obtain ⟨dst, rfl⟩ := exists_obj_of_form start.1
    exact (merge_empty_right dst).symm
  | append_singleton l j ih =>
    obtain ⟨pairs, _, last⟩ := List.pairwise_append.mp each
    have before : ∀ k ∈ l, Record k := fun k inside => records k (List.mem_append_left _ inside)
    have record : Record j := records j (List.mem_append_right _ (List.mem_singleton_self j))
    have apart : Compatible a j := own j (List.mem_append_right _ (List.mem_singleton_self j))
    have inner := record_empty.foldl before
    have outer : Compatible (l.foldl merge (.obj [])) j :=
      compatible_foldl record_empty before (compatible_empty record) fun k inside =>
        last k inside j (List.mem_singleton_self j)
    have around : Compatible a (l.foldl merge (.obj [])) :=
      (compatible_foldl record_empty before (compatible_empty start) fun k inside =>
        (own k (List.mem_append_left _ inside)).symm).symm
    rw [List.foldl_concat, List.foldl_concat, ih before (fun k inside => own k (List.mem_append_left _ inside)) pairs,
      merge_assoc start inner record around outer apart]

theorem foldl_merge_group {before nested after : List Json}
    (records : ∀ j ∈ before ++ nested ++ after, Record j)
    (compatible : (before ++ nested ++ after).Pairwise Compatible) :
    (before ++ nested ++ after).foldl merge (.obj []) =
      (before ++ nested.foldl merge (.obj []) :: after).foldl merge (.obj []) := by
  obtain ⟨pairs, _, _⟩ := List.pairwise_append.mp compatible
  obtain ⟨_, inner, across⟩ := List.pairwise_append.mp pairs
  have first : ∀ j ∈ before, Record j := fun j inside => records j (by simp [inside])
  have second : ∀ j ∈ nested, Record j := fun j inside => records j (by simp [inside])
  rw [List.foldl_append, List.foldl_append, List.foldl_append, List.foldl_cons]
  refine congrArg (fun start => after.foldl merge start) (foldl_merge_eq (record_empty.foldl first) second ?_ inner)
  intro j inside
  exact compatible_foldl record_empty first (compatible_empty (second j inside)) fun k earlier =>
    across k earlier j inside

end groups

end Typesmith.Json

namespace Typesmith.Fragment

open Json (Record Compatible)

section

variable {f : Fragment} {j : Json} {fragments before nested after : List Fragment} {x y z : List Json}

theorem record_of_toJson (written : toJson? f = some j) : Record j := by
  obtain ⟨raw, spelled, rfl⟩ := Option.map_eq_some_iff.mp written
  cases write_cases spelled
  exact Json.record_canonical _

theorem records_of_mapM (written : fragments.mapM toJson? = some x) : ∀ j ∈ x, Record j := by
  induction fragments generalizing x with
  | nil =>
    cases written
    exact fun _ inside => nomatch inside
  | cons f rest ih =>
    simp only [List.mapM_cons, Option.bind_eq_bind, Option.bind_eq_some_iff, Option.pure_def,
      Option.some.injEq] at written
    obtain ⟨j, first, js, later, rfl⟩ := written
    intro k inside
    rcases List.mem_cons.mp inside with rfl | inside
    · exact record_of_toJson first
    · exact ih later k inside

theorem records_of_append (first : before.mapM toJson? = some x) (second : nested.mapM toJson? = some y)
    (third : after.mapM toJson? = some z) : ∀ j ∈ x ++ y ++ z, Record j := by
  simp only [List.mem_append]
  rintro j ((inside | inside) | inside)
  · exact records_of_mapM first j inside
  · exact records_of_mapM second j inside
  · exact records_of_mapM third j inside

theorem merge_group (first : before.mapM toJson? = some x) (second : nested.mapM toJson? = some y)
    (third : after.mapM toJson? = some z) (compatible : (x ++ y ++ z).Pairwise Compatible)
    (own : f.toJson? = some (y.foldl Json.merge (.obj []))) :
    merge? (before ++ nested ++ after) = merge? (before ++ f :: after) := by
  have flat : (before ++ nested ++ after).mapM toJson? = some (x ++ y ++ z) := by
    simp [List.mapM_append, first, second, third]
  have grouped : (before ++ f :: after).mapM toJson? = some (x ++ y.foldl Json.merge (.obj []) :: z) := by
    simp [List.mapM_append, first, own, third]
  simp only [merge?, flat, grouped, Option.bind_eq_bind, Option.bind_some,
    Json.foldl_merge_group (records_of_append first second third) compatible]

end

/-- Merging an object with itself or with nothing gives the object. Objects that have values of one form
wherever several of them have something can be merged in any grouping, and so fragments that are merged
may be flattened. -/
theorem merge_regroups :
    (∀ m, Record m → Json.merge m m = m ∧ Json.merge (.obj []) m = m ∧ Json.merge m (.obj []) = m) ∧
      (∀ a b c, Record a → Record b → Record c → Compatible a b → Compatible b c → Compatible a c →
        Json.merge (Json.merge a b) c = Json.merge a (Json.merge b c)) ∧
      ∀ before nested after : List Fragment, ∀ f : Fragment, ∀ x y z : List Json,
        before.mapM toJson? = some x → nested.mapM toJson? = some y → after.mapM toJson? = some z →
        (x ++ y ++ z).Pairwise Compatible →
          (x ++ y ++ z).foldl Json.merge (.obj []) =
              (x ++ y.foldl Json.merge (.obj []) :: z).foldl Json.merge (.obj []) ∧
            (f.toJson? = some (y.foldl Json.merge (.obj [])) →
              merge? (before ++ nested ++ after) = merge? (before ++ f :: after)) := by
  refine ⟨fun m record => ⟨record.merge_self, record.merge_empty⟩, ?_, ?_⟩
  · intro a b c first second third ab bc ac
    exact Json.merge_assoc first second third ab bc ac
  · intro before nested after f x y z first second third compatible
    refine ⟨Json.foldl_merge_group (records_of_append first second third) compatible, fun own => ?_⟩
    exact merge_group first second third compatible own

def baseLayer : Fragment :=
  { keywords := { types := ["object"], required := ["a"] } }

def upperLayers : List Fragment :=
  [{ keywords := { required := ["b", "a"] } },
    { keywords := { types := ["object"], required := ["c", "b"] } }]

def joinedLayers : Fragment :=
  { keywords := { types := ["object"], required := ["b", "a", "c"] } }

def layerFields : List (List (String × Json)) :=
  [[("required", .arr [.str "a"]), ("type", .str "object")],
    [("required", .arr [.str "b", .str "a"])],
    [("required", .arr [.str "c", .str "b"]), ("type", .str "object")]]

theorem layers_written :
    [baseLayer].mapM toJson? = some ((layerFields.take 1).map .obj) ∧
      upperLayers.mapM toJson? = some ((layerFields.drop 1).map .obj) ∧
      joinedLayers.toJson? = some (((layerFields.drop 1).map .obj).foldl Json.merge (.obj [])) := by
  simp only [baseLayer, upperLayers, joinedLayers, List.mapM_cons, List.mapM_nil, toJson_keywords]
  exact ⟨rfl, rfl, rfl⟩

theorem layers_compatible : (layerFields.map .obj).Pairwise Compatible := by
  have flat : ∀ a ∈ layerFields, ∀ b ∈ layerFields, ∀ v ∈ a, ∀ w ∈ b, v.1 = w.1 →
      v.2.form = w.2.form ∧ v.2.form ≠ .object := by
    decide
  refine List.pairwise_map.mpr (List.pairwise_of_forall_mem_list fun a first b second => ?_)
  refine Json.compatible_obj fun key v w before after => ?_
  obtain ⟨form, leaf⟩ := flat a first b second (key, v) (Json.mem_of_lookup before) (key, w)
    (Json.mem_of_lookup after) rfl
  exact Json.compatible_flat form leaf

theorem merge_regroups_layers :
    merge? (baseLayer :: upperLayers) = merge? [baseLayer, joinedLayers] ∧
      (∀ j ∈ layerFields.map Json.obj, Json.merge j j = j) ∧
      ∃ a b c, layerFields.map Json.obj = [a, b, c] ∧
        Json.merge (Json.merge a b) c = Json.merge a (Json.merge b c) := by
  obtain ⟨self, assoc, groups⟩ := merge_regroups
  obtain ⟨base, upper, joined⟩ := layers_written
  have nothing : ([] : List Fragment).mapM toJson? = some [] := rfl
  obtain ⟨_, flat⟩ := groups [baseLayer] upperLayers [] joinedLayers _ _ [] base upper nothing layers_compatible
  have records := records_of_append base upper nothing
  obtain ⟨⟨ab, ac⟩, bc⟩ : (Compatible _ _ ∧ Compatible _ _) ∧ Compatible _ _ := by
    simpa [layerFields] using layers_compatible
  refine ⟨flat joined, fun j inside => (self j (records j inside)).1, _, _, _, rfl, ?_⟩
  exact assoc _ _ _ (records _ (by simp [layerFields])) (records _ (by simp [layerFields]))
    (records _ (by simp [layerFields])) ab bc ac

end Typesmith.Fragment
