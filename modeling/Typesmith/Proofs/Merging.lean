import Mathlib.Data.List.Sort
import Typesmith.Proofs.Likeness

namespace Typesmith.Json

section fields

variable {α : Type} {a b : List (String × α)}

theorem Ascending.ext (left : Ascending a) (right : Ascending b)
    (same : ∀ key, a.lookup key = b.lookup key) : a = b := by
  have perm : a.Perm b := by
    refine (List.perm_ext_iff_of_nodup left.nodup.of_map right.nodup.of_map).mpr fun ⟨key, value⟩ => ?_
    rw [mem_iff_lookup left.nodup, mem_iff_lookup right.nodup, same]
  exact perm.eq_of_pairwise (fun _ _ _ _ before after => absurd before (lt_asymm after))
    (List.pairwise_map.mp left) (List.pairwise_map.mp right)

theorem lookup_of_perm (perm : a.Perm b) (distinct : (keys a).Nodup) (key : String) :
    a.lookup key = b.lookup key := by
  have distinct' : (keys b).Nodup := (perm.map Prod.fst).nodup_iff.mp distinct
  refine Option.ext fun value => ?_
  rw [← mem_iff_lookup distinct, ← mem_iff_lookup distinct', perm.mem_iff]

end fields

inductive Ordered : Json → Prop
  | null : Ordered .null
  | bool (b : Bool) : Ordered (.bool b)
  | num (n : Decimal) : Ordered (.num n)
  | str (s : String) : Ordered (.str s)
  | arr {items : List Json} (each : ∀ j ∈ items, Ordered j) : Ordered (.arr items)
  | obj {fields : List (String × Json)} (ascending : Ascending fields)
      (each : ∀ field ∈ fields, Ordered field.2) : Ordered (.obj fields)

theorem Ordered.ascending {fields : List (String × Json)} (ordered : Ordered (.obj fields)) :
    Ascending fields := by
  cases ordered with
  | obj ascending _ => exact ascending

theorem Ordered.lookup {fields : List (String × Json)} (ordered : Ordered (.obj fields)) {key : String}
    {v : Json} (found : fields.lookup key = some v) : Ordered v := by
  cases ordered with
  | obj _ each => exact each (key, v) (mem_of_lookup found)

mutual

theorem ordered_canonical : (j : Json) → Ordered j.canonical
  | .null => .null
  | .bool b => .bool b
  | .num n => .num n
  | .str s => .str s
  | .arr items => .arr (ordered_canonicalItems items)
  | .obj fields => .obj (ascending_sortFields _) fun field inside =>
    ordered_canonicalFields fields field ((mem_foldl_setField inside).resolve_right List.not_mem_nil)

theorem ordered_canonicalItems : (items : List Json) → ∀ j ∈ canonicalItems items, Ordered j
  | [], _, inside => nomatch inside
  | i :: rest, j, inside => by
    rcases List.mem_cons.mp inside with rfl | later
    · exact ordered_canonical i
    · exact ordered_canonicalItems rest j later

theorem ordered_canonicalFields : (fields : List (String × Json)) →
    ∀ field ∈ canonicalFields fields, Ordered field.2
  | [], _, inside => nomatch inside
  | (key, i) :: rest, field, inside => by
    rcases List.mem_cons.mp inside with rfl | later
    · exact ordered_canonical i
    · exact ordered_canonicalFields rest field later

end

inductive Form where
  | object | list | other
  deriving DecidableEq

def form : Json → Form
  | .obj _ => .object
  | .arr _ => .list
  | _ => .other

theorem exists_obj_of_form {j : Json} (object : j.form = .object) : ∃ fields, j = .obj fields := by
  cases j <;> first | exact ⟨_, rfl⟩ | cases object

theorem exists_arr_of_form {j : Json} (list : j.form = .list) : ∃ items, j = .arr items := by
  cases j <;> first | exact ⟨_, rfl⟩ | cases list

theorem mergeValue_obj (dst src : List (String × Json)) :
    mergeValue (.obj dst) (.obj src) = .obj (mergeFields dst src) := by
  rw [mergeValue]

theorem mergeValue_arr (a b : List Json) : mergeValue (.arr a) (.arr b) = .arr (union a b) := by
  rw [mergeValue]

theorem mergeValue_apart {old new : Json} (apart : old.form = new.form → new.form = .other) :
    mergeValue old new = new := by
  cases new <;> cases old <;> first | rfl | cases apart rfl

theorem merge_obj (dst src : List (String × Json)) :
    merge (.obj dst) (.obj src) = mergeValue (.obj dst) (.obj src) := by
  rw [mergeValue_obj]
  rfl

theorem Ordered.mergeValue {old new : Json} (first : Ordered old) (second : Ordered new) :
    Ordered (Json.mergeValue old new) := by
  induction second generalizing old with
  | @arr items each _ =>
    by_cases list : old.form = .list
    · obtain ⟨a, rfl⟩ := exists_arr_of_form list
      rw [mergeValue_arr]
      obtain ⟨added, joined, news⟩ := union_news a items
      rw [joined]
      cases first with
      | arr before =>
        refine .arr fun j inside => ?_
        exact (List.mem_append.mp inside).elim (before j) fun new => each j (news.listed.subset new)
    · rw [mergeValue_apart fun same => absurd same list]
      exact .arr each
  | @obj src ascending each ih =>
    by_cases object : old.form = .object
    · obtain ⟨dst, rfl⟩ := exists_obj_of_form object
      rw [mergeValue_obj]
      refine .obj (ascending_mergeFields src first.ascending) fun ⟨key, v⟩ inside => ?_
      have found := (mem_iff_lookup (ascending_mergeFields src first.ascending).nodup).mp inside
      rw [lookup_mergeFields key ascending.nodup] at found
      rcases mergedValue_cases found with before | after | ⟨u, w, before, after, rfl⟩
      · exact first.lookup before
      · exact each (key, v) (mem_of_lookup after)
      · exact ih (key, w) (mem_of_lookup after) (first.lookup before)
    · rw [mergeValue_apart fun same => absurd same object]
      exact .obj ascending each
  | null => exact .null
  | bool b => exact .bool b
  | num n => exact .num n
  | str s => exact .str s

section paths

def within? : Json → List String → Option Json
  | j, [] => some j
  | j, key :: path => (j.get? key).bind fun v => within? v path

theorem within?_obj (fields : List (String × Json)) (key : String) (path : List String) :
    within? (.obj fields) (key :: path) = (fields.lookup key).bind (within? · path) := rfl

theorem exists_of_within?_cons {j v : Json} {key : String} {path : List String}
    (found : j.within? (key :: path) = some v) :
    ∃ fields w, j = .obj fields ∧ fields.lookup key = some w ∧ w.within? path = some v := by
  obtain ⟨w, first, rest⟩ := Option.bind_eq_some_iff.mp found
  cases j with
  | obj fields => exact ⟨fields, w, rfl, first, rest⟩
  | _ => cases first

theorem Ordered.within {j : Json} (ordered : Ordered j) {path : List String} {v : Json}
    (found : j.within? path = some v) : Ordered v := by
  induction path generalizing j with
  | nil =>
    cases found
    exact ordered
  | cons key path ih =>
    obtain ⟨fields, w, rfl, first, rest⟩ := exists_of_within?_cons found
    exact ih (ordered.lookup first) rest

theorem within?_mergeValue {old new v w : Json} (ordered : Ordered new) {path : List String}
    (first : old.within? path = some v) (second : new.within? path = some w) :
    (mergeValue old new).within? path = some (mergeValue v w) := by
  induction path generalizing old new with
  | nil =>
    cases first
    cases second
    rfl
  | cons key path ih =>
    obtain ⟨dst, v', rfl, before, restV⟩ := exists_of_within?_cons first
    obtain ⟨src, w', rfl, after, restW⟩ := exists_of_within?_cons second
    rw [mergeValue_obj, within?_obj, lookup_mergeFields key ordered.ascending.nodup, before, after]
    exact ih (ordered.lookup after) restV restW

end paths

/-- What an object has that comes from merging two: the names of both, what only one of them has, lists
joined, and otherwise the second value, unless both are objects again. -/
structure Joined (dst src out : List (String × Json)) : Prop where
  ascending : Ascending out
  names : ∀ key, key ∈ keys out ↔ key ∈ keys dst ∨ key ∈ keys src
  first : ∀ key v, dst.lookup key = some v → src.lookup key = none → out.lookup key = some v
  second : ∀ key w, dst.lookup key = none → src.lookup key = some w → out.lookup key = some w
  lists : ∀ key a b, dst.lookup key = some (.arr a) → src.lookup key = some (.arr b) →
    ∃ added, out.lookup key = some (.arr (a ++ added)) ∧ News a b added
  replaced : ∀ key v w, dst.lookup key = some v → src.lookup key = some w →
    (v.form = w.form → w.form = .other) → out.lookup key = some w

theorem joined_mergeFields {dst src : List (String × Json)} (before : Ascending dst)
    (after : Ascending src) : Joined dst src (mergeFields dst src) where
  ascending := ascending_mergeFields src before
  names _ := keys_mergeFields dst src
  first key v found none := by rw [lookup_mergeFields key after.nodup, found, none, mergedValue]
  second key w none found := by rw [lookup_mergeFields key after.nodup, none, found, mergedValue]
  lists key a b found found' := by
    obtain ⟨added, joined, news⟩ := union_news a b
    refine ⟨added, ?_, news⟩
    rw [lookup_mergeFields key after.nodup, found, found', mergedValue, mergeValue_arr, joined]
  replaced key v w found found' apart := by
    rw [lookup_mergeFields key after.nodup, found, found', mergedValue, mergeValue_apart apart]

/-- Visiting fields one after another, in any order: a field whose name is new is taken over, any other
one is merged with what stands under its name. -/
inductive Visits (merges : Json → Json → Json → Prop) :
    List (String × Json) → List (String × Json) → List (String × Json) → Prop
  | done {out : List (String × Json)} : Visits merges out [] out
  | fresh {out pending rest last : List (String × Json)} {key : String} {v : Json}
      (chosen : pending.Perm ((key, v) :: rest)) (absent : out.lookup key = none)
      (later : Visits merges (setField key v out) rest last) : Visits merges out pending last
  | met {out pending rest last : List (String × Json)} {key : String} {old v m : Json}
      (chosen : pending.Perm ((key, v) :: rest)) (found : out.lookup key = some old)
      (merged : merges old v m) (later : Visits merges (setField key m out) rest last) :
      Visits merges out pending last

/-- Merging values, where the fields of each object are visited in any order. -/
inductive Merges : Json → Json → Json → Prop
  | objects {dst src out : List (String × Json)} (visits : Visits Merges dst src out) :
      Merges (.obj dst) (.obj src) (.obj out)
  | lists (a b : List Json) : Merges (.arr a) (.arr b) (.arr (union a b))
  | replaced {old new : Json} (apart : old.form = new.form → new.form = .other) : Merges old new new

section order

variable {merges : Json → Json → Json → Prop} {out pending last : List (String × Json)}

theorem Visits.ascending (visits : Visits merges out pending last) (ascending : Ascending out) :
    Ascending last := by
  induction visits with
  | done => exact ascending
  | fresh _ _ _ ih => exact ih (ascending_setField _ _ ascending)
  | met _ _ _ _ ih => exact ih (ascending_setField _ _ ascending)

theorem chosen_apart {rest : List (String × Json)} {key : String} {v : Json}
    (distinct : (keys pending).Nodup) (chosen : pending.Perm ((key, v) :: rest)) :
    (keys rest).Nodup ∧ rest.lookup key = none ∧
      ∀ other, pending.lookup other = if other = key then some v else rest.lookup other := by
  have names : (keys ((key, v) :: rest)).Nodup := (chosen.map Prod.fst).nodup_iff.mp distinct
  obtain ⟨alone, distinct'⟩ := List.nodup_cons.mp names
  refine ⟨distinct', lookup_eq_none_iff.mpr alone, fun other => ?_⟩
  rw [lookup_of_perm chosen distinct]
  by_cases same : other = key
  · simp [same]
  · rw [lookup_cons_ne same, if_neg same]

/-- What is put under the chosen name does not matter for the fields that are left. -/
theorem exact_setField {rest : List (String × Json)} {name : String} {v new : Json}
    (distinct : (keys pending).Nodup) (chosen : pending.Perm ((name, v) :: rest))
    (exact : ∀ key old v m, out.lookup key = some old → pending.lookup key = some v → merges old v m →
      m = mergeValue old v) (key : String) (old w m : Json)
    (found : (setField name new out).lookup key = some old) (waiting : rest.lookup key = some w)
    (merged : merges old w m) : m = mergeValue old w := by
  obtain ⟨_, alone, view⟩ := chosen_apart distinct chosen
  have different : key ≠ name := by
    rintro rfl
    cases alone.symm.trans waiting
  rw [lookup_setField, if_neg different] at found
  exact exact key old w m found (by rw [view, if_neg different, waiting]) merged

/-- Whatever the order of the visits, each name has what merging its two values gives. -/
theorem Visits.lookup (visits : Visits merges out pending last) (distinct : (keys pending).Nodup)
    (exact : ∀ key old v m, out.lookup key = some old → pending.lookup key = some v → merges old v m →
      m = mergeValue old v) (key : String) :
    last.lookup key = mergedValue (out.lookup key) (pending.lookup key) := by
  induction visits with
  | @done out => rfl
  | @fresh out pending rest last name v chosen absent later ih =>
    obtain ⟨distinct', alone, view⟩ := chosen_apart distinct chosen
    rw [ih distinct', lookup_setField, view]
    · by_cases same : key = name
      · rw [if_pos same, if_pos same, same, alone, absent]
        rfl
      · rw [if_neg same, if_neg same]
    · exact exact_setField distinct chosen exact
  | @met out pending rest last name old v m chosen found merged later ih =>
    obtain ⟨distinct', alone, view⟩ := chosen_apart distinct chosen
    rw [ih distinct', lookup_setField, view]
    · by_cases same : key = name
      · rw [if_pos same, if_pos same, same, alone, found,
          exact name old v m found (by rw [view, if_pos rfl]) merged]
        rfl
      · rw [if_neg same, if_neg same]
    · exact exact_setField distinct chosen exact

theorem visits_listed (out pending : List (String × Json))
    (each : ∀ field ∈ pending, ∀ old, Merges old field.2 (mergeValue old field.2)) :
    Visits Merges out pending (mergeFields out pending) := by
  induction pending generalizing out with
  | nil =>
    rw [mergeFields]
    exact .done
  | cons field rest ih =>
    obtain ⟨key, v⟩ := field
    have later := fun out => ih out fun field inside => each field (List.mem_cons_of_mem _ inside)
    rw [mergeFields]
    cases found : out.lookup key with
    | none => exact .fresh (.refl _) found (later _)
    | some old => exact .met (.refl _) found (each (key, v) List.mem_cons_self old) (later _)

theorem merges_mergeValue {new : Json} (ordered : Ordered new) (old : Json) :
    Merges old new (mergeValue old new) := by
  induction ordered generalizing old with
  | @arr items _ _ =>
    by_cases list : old.form = .list
    · obtain ⟨a, rfl⟩ := exists_arr_of_form list
      rw [mergeValue_arr]
      exact .lists a items
    · rw [mergeValue_apart fun same => absurd same list]
      exact .replaced fun same => absurd same list
  | @obj src _ _ ih =>
    by_cases object : old.form = .object
    · obtain ⟨dst, rfl⟩ := exists_obj_of_form object
      rw [mergeValue_obj]
      exact .objects (visits_listed dst src ih)
    · rw [mergeValue_apart fun same => absurd same object]
      exact .replaced fun same => absurd same object
  | _ => exact .replaced fun _ => rfl

theorem Merges.eq_mergeValue {old new out : Json} (first : Ordered old) (second : Ordered new)
    (merges : Merges old new out) : out = mergeValue old new := by
  induction second generalizing old out with
  | @obj src ascending _ ih =>
    cases merges with
    | @objects dst _ out visits =>
      rw [mergeValue_obj]
      refine congrArg Json.obj ?_
      refine Ascending.ext (visits.ascending first.ascending) (ascending_mergeFields src first.ascending) ?_
      intro key
      rw [lookup_mergeFields key ascending.nodup]
      refine visits.lookup ascending.nodup (fun name old v m found waiting merged => ?_) key
      exact ih (name, v) (mem_of_lookup waiting) (first.lookup found) merged
    | replaced apart => exact (mergeValue_apart apart).symm
  | arr _ _ =>
    cases merges with
    | replaced apart => exact (mergeValue_apart apart).symm
    | lists a => exact (mergeValue_arr a _).symm
  | _ =>
    cases merges with
    | replaced apart => exact (mergeValue_apart apart).symm

theorem merges_iff {old new out : Json} (first : Ordered old) (second : Ordered new) :
    Merges old new out ↔ out = mergeValue old new := by
  constructor
  · exact Merges.eq_mergeValue first second
  · rintro rfl
    exact merges_mergeValue second old

end order

/-- Merging two objects loses nothing, and the second one wins: wherever both have an object, the result
has one with what both have, and it does not depend on the order in which names are visited. -/
theorem merge_joins {dst src : List (String × Json)} (first : Ordered (.obj dst))
    (second : Ordered (.obj src)) :
    (∀ path d s, within? (.obj dst) path = some (.obj d) → within? (.obj src) path = some (.obj s) →
      ∃ o, (merge (.obj dst) (.obj src)).within? path = some (.obj o) ∧ Joined d s o) ∧
      ∀ out, Merges (.obj dst) (.obj src) out ↔ out = merge (.obj dst) (.obj src) := by
  rw [merge_obj]
  refine ⟨fun path d s before after => ?_, fun out => merges_iff first second⟩
  refine ⟨mergeFields d s, ?_, joined_mergeFields (first.within before).ascending (second.within after).ascending⟩
  rw [within?_mergeValue second before after, mergeValue_obj]

def plainRecord : List (String × Json) :=
  [("properties", .obj [("a", .obj [("type", .str "string")])]), ("required", .arr [.str "a"]),
    ("type", .str "object")]

def recordAddition : List (String × Json) :=
  [("properties", .obj [("b", .obj [("type", .str "number")])]),
    ("required", .arr [.str "b", .str "a", .str "b"]), ("type", .str "array")]

theorem merge_joins_record :
    ∃ o p added, (merge (.obj plainRecord) (.obj recordAddition)).within? [] = some (.obj o) ∧
      o.lookup "type" = some (.str "array") ∧
      o.lookup "required" = some (.arr (.str "a" :: added)) ∧
      News [.str "a"] [.str "b", .str "a", .str "b"] added ∧
      (merge (.obj plainRecord) (.obj recordAddition)).within? ["properties"] = some (.obj p) ∧
      p.lookup "a" = some (.obj [("type", .str "string")]) ∧
      p.lookup "b" = some (.obj [("type", .str "number")]) ∧
      Merges (.obj plainRecord) (.obj recordAddition) (merge (.obj plainRecord) (.obj recordAddition)) := by
  have first : Ordered (.obj plainRecord) := ordered_canonical (.obj plainRecord)
  have second : Ordered (.obj recordAddition) := ordered_canonical (.obj recordAddition)
  obtain ⟨law, order⟩ := merge_joins first second
  obtain ⟨o, whole, joined⟩ := law [] _ _ rfl rfl
  obtain ⟨p, inside, properties⟩ := law ["properties"] _ _ rfl rfl
  obtain ⟨added, required, news⟩ := joined.lists "required" [.str "a"] [.str "b", .str "a", .str "b"] rfl rfl
  exact ⟨o, p, added, whole, joined.replaced "type" _ _ rfl rfl fun _ => rfl, required, news, inside,
    properties.first "a" _ rfl rfl, properties.second "b" _ rfl rfl, (order _).mpr rfl⟩

end Typesmith.Json
