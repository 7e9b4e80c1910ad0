import Typesmith.Proofs.Regrouping
import Typesmith.Proofs.Sharing

namespace Typesmith.Json

section equality

variable {a b c d : List Json} {j v w : Json} {dst src : List (String × Json)}

theorem sameItems_iff : sameItems a b = true ↔ List.Forall₂ (fun i j => i.same j = true) a b := by
  induction a generalizing b with
  | nil => cases b <;> simp [sameItems]
  | cons i rest ih => cases b <;> simp [sameItems, ih]

theorem sameItems_append (first : sameItems a c = true) (second : sameItems b d = true) :
    sameItems (a ++ b) (c ++ d) = true :=
  sameItems_iff.mpr (List.rel_append (sameItems_iff.mp first) (sameItems_iff.mp second))

/-- A list that is equal to two others in a row falls into two parts. -/
theorem exists_append_of_sameItems (equal : sameItems (a ++ b) c = true) :
    ∃ front rest, c = front ++ rest ∧ sameItems a front = true ∧ sameItems b rest = true := by
  have pairs := sameItems_iff.mp equal
  refine ⟨c.take a.length, c.drop a.length, (List.take_append_drop _ c).symm, ?_, ?_⟩
  · simpa using sameItems_iff.mpr (List.forall₂_take a.length pairs)
  · simpa using sameItems_iff.mpr (List.forall₂_drop a.length pairs)

theorem exists_same_of_sameItems (equal : sameItems a b = true) (inside : j ∈ b) :
    ∃ i ∈ a, i.same j = true :=
  Model.exists_of_forall₂ (R := fun i j : Json => i.same j = true) (sameItems_iff.mp equal) inside

theorem once_of_sameItems (equal : sameItems a b = true)
    (once : a.Pairwise fun i j => i.same j = false) : b.Pairwise fun i j => i.same j = false := by
  have pairs := sameItems_iff.mp equal
  induction pairs with
  | nil => exact .nil
  | @cons i k rest others first later ih =>
    obtain ⟨apart, once⟩ := List.pairwise_cons.mp once
    refine List.pairwise_cons.mpr ⟨fun l inside => ?_, ih (sameItems_iff.mpr later) once⟩
    obtain ⟨m, listed, same⟩ := Model.exists_of_forall₂ later inside
    refine Bool.eq_false_iff.mpr fun repeated => ?_
    have collide := same_trans i l m (same_trans i k l first repeated) (same_symm m l same)
    rw [apart m listed] at collide
    cases collide

theorem keys_eq_of_ascending (left : Ascending dst) (right : Ascending src)
    (names : ∀ key, key ∈ keys dst ↔ key ∈ keys src) : keys dst = keys src := by
  have perm := (List.perm_ext_iff_of_nodup left.nodup right.nodup).mpr names
  exact perm.eq_of_pairwise (fun _ _ _ _ before after => absurd before (lt_asymm after)) left right

theorem sameFields_of_keys (names : keys dst = keys src) (distinct : (keys src).Nodup)
    (each : ∀ key v w, dst.lookup key = some v → src.lookup key = some w → v.same w = true) :
    sameFields dst src = true := by
  induction dst generalizing src with
  | nil =>
    cases src with
    | nil => rfl
    | cons _ _ => cases names
  | cons field rest ih =>
    cases src with
    | nil => cases names
    | cons other others =>
      obtain ⟨key, v⟩ := field
      obtain ⟨name, w⟩ := other
      simp only [keys_cons, List.cons.injEq] at names distinct
      obtain ⟨rfl, names⟩ := names
      obtain ⟨alone, distinct⟩ := List.nodup_cons.mp distinct
      have first := each key v w (by simp) (by simp)
      have later : sameFields rest others = true := by
        refine ih names distinct fun name v' w' found found' => ?_
        have different : name ≠ key := by
          rintro rfl
          exact alone (List.mem_map.mpr ⟨_, mem_of_lookup found', rfl⟩)
        exact each name v' w' (by rw [lookup_cons_ne different, found])
          (by rw [lookup_cons_ne different, found'])
      rw [sameFields, first, later, beq_self_eq_true, Bool.and_self, Bool.and_self]

theorem sameFields_iff (left : Ascending dst) (right : Ascending src) :
    sameFields dst src = true ↔ (∀ key, key ∈ keys dst ↔ key ∈ keys src) ∧
      ∀ key v w, dst.lookup key = some v → src.lookup key = some w → v.same w = true := by
  constructor
  · intro equal
    refine ⟨fun key => by rw [keys_of_sameFields equal], fun key v w found found' => ?_⟩
    obtain ⟨v', stored, same⟩ := lookup_of_sameFields equal found'
    cases found.symm.trans stored
    exact same
  · rintro ⟨names, each⟩
    exact sameFields_of_keys (keys_eq_of_ascending left right names) right.nodup each

end equality

section lists

variable {a b : List Json}

/-- A list that starts like another one and goes on with items that are not in it, each once. -/
def Continues (a b : List Json) : Prop :=
  ∃ front rest, b = front ++ rest ∧ sameItems a front = true ∧ (∀ j ∈ rest, ¬ Has a j) ∧
    rest.Pairwise fun i j => i.same j = false

theorem union_of_new (new : ∀ j ∈ b, ¬ Has a j) (once : b.Pairwise fun i j => i.same j = false) :
    union a b = a ++ b := by
  induction b generalizing a with
  | nil => exact (List.append_nil a).symm
  | cons j rest ih =>
    obtain ⟨apart, once⟩ := List.pairwise_cons.mp once
    rw [union_cons, addNew_of_not_has (new j List.mem_cons_self), ih ?_ once, ← List.append_cons]
    intro k inside has
    rcases has_append.mp has with old | last
    · exact new k (List.mem_cons_of_mem _ inside) old
    · have same : j.same k = true := by simpa [has_cons] using last
      rw [apart k inside] at same
      cases same

/-- What is joined to a list leaves it as it is only if it continues the other list. -/
theorem sameItems_union_iff (a b : List Json) : sameItems (union a b) b = true ↔ Continues a b := by
  constructor
  · intro equal
    obtain ⟨added, joined, news⟩ := union_news a b
    rw [joined] at equal
    obtain ⟨front, rest, split, first, second⟩ := exists_append_of_sameItems equal
    refine ⟨front, rest, split, first, fun j inside has => ?_, once_of_sameItems second news.once⟩
    obtain ⟨i, listed, same⟩ := exists_same_of_sameItems second inside
    exact news.fresh i listed ((has_congr same).mpr has)
  · rintro ⟨front, rest, rfl, first, new, once⟩
    rw [union_append, union_of_has fun j inside => exists_same_of_sameItems first inside,
      union_of_new new once]
    exact sameItems_append first (sameItems_self rest)

/-- Joining a list to another one leaves that one as it is only if it has everything. -/
theorem sameItems_union_into_iff (a b : List Json) :
    sameItems (union a b) a = true ↔ ∀ j ∈ b, Has a j := by
  constructor
  · intro equal j inside
    obtain ⟨added, joined, news⟩ := union_news a b
    rw [joined] at equal
    have short := (sameItems_iff.mp equal).length_eq
    have none : added = [] := by simpa using short
    simpa [none] using news.complete j inside
  · intro all
    rw [union_of_has all]
    exact sameItems_self a

theorem Continues.has (continues : Continues a b) {j : Json} (inside : j ∈ a) : Has b j := by
  obtain ⟨front, rest, rfl, first, _⟩ := continues
  obtain ⟨i, listed, same⟩ := exists_same_of_sameItems (sameItems_symm a front first) inside
  exact ⟨i, List.mem_append_left _ listed, same⟩

end lists

/-- What the second value has of the first one: all names of the objects that both have, lists related by
`lists`, and other values, or values of different forms, related by `others`. -/
structure Within (lists : List Json → List Json → Prop) (others : Json → Json → Prop) (e s : Json) :
    Prop where
  names : ∀ path d f, e.within? path = some (.obj d) → s.within? path = some (.obj f) →
    ∀ key ∈ keys d, key ∈ keys f
  lists : ∀ path a b, e.within? path = some (.arr a) → s.within? path = some (.arr b) → lists a b
  others : ∀ path v w, e.within? path = some v → s.within? path = some w →
    (v.form = w.form → w.form = .other) → others v w

def Carried : Json → Json → Prop :=
  Within (fun a b => ∀ j ∈ a, Has b j) fun v w => v.same w = true

def Continued : Json → Json → Prop :=
  Within Continues fun _ _ => True

section merging

variable {lists : List Json → List Json → Prop} {others : Json → Json → Prop} {e s v w : Json}
variable {dst src : List (String × Json)}

theorem within_arr (a b : List Json) : Within lists others (.arr a) (.arr b) ↔ lists a b := by
  refine ⟨fun within => within.lists [] a b rfl rfl, fun related => ⟨?_, ?_, ?_⟩⟩
  · intro path d f first
    cases path <;> cases first
  · intro path c d first second
    cases path with
    | nil =>
      cases first
      cases second
      exact related
    | cons key path => cases first
  · intro path v w first second apart
    cases path with
    | nil =>
      cases first
      cases second
      cases apart rfl
    | cons key path => cases first

theorem within_apart (apart : e.form = s.form → s.form = .other) :
    Within lists others e s ↔ others e s := by
  have top : ∀ path v w, e.within? path = some v → s.within? path = some w → v = e ∧ w = s := by
    intro path v w first second
    cases path with
    | nil =>
      cases first
      cases second
      exact ⟨rfl, rfl⟩
    | cons key path =>
      obtain ⟨_, _, rfl, _⟩ := exists_of_within?_cons first
      obtain ⟨_, _, rfl, _⟩ := exists_of_within?_cons second
      cases apart rfl
  refine ⟨fun within => within.others [] e s rfl rfl apart, fun related => ⟨?_, ?_, ?_⟩⟩
  · intro path d f first second
    obtain ⟨rfl, rfl⟩ := top path _ _ first second
    cases apart rfl
  · intro path a b first second
    obtain ⟨rfl, rfl⟩ := top path _ _ first second
    cases apart rfl
  · intro path v w first second _
    obtain ⟨rfl, rfl⟩ := top path v w first second
    exact related

theorem Within.of_obj {dst src : List (String × Json)} (within : Within lists others (.obj dst) (.obj src))
    {key : String} {v w : Json} (first : dst.lookup key = some v) (second : src.lookup key = some w) :
    Within lists others v w := by
  have left : ∀ path, (Json.obj dst).within? (key :: path) = v.within? path := fun path => by
    rw [within?_obj, first, Option.bind_some]
  have right : ∀ path, (Json.obj src).within? (key :: path) = w.within? path := fun path => by
    rw [within?_obj, second, Option.bind_some]
  constructor
  · exact fun path d f inside inside' =>
      within.names (key :: path) d f (by rw [left, inside]) (by rw [right, inside'])
  · exact fun path a b inside inside' =>
      within.lists (key :: path) a b (by rw [left, inside]) (by rw [right, inside'])
  · exact fun path i j inside inside' =>
      within.others (key :: path) i j (by rw [left, inside]) (by rw [right, inside'])

theorem within_obj (dst src : List (String × Json)) :
    Within lists others (.obj dst) (.obj src) ↔ (∀ key ∈ keys dst, key ∈ keys src) ∧
      ∀ key v w, dst.lookup key = some v → src.lookup key = some w → Within lists others v w := by
  constructor
  · exact fun within => ⟨within.names [] dst src rfl rfl, fun _ _ _ => within.of_obj⟩
  · rintro ⟨names, each⟩
    -- below a name, what is asked for is asked for of the two values under it
    have below : ∀ key path v w, (Json.obj dst).within? (key :: path) = some v →
        (Json.obj src).within? (key :: path) = some w → ∃ v' w', Within lists others v' w' ∧
          v'.within? path = some v ∧ w'.within? path = some w := by
      intro key path v w first second
      obtain ⟨_, v', same, found, inside⟩ := exists_of_within?_cons first
      obtain ⟨_, w', same', found', inside'⟩ := exists_of_within?_cons second
      cases same
      cases same'
      exact ⟨v', w', each key v' w' found found', inside, inside'⟩
    refine ⟨?_, ?_, ?_⟩
    · intro path d f first second
      cases path with
      | nil =>
        cases first
        cases second
        exact names
      | cons key path =>
        obtain ⟨_, _, within, inside, inside'⟩ := below key path _ _ first second
        exact within.names path d f inside inside'
    · intro path a b first second
      cases path with
      | nil => cases first
      | cons key path =>
        obtain ⟨_, _, within, inside, inside'⟩ := below key path _ _ first second
        exact within.lists path a b inside inside'
    · intro path v w first second apart
      cases path with
      | nil =>
        cases first
        cases second
        cases apart rfl
      | cons key path =>
        obtain ⟨_, _, within, inside, inside'⟩ := below key path _ _ first second
        exact within.others path v w inside inside' apart

theorem within_field (key : String) (v w : Json) :
    Within lists others (.obj [(key, v)]) (.obj [(key, w)]) ↔ Within lists others v w := by
  rw [within_obj]
  refine ⟨fun within => within.2 key v w (by simp) (by simp), fun within => ⟨by simp, ?_⟩⟩
  intro name v' w' found found'
  obtain rfl : name = key := by
    by_contra different
    simp [lookup_cons_ne different] at found
  cases (by simpa using found : v = v')
  cases (by simpa using found' : w = w')
  exact within

/-- Two objects are put together, and the result is compared with one of them: it is the same if that one
has all names of the other, and if under each name that both have, what becomes of the two values is the
same as its own. -/
theorem sameFields_iff_within {out : List (String × Json)}
    (ascending : Ascending out) (ascending' : Ascending src)
    (names : ∀ key, key ∈ keys out ↔ key ∈ keys dst ∨ key ∈ keys src)
    (apart : ∀ key w, dst.lookup key = none → src.lookup key = some w → out.lookup key = some w)
    (both : ∀ key v w, dst.lookup key = some v → src.lookup key = some w →
      ∃ m, out.lookup key = some m ∧ (m.same w = true ↔ Within lists others v w)) :
    sameFields out src = true ↔ Within lists others (.obj dst) (.obj src) := by
  rw [within_obj, sameFields_iff ascending ascending']
  refine and_congr ?_ ⟨fun each key v w before own => ?_, fun each key m w merged own => ?_⟩
  · simp only [names, or_iff_right_iff_imp]
  · obtain ⟨_, found, step⟩ := both key v w before own
    exact step.mp (each key _ w found own)
  · cases before : dst.lookup key with
    | none =>
      cases merged.symm.trans (apart key w before own)
      exact same_self _
    | some v =>
      obtain ⟨_, found, step⟩ := both key v w before own
      cases merged.symm.trans found
      exact step.mpr (each key v w before own)

theorem same_mergeValue_iff (first : Ordered e) (second : Ordered s) :
    (mergeValue e s).same s = true ↔ Continued e s := by
  have alone : ∀ {e s : Json}, (e.form = s.form → s.form = .other) →
      ((mergeValue e s).same s = true ↔ Continued e s) := by
    intro e s apart
    rw [mergeValue_apart apart, Continued, within_apart apart]
    exact iff_of_true (same_self s) trivial
  induction second generalizing e with
  | @arr items _ _ =>
    by_cases list : e.form = .list
    · obtain ⟨a, rfl⟩ := exists_arr_of_form list
      rw [mergeValue_arr, Continued, within_arr, same, sameItems_union_iff]
    · exact alone fun same => absurd same list
  | @obj src ascending _ ih =>
    by_cases object : e.form = .object
    · obtain ⟨dst, rfl⟩ := exists_obj_of_form object
      rw [mergeValue_obj, same]
      refine sameFields_iff_within (ascending_mergeFields src first.ascending) ascending
        (fun key => keys_mergeFields dst src) ?_ ?_
      · intro key w before own
        rw [lookup_mergeFields key ascending.nodup, before, own, mergedValue]
      · intro key v w before own
        rw [lookup_mergeFields key ascending.nodup, before, own, mergedValue]
        exact ⟨_, rfl, ih (key, w) (mem_of_lookup own) (first.lookup before)⟩
    · exact alone fun same => absurd same object
  | _ => exact alone fun _ => rfl

theorem same_mergeValue_into_iff (first : Ordered s) (second : Ordered e) :
    (mergeValue s e).same s = true ↔ Carried e s := by
  have alone : ∀ {e s : Json}, (e.form = s.form → s.form = .other) →
      ((mergeValue s e).same s = true ↔ Carried e s) := by
    intro e s apart
    rw [mergeValue_apart fun same => same ▸ apart same.symm, Carried, within_apart apart]
  induction second generalizing s with
  | @arr items _ _ =>
    by_cases list : s.form = .list
    · obtain ⟨a, rfl⟩ := exists_arr_of_form list
      rw [mergeValue_arr, Carried, within_arr, same, sameItems_union_into_iff]
    · exact alone fun same => absurd same.symm list
  | @obj src ascending _ ih =>
    by_cases object : s.form = .object
    · obtain ⟨dst, rfl⟩ := exists_obj_of_form object
      rw [mergeValue_obj, same]
      refine sameFields_iff_within (ascending_mergeFields src first.ascending) first.ascending
        (fun key => (keys_mergeFields dst src).trans or_comm) ?_ ?_
      · intro key w before own
        rw [lookup_mergeFields key ascending.nodup, before, own, mergedValue]
      · intro key v w before own
        rw [lookup_mergeFields key ascending.nodup, before, own, mergedValue]
        exact ⟨_, rfl, ih (key, v) (mem_of_lookup before) (first.lookup own)⟩
    · exact alone fun same => absurd same.symm object
  | _ => exact alone fun same => same.symm

/-- What is continued is carried, but for values that are no objects and no lists. -/
theorem Continued.carried_iff (continued : Continued e s) :
    Carried e s ↔ ∀ path v w, e.within? path = some v → s.within? path = some w →
      (v.form = w.form → w.form = .other) → v.same w = true :=
  ⟨Within.others, fun equal =>
    ⟨continued.names, fun path a b first second _ => (continued.lists path a b first second).has, equal⟩⟩

/-- What is carried is continued, but for the order of lists and what they repeat. -/
theorem Carried.continued_iff (carried : Carried e s) :
    Continued e s ↔ ∀ path a b, e.within? path = some (.arr a) → s.within? path = some (.arr b) →
      Continues a b :=
  ⟨Within.lists, fun lists => ⟨carried.names, lists, fun _ _ _ _ _ _ => trivial⟩⟩

end merging

end Typesmith.Json

namespace Typesmith.Fragment

open Json (Carried Continued Continues)

section

variable {s extra : Fragment} {e j : Json}

def Survives (s : Fragment) : Prop :=
  s.reread?.bind toJson? = s.toJson?

theorem subsumes_eq (own : s.toJson? = some j) (other : extra.toJson? = some e)
    (rewritten : (decode? (Json.merge e j)).bind toJson? = some (Json.merge e j)) :
    s.subsumes? extra = some (j.same (Json.merge e j)) := by
  obtain ⟨merged, read, written⟩ := Option.bind_eq_some_iff.mp rewritten
  have joined : merge? [extra, s] = some merged := by
    simp [merge?, own, other, (record_of_toJson other).merge_empty.1, read]
  simp [subsumes?, joined, own, written]

/-- Whether a fragment subsumes another one, for fragments whose merged form can be written again: the
answer is yes if the form of the first continues that of the other. A yes is wrong where values differ
that are no objects and no lists, a no is wrong where only the order of lists, or what they repeat, is
different. Merging the other one into the first would give the right answer. -/
theorem subsumes_iff (own : s.toJson? = some j) (other : extra.toJson? = some e)
    (rewritten : (decode? (Json.merge e j)).bind toJson? = some (Json.merge e j)) :
    ∃ covered, s.subsumes? extra = some covered ∧ (covered = true ↔ Continued e j) ∧
      (covered = true → (Carried e j ↔ ∀ path v w, e.within? path = some v → j.within? path = some w →
        (v.form = w.form → w.form = .other) → v.same w = true)) ∧
      (Carried e j → (covered = true ↔ ∀ path a b, e.within? path = some (.arr a) →
        j.within? path = some (.arr b) → Continues a b)) ∧
      ((Json.merge j e).same j = true ↔ Carried e j) := by
  have first := record_of_toJson other
  have second := record_of_toJson own
  have answer : j.same (Json.merge e j) = true ↔ Continued e j := by
    rw [Json.merge_eq_mergeValue first second, ← Json.same_mergeValue_iff first.2 second.2]
    exact ⟨Json.same_symm _ _, Json.same_symm _ _⟩
  refine ⟨j.same (Json.merge e j), subsumes_eq own other rewritten, answer,
    fun yes => (answer.mp yes).carried_iff, fun carried => ?_, ?_⟩
  · rw [answer, carried.continued_iff]
  · rw [Json.merge_eq_mergeValue second first, Json.same_mergeValue_into_iff second.2 first.2]

end

def requiring (names : List String) : Fragment :=
  { keywords := { required := names } }

def scalars : Fragment × Fragment :=
  ({ keywords := { types := ["string"] } }, { keywords := { types := ["number"] } })

theorem requiring_written :
    (requiring ["a", "b"]).toJson? = some (.obj [("required", .arr [.str "a", .str "b"])]) ∧
      (requiring ["b"]).toJson? = some (.obj [("required", .arr [.str "b"])]) ∧
      (requiring ["b", "a"]).toJson? = some (.obj [("required", .arr [.str "b", .str "a"])]) := by
  simp only [requiring, toJson_keywords]
  exact ⟨rfl, rfl, rfl⟩

theorem scalars_written :
    scalars.1.toJson? = some (.obj [("type", .str "string")]) ∧
      scalars.2.toJson? = some (.obj [("type", .str "number")]) := by
  simp only [scalars, toJson_keywords]
  exact ⟨rfl, rfl⟩

theorem subsumes_iff_scalars :
    scalars.1.subsumes? scalars.2 = some true ∧
      ¬ Carried (.obj [("type", .str "number")]) (.obj [("type", .str "string")]) := by
  obtain ⟨text, number⟩ := scalars_written
  obtain ⟨covered, answer, continued, yes, _⟩ := subsumes_iff text number text
  have holds : covered = true := by
    rw [continued, Continued, Json.within_field, Json.within_apart fun _ => rfl]
    trivial
  refine ⟨holds ▸ answer, fun carried => ?_⟩
  have same := (yes holds).mp carried ["type"] _ _ rfl rfl fun _ => rfl
  exact absurd same (by decide)

/-- Fragments that can be written and read again, where the answer is no though everything is carried, and
where it is yes though something is not. -/
theorem subsumption_misjudged :
    ((requiring ["a", "b"]).Survives ∧ (requiring ["b"]).Survives ∧
        (requiring ["a", "b"]).subsumes? (requiring ["b"]) = some false ∧
        ∃ j e, (requiring ["a", "b"]).toJson? = some j ∧ (requiring ["b"]).toJson? = some e ∧ Carried e j) ∧
      scalars.1.Survives ∧ scalars.2.Survives ∧ scalars.1.subsumes? scalars.2 = some true ∧
        ∃ j e, scalars.1.toJson? = some j ∧ scalars.2.toJson? = some e ∧ ¬ Carried e j := by
  obtain ⟨strict, loose, joined⟩ := requiring_written
  obtain ⟨text, number⟩ := scalars_written
  have survives : ∀ s j, s.toJson? = some j → decode? j = some s → s.Survives := by
    intro s j written read
    rw [Survives, reread?, written, Option.bind_some, read, Option.bind_some, written]
  have carried : Carried (.obj [("required", .arr [.str "b"])])
      (.obj [("required", .arr [.str "a", .str "b"])]) := by
    rw [Carried, Json.within_field, Json.within_arr]
    exact fun j inside => Json.has_of_mem (List.mem_cons_of_mem _ inside)
  have replaced : ¬ Carried (.obj [("type", .str "number")]) (.obj [("type", .str "string")]) := by
    rw [Carried, Json.within_field, Json.within_apart fun _ => rfl]
    decide
  exact ⟨⟨survives _ _ strict rfl, survives _ _ loose rfl, subsumes_eq strict loose joined,
    _, _, strict, loose, carried⟩, survives _ _ text rfl, survives _ _ number rfl,
    subsumes_eq text number text, _, _, text, number, replaced⟩

end Typesmith.Fragment
