import Typesmith.Proofs.Regrouping
import Typesmith.Proofs.Viewing

namespace Typesmith.Fragment

open Json (keys Ascending Has)

def Branch.choices (f : Fragment) : Branch → List Fragment
  | .oneOf => f.oneOf
  | .anyOf => f.anyOf
  | _ => []

/-- No unknown keyword reads as this one. -/
def UnmistakableFor (b : Branch) (f : Fragment) : Prop :=
  ∀ kv ∈ f.keywords.extensions ++ f.keywords.extras, foldKey kv.1 ≠ foldKey b.key

/-- The keyword is spelled in one way only. -/
def Exact (b : Branch) (fields : List (String × Json)) : Prop :=
  ∀ key ∈ keys fields, foldKey key = foldKey b.key → key = b.key

structure Lists (b : Branch) (fields : List (String × Json)) (items : List Json) : Prop where
  ascending : Ascending fields
  exact : Exact b fields
  listed : fields.lookup b.key = if items = [] then none else some (.arr items)

variable {b : Branch}

section reading

variable {s t f : Fragment} {c : Branch} {v : Json} {fields : List (String × Json)}

theorem choices_setOne (f : Fragment) : b.choices (s.setOne c f) = b.choices s := by
  cases c <;> cases b <;> rfl

theorem choices_setNamed (fs : List (String × Fragment)) :
    b.choices (s.setNamed c fs) = b.choices s := by
  cases c <;> cases b <;> rfl

theorem choices_setOther (set : s.setOther c v = some t) : b.choices t = b.choices s := by
  cases c <;> cases set <;> cases b <;> rfl

theorem choices_setMany (other : c ≠ b) (fs : List Fragment) :
    b.choices (s.setMany c fs) = b.choices s := by
  cases c <;> cases b <;> first | rfl | exact absurd rfl other

theorem choices_clear (other : c ≠ b) : b.choices (s.clear c) = b.choices s := by
  cases c <;> cases b <;> first | rfl | exact absurd rfl other

theorem choices_readField {field : String × Json} (other : foldKey field.1 ≠ foldKey b.key)
    (read : readField s field = some t) : b.choices t = b.choices s := by
  obtain ⟨key, v⟩ := field
  have apart {c : Branch} (kind : Branch.ofKey key = some c) : c ≠ b := by
    rintro rfl
    exact other (foldKey_of_ofKey kind)
  cases readsField read with
  | keyword => cases b <;> rfl
  | named => exact choices_setNamed _
  | dependencies => cases b <;> rfl
  | one => exact choices_setOne _
  | many kind => exact choices_setMany (apart kind) _
  | null kind => exact choices_clear (apart kind)
  | other _ set => exact choices_setOther set

variable (alternative : b ∈ [Branch.oneOf, .anyOf])
include alternative

theorem choices_own (read : readField s (b.key, v) = some t) :
    decodeItems (v.arr?.getD []) = some (b.choices t) := by
  have kind : Branch.ofKey b.key = some b := by
    revert alternative
    cases b <;> decide
  unfold readField at read
  simp only [kind] at read
  simp only [List.mem_cons, List.not_mem_nil, or_false] at alternative
  cases v with
  | arr items =>
    rcases alternative with rfl | rfl <;>
    · obtain ⟨fs, listed, rfl⟩ := Option.map_eq_some_iff.mp read
      exact listed
  | null => rcases alternative with rfl | rfl <;> cases read <;> rfl
  | _ => rcases alternative with rfl | rfl <;> cases read

theorem decode_choices {items : List Json} (lists : Lists b fields items)
    (read : decode? (.obj fields) = some f) : decodeItems items = some (b.choices f) := by
  rw [decode?] at read
  have begun : some (b.choices (start fields)) = some [] := by cases b <;> rfl
  have view := decodeFields_view (fun f => some (b.choices f)) (fun v => decodeItems (v.arr?.getD []))
    (fun s t field other read => congrArg some (choices_readField other read))
    (fun s t v _ read => (choices_own alternative read).symm) lists.ascending.nodup lists.exact begun read
  rw [view, lists.listed]
  split
  · subst items
    rfl
  · rfl

end reading

theorem decodeItems_eq_mapM (items : List Json) : decodeItems items = items.mapM decode? := by
  induction items with
  | nil => rfl
  | cons j rest ih =>
    rw [decodeItems, List.mapM_cons, ih]
    cases decode? j with
    | none => rfl
    | some f => cases rest.mapM decode? <;> rfl

section writing

variable {f : Fragment} {j : Json}

theorem toJson_mapM {fs : List Fragment} {items : List Json} (written : writeList? fs = some items) :
    fs.mapM toJson? = some (Json.canonicalItems items) := by
  induction fs generalizing items with
  | nil =>
    cases written
    rfl
  | cons f rest ih =>
    simp only [writeList?, Option.bind_eq_bind, Option.bind_eq_some_iff, Option.pure_def,
      Option.some.injEq] at written
    obtain ⟨j, first, js, later, rfl⟩ := written
    simp [toJson?, first, ih later, Json.canonicalItems]

theorem Among.mono {words more : List String} {fields : List (String × Json)} (among : Among words fields)
    (sub : ∀ word ∈ words, word ∈ more) : Among more fields :=
  fun key inside => sub key (among key inside)

def keysBut (b : Branch) : List String :=
  knownKeys.filter (· ≠ b.key)

theorem spelled_keysBut (alternative : b ∈ [Branch.oneOf, .anyOf]) :
    ∀ key ∈ keysBut b, foldKey key ≠ foldKey b.key ∧ key ≠ b.key := by
  revert alternative
  cases b <;> decide +kernel

theorem write_choices (alternative : b ∈ [Branch.oneOf, .anyOf]) (written : write? f = some j) :
    ∃ before after items, writeList? (b.choices f) = some items ∧ Among (keysBut b) before ∧
      Among (keysBut b) after ∧
      j = .obj (before ++ (listField b.key items ++ (after ++ trailingFields f.keywords))) := by
  obtain ⟨front, lead, amongFront⟩ := leadingFields_eq f.keywords
  simp only [List.mem_cons, List.not_mem_nil, or_false] at alternative
  cases write_cases written with
  | @intro items negated extra additional allOf oneOf anyOf named definitions props patterns dependencies
      _ _ oneWritten anyWritten _ _ _ =>
    rw [lead]
    -- both lists stand behind `allOf`, and `anyOf` behind `oneOf` too
    rcases alternative with rfl | rfl
    · refine ⟨front ++ listField "required" (f.keywords.required.map .str) ++ valueField "items" items ++
          listField "allOf" allOf,
        listField "anyOf" anyOf ++ valueField "not" negated ++ namedField "properties" props ++
          valueField "additionalProperties" extra ++ namedField "patternProperties" patterns ++
          namedField "dependencies" (.obj dependencies) ++ valueField "additionalItems" additional ++
          namedField "definitions" (.obj (definitions.map fun x => (x.1, x.2.2))),
        oneOf, oneWritten, ?_, ?_, ?_⟩
      · refine Among.append (Among.append (Among.append (amongFront.mono (by decide)) ?_) ?_) ?_
        · exact among_listField (by decide) _
        · exact among_valueField (by decide) _
        · exact among_listField (by decide) _
      · repeat' apply Among.append
        all_goals first | apply among_valueField | apply among_namedField | apply among_listField
        all_goals decide
      · simp only [List.append_assoc, Branch.key]
    · refine ⟨front ++ listField "required" (f.keywords.required.map .str) ++ valueField "items" items ++
          listField "allOf" allOf ++ listField "oneOf" oneOf,
        valueField "not" negated ++ namedField "properties" props ++
          valueField "additionalProperties" extra ++ namedField "patternProperties" patterns ++
          namedField "dependencies" (.obj dependencies) ++ valueField "additionalItems" additional ++
          namedField "definitions" (.obj (definitions.map fun x => (x.1, x.2.2))),
        anyOf, anyWritten, ?_, ?_, ?_⟩
      · refine Among.append (Among.append (Among.append (Among.append (amongFront.mono (by decide)) ?_) ?_) ?_) ?_
        · exact among_listField (by decide) _
        · exact among_valueField (by decide) _
        · exact among_listField (by decide) _
        · exact among_listField (by decide) _
      · repeat' apply Among.append
        all_goals first | apply among_valueField | apply among_namedField
        all_goals decide
      · simp only [List.append_assoc, Branch.key]

theorem toJson_choices (alternative : b ∈ [Branch.oneOf, .anyOf]) (unmistakable : UnmistakableFor b f)
    (written : toJson? f = some j) :
    ∃ fields items, j = .obj fields ∧ (b.choices f).mapM toJson? = some items ∧ Lists b fields items := by
  obtain ⟨raw, spelled, rfl⟩ := Option.map_eq_some_iff.mp written
  obtain ⟨before, after, items, listed, amongBefore, amongAfter, rfl⟩ := write_choices alternative spelled
  have others := spelled_keysBut alternative
  have back : ∀ key ∈ "$ref" :: backKeys, key ∈ keysBut b := by
    clear others
    revert alternative
    cases b <;> decide
  have trailing : ∀ key ∈ keys (trailingFields f.keywords), foldKey key ≠ foldKey b.key := by
    intro key inside
    rcases mem_keys_trailingFields inside with ⟨kv, unknown, rfl⟩ | ⟨rfl, _⟩ | known
    · exact unmistakable kv unknown
    · exact (others _ (back _ List.mem_cons_self)).1
    · exact (others _ (back _ (List.mem_cons_of_mem _ known))).1
  refine ⟨_, Json.canonicalItems items, canonical_obj _, toJson_mapM listed, ⟨?_, ?_, ?_⟩⟩
  · exact Json.ascending_sortFields _
  · intro key inside folded
    rw [mem_keys_canonical] at inside
    simp only [Json.keys_append, List.mem_append] at inside
    rcases inside with inside | inside | inside | inside
    · exact absurd folded (others key (amongBefore key inside)).1
    · exact List.mem_singleton.mp (among_listField (List.mem_singleton.mpr rfl) _ key inside)
    · exact absurd folded (others key (amongAfter key inside)).1
    · exact absurd folded (trailing key inside)
  · refine lookup_items items ?_ ?_
    · exact fun inside => (others _ (amongBefore _ inside)).2 rfl
    · rw [Json.keys_append, List.mem_append]
      rintro (inside | inside)
      · exact (others _ (amongAfter _ inside)).2 rfl
      · exact trailing _ inside rfl

end writing

section merging

variable {x y : List (String × Json)} {l r : List Json} {f m e e' : Fragment} {fs : List Fragment}

theorem Exact.merge (first : Exact b x) (second : Exact b y) : Exact b (Json.mergeFields x y) := by
  intro key inside folded
  rcases (Json.keys_mergeFields x y).mp inside with older | newer
  · exact first key older folded
  · exact second key newer folded

theorem Lists.merge (first : Lists b x l) (second : Lists b y r) :
    ∃ items, Lists b (Json.mergeFields x y) items ∧ (∀ j ∈ items, j ∈ l ∨ j ∈ r) ∧
      ∀ j, Has items j ↔ Has l j ∨ Has r j := by
  have ascending := Json.ascending_mergeFields y first.ascending
  have exact := first.exact.merge second.exact
  have found : (Json.mergeFields x y).lookup b.key = Json.mergedValue (x.lookup b.key) (y.lookup b.key) :=
    Json.lookup_mergeFields b.key second.ascending.nodup
  rw [first.listed, second.listed] at found
  by_cases nothing : l = []
  · subst nothing
    refine ⟨r, ⟨ascending, exact, ?_⟩, fun j inside => .inr inside, by simp⟩
    rw [found, if_pos rfl, Json.mergedValue_none_left]
  by_cases nothing' : r = []
  · subst nothing'
    refine ⟨l, ⟨ascending, exact, ?_⟩, fun j inside => .inl inside, by simp⟩
    rw [found, if_pos rfl, Json.mergedValue_none_right]
  · obtain ⟨added, joined, news⟩ := Json.union_news l r
    refine ⟨Json.union l r, ⟨ascending, exact, ?_⟩, ?_, fun j => Json.has_union⟩
    · have some : Json.union l r ≠ [] := by simp [joined, nothing]
      rw [found, if_neg nothing, if_neg nothing', if_neg some, Json.mergedValue, Json.mergeValue_arr]
    · intro j inside
      rw [joined, List.mem_append] at inside
      exact inside.imp_right fun inside => news.listed.subset inside

/-- A list of values that are the generic forms of alternatives of these fragments, all of them. -/
structure Collected (b : Branch) (fs : List Fragment) (items : List Json) : Prop where
  source : ∀ j ∈ items, ∃ f ∈ fs, ∃ e ∈ b.choices f, e.toJson? = some j
  kept : ∀ f ∈ fs, ∀ e ∈ b.choices f, ∃ j, e.toJson? = some j ∧ Has items j

theorem collected_nil : Collected b [] [] :=
  ⟨(fun _ inside => by cases inside), (fun _ inside => by cases inside)⟩

theorem Collected.snoc (collected : Collected b fs l) {own items : List Json}
    (written : (b.choices f).mapM toJson? = some own) (sub : ∀ j ∈ items, j ∈ l ∨ j ∈ own)
    (all : ∀ j, Has items j ↔ Has l j ∨ Has own j) : Collected b (fs ++ [f]) items := by
  have pairs := Model.forall₂_of_mapM_some written
  constructor
  · intro j inside
    rcases sub j inside with older | newer
    · obtain ⟨g, member, e, listed, form⟩ := collected.source j older
      exact ⟨g, List.mem_append_left _ member, e, listed, form⟩
    · obtain ⟨e, listed, form⟩ := Model.exists_of_forall₂ pairs newer
      exact ⟨f, by simp, e, listed, form⟩
  · intro g member e listed
    rcases List.mem_append.mp member with older | last
    · obtain ⟨j, form, has⟩ := collected.kept g older e listed
      exact ⟨j, form, (all j).mpr (.inl has)⟩
    · obtain rfl := List.mem_singleton.mp last
      obtain ⟨j, inside, form⟩ := Model.exists_of_forall₂ pairs.flip listed
      exact ⟨j, form, (all j).mpr (.inr (Json.has_of_mem inside))⟩

variable (alternative : b ∈ [Branch.oneOf, .anyOf])
include alternative

theorem collected_merge {raws : List Json} {before : List Fragment}
    (unmistakable : ∀ f ∈ fs, UnmistakableFor b f) (written : fs.mapM toJson? = some raws)
    (begun : Lists b x l) (collected : Collected b before l) :
    ∃ fields items, raws.foldl Json.merge (.obj x) = .obj fields ∧ Lists b fields items ∧
      Collected b (before ++ fs) items := by
  induction fs generalizing raws x l before with
  | nil =>
    cases written
    exact ⟨x, l, rfl, begun, by rwa [List.append_nil]⟩
  | cons f rest ih =>
    simp only [List.mapM_cons, Option.bind_eq_bind, Option.bind_eq_some_iff, Option.pure_def,
      Option.some.injEq] at written
    obtain ⟨raw, head, raws, tail, rfl⟩ := written
    obtain ⟨fields, own, rfl, forms, lists⟩ :=
      toJson_choices alternative (unmistakable f List.mem_cons_self) head
    obtain ⟨items, merged, sub, all⟩ := begun.merge lists
    rw [List.foldl_cons, Json.merge_obj, List.append_cons]
    exact ih (fun g inside => unmistakable g (List.mem_cons_of_mem _ inside)) tail merged
      (collected.snoc forms sub all)

def Restates (e e' : Fragment) : Prop :=
  ∃ j i, e.toJson? = some j ∧ i.same j = true ∧ decode? i = some e'

/-- A merged fragment has the alternatives of its parts, and no others. -/
theorem merge_choices (unmistakable : ∀ f ∈ fs, UnmistakableFor b f) (merged : merge? fs = some m) :
    (∀ f ∈ fs, ∀ e ∈ b.choices f, ∃ e' ∈ b.choices m, Restates e e') ∧
      ∀ e' ∈ b.choices m, ∃ f ∈ fs, ∃ e ∈ b.choices f, e.reread? = some e' := by
  simp only [merge?, Option.bind_eq_bind, Option.bind_eq_some_iff] at merged
  obtain ⟨raws, written, read⟩ := merged
  have empty : Lists b [] [] := ⟨List.Pairwise.nil, (fun _ inside => by cases inside), rfl⟩
  obtain ⟨fields, items, folded, lists, collected⟩ :=
    collected_merge alternative unmistakable written empty collected_nil
  rw [folded] at read
  have decoded := decode_choices alternative lists read
  rw [decodeItems_eq_mapM] at decoded
  have pairs := Model.forall₂_of_mapM_some decoded
  constructor
  · intro f member e listed
    obtain ⟨j, form, i, inside, same⟩ := collected.kept f member e listed
    obtain ⟨e', kept, back⟩ := Model.exists_of_forall₂ pairs.flip inside
    exact ⟨e', kept, j, i, form, same, back⟩
  · intro e' inside
    obtain ⟨j, item, back⟩ := Model.exists_of_forall₂ pairs inside
    obtain ⟨f, member, e, listed, form⟩ := collected.source j item
    exact ⟨f, member, e, listed, by rw [reread?, form, Option.bind_some, back]⟩

end merging

section references

variable {change : String → String} {f g : Fragment}

theorem mapM_bind_of {α β γ : Type} {first : α → Option β} {second : β → Option γ} {l : List α}
    {r : List β} {out : List γ} (begun : l.mapM first = some r) (done : r.mapM second = some out) :
    (l.mapM fun a => (first a).bind second) = some out := by
  induction l generalizing r out with
  | nil =>
    cases begun
    exact done
  | cons a rest ih =>
    simp only [List.mapM_cons, Option.bind_eq_bind, Option.bind_eq_some_iff, Option.pure_def,
      Option.some.injEq] at begun
    obtain ⟨b, head, bs, tail, rfl⟩ := begun
    simp only [List.mapM_cons, Option.bind_eq_bind, Option.bind_eq_some_iff, Option.pure_def,
      Option.some.injEq] at done
    obtain ⟨c, head', cs, tail', rfl⟩ := done
    simp [List.mapM_cons, head, head', ih tail tail']

theorem Exact.unmistakable {fields : List (String × Json)} (exact : Exact b fields)
    (read : decode? (.obj fields) = some f) : UnmistakableFor b f := by
  rw [decode?] at read
  obtain ⟨extensions, extras⟩ := Model.decodeFields_kept read
  have known : knownKeys.contains b.key = true := by cases b <;> decide
  intro kv inside folded
  rw [extensions, extras] at inside
  have found : kv ∈ fields.filter fun kv => !knownKeys.contains kv.1 := by
    rcases List.mem_append.mp inside with inside | inside
    · exact (List.mem_filter.mp inside).1
    · exact (List.mem_filter.mp inside).1
  obtain ⟨inside, unknown⟩ := List.mem_filter.mp found
  have same := exact kv.1 (List.mem_map_of_mem inside) folded
  rw [same, known] at unknown
  cases unknown

theorem mapRefs_choices (alternative : b ∈ [Branch.oneOf, .anyOf]) (unmistakable : UnmistakableFor b f)
    (changed : f.mapRefs? change = some g) :
    (b.choices f).mapM (mapRefs? change) = some (b.choices g) ∧ UnmistakableFor b g := by
  simp only [mapRefs?, Option.bind_eq_bind, Option.bind_eq_some_iff] at changed
  obtain ⟨raw, written, read⟩ := changed
  obtain ⟨fields, items, rfl, forms, lists⟩ := toJson_choices alternative unmistakable written
  rw [Json.mapRefs] at read
  have other : b.key ≠ "$ref" := by cases b <;> decide
  have lists' : Lists b (Json.mapRefsFields change fields) (items.map (Json.mapRefs change)) := by
    refine ⟨?_, ?_, ?_⟩
    · rw [Ascending, keys_mapRefsFields]
      exact lists.ascending
    · rw [Exact, keys_mapRefsFields]
      exact lists.exact
    · rw [lookup_mapRefsFields change other, lists.listed]
      cases items with
      | nil => rfl
      | cons j rest => simp [Json.mapRefs, mapRefsItems_eq_map]
  refine ⟨?_, lists'.exact.unmistakable read⟩
  have decoded := decode_choices alternative lists' read
  rw [decodeItems_eq_mapM, List.mapM_map] at decoded
  exact mapM_bind_of forms decoded

end references

end Typesmith.Fragment
