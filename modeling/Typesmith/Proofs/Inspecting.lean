import Typesmith.Project.Inspect
import Typesmith.Proofs.Following
import Typesmith.Proofs.Heading
import Typesmith.Proofs.Keys
import Typesmith.Proofs.Viewing

namespace Typesmith.Model

open Fragment

/-- How the kind by the type of a value as it was written and that of its fragment come to differ. -/
inductive Mistyped (j : Json) (f : Fragment) : Prop
  | listed {name : String} (form : (features j).type = .other) (left : (stripped f).keywords.types = [name])
      (known : name ∈ typeNames)
  /-- A type that is no text comes down to none, and then the parts count. -/
  | untyped (form : (features j).type = .other) (left : (stripped f).keywords.types = [])
      (parts : (Features.ofFragment f).record = true ∨ (Features.ofFragment f).list = true)
  | record (form : (features j).type = .absent) (written : (features j).record = true)
      (nothing : (Features.ofFragment f).record = false)
  | list (form : (features j).type = .absent) (other : (features j).record = false)
      (written : (features j).list = true) (nothing : (Features.ofFragment f).list = false)

/-- How the kind of a value as it was written and that of its fragment without `null` come to differ,
where there is no combinator. -/
inductive Misjudged (j : Json) (f : Fragment) : Prop
  /-- Several types are left, be it `null` alone: they are a union under a name. -/
  | several (types : 1 < (stripped f).keywords.types.length) (hollow : (stripped f).keywords.enum = [])
  | emptied (plain : (features j).generic = false) (valued : f.keywords.enum ≠ [])
      (null : ∀ v ∈ f.keywords.enum, v.isNull = true) (mixed : onlyNull f = false)
  | typed (plain : (features j).generic = false) (hollow : f.keywords.enum = []) (differs : Mistyped j f)

namespace Features

def basic (seen : Features) : Kind :=
  seen.type.kind seen.record seen.list

def typed (seen : Features) : Kind :=
  if seen.basic = .any && seen.classed then .external else seen.basic

variable {p q : Features}

theorem kind_eq (seen : Features) : seen.kind = if seen.generic then .generic
    else if seen.combined then .someOf else if seen.valued then .enum else seen.typed :=
  rfl

theorem basic_mem (seen : Features) :
    seen.basic ∈ [Kind.number, .string, .object, .array, .boolean, .null, .any] := by
  unfold basic
  cases seen.type with
  | absent => cases seen.record <;> cases seen.list <;> decide
  | text name =>
    by_cases known : name ∈ typeNames
    · have each : ∀ name ∈ typeNames,
        typeKind name ∈ [Kind.number, .string, .object, .array, .boolean, .null, .any] := by decide
      exact each name known
    · rw [TypeSeen.kind, typeKind_unknown known]
      decide
  | other => cases seen.record <;> cases seen.list <;> decide

theorem basic_ne_external (seen : Features) : seen.basic ≠ .external := by
  intro same
  have basic := same ▸ seen.basic_mem
  revert basic
  decide

theorem typed_apart (seen : Features) : seen.typed ≠ .enum ∧ seen.typed ≠ .someOf := by
  have basic := seen.basic_mem
  have apart (kind : Kind) (other : kind ∉ [Kind.number, .string, .object, .array, .boolean, .null, .any])
      (same : seen.basic = kind) : False := other (same ▸ basic)
  unfold typed
  split
  · decide
  · exact ⟨apart .enum (by decide), apart .someOf (by decide)⟩

theorem kind_ne_someOf {seen : Features} (alone : seen.combined = false) : seen.kind ≠ .someOf := by
  have typed := seen.typed_apart.2
  rw [kind_eq, alone]
  cases seen.generic <;> cases seen.valued <;> simp [typed]

theorem typed_eq_iff (classed : p.classed = q.classed) : p.typed = q.typed ↔ p.basic = q.basic := by
  refine ⟨fun same => ?_, fun same => by rw [typed, typed, same, classed]⟩
  unfold typed at same
  split at same <;> split at same
  · rename_i first second
    simp only [Bool.and_eq_true, decide_eq_true_eq] at first second
    exact first.1.trans second.1.symm
  · exact absurd same.symm q.basic_ne_external
  · exact absurd same p.basic_ne_external
  · exact same

theorem kind_eq_iff (generic : p.generic = q.generic) (combined : p.combined = q.combined)
    (classed : p.classed = q.classed) : p.kind = q.kind ↔ (p.generic = false → p.combined = false →
      p.valued = q.valued ∧ (p.valued = false → p.basic = q.basic)) := by
  have first := p.typed_apart.1
  have second := q.typed_apart.1
  rw [kind_eq, kind_eq, ← generic, ← combined, ← typed_eq_iff classed]
  cases p.generic <;> cases p.combined <;> cases p.valued <;> cases q.valued <;> simp_all [eq_comm]

end Features

section

variable {j : Json} {f : Fragment}

theorem features_stripped (f : Fragment) : Features.ofFragment (stripped f) =
    { Features.ofFragment f with
      valued := (Features.ofFragment (stripped f)).valued
      type := (Features.ofFragment (stripped f)).type } := by
  unfold stripped
  split <;> rfl

theorem stripped_enum_eq_nil_iff : (stripped f).keywords.enum = [] ↔ f.keywords.enum = [] ∨
    (∀ v ∈ f.keywords.enum, v.isNull = true) ∧ onlyNull f = false := by
  rcases stripped_cases f with ⟨kept, same⟩ | ⟨dropped, same⟩
  · have mixed : onlyNull f = false := by
      simp only [keepsNull, Bool.and_eq_true, Bool.not_eq_true'] at kept
      exact kept.2
    rw [same]
    simp only [withoutNull, List.filter_eq_nil_iff, Bool.not_eq_true', Bool.not_eq_false, mixed, and_true]
    refine ⟨.inr, fun nothing => ?_⟩
    rcases nothing with hollow | null
    · simp [hollow]
    · exact null
  · rw [same]
    refine ⟨.inl, fun nothing => ?_⟩
    rcases nothing with hollow | ⟨null, mixed⟩
    · exact hollow
    · by_contra valued
      obtain ⟨v, rest, values⟩ := List.exists_cons_of_ne_nil valued
      have first : v.isNull = true := null v (by simp [values])
      simp [keepsNull, isNullable, mixed, values, first] at dropped

theorem valued_stripped_iff :
    (Features.ofFragment f).valued = (Features.ofFragment (stripped f)).valued ↔
      f.keywords.enum = [] ∨ (stripped f).keywords.enum ≠ [] := by
  have fewer : f.keywords.enum = [] → (stripped f).keywords.enum = [] :=
    fun hollow => stripped_enum_eq_nil_iff.mpr (.inl hollow)
  simp only [Features.ofFragment]
  cases whole : f.keywords.enum with
  | nil => simp [fewer whole]
  | cons => cases (stripped f).keywords.enum <;> simp

theorem typeKind_eq_any_iff {name : String} : typeKind name = .any ↔ name ∉ typeNames := by
  refine ⟨fun any known => ?_, typeKind_unknown⟩
  have each : ∀ name ∈ typeNames, typeKind name ≠ .any := by decide
  exact each name known any

theorem mistyped_absent (form : (features j).type = .absent) : Mistyped j f ↔
    (features j).record = true ∧ (Features.ofFragment f).record = false ∨
      (features j).record = false ∧ (features j).list = true ∧ (Features.ofFragment f).list = false := by
  constructor
  · rintro (⟨other, _, _⟩ | ⟨other, _, _⟩ | ⟨_, written, nothing⟩ | ⟨_, other, written, nothing⟩)
    · cases form.symm.trans other
    · cases form.symm.trans other
    · exact .inl ⟨written, nothing⟩
    · exact .inr ⟨other, written, nothing⟩
  · rintro (⟨written, nothing⟩ | ⟨other, written, nothing⟩)
    · exact .record form written nothing
    · exact .list form other written nothing

theorem not_mistyped_text {name : String} (form : (features j).type = .text name) : ¬ Mistyped j f := by
  rintro (⟨other, _, _⟩ | ⟨other, _, _⟩ | ⟨other, _, _⟩ | ⟨other, _, _, _⟩) <;>
    cases form.symm.trans other

theorem mistyped_other (form : (features j).type = .other) : Mistyped j f ↔
    (∃ name ∈ typeNames, (stripped f).keywords.types = [name]) ∨
      (stripped f).keywords.types = [] ∧
        ((Features.ofFragment f).record = true ∨ (Features.ofFragment f).list = true) := by
  constructor
  · rintro (⟨_, left, known⟩ | ⟨_, left, parts⟩ | ⟨other, _, _⟩ | ⟨other, _, _, _⟩)
    · exact .inl ⟨_, known, left⟩
    · exact .inr ⟨left, parts⟩
    · cases form.symm.trans other
    · cases form.symm.trans other
  · rintro (⟨name, known, left⟩ | ⟨left, parts⟩)
    · exact .listed form left known
    · exact .untyped form left parts

theorem absent_kind_ne_iff {record list record' list' : Bool} (records : record' = true → record = true)
    (lists : list' = true → list = true) :
    TypeSeen.absent.kind record list ≠ TypeSeen.absent.kind record' list' ↔
      record = true ∧ record' = false ∨ record = false ∧ list = true ∧ list' = false := by
  revert record list record' list'
  decide

theorem absent_kind_eq_any_iff {record list : Bool} :
    TypeSeen.absent.kind record list = .any ↔ ¬ (record = true ∨ list = true) := by
  revert record list
  decide

/-- A text is all that both sides look at. From any other type the fragment keeps the names, which the value
as it was written does not show. -/
theorem Mirrors.mistyped_iff (mirrors : Mirrors j f) :
    Mistyped j f ↔ (features j).basic ≠ (Features.ofFragment (stripped f)).basic := by
  have record : (Features.ofFragment (stripped f)).record = (Features.ofFragment f).record := by
    rw [features_stripped]
  have list : (Features.ofFragment (stripped f)).list = (Features.ofFragment f).list := by
    rw [features_stripped]
  rw [Features.basic, Features.basic, record, list]
  cases form : (features j).type with
  | absent =>
    rw [mistyped_absent form, Features.type_nil (stripped_untyped (mirrors.absent form)),
      absent_kind_ne_iff mirrors.record mirrors.list]
  | text name =>
    rw [Features.type_single (stripped_types (mirrors.text name form))]
    exact iff_of_false (not_mistyped_text form) fun differs => differs rfl
  | other =>
    rw [mistyped_other form]
    change _ ↔ Kind.any ≠ _
    cases left : (stripped f).keywords.types with
    | nil =>
      rw [Features.type_nil left, ne_comm, Ne, absent_kind_eq_any_iff, not_not]
      simp
    | cons name rest =>
      cases rest with
      | nil =>
        rw [Features.type_single left, TypeSeen.kind, ne_comm, Ne, typeKind_eq_any_iff]
        simp
      | cons _ _ =>
        rw [Features.type_several left]
        simp [TypeSeen.kind]

theorem Mirrors.kind_eq_iff (mirrors : Mirrors j f) :
    (features j).kind = headKind f ↔ (f.combinator? = none → ¬ Misjudged j f) := by
  have whole := features_stripped f
  have generic : (features j).generic = (Features.ofFragment (stripped f)).generic := by
    rw [whole]
    exact mirrors.generic
  have combined : (features j).combined = (Features.ofFragment (stripped f)).combined := by
    rw [whole]
    exact mirrors.combined
  have classed : (features j).classed = (Features.ofFragment (stripped f)).classed := by
    rw [whole]
    exact mirrors.classed
  have alone : (features j).combined = false ↔ f.combinator? = none := by
    rw [mirrors.combined]
    simp [Features.ofFragment]
  have compared := Features.kind_eq_iff generic combined classed
  have valued : (features j).valued = (Features.ofFragment (stripped f)).valued ↔
      f.keywords.enum = [] ∨ (stripped f).keywords.enum ≠ [] := by
    rw [mirrors.valued, valued_stripped_iff]
  unfold headKind
  -- a fragment of several types stands for a union, which is never the kind of a value without a combinator
  split
  · rename_i several
    simp only [isMultiType, stripped_combinator, Bool.and_eq_true, decide_eq_true_eq, List.isEmpty_iff,
      Option.isNone_iff_eq_none] at several
    obtain ⟨⟨types, none⟩, hollow⟩ := several
    exact iff_of_false (Features.kind_ne_someOf (alone.mpr none)) fun fair => fair none (.several types hollow)
  · rename_i single
    rw [compared]
    constructor
    · rintro agree none (⟨types, hollow⟩ | ⟨plain, some, null, mixed⟩ | ⟨plain, hollow, differs⟩)
      · exact single (by simp [isMultiType, types, hollow, none])
      · rcases valued.mp (agree plain (alone.mpr none)).1 with hollow | left
        · exact some hollow
        · exact left (stripped_enum_eq_nil_iff.mpr (.inr ⟨null, mixed⟩))
      · refine mirrors.mistyped_iff.mp differs ((agree plain (alone.mpr none)).2 ?_)
        rw [mirrors.valued]
        simp [Features.ofFragment, hollow]
    · intro fair plain combined
      have just := fair (alone.mp combined)
      refine ⟨valued.mpr (or_iff_not_imp_left.mpr fun some nothing => ?_), fun unvalued => ?_⟩
      · obtain ⟨null, mixed⟩ := (stripped_enum_eq_nil_iff.mp nothing).resolve_left some
        exact just (.emptied plain some null mixed)
      · rw [mirrors.valued] at unvalued
        have hollow : f.keywords.enum = [] := by simpa [Features.ofFragment] using unvalued
        by_contra differs
        exact just (.typed plain hollow (mirrors.mistyped_iff.mpr differs))

end

def reading? : Json → Option Fragment
  | .bool _ => some {}
  | .obj fields => decode? (.obj fields)
  | _ => none

theorem mirrors_reading {j : Json} {f : Fragment} (spelled : ∀ fields, j = .obj fields → Spelled fields)
    (read : reading? j = some f) : Mirrors j f := by
  cases j with
  | bool b =>
    cases read
    exact mirrors_bool b
  | obj fields => exact mirrors_decode (spelled fields rfl) read
  | _ => cases read

theorem fragment_reading {r : Resolver} {ref : String} {j : Json} {f : Fragment} (found : r.lookup ref = .ok j)
    (resolved : r.fragment ref = .ok f) : reading? j = some f := by
  cases j with
  | obj fields => exact (Resolver.fragment_eq_ok_iff found).mp resolved
  | bool b =>
    rw [Resolver.fragment, found] at resolved
    cases resolved
    rfl
  | _ =>
    rw [Resolver.fragment, found] at resolved
    cases resolved

end Typesmith.Model

namespace Typesmith

theorem Json.step?_of_get? {j v : Json} {key : String} (found : j.get? key = some v) : j.step? key = some v := by
  cases j with
  | obj fields => exact found
  | _ => cases found

namespace Text

theorem split_append_free (sep : Char) (a : String) : ∃ above last, ∀ b : String, sep ∉ b.toList →
    split sep (a ++ b) = above ++ [last ++ b] := by
  suffices letters : ∀ l : List Char, ∃ above last, ∀ b, sep ∉ b →
      splitChars sep (l ++ b) = above ++ [last ++ b] by
    obtain ⟨above, last, longer⟩ := letters a.toList
    refine ⟨above.map String.ofList, String.ofList last, fun b free => ?_⟩
    simp [split, longer b.toList free]
  intro l
  induction l with
  | nil => exact ⟨[], [], fun b free => splitChars_eq_singleton free⟩
  | cons c rest ih =>
    obtain ⟨above, last, longer⟩ := ih
    by_cases same : c = sep
    · refine ⟨[] :: above, last, fun b free => ?_⟩
      rw [List.cons_append, splitChars, if_pos same, longer b free, List.cons_append]
    · cases above with
      | nil =>
        refine ⟨[], c :: last, fun b free => ?_⟩
        rw [List.cons_append, splitChars, if_neg same, longer b free]
        rfl
      | cons piece above =>
        refine ⟨(c :: piece) :: above, last, fun b free => ?_⟩
        rw [List.cons_append, splitChars, if_neg same, longer b free]
        rfl

theorem split_append_tab (a b : String) : split '\t' (a ++ "\t" ++ b) = split '\t' a ++ split '\t' b :=
  split_append rfl a b

end Text

theorem Kind.ofLabel_label (kind : Kind) : ofLabel kind.label = kind := by
  cases kind <;> decide

theorem Kind.label_injective : Function.Injective label :=
  Function.LeftInverse.injective ofLabel_label

namespace Project

open Text Model Fragment

def shown (j : Json) : String × Kind :=
  match Rule.match? Rule.defaults j with
  | some rule => (rule.name, rule.kind)
  | none => ("any", .any)

def componentRows (component : String × Json) : List (List String) :=
  (split '\n' (component.1 ++ "\t" ++ (shown component.2).1 ++ "\t" ++ (shown component.2).2.label)).map
    (split '\t')

def Prints (doc : Document) (name : String) (kind : Kind) : Prop :=
  ∃ j above cells, doc.components.lookup name = some j ∧
    componentRows (name, j) = above ++ [cells ++ [kind.label]]

theorem tableRows_eq (doc : Document) :
    tableRows doc = ["SCHEMA", "RULE", "KIND"] :: doc.components.flatMap componentRows := by
  have heading : (split '\n' "SCHEMA\tRULE\tKIND").map (split '\t') = [["SCHEMA", "RULE", "KIND"]] := by decide
  rw [tableRows, List.flatMap_cons, List.map_append, heading, List.singleton_append, List.flatMap_map,
    List.map_flatMap]
  refine congrArg (List.cons _) (List.flatMap_congr fun component _ => ?_)
  unfold componentRows shown
  cases Rule.match? Rule.defaults component.2 <;> rfl

theorem shown_kind (j : Json) : (shown j).2 = (features j).kind := by
  rw [← kind_features, shown]
  cases Rule.match? Rule.defaults j <;> rfl

theorem shown_whole (j : Json) : ('\n' ∉ (shown j).1.toList ∧ '\n' ∉ (shown j).2.label.toList) ∧
    '\t' ∉ (shown j).1.toList ∧ '\t' ∉ (shown j).2.label.toList := by
  have each : ∀ rule ∈ Rule.defaults, ('\n' ∉ rule.name.toList ∧ '\n' ∉ rule.kind.label.toList) ∧
      '\t' ∉ rule.name.toList ∧ '\t' ∉ rule.kind.label.toList := by decide
  unfold shown
  cases found : Rule.match? Rule.defaults j with
  | none => decide
  | some rule => exact each rule (List.mem_of_find?_eq_some found)

theorem componentRows_eq (name : String) : ∃ above cells, ∀ j,
    componentRows (name, j) = above ++ [cells ++ [(shown j).1, (shown j).2.label]] := by
  obtain ⟨above, last, longer⟩ := split_append_free '\n' name
  refine ⟨above.map (split '\t'), split '\t' last, fun j => ?_⟩
  obtain ⟨⟨ruleLine, kindLine⟩, ruleCell, kindCell⟩ := shown_whole j
  have behind : '\n' ∉ ("\t" ++ (shown j).1 ++ "\t" ++ (shown j).2.label).toList := by
    simp [ruleLine, kindLine]
  have row := longer _ behind
  simp only [← String.append_assoc] at row
  rw [componentRows, row, List.map_append, List.map_singleton, split_append_tab, split_append_tab,
    split_eq_singleton ruleCell, split_eq_singleton kindCell, List.append_assoc]
  rfl

theorem prints_iff {doc : Document} {name : String} {j : Json} {kind : Kind}
    (listed : doc.components.lookup name = some j) : Prints doc name kind ↔ kind = (features j).kind := by
  obtain ⟨above, cells, rows⟩ := componentRows_eq name
  rw [← shown_kind]
  constructor
  · rintro ⟨j', above', cells', listed', rows'⟩
    cases listed.symm.trans listed'
    have last := congrArg List.getLast? ((rows j).symm.trans rows')
    simp only [List.getLast?_append, List.getLast?_singleton, Option.some_or, Option.some.injEq] at last
    have cell := congrArg List.getLast? last
    simp only [List.getLast?_append, List.getLast?_cons_cons, List.getLast?_singleton, Option.some_or,
      Option.some.injEq] at cell
    exact Kind.label_injective cell.symm
  · rintro rfl
    refine ⟨j, above, cells ++ [(shown j).1], listed, ?_⟩
    rw [rows j, List.append_assoc, List.singleton_append]

theorem along?_component {doc : Document} {name : String} {j : Json}
    (listed : doc.components.lookup name = some j) :
    doc.root.along? ["components", "schemas", name] = some j := by
  have schemas : ∃ fields, (doc.root.getD "components").get? "schemas" = some (.obj fields) ∧
      fields.lookup name = some j := by
    unfold Document.components Json.fieldsAt at listed
    cases found : (doc.root.getD "components").get? "schemas" with
    | none =>
      rw [found] at listed
      cases listed
    | some v =>
      rw [found] at listed
      cases v with
      | obj fields => exact ⟨fields, rfl, listed⟩
      | _ => cases listed
  obtain ⟨fields, below, last⟩ := schemas
  have top : doc.root.get? "components" = some (doc.root.getD "components") := by
    unfold Json.getD at below ⊢
    cases found : doc.root.get? "components" with
    | none =>
      rw [found] at below
      cases below
    | some v => rfl
  rw [Json.along?_cons, Json.step?_of_get? top, Option.bind_some, Json.along?_cons, Json.step?_of_get? below,
    Option.bind_some, Json.along?_cons]
  exact congrArg (Option.bind · _) last

/-- The table and a request for a component agree on the kind of the first alternative if and only if the
component is not misjudged. -/
theorem inspected_kind_iff {cfg : Setting} {doc : Document} {s t : Store} {c : Container} {name : String}
    {j : Json} (rules : cfg.rules = Rule.defaults) (plain : cfg.overrides = [])
    (own : cfg.resolver.EntriesOnly) (root : cfg.resolver.root = doc.root) (requests : Requests cfg {} s)
    (listed : doc.components.lookup name = some j) (whole : '\\' ∉ name.toList)
    (spelled : ∀ fields, j = .obj fields → Spelled fields)
    (run : Returns (findOrCreate cfg (Reference.component name)) s c t) :
    tableRows doc = ["SCHEMA", "RULE", "KIND"] :: doc.components.flatMap componentRows ∧
      ∃ f, reading? j = some f ∧ (f.isRef = false → ∃ id rest d, c = id :: rest ∧ t.get? id = some d ∧
        (Prints doc name d.kind ↔ (f.combinator? = none → ¬ Misjudged j f))) := by
  have reaches := (Resolver.reaches_component own name).plain (by simpa using whole)
  obtain ⟨f, resolved, headed⟩ := (findOrCreate_headed rules plain run requests.unfold.1.named
    (requests.announced rules plain)).2
  rw [Resolver.fragment_normalize] at resolved
  obtain ⟨v, found, _⟩ := except_bind_ok.mp resolved
  obtain ⟨_, reached⟩ := (reaches.2 v).mp found
  -- What the reference reaches is the component: its name stays whole without a backslash.
  rw [root, along?_component listed] at reached
  cases reached
  have read := fragment_reading found resolved
  have mirrors := mirrors_reading spelled read
  refine ⟨tableRows_eq doc, f, read, fun isRef => ?_⟩
  obtain ⟨id, rest, rfl, d, stored, kind⟩ := headed isRef mirrors.kept
  refine ⟨id, rest, d, rfl, stored, ?_⟩
  rw [prints_iff listed, kind, eq_comm, mirrors.kind_eq_iff]

def lone (schema : Json) : Document :=
  ⟨"", "", Json.nest ["components", "schemas", "Bee"] schema⟩

def loneSetting (schema : Json) : Setting where
  resolver := { root := (lone schema).root }

def nullableText : Json :=
  .obj [("nullable", .bool true), ("type", .str "string")]

theorem inspected_kind_iff_nullableText :
    ∃ t d, Returns (findOrCreate (loneSetting nullableText) (Reference.component "Bee")) {} [0, 1] t ∧
      t.get? 0 = some d ∧ Prints (lone nullableText) "Bee" d.kind := by
  have run : Returns (findOrCreate (loneSetting nullableText) (Reference.component "Bee")) {} [0, 1] _ :=
    returns_deepening_first _ (by decide +kernel)
  have spelled : ∀ fields, nullableText = .obj fields → Spelled fields := by
    intro fields same
    cases same
    constructor <;> decide
  have bare : (loneSetting nullableText).resolver.EntriesOnly := fun _ inside => absurd inside List.not_mem_nil
  have listed : (lone nullableText).components.lookup "Bee" = some nullableText := rfl
  obtain ⟨_, f, read, agree⟩ := inspected_kind_iff rfl rfl bare rfl .none listed (by decide) spelled run
  have known : reading? nullableText = some { keywords := { types := ["string"], nullable := true } } := rfl
  cases read.symm.trans known
  obtain ⟨id, rest, d, same, stored, agreed⟩ := agree rfl
  cases same
  refine ⟨_, d, run, stored, agreed.mpr fun _ misjudged => ?_⟩
  rcases misjudged with ⟨several, _⟩ | ⟨_, valued, _, _⟩ | ⟨_, _, differs⟩
  · exact absurd several (by decide)
  · exact valued rfl
  · rcases differs with ⟨form, _, _⟩ | ⟨form, _, _⟩ | ⟨form, _, _⟩ | ⟨form, _, _, _⟩ <;> cases form

def textOrNull : Json :=
  .obj [("type", .arr [.str "string", .str "null"])]

/-- The table says `any` where the request answers with a text. -/
theorem inspected_kind_lost :
    tables [lone textOrNull] = "SCHEMA  RULE  KIND\nBee     any   any\n" ∧
      ∃ f t d, reading? textOrNull = some f ∧ f.isRef = false ∧ f.nonNullTypes.length ≤ 1 ∧
        Returns (findOrCreate (loneSetting textOrNull) (Reference.component "Bee")) {} [0, 1] t ∧
        t.get? 0 = some d ∧ ¬ Prints (lone textOrNull) "Bee" d.kind := by
  have run : Returns (findOrCreate (loneSetting textOrNull) (Reference.component "Bee")) {} [0, 1] _ :=
    returns_deepening_first _ (by decide +kernel)
  have first : ((exec (findOrCreateWith (loneSetting textOrNull) (convertDepth (loneSetting textOrNull)
      firstDepth) (Reference.component "Bee")) {}).2.get? 0).map (·.kind) = some .string := by decide +kernel
  obtain ⟨d, stored, kind⟩ := Option.map_eq_some_iff.mp first
  have listed : (lone textOrNull).components.lookup "Bee" = some textOrNull := rfl
  refine ⟨by decide +kernel, _, _, d, rfl, rfl, by decide, run, stored, fun printed => ?_⟩
  rw [prints_iff listed, kind] at printed
  exact absurd printed (by decide)

end Project

end Typesmith
