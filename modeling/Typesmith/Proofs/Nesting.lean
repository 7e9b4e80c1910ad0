import Mathlib.Logic.Relation
import Typesmith.Proofs.Step
import Typesmith.Proofs.Weight

namespace Typesmith.Model

open Fragment

abbrev Spot := Bool × Fragment

/-- The second fragment is converted inside the first one. -/
inductive Nests (cfg : Setting) (base : String) : Spot → Spot → Prop
  | node {named : Bool} {f g : Fragment} {raw : Json} {gs : List Fragment} (isRef : f.isRef = false)
      (single : isMultiType (stripped f) = false) (written : (stripped f).toJson? = some raw)
      (inner : Inner cfg base (kindOf cfg raw) (stripped f) gs) (inside : g ∈ gs) :
      Nests cfg base (named, f) (false, g)
  | chosen {named : Bool} {f g : Fragment} {raw : Json} {key : String} (isRef : f.isRef = false)
      (single : isMultiType (stripped f) = false) (written : (stripped f).toJson? = some raw)
      (generic : kindOf cfg raw = .generic) (known : key ∈ caseKeys (stripped f))
      (decoded : Fragment.decode? (caseJson (stripped f) key) = some g) :
      Nests cfg base (named, f) (false, g)
  | types {f g : Fragment} (isRef : f.isRef = false) (multi : isMultiType (stripped f) = true)
      (inside : g ∈ typeBranches (stripped f)) : Nests cfg base (false, f) (false, g)
  | union {f : Fragment} (isRef : f.isRef = false) (multi : isMultiType (stripped f) = true) :
      Nests cfg base (true, f) (true, typesUnion (stripped f) (keepsNull f))

/-- The branches of the fragment are merged: members of `allOf` with each other, alternatives with
what their parent says about values. -/
def Merging (cfg : Setting) (f : Fragment) : Prop :=
  ∃ raw c members, (stripped f).toJson? = some raw ∧ kindOf cfg raw = .someOf ∧
    (stripped f).combinator? = some (c, members) ∧
    (c = .allOf ∨ (stripped f).commonPart.hasStructure = true)

def NestsPlainly (cfg : Setting) (base : String) (x y : Spot) : Prop :=
  Nests cfg base x y ∧ ¬ Merging cfg x.2

def NestsMerged (cfg : Setting) (base : String) (x y : Spot) : Prop :=
  Nests cfg base x y ∧ Merging cfg x.2

def MergesInside (cfg : Setting) (base : String) (x z : Spot) : Prop :=
  ∃ y, Relation.ReflTransGen (NestsPlainly cfg base) x y ∧ NestsMerged cfg base y z

theorem Nests.isRef {cfg : Setting} {base : String} {x y : Spot} (nests : Nests cfg base x y) :
    x.2.isRef = false := by
  cases nests <;> assumption

theorem weight_stripped (f : Fragment) : weight (stripped f) = weight f := by
  unfold stripped
  split
  · rw [weight_eq, weight_eq f]
    rfl
  · rfl

section

variable {cfg : Setting} {base : String}

theorem alternatives_eq {common : Fragment} (plain : common.hasStructure = false)
    {members branches : List Fragment}
    (chosen : (members.mapM fun member => alternative cfg common member base) = .ok branches) :
    branches = members := by
  have same : (fun member => alternative cfg common member base) = fun member => Except.ok member := by
    funext member
    rw [alternative, if_neg (by simp [plain])]
    rfl
  rw [same] at chosen
  clear same
  induction members generalizing branches with
  | nil =>
    cases chosen
    rfl
  | cons member rest ih =>
    rw [List.mapM_cons] at chosen
    obtain ⟨_, first, chosen⟩ := except_bind_ok.mp chosen
    obtain ⟨_, others, chosen⟩ := except_bind_ok.mp chosen
    cases first
    cases chosen
    rw [ih others]

theorem mem_caseKeys {f : Fragment} {key : String} (inside : key ∈ caseKeys f) :
    key ∈ Json.keys ((genericJson f).fieldsAt "cases") := by
  simp only [caseKeys, caseOrder, List.mem_append, List.mem_eraseDups, List.mem_filter,
    Text.sort, List.mem_mergeSort] at inside
  rcases inside with ⟨_, known⟩ | ⟨known, _⟩
  · simpa [Json.keys] using known
  · exact known

theorem size_of_lookup {fields : List (String × Json)} {key : String} {v : Json}
    (found : fields.lookup key = some v) : v.size ≤ Json.sizeFields fields :=
  Nat.le_trans (Nat.le_add_right _ _) (size_lookup_le found)

theorem caseJson_size {f : Fragment} {key : String} (inside : key ∈ caseKeys f) :
    (caseJson f key).size < genericWeight f.keywords := by
  obtain ⟨v, found⟩ := Json.lookup_of_mem_keys (mem_caseKeys inside)
  have same : caseJson f key = v := by
    rw [caseJson, found]
    rfl
  rw [same]
  unfold Json.fieldsAt genericJson at found
  unfold genericWeight
  cases extension : f.keywords.extensions.lookup genericKeyword with
  | none =>
    rw [extension] at found
    cases found
  | some ext =>
    rw [extension] at found
    simp only [Option.getD_some, Option.map_some] at found ⊢
    cases ext with
    | obj fields =>
      simp only [Json.get?] at found
      cases cases : fields.lookup "cases" with
      | none =>
        rw [cases] at found
        cases found
      | some c =>
        rw [cases] at found
        cases c with
        | obj entries =>
          have outer := size_of_lookup cases
          have inner := size_of_lookup found
          simp only [Json.size, Option.bind_some, Json.obj?, Option.getD_some] at outer inner ⊢
          omega
        | _ => cases found
    | _ => cases found

theorem mem_of_mapM {α β : Type} {pick : α → Option β} {l : List α} {r : List β}
    (picked : l.mapM pick = some r) {b : β} (inside : b ∈ r) : ∃ a ∈ l, pick a = some b := by
  induction l generalizing r with
  | nil =>
    cases picked
    cases inside
  | cons a rest ih =>
    simp only [List.mapM_cons, Option.bind_eq_bind, Option.bind_eq_some_iff, Option.pure_def,
      Option.some.injEq] at picked
    obtain ⟨c, head, cs, tail, rfl⟩ := picked
    rcases List.mem_cons.mp inside with rfl | later
    · exact ⟨a, List.mem_cons_self, head⟩
    · obtain ⟨a', member, found⟩ := ih tail later
      exact ⟨a', List.mem_cons_of_mem _ member, found⟩

theorem mem_of_mapM_some {α β : Type} {pick : α → Option β} {l : List α} {r : List β}
    (picked : l.mapM pick = some r) {a : α} {b : β} (inside : a ∈ l) (one : pick a = some b) : b ∈ r := by
  induction l generalizing r with
  | nil => cases inside
  | cons head rest ih =>
    simp only [List.mapM_cons, Option.bind_eq_bind, Option.bind_eq_some_iff, Option.pure_def,
      Option.some.injEq] at picked
    obtain ⟨c, first, cs, others, rfl⟩ := picked
    rcases List.mem_cons.mp inside with rfl | later
    · rw [first] at one
      cases one
      exact List.mem_cons_self
    · exact List.mem_cons_of_mem _ (ih others later)

theorem weight_property {f g : Fragment} (inside : g ∈ f.properties.map (·.2)) :
    weight g ≤ weightNamed f.properties := by
  obtain ⟨p, member, rfl⟩ := List.mem_map.mp inside
  exact weight_le_named member

theorem weight_extra {f g : Fragment} (inside : g ∈ extraFragments f) :
    weight g ≤ weightExtent f.additionalProperties := by
  unfold extraFragments at inside
  split at inside
  · rename_i extra described
    rw [List.mem_singleton.mp inside, described]
    exact Nat.le_refl _
  · cases inside

theorem weight_item {f g : Fragment} (inside : g ∈ f.itemFragments) :
    weight g ≤ weightItems f.items := by
  unfold itemFragments at inside
  split at inside
  · rename_i item one
    rw [List.mem_singleton.mp inside, one]
    exact Nat.le_refl _
  · rename_i items many
    rw [many]
    exact weight_le_list inside
  · cases inside

theorem weight_member {f g : Fragment} {c : Combinator} {members : List Fragment}
    (combined : f.combinator? = some (c, members)) (separate : c ≠ .allOf) (inside : g ∈ members) :
    weight g ≤ weightList f.oneOf + weightList f.anyOf := by
  unfold combinator? at combined
  split at combined
  · cases combined
    have bound := weight_le_list inside
    omega
  · split at combined
    · cases combined
      have bound := weight_le_list inside
      omega
    · split at combined
      · cases combined
        exact absurd rfl separate
      · cases combined

theorem weight_case {f g : Fragment} {key : String} (known : key ∈ caseKeys f)
    (decoded : Fragment.decode? (caseJson f key) = some g) : weight g < weight f := by
  have bound := decode_weight decoded
  have smaller := caseJson_size known
  rw [weight_eq f]
  omega

theorem weight_inner {kind : Kind} {f g : Fragment} {gs : List Fragment}
    (plain : kind = .someOf → ∀ c members, f.combinator? = some (c, members) →
      c ≠ .allOf ∧ f.commonPart.hasStructure = false)
    (inner : Inner cfg base kind f gs) (inside : g ∈ gs) : weight g < weight f := by
  rw [weight_eq f]
  cases inner with
  | object =>
    rcases List.mem_append.mp inside with property | extra
    · have bound := weight_property property
      omega
    · have bound := weight_extra extra
      omega
  | array =>
    have bound := weight_item inside
    omega
  | allOf combined => exact absurd rfl (plain rfl _ _ combined).1
  | alternatives combined separate chosen =>
    rw [alternatives_eq (plain rfl _ _ combined).2 chosen] at inside
    have bound := weight_member combined separate inside
    omega
  | generic decoded =>
    obtain ⟨key, known, read⟩ := mem_of_mapM decoded inside
    rw [← weight_eq f]
    exact weight_case known read
  | leaf => cases inside

theorem isMultiType_stripped {f : Fragment} (few : f.keywords.types.length ≤ 1) :
    isMultiType (stripped f) = false := by
  have fewer : (stripped f).keywords.types.length ≤ 1 := by
    unfold stripped
    split
    · exact Nat.le_trans (List.length_filter_le _ _) few
    · exact few
  simp only [isMultiType, Bool.and_eq_false_iff, decide_eq_false_iff_not]
  exact .inl (.inl (by omega))

theorem weight_typeBranch {f g : Fragment} (inside : g ∈ typeBranches f) :
    weight g = weight f ∧ isMultiType (stripped g) = false := by
  obtain ⟨t, _, rfl⟩ := List.mem_map.mp inside
  constructor
  · rw [weight_eq, weight_eq f]
    rfl
  · exact isMultiType_stripped (Nat.le_refl 1)

/-- Twice the weight, and one more for a fragment that is read type by type. -/
def span (f : Fragment) : Nat :=
  2 * weight f + if isMultiType (stripped f) then 1 else 0

theorem span_lt {f g : Fragment} (lighter : weight g < weight f) : span g < span f := by
  unfold span
  split <;> split <;> omega

theorem acc_unnamed (f : Fragment) :
    Acc (fun y x => NestsPlainly cfg base x y) (false, f) := by
  induction size : span f using Nat.strongRecOn generalizing f with
  | _ n ih =>
    constructor
    rintro y ⟨nests, plain⟩
    cases nests with
    | node isRef single written inner inside =>
      refine ih (span _) ?_ _ rfl
      have lighter := weight_inner (fun kind c members combined => by
        constructor
        · rintro rfl
          exact plain ⟨_, _, members, written, kind, combined, .inl rfl⟩
        · by_contra structured
          exact plain ⟨_, c, members, written, kind, combined, .inr (by simpa using structured)⟩)
        inner inside
      rw [weight_stripped] at lighter
      rw [← size]
      exact span_lt lighter
    | chosen isRef single written generic known decoded =>
      refine ih (span _) ?_ _ rfl
      have lighter := weight_case known decoded
      rw [weight_stripped] at lighter
      rw [← size]
      exact span_lt lighter
    | types isRef multi inside =>
      refine ih (span _) ?_ _ rfl
      obtain ⟨same, one⟩ := weight_typeBranch inside
      rw [weight_stripped] at same
      rw [← size, span, span, same, one, multi]
      simp

theorem acc_plain (x : Spot) : Acc (fun y x => NestsPlainly cfg base x y) x := by
  obtain ⟨named, f⟩ := x
  cases named with
  | false => exact acc_unnamed f
  | true =>
    have single : ∀ g : Fragment, isMultiType (stripped g) = false →
        Acc (fun y x => NestsPlainly cfg base x y) (true, g) := by
      intro g one
      constructor
      rintro y ⟨nests, _⟩
      cases nests with
      | node => exact acc_unnamed _
      | chosen => exact acc_unnamed _
      | union _ multi =>
        rw [one] at multi
        cases multi
    constructor
    rintro y ⟨nests, _⟩
    cases nests with
    | node => exact acc_unnamed _
    | chosen => exact acc_unnamed _
    | union isRef multi =>
      exact single _ (isMultiType_stripped (Nat.zero_le 1))

/-- Without endless merging there is no endless nesting. -/
theorem acc_nests {x : Spot} (merges : Acc (fun z x => MergesInside cfg base x z) x) :
    Acc (fun y x => Nests cfg base x y) x := by
  induction merges with
  | intro x _ ih =>
    -- everything inside `x` up to the next merge is a part of it
    have inside : ∀ y, Acc (fun z y => NestsPlainly cfg base y z) y →
        Relation.ReflTransGen (NestsPlainly cfg base) x y → Acc (fun z y => Nests cfg base y z) y := by
      intro y parts
      induction parts with
      | intro y _ next =>
        intro path
        constructor
        intro z nests
        by_cases merging : Merging cfg y.2
        · exact ih z ⟨y, path, nests, merging⟩
        · exact next z ⟨nests, merging⟩ (path.tail ⟨nests, merging⟩)
    exact inside x (acc_plain x) .refl

/-- Where nesting ends, merging ends. -/
theorem acc_merges {x : Spot} (nests : Acc (fun y x => Nests cfg base x y) x) :
    Acc (fun z x => MergesInside cfg base x z) x := by
  have along := nests.transGen
  refine Subrelation.accessible ?_ along
  rintro z x ⟨y, path, merged⟩
  have back : Relation.TransGen (fun y x => Nests cfg base x y) z y := .single merged.1
  induction path using Relation.ReflTransGen.head_induction_on with
  | refl => exact back
  | head first _ ih => exact ih.tail first.1

end

end Typesmith.Model
