import Mathlib.Data.List.Forall2
import Mathlib.Data.List.Induction
import Typesmith.Proofs.Fields
import Typesmith.Proofs.Ordering
import Typesmith.Proofs.Titling

namespace Typesmith.EntryPoint

open Text

/-- The parameter counts: none behind it has its key. -/
def Effective (l : List Parameter) (p : Parameter) : Prop :=
  ∃ before after, l = before ++ p :: after ∧ ∀ q ∈ after, q.key ≠ p.key

def firstPlace (l : List Parameter) (key : String) : Nat :=
  (l.map Parameter.key).idxOf key

/-- The parameter counts, and of those that count under its name its key came up last. -/
structure Prevails (l : List Parameter) (p : Parameter) : Prop where
  effective : Effective l p
  last : ∀ q, Effective l q → q.name = p.name → firstPlace l q.key ≤ firstPlace l p.key

section effective

variable {l m : List Parameter} {p q : Parameter} {key : String}

theorem Effective.mem (counts : Effective l p) : p ∈ l := by
  obtain ⟨before, after, rfl, _⟩ := counts
  simp

theorem effective_concat : Effective (l ++ [p]) q ↔ q = p ∨ Effective l q ∧ q.key ≠ p.key := by
  constructor
  · rintro ⟨before, after, same, alone⟩
    rcases List.eq_nil_or_concat after with rfl | ⟨front, last, rfl⟩
    · exact .inl (List.append_inj_right' same rfl |> List.singleton_inj.mp).symm
    · rw [List.concat_eq_append] at same alone
      rw [← List.cons_append, ← List.append_assoc] at same
      obtain ⟨rfl, rest⟩ := List.append_inj' same rfl
      cases List.singleton_inj.mp rest
      refine .inr ⟨⟨before, front, rfl, fun r inside => alone r (List.mem_append_left _ inside)⟩, ?_⟩
      exact (alone p (by simp)).symm
  · rintro (rfl | ⟨⟨before, after, rfl, alone⟩, other⟩)
    · exact ⟨l, [], rfl, by simp⟩
    · refine ⟨before, after ++ [p], by simp, ?_⟩
      intro r inside
      rcases List.mem_append.mp inside with early | now
      · exact alone r early
      · exact List.mem_singleton.mp now ▸ other.symm

theorem exists_effective (member : key ∈ l.map Parameter.key) : ∃ p, Effective l p ∧ p.key = key := by
  induction l using List.reverseRecOn with
  | nil => cases member
  | append_singleton l p ih =>
    by_cases same : p.key = key
    · exact ⟨p, effective_concat.mpr (.inl rfl), same⟩
    · have early : key ∈ l.map Parameter.key := by simpa [Ne.symm same] using member
      obtain ⟨q, counts, rfl⟩ := ih early
      exact ⟨q, effective_concat.mpr (.inr ⟨counts, Ne.symm same⟩), rfl⟩

theorem firstPlace_concat_of_mem (member : key ∈ l.map Parameter.key) :
    firstPlace (l ++ [p]) key = firstPlace l key := by
  rw [firstPlace, List.map_append, List.idxOf_append_of_mem member, firstPlace]

theorem firstPlace_concat_new (new : p.key ∉ l.map Parameter.key) :
    firstPlace (l ++ [p]) p.key = l.length := by
  rw [firstPlace, List.map_append, List.idxOf_append_of_notMem new]
  simp

theorem firstPlace_lt (member : key ∈ l.map Parameter.key) : firstPlace l key < l.length := by
  simpa [firstPlace] using List.idxOf_lt_length_of_mem member

theorem mem_putParameter : q ∈ putParameter m p ↔ q = p ∨ q ∈ m ∧ q.key ≠ p.key := by
  unfold putParameter
  split
  · rename_i present
    obtain ⟨old, inside, same⟩ := List.any_eq_true.mp present
    constructor
    · intro put
      obtain ⟨r, member, rfl⟩ := List.mem_map.mp put
      split
      · exact .inl rfl
      · rename_i other
        exact .inr ⟨member, by simpa using other⟩
    · rintro (rfl | ⟨member, other⟩)
      · exact List.mem_map.mpr ⟨old, inside, by rw [if_pos same]⟩
      · exact List.mem_map.mpr ⟨q, member, by simp [other]⟩
  · rename_i absent
    rw [List.mem_append, List.mem_singleton, or_comm]
    refine or_congr_right ⟨fun member => ⟨member, fun same => absent ?_⟩, And.left⟩
    exact List.any_eq_true.mpr ⟨q, member, beq_iff_eq.mpr same⟩

theorem map_key_putParameter (m : List Parameter) (p : Parameter) :
    (putParameter m p).map Parameter.key =
      if p.key ∈ m.map Parameter.key then m.map Parameter.key else m.map Parameter.key ++ [p.key] := by
  have present : m.any (·.key == p.key) = true ↔ p.key ∈ m.map Parameter.key := by simp
  unfold putParameter
  by_cases old : p.key ∈ m.map Parameter.key
  · rw [if_pos (present.mpr old), if_pos old, List.map_map]
    refine List.map_congr_left fun q _ => ?_
    dsimp only [Function.comp]
    split
    · rename_i same
      exact (beq_iff_eq.mp same).symm
    · rfl
  · rw [if_neg (mt present.mp old), if_neg old, List.map_append, List.map_singleton]

/-- What is left of a list of parameters: those that count, each at the first place of its key. -/
structure Settled (l m : List Parameter) : Prop where
  mem_iff : ∀ p, p ∈ m ↔ Effective l p
  placed : (m.map Parameter.key).Pairwise fun a b => firstPlace l a < firstPlace l b

theorem Settled.put (settled : Settled l m) (p : Parameter) : Settled (l ++ [p]) (putParameter m p) := by
  have known : ∀ key, key ∈ m.map Parameter.key ↔ key ∈ l.map Parameter.key := by
    intro key
    constructor
    · intro inside
      obtain ⟨q, member, rfl⟩ := List.mem_map.mp inside
      exact List.mem_map_of_mem ((settled.mem_iff q).mp member).mem
    · intro inside
      obtain ⟨q, counts, rfl⟩ := exists_effective inside
      exact List.mem_map_of_mem ((settled.mem_iff q).mpr counts)
  have kept : (m.map Parameter.key).Pairwise
      fun a b => firstPlace (l ++ [p]) a < firstPlace (l ++ [p]) b := by
    refine settled.placed.imp_of_mem fun one two before => ?_
    rwa [firstPlace_concat_of_mem ((known _).mp one), firstPlace_concat_of_mem ((known _).mp two)]
  refine ⟨fun q => ?_, ?_⟩
  · rw [mem_putParameter, settled.mem_iff, effective_concat]
  · rw [map_key_putParameter]
    split
    · exact kept
    · rename_i new
      have new' : p.key ∉ l.map Parameter.key := mt (known _).mpr new
      refine List.pairwise_append.mpr ⟨kept, List.pairwise_singleton _ _, ?_⟩
      intro key inside other last
      rw [List.mem_singleton.mp last, firstPlace_concat_new new',
        firstPlace_concat_of_mem ((known _).mp inside)]
      exact firstPlace_lt ((known _).mp inside)

theorem settled_foldl (l : List Parameter) : Settled l (l.foldl putParameter []) := by
  induction l using List.reverseRecOn with
  | nil =>
    refine ⟨fun p => ?_, List.Pairwise.nil⟩
    exact ⟨fun inside => absurd inside List.not_mem_nil, fun counts => counts.mem⟩
  | append_singleton l p ih =>
    rw [List.foldl_append]
    exact ih.put p

end effective

/-- What the record of parameters has to be. -/
structure Merged (l : List Parameter) (fragment : List (String × Json)) : Prop where
  type : fragment.lookup "type" = some (.str "object")
  properties : ∃ properties, fragment.lookup "properties" = some (.obj properties) ∧
    Json.Ascending properties ∧
    (∀ name, name ∈ Json.keys properties ↔ ∃ p, Effective l p ∧ p.name = name) ∧
    ∀ name value, properties.lookup name = some value ↔
      ∃ p, Prevails l p ∧ p.name = name ∧ value = .obj p.fragment
  required : ∃ names : List String, names.Pairwise (· < ·) ∧
    (∀ name, name ∈ names ↔ ∃ p, Effective l p ∧ p.required = true ∧ p.name = name) ∧
    fragment.lookup "required" = if names = [] then none else some (.arr (names.map .str))

section record

variable {l m : List Parameter}

def fieldsOf (m : List Parameter) : List (String × Json) :=
  m.map fun p => (p.name, .obj p.fragment)

def requiredOf (m : List Parameter) : List String :=
  sort ((m.filter (·.required)).map (·.name)).eraseDups

theorem keys_fieldsOf (m : List Parameter) : Json.keys (fieldsOf m) = m.map (·.name) :=
  List.map_map

theorem parametersFragment_eq (m : List Parameter) :
    parametersFragment m = Json.sortFields
      ([("type", .str "object"), ("properties", .obj (Json.sortFields (fieldsOf m)))] ++
        if requiredOf m = [] then [] else [("required", .arr ((requiredOf m).map .str))]) := by
  have properties : m.foldl (fun acc p => Json.setField p.name (.obj p.fragment) acc) [] =
      Json.sortFields (fieldsOf m) := by
    rw [Json.sortFields, fieldsOf, List.foldl_map]
  have required : sort ((m.filter (·.required)).map (·.name)).eraseDups = requiredOf m := rfl
  unfold parametersFragment
  dsimp only
  rw [properties, required]
  by_cases none : requiredOf m = []
  · rw [if_pos (List.isEmpty_iff.mpr none), if_pos none, List.append_nil]
  · rw [if_neg (mt List.isEmpty_iff.mp none), if_neg none]

/-- Of the parameters that are left, those prevail that have no other of their name behind them. -/
theorem Settled.prevails_iff (settled : Settled l m) {p : Parameter} :
    Prevails l p ↔ ∃ before after, m = before ++ p :: after ∧ ∀ q ∈ after, q.name ≠ p.name := by
  have places := List.pairwise_map.mp settled.placed
  constructor
  · intro wins
    obtain ⟨before, after, rfl⟩ := List.append_of_mem ((settled.mem_iff p).mpr wins.effective)
    refine ⟨before, after, rfl, fun q inside same => ?_⟩
    have counts : Effective l q := (settled.mem_iff q).mp (by simp [inside])
    have later := List.rel_of_pairwise_cons (List.pairwise_append.mp places).2.1 inside
    exact absurd (wins.last q counts same) (Nat.not_le.mpr later)
  · rintro ⟨before, after, rfl, alone⟩
    refine ⟨(settled.mem_iff p).mp (by simp), fun q counts same => ?_⟩
    rcases List.mem_append.mp ((settled.mem_iff q).mpr counts) with early | now
    · exact Nat.le_of_lt ((List.pairwise_append.mp places).2.2 q early p List.mem_cons_self)
    · rcases List.mem_cons.mp now with rfl | late
      · exact Nat.le_refl _
      · exact absurd same (alone q late)

theorem Settled.lookup_iff (settled : Settled l m) {name : String} {value : Json} :
    (Json.sortFields (fieldsOf m)).lookup name = some value ↔
      ∃ p, Prevails l p ∧ p.name = name ∧ value = .obj p.fragment := by
  rw [Json.lookup_sortFields_eq_some_iff]
  constructor
  · rintro ⟨before, after, split, last⟩
    obtain ⟨front, back, rfl, rfl, same⟩ := List.map_eq_append_iff.mp split
    obtain ⟨p, rest, rfl, field, rfl⟩ := List.map_eq_cons_iff.mp same
    obtain ⟨rfl, rfl⟩ := Prod.mk.inj field
    refine ⟨p, settled.prevails_iff.mpr ⟨front, rest, rfl, fun q inside same => last ?_⟩, rfl, rfl⟩
    exact same ▸ keys_fieldsOf rest ▸ List.mem_map_of_mem inside
  · rintro ⟨p, wins, rfl, rfl⟩
    obtain ⟨before, after, rfl, alone⟩ := settled.prevails_iff.mp wins
    refine ⟨fieldsOf before, fieldsOf after, by simp [fieldsOf], fun inside => ?_⟩
    rw [keys_fieldsOf] at inside
    obtain ⟨q, member, same⟩ := List.mem_map.mp inside
    exact alone q member same

theorem Settled.merged (settled : Settled l m) : Merged l (parametersFragment m) := by
  rw [parametersFragment_eq]
  refine ⟨?_, ⟨Json.sortFields (fieldsOf m), ?_, Json.ascending_sortFields _, ?_, ?_⟩,
    ⟨requiredOf m, ascending_sort (nodup_eraseDups _), ?_, ?_⟩⟩
  · refine Json.lookup_sortFields_eq_some_iff.mpr ⟨[], _, rfl, ?_⟩
    split <;> simp
  · refine Json.lookup_sortFields_eq_some_iff.mpr ⟨[_], _, rfl, ?_⟩
    split <;> simp
  · intro name
    rw [Json.mem_keys_sortFields, keys_fieldsOf]
    simp only [List.mem_map, settled.mem_iff]
  · intro name value
    exact settled.lookup_iff
  · intro name
    simp only [requiredOf, (sort_perm _).mem_iff, List.mem_eraseDups, List.mem_map, List.mem_filter,
      settled.mem_iff, and_assoc]
  · split
    · rw [Json.lookup_sortFields]
      rfl
    · exact Json.lookup_sortFields_of_last (by simp)

end record

section reading

variable {cfg : Setting} {op : Operation} {p : Progress}

def Reads (cfg : Setting) (ref : String) (x : Parameter) : Prop :=
  ∃ raw base, followFrom cfg.resolver.lookup ref maxHops (Reference.normalize ref) = .ok (raw, base) ∧
    x = ofFields cfg raw base

def parameterRefs (ref : String) (count : Nat) : List String :=
  (List.range count).map fun i => ref ++ "/parameters/" ++ String.ofList (decimal i)

theorem yields_readParameters {ref : String} {count : Nat} {l : List Parameter}
    (read : List.Forall₂ (Reads cfg) (parameterRefs ref count) l) (start : List Parameter) :
    Yields (readParameters cfg ref count start) p (l.foldl putParameter start) p := by
  unfold readParameters
  unfold parameterRefs at read
  generalize List.range count = places at read
  induction places generalizing start l with
  | nil =>
    cases read
    exact yields_pure.mpr ⟨rfl, rfl⟩
  | cons i places ih =>
    obtain ⟨x, l, ⟨raw, base, leads, rfl⟩, rest, rfl⟩ := List.forall₂_cons_left_iff.mp read
    rw [List.foldlM_cons, bind_assoc]
    refine yields_bind.mpr ⟨_, p, yields_follow leads, ?_⟩
    exact ih _ rest

theorem required_of_path {refs : List String} {l : List Parameter}
    (read : List.Forall₂ (Reads cfg) refs l) : ∀ x ∈ l, x.place = "path" → x.required = true := by
  induction read with
  | nil => simp
  | cons here _ ih =>
    obtain ⟨raw, base, _, rfl⟩ := here
    refine List.forall_mem_cons.mpr ⟨fun onPath => ?_, ih⟩
    have place : textAt raw "in" = "path" := onPath
    simp [ofFields, place]

theorem yields_notes (lines : List String) :
    ∃ q, Yields (lines.forM note) p ⟨⟩ q ∧ q.names = p.names := by
  induction lines generalizing p with
  | nil => exact ⟨p, rfl, rfl⟩
  | cons line lines ih =>
    obtain ⟨q, rest, kept⟩ := ih (p := { p with debug := p.debug ++ [line] })
    exact ⟨q, yields_bind.mpr ⟨⟨⟩, _, rfl, rest⟩, kept⟩

end reading

/-- The parameters of a path and those of an operation, where all of them are found: they give rise to
no entry point if there are none of them, and else to one, which has them merged. -/
theorem parameters_merged {cfg : Setting} {op : Operation} {onPath onOperation : Nat}
    {shared own : List Parameter}
    (first : List.Forall₂ (Reads cfg) (parameterRefs (pathRef op.path) onPath) shared)
    (second : List.Forall₂ (Reads cfg) (parameterRefs op.pointer onOperation) own) (p : Progress) :
    ∃ es q, Yields (parameters cfg op onPath onOperation) p es q ∧ q.names = p.names ∧
      (shared ++ own = [] → es = []) ∧
      (shared ++ own ≠ [] → ∃ fragment,
        es = [ofOperation op .parameters (op.name ++ "Parameters") fragment] ∧
        Merged (shared ++ own) fragment) ∧
      ∀ x ∈ shared ++ own, x.place = "path" → x.required = true := by
  have settled := settled_foldl (shared ++ own)
  have required : ∀ x ∈ shared ++ own, x.place = "path" → x.required = true := by
    intro x inside
    exact (List.mem_append.mp inside).elim (required_of_path first x) (required_of_path second x)
  have read := yields_readParameters (p := p) first []
  have read' := yields_readParameters (p := p) second (shared.foldl putParameter [])
  rw [← List.foldl_append] at read'
  by_cases none : shared ++ own = []
  · refine ⟨[], p, ?_, rfl, fun _ => rfl, fun some => absurd none some, required⟩
    refine yields_bind.mpr ⟨_, p, read, yields_bind.mpr ⟨_, p, read', ?_⟩⟩
    rw [none]
    exact yields_pure.mpr ⟨rfl, rfl⟩
  · have filled : (shared ++ own).foldl putParameter [] ≠ [] := by
      intro empty
      obtain ⟨x, rest, listed⟩ := List.exists_cons_of_ne_nil none
      have member : x.key ∈ (shared ++ own).map Parameter.key := by simp [listed]
      obtain ⟨y, counts, _⟩ := exists_effective member
      rw [← settled.mem_iff, empty] at counts
      exact absurd counts List.not_mem_nil
    obtain ⟨q, noted, kept⟩ := yields_notes (p := p)
      (shadowLines op [] ((shared ++ own).foldl putParameter []))
    refine ⟨_, q, ?_, kept, fun empty => absurd empty none, fun _ => ⟨_, rfl, settled.merged⟩, required⟩
    refine yields_bind.mpr ⟨_, p, read, yields_bind.mpr ⟨_, p, read', ?_⟩⟩
    rw [if_neg (mt List.isEmpty_iff.mp filled)]
    exact yields_bind.mpr ⟨_, q, noted, yields_pure.mpr ⟨rfl, rfl⟩⟩

def shelves : Setting where
  defaultContentType := "application/json"
  resolver :=
    { root := .obj [("paths", .obj [("/shelves", .obj
        [("get", .obj [("parameters", .arr
            [.obj [("in", .str "query"), ("name", .str "id"), ("schema", .obj [("type", .str "integer")])]])]),
         ("parameters", .arr
            [.obj [("in", .str "query"), ("name", .str "id"), ("required", .bool true)],
             .obj [("in", .str "path"), ("name", .str "id"), ("schema", .obj [("type", .str "string")])]])])])] }

theorem parameters_merged_shelves :
    ∃ es q fragment properties,
      Yields (parameters shelves ⟨"GET", "/shelves", "Shelves", "#/paths/~1shelves/get"⟩ 2 1) {} es q ∧
      es.map (fun e => (e.name, e.fragment)) = [("ShelvesParameters", fragment)] ∧
      fragment.lookup "properties" = some (.obj properties) ∧
      properties.lookup "id" = some (.obj [("type", .str "string")]) := by
  have shared : List.Forall₂ (Reads shelves) (parameterRefs (pathRef "/shelves") 2)
      [⟨"id", "query", true, []⟩, ⟨"id", "path", true, [("type", .str "string")]⟩] :=
    .cons ⟨_, _, rfl, rfl⟩ (.cons ⟨_, _, rfl, rfl⟩ .nil)
  have own : List.Forall₂ (Reads shelves) (parameterRefs "#/paths/~1shelves/get" 1)
      [⟨"id", "query", false, [("type", .str "integer")]⟩] :=
    .cons ⟨_, _, rfl, rfl⟩ .nil
  obtain ⟨es, q, run, _, _, filled, _⟩ :=
    @parameters_merged shelves ⟨"GET", "/shelves", "Shelves", "#/paths/~1shelves/get"⟩ 2 1 _ _ shared own {}
  obtain ⟨fragment, rfl, merged⟩ := filled (List.cons_ne_nil _ _)
  obtain ⟨properties, listed, _, _, found⟩ := merged.properties
  refine ⟨_, q, fragment, properties, run, rfl, listed, (found _ _).mpr
    ⟨⟨"id", "path", true, [("type", .str "string")]⟩, ⟨?_, ?_⟩, rfl, rfl⟩⟩
  · exact ⟨[_], [_], rfl, by decide⟩
  · intro x counts _
    have inside := counts.mem
    simp only [List.cons_append, List.nil_append, List.mem_cons, List.not_mem_nil, or_false] at inside
    rcases inside with rfl | rfl | rfl <;> decide

end Typesmith.EntryPoint
