import Typesmith.Proofs.Bracketing
import Typesmith.Proofs.Coinciding
import Typesmith.Proofs.Heading
import Typesmith.Proofs.Retrying

namespace Typesmith.Model

open Fragment

section texts

variable {cfg : Setting} {u : Store} {inline : Inliner} {ids : List Id}

theorem Yields.bind_congr {α β : Type} {P : α → Prop} {x : RenderM α} {f g : α → RenderM β}
    (yields : Yields P x) (same : ∀ a, P a → f a = g a) : x >>= f = x >>= g := by
  refine StateT.ext fun deps => ?_
  rw [StateT.run_bind, StateT.run_bind]
  cases run : x.run deps with
  | error e => rfl
  | ok r =>
    have alike := same r.1 (yields deps r.1 r.2 run)
    exact congrArg (fun y : RenderM β => y.run r.2) alike

theorem yields_length {α β : Type} (f : α → RenderM β) (l : List α) :
    Yields (fun results => results.length = l.length) (l.mapM f) := by
  induction l with
  | nil => exact yields_pure rfl
  | cons a rest ih =>
    rw [List.mapM_cons]
    have first : Yields (fun _ => True) (f a) := fun _ _ _ _ => trivial
    exact first.bind fun b _ => ih.map fun results length => congrArg Nat.succ length

theorem unionText_single (text : String) : unionText [text] = text := by
  simp [unionText, distinct, List.eraseDups_cons, Text.join]

theorem inlineContainer_single (inline : Inliner) (i : Id) : inlineContainer inline [i] = inline i := by
  simp [inlineContainer, unionText_single]

def unseen (seen texts : List String) : List String :=
  (texts.filter fun text => !seen.contains text).eraseDups

theorem unseen_cons (seen : List String) (text : String) (texts : List String) :
    unseen seen (text :: texts) =
      if seen.contains text then unseen seen texts else text :: unseen (text :: seen) texts := by
  unfold unseen
  by_cases known : seen.contains text
  · rw [if_pos known, List.filter_cons_of_neg (by simpa using known)]
  · rw [if_neg known, List.filter_cons_of_pos (by simpa using known), List.eraseDups_cons,
      List.filter_filter]
    congr 3
    funext other
    rw [List.contains_cons, Bool.not_or]

theorem trailingComment_empty : trailingComment "" = "" := by
  decide

theorem branchTexts_alone (bare : ∀ i ∈ ids, branchDescription u [i] = "") (c : Fragment.Combinator)
    (own : String) (seen : List String) :
    branchTexts u inline c own seen (ids.map fun i => [i]) =
      (do return unseen seen (← ids.mapM inline)) := by
  induction ids generalizing seen with
  | nil => simp [branchTexts, unseen]
  | cons i ids ih =>
    have rest := ih fun j later => bare j (List.mem_cons_of_mem _ later)
    have remark : (if "" = own then "" else trailingComment "") = "" := by
      rw [trailingComment_empty, ite_self]
    simp only [List.map_cons, branchTexts, inlineContainer_single, bare i List.mem_cons_self, remark,
      List.length_singleton, Nat.lt_irrefl, decide_false, Bool.and_false, Bool.false_eq_true, if_false,
      String.append_empty, rest, List.mapM_cons, bind_assoc, pure_bind, unseen_cons]
    refine bind_congr fun text => ?_
    split <;> rfl

theorem inlineSomeOf_alone (bare : ∀ i ∈ ids, branchDescription u [i] = "") (d : Descriptor) :
    inlineSomeOf u inline d .anyOf (ids.map fun i => [i]) = inlineContainer inline ids := by
  simp only [inlineSomeOf, branchTexts_alone bare, inlineContainer, bind_assoc, pure_bind]
  refine bind_congr fun texts => ?_
  cases texts with
  | nil => rfl
  | cons text texts => simp [unseen, unionText, distinct, List.eraseDups_cons]

theorem join_eq_intercalate (sep : String) (texts : List String) :
    Text.join sep texts = sep.intercalate texts := by
  induction texts with
  | nil => simp [Text.join]
  | cons text texts ih =>
    cases texts with
    | nil => simp [Text.join]
    | cons next texts =>
      rw [Text.join, ih, String.intercalate_cons_cons]
      exact List.cons_ne_nil _ _

theorem unionText_null {texts : List String} (some : texts ≠ []) (apart : "null" ∉ texts) :
    unionText (texts ++ ["null"]) = unionText texts ++ " | null" := by
  have filled : distinct texts ≠ [] := by
    intro none
    obtain ⟨text, inside⟩ := List.exists_mem_of_ne_nil _ some
    rw [← List.mem_eraseDups, ← distinct, none] at inside
    cases inside
  have last : distinct (texts ++ ["null"]) = distinct texts ++ ["null"] := by
    have new : ["null"].removeAll texts = ["null"] := by simp [List.removeAll, apart]
    rw [distinct, List.eraseDups_append, new]
    rfl
  simp only [unionText, List.isEmpty_iff, List.append_eq_nil_iff, some, false_and, if_false, last,
    join_eq_intercalate]
  rw [String.intercalate_append_of_ne_nil filled (List.cons_ne_nil _ _), String.intercalate_singleton,
    String.append_assoc]
  rfl

theorem inlineContainer_null {null : Id} (written : inline null = pure "null") (some : ids ≠ [])
    (apart : ∀ i ∈ ids, Yields (· ≠ "null") (inline i)) :
    inlineContainer inline (ids ++ [null]) = (do return (← inlineContainer inline ids) ++ " | null") := by
  simp only [inlineContainer, List.mapM_append, List.mapM_cons, List.mapM_nil, written, bind_assoc,
    pure_bind]
  have texts : Yields (fun texts => texts.length = ids.length ∧ ∀ text ∈ texts, text ≠ "null")
      (ids.mapM inline) := by
    intro deps texts later run
    exact ⟨yields_length inline ids deps texts later run, yields_mapM apart deps texts later run⟩
  refine texts.bind_congr fun texts shape => congrArg pure (unionText_null ?_ ?_)
  · rintro rfl
    exact some (List.eq_nil_of_length_eq_zero shape.1.symm)
  · exact fun inside => shape.2 _ inside rfl

end texts

section branches

variable {cfg : Setting} {u : Store} {base : String} {f g : Fragment}

/-- A fragment of one type of several: it does not allow `null` beside the type, and is not described. -/
structure Lone (g : Fragment) : Prop where
  isRef : g.isRef = false
  single : isMultiType g = false
  kept : keepsNull g = false
  described : g.keywords.description = ""

theorem lone_branch (isRef : f.isRef = false) (multi : isMultiType (stripped f) = true)
    (listed : g ∈ typeBranches (stripped f)) : Lone g := by
  obtain ⟨type, typed, rfl⟩ := List.mem_map.mp listed
  have hollow : (stripped f).keywords.enum = [] := by
    simp only [isMultiType, Bool.and_eq_true, List.isEmpty_iff] at multi
    exact multi.2
  have plain : (stripped f).isRef = false := by
    unfold stripped
    split <;> exact isRef
  refine ⟨plain, by simp [isMultiType], ?_, rfl⟩
  rcases stripped_cases f with ⟨kept, same⟩ | ⟨kept, same⟩
  · rw [same] at typed hollow ⊢
    have other : type ≠ "null" := by
      simp only [withoutNull, nonNullTypes, List.mem_filter, decide_eq_true_eq] at typed
      exact typed.2
    simp [keepsNull, isNullable, hasType, withoutNull, Ne.symm other]
  · rw [same] at typed hollow ⊢
    by_cases null : type = "null"
    · simp [keepsNull, onlyNull, null]
    · have mixed : onlyNull f = false := by
        by_contra only
        exact null ((onlyNull_types (by simpa using only)).2 type typed)
      simp only [keepsNull, mixed, Bool.not_false, Bool.and_true, isNullable, Bool.or_eq_false_iff] at kept
      simp [keepsNull, isNullable, hasType, Ne.symm null, hollow, kept.1.1]

theorem Lone.stripped (lone : Lone g) : stripped g = g := by
  rw [Model.stripped, lone.kept]
  rfl

theorem InPlace.lone {c : Container} (inPlace : InPlace cfg u base g c) (lone : Lone g) :
    ∃ i, c = [i] ∧ branchDescription u [i] = "" := by
  have same := lone.stripped
  cases inPlace with
  | ref isRef => exact absurd isRef (by simp [lone.isRef])
  | types _ multi =>
    rw [same, lone.single] at multi
    cases multi
  | @node _ _ _ _ id _ isRef single written inner length each nameless null =>
    rw [Trails, lone.kept] at null
    subst null
    obtain ⟨d, any, found, _, fragment, _⟩ := nameless.found
    refine ⟨id, rfl, ?_⟩
    simp only [branchDescription, found, Option.bind_some, fragment, same, lone.described]
    rfl

theorem lone_places {gs : List Fragment} {cs : List Container} (length : cs.length = gs.length)
    (each : ∀ x ∈ gs.zip cs, InPlace cfg u base x.1 x.2) (lone : ∀ g ∈ gs, Lone g) :
    ∃ ids : List Id, cs = ids.map (fun i => [i]) ∧ ∀ i ∈ ids, branchDescription u [i] = "" := by
  induction gs generalizing cs with
  | nil => exact ⟨[], List.eq_nil_of_length_eq_zero length, nofun⟩
  | cons g gs ih =>
    obtain ⟨c, cs, rfl⟩ := List.exists_cons_of_length_eq_add_one length
    obtain ⟨i, rfl, described⟩ := (each (g, c) List.mem_cons_self).lone (lone g List.mem_cons_self)
    obtain ⟨ids, rfl, others⟩ := ih (Nat.succ.inj length)
      (fun x inside => each x (List.mem_cons_of_mem _ inside))
      fun h inside => lone h (List.mem_cons_of_mem _ inside)
    exact ⟨i :: ids, rfl, List.forall_mem_cons.mpr ⟨described, others⟩⟩

end branches

/-- The rules take the types of a fragment side by side for a union. -/
def Unites (cfg : Setting) (f : Fragment) : Prop :=
  ∀ raw, (typesUnion (stripped f) false).toJson? = some raw → kindOf cfg raw = .someOf

section union

variable {cfg : Setting} {s t u : Store} {base : String} {f : Fragment} {o : Options} {c : Container}

theorem unites_defaults (rules : cfg.rules = Rule.defaults) (multi : isMultiType (stripped f) = true) :
    Unites cfg f := by
  intro raw written
  have unmarked : WellKept (typesUnion (stripped f) false).keywords := by
    constructor <;> simp [typesUnion]
  have head := headKind_union multi false
  rw [headKind, stripped_typesUnion, if_neg (by exact Bool.false_ne_true)] at head
  rw [kindOf_features rules unmarked written, head]

theorem combinator_typesUnion (multi : isMultiType f = true) :
    (typesUnion f false).combinator? = some (.anyOf, typeBranches f) := by
  have some : (typeBranches f).isEmpty = false := by
    rw [List.isEmpty_eq_false_iff]
    exact typeBranches_ne_nil multi
  simp [combinator?, typesUnion, some]

theorem inner_typesUnion (multi : isMultiType f = true) {gs : List Fragment}
    (inner : Inner cfg base .someOf (typesUnion f false) gs) : gs = typeBranches f := by
  exact alternatives_eq rfl
    (inner.of_alternatives (combinator_typesUnion multi) (by decide))

/-- Under a name, a fragment of several types is a union of what the types come to in place. -/
theorem convertDepth_union {depth : Nat} (run : Returns (convertDepth cfg depth f o) s c t)
    (isRef : f.isRef = false) (multi : isMultiType (stripped f) = true) (named : o.name ≠ "")
    (unites : Unites cfg f) (fits : o.ref ≠ "" → Fits cfg f o s) (unhoisted : Unhoisted cfg o.base f)
    (consistent : Consistent cfg s) (keeps : KeepsFrom s.descriptors.size t u) :
    Laid cfg u .someOf (typesUnion (stripped f) false) o (keepsNull f) c := by
  cases depth with
  | zero => exact absurd run not_returns_throw
  | succ depth =>
    rw [convertDepth_succ] at run
    cases convertWith_step (R := fun f o s c t => Returns (convertDepth cfg depth f o) s c t)
      (fun _ _ _ _ _ inside => inside) run with
    | ref reference => exact absurd reference (by simp [isRef])
    | types _ _ unnamed => exact absurd unnamed named
    | node _ single => exact absurd multi (by simp [single])
    | union _ _ _ inside =>
      cases depth with
      | zero => exact absurd inside not_returns_throw
      | succ depth =>
        -- the second layer: the union that takes the place of the fragment, with no types of its own
        rw [convertDepth_succ] at inside
        have kept : keepsNull (typesUnion (stripped f) (keepsNull f)) = keepsNull f := by
          cases keepsNull f <;> rfl
        cases convertWith_step (R := Rests cfg) (fun _ _ _ _ _ inner =>
          ⟨⟨convertDepth_settles inner, convertDepth_grows inner⟩, convertDepth_places inner⟩) inside with
        | ref reference => cases reference
        | types _ _ unnamed => exact absurd unnamed named
        | union _ several =>
          rw [stripped_typesUnion] at several
          cases several
        | node _ _ written built =>
          rw [stripped_typesUnion] at written built
          rw [unites _ written, kept] at built
          refine built.laid (fun owned => (fits owned).absent isRef) ?_ consistent keeps
          intro gs inner
          rw [inner_typesUnion multi inner]
          exact unhoisted.branch isRef multi

end union

/-- The second store comes from the first by requests to one context, whether they are answered or fail:
for references and for fragments. In between, names may be given out. -/
inductive Proceeds (cfg : Setting) (s : Store) : Store → Prop
  | done : Proceeds cfg s s
  | asked {ref : String} {t u : Store} {r : Except Failure Container} (before : Proceeds cfg s t)
      (run : exec (findOrCreate cfg ref) t = (r, u)) (ends : r ≠ .error .tooDeep) : Proceeds cfg s u
  | converted {f : Fragment} {o : Options} {t u : Store} {r : Except Failure Container}
      (before : Proceeds cfg s t) (owns : Owns cfg f o) (run : exec (convert cfg f o) t = (r, u))
      (ends : r ≠ .error .tooDeep) : Proceeds cfg s u
  | noted {t u : Store} (before : Proceeds cfg s t) (quiet : Quiet t u) : Proceeds cfg s u

def SaysNull (cfg : Setting) (u : Store) (i : Id) : Prop :=
  ∃ deps later, (inlineText cfg u i).run deps = .ok ("null", later)

section agreement

variable {cfg : Setting} {s t u : Store} {f : Fragment} {o : Options}

theorem Proceeds.keeps (proceeds : Proceeds cfg s t) (consistent : Consistent cfg s) :
    Consistent cfg t ∧ Grows s t := by
  induction proceeds with
  | done => exact ⟨consistent, .refl s⟩
  | @asked ref t u r _ run ends ih =>
    obtain ⟨middle, grows⟩ := ih
    cases r with
    | ok c =>
      obtain ⟨after, more, _⟩ := findOrCreate_settles run middle
      exact ⟨after, grows.trans more⟩
    | error e =>
      obtain ⟨after, more, _⟩ := findOrCreate_fails run (fun cut => ends (by rw [cut])) middle
      exact ⟨after, grows.trans more⟩
  | converted _ owns run ends ih =>
    obtain ⟨middle, grows⟩ := ih
    obtain ⟨after, more⟩ := convert_keeps owns run ends middle
    exact ⟨after, grows.trans more⟩
  | noted _ quiet ih =>
    obtain ⟨middle, grows⟩ := ih
    exact ⟨middle.of_quiet quiet, grows.trans quiet.grows⟩

theorem declarationText_union {id : Id} {d : Descriptor} {cs : List Container}
    (found : u.get? id = some d) (named : d.name ≠ "") (shape : d.shape = .someOf .anyOf cs)
    (several : 1 < cs.length) : declarationText cfg u id =
      (do return d.alias (← inlineSomeOf u (inlineText cfg u) d .anyOf cs)) := by
  have many : singleObject? u cs = none := by
    cases single : singleObject? u cs with
    | none => rfl
    | some r =>
      obtain ⟨j, e, rfl, _⟩ := singleObject?_some single
      exact absurd several (Nat.lt_irrefl 1)
  simp only [declarationText, fetch, found, pure_bind, named, if_false, shape, many]

theorem multi_of_types (types : 1 < f.nonNullTypes.length) (alone : f.combinator? = none)
    (unlisted : f.keywords.enum = []) : isMultiType (stripped f) = true := by
  have several : 1 < (stripped f).keywords.types.length := by
    rcases stripped_cases f with ⟨_, same⟩ | ⟨_, same⟩
    · rw [same]
      exact types
    · rw [same]
      exact Nat.lt_of_lt_of_le types (List.length_filter_le _ _)
  have hollow : (stripped f).keywords.enum = [] := by
    rcases stripped_cases f with ⟨_, same⟩ | ⟨_, same⟩ <;> simp [same, withoutNull, unlisted]
  simp [isMultiType, several, alone, hollow]

theorem inlineSomeOf_twins {cs : List Container} {ids : List Id}
    (twins : List.Forall₂ (List.Forall₂ (Twins cfg u)) cs (ids.map fun i => [i]))
    (bare : ∀ i ∈ ids, branchDescription u [i] = "") (d : Descriptor) :
    inlineSomeOf u (inlineText cfg u) d .anyOf cs = inlineContainer (inlineText cfg u) ids := by
  rw [← inlineSomeOf_alone bare d]
  simp only [inlineSomeOf, inlineText, branchTexts_eq twins]

theorem inlineText_value {i : Id} {d : Descriptor} {token : String} (found : u.get? i = some d)
    (unnamed : d.name = "") (shape : d.shape = .value token) : inlineText cfg u i = pure token := by
  simp only [inlineText, inlineDepth, inlineWith, fetch, found, pure_bind, shape, unnamed, ne_eq,
    not_true_eq_false, if_false]

theorem Trails.written {rest : Container} {ids : List Id} {d : Descriptor}
    (trails : Trails u d.nullable rest) (some : ids ≠ [])
    (apart : d.nullable = true → ∀ i ∈ (ids ++ rest).dropLast, ¬ SaysNull cfg u i) :
    (do return d.alias (← inlineContainer (inlineText cfg u) ids)) = (do
      return d.comments ++ "export type " ++ d.name ++ " = " ++
        (← inlineContainer (inlineText cfg u) (ids ++ rest)) ++ ";") := by
  unfold Trails at trails
  cases kept : d.nullable with
  | false =>
    rw [kept, if_neg Bool.false_ne_true] at trails
    subst trails
    simp only [Descriptor.alias, kept, List.append_nil, Bool.false_eq_true, if_false, String.append_empty]
  | true =>
    rw [kept, if_pos rfl] at trails
    obtain ⟨null, rfl, found⟩ := trails
    rw [inlineContainer_null (inlineText_value found rfl rfl) some]
    · simp only [Descriptor.alias, kept, if_true, bind_assoc, pure_bind, String.append_assoc]
    · rintro i inside deps text later run rfl
      refine apart kept i ?_ ⟨deps, later, run⟩
      rwa [List.dropLast_concat]

theorem Laid.agrees {base : String} {c d : Container} (isRef : f.isRef = false)
    (multi : isMultiType (stripped f) = true) (named : o.name ≠ "") (same : o.base = base)
    (laid : Laid cfg u .someOf (typesUnion (stripped f) false) o (keepsNull f) c)
    (inPlace : InPlace cfg u base f d)
    (apart : keepsNull f = true → ∀ i ∈ d.dropLast, ¬ SaysNull cfg u i) :
    ∃ id rest e, c = id :: rest ∧ u.get? id = some e ∧ e.name = o.name ∧
      declarationText cfg u id = (do
        return e.comments ++ "export type " ++ o.name ++ " = " ++
          (← inlineContainer (inlineText cfg u) d) ++ ";") := by
  subst same
  obtain @⟨name, gs, cs, id, any, rest, titled, inner, length, each, found, _, _⟩ := laid
  obtain rfl : name = o.name := titled nofun
  obtain rfl := inner_typesUnion multi inner
  have lone : ∀ g ∈ typeBranches (stripped f), Lone g := fun _ => lone_branch isRef multi
  refine ⟨id, rest, _, rfl, found, rfl, ?_⟩
  cases inPlace with
  | ref reference => exact absurd reference (by simp [isRef])
  | node _ single => exact absurd multi (by simp [single])
  | @types _ ds null _ _ length' each' behind =>
    have several : 1 < (typeBranches (stripped f)).length := by
      simp only [isMultiType, Bool.and_eq_true, decide_eq_true_eq] at multi
      rw [typeBranches, List.length_map]
      exact multi.1.1
    have shape : shapeOf .someOf (typesUnion (stripped f) false) cs any = .someOf .anyOf cs := by
      rw [shapeOf, combinator_typesUnion multi]
      rfl
    have twins : List.Forall₂ (List.Forall₂ (Twins cfg u)) cs ds :=
      forall₂_of_zip length length' (fun x inside _ => (each x inside).twins) each'
    -- in place each type is one descriptor, so the container is the list of these
    obtain ⟨ids, rfl, bare⟩ := lone_places length' each' lone
    have flat : (ids.map fun i => [i]).flatten = ids := by
      rw [← List.flatMap_def, List.flatMap_singleton']
    have some : ids ≠ [] := by
      rintro rfl
      rw [← length'] at several
      exact absurd several (Nat.not_lt_zero _)
    rw [flat] at apart ⊢
    rw [declarationText_union found named shape (length ▸ several), inlineSomeOf_twins twins bare]
    exact behind.written some apart

/-- A fragment of two types or more that is converted under a name, and in place, in one context: the
name is declared for what is written in place, with `null` if the fragment allows it. The two fail
together. It is asked that no enum gets a name of its own in place, and that nothing but `null` itself is
written `null` beside it. -/
theorem types_agree {hint : String} {s₁ t₁ s₂ t₂ : Store} {c₁ c₂ : Container} (isRef : f.isRef = false)
    (types : 1 < f.nonNullTypes.length) (alone : f.combinator? = none) (unlisted : f.keywords.enum = [])
    (unites : Unites cfg f) (unhoisted : Unhoisted cfg o.base f) (named : o.name ≠ "")
    (owns : Owns cfg f o) (fresh : o.ref = "" ∨ s₁.lookup? (Reference.normalize o.ref) = none)
    (before₁ : Attained cfg s₁) (run₁ : Returns (convert cfg f o) s₁ c₁ t₁) (after₁ : Proceeds cfg t₁ u)
    (before₂ : Attained cfg s₂)
    (run₂ : Returns (convert cfg f { suggested := hint, base := o.base }) s₂ c₂ t₂)
    (after₂ : Proceeds cfg t₂ u) (apart : keepsNull f = true → ∀ i ∈ c₂.dropLast, ¬ SaysNull cfg u i) :
    ∃ id rest d, c₁ = id :: rest ∧ u.get? id = some d ∧ d.name = o.name ∧
      declarationText cfg u id = (do
        return d.comments ++ "export type " ++ o.name ++ " = " ++
          (← inlineContainer (inlineText cfg u) c₂) ++ ";") := by
  have multi := multi_of_types types alone unlisted
  have titled : o.normal.name ≠ "" := by rwa [Options.normal_name]
  have laid : Laid cfg u .someOf (typesUnion (stripped f) false) o.normal (keepsNull f) c₁ := by
    have fits := owns.fits fresh
    rw [Returns, exec_convert_fresh f fresh] at run₁
    obtain ⟨_, run₁⟩ := returns_deepening run₁
    obtain ⟨middle, _, _⟩ := convertDepth_settles run₁ before₁.consistent fits
    obtain ⟨last, grows⟩ := after₁.keeps middle
    exact convertDepth_union run₁ isRef multi titled unites fits (by rwa [Options.normal_base])
      before₁.consistent (grows.keepsFrom last _)
  have inPlace : InPlace cfg u o.base f c₂ := by
    rw [Returns, exec_convert_fresh f (.inl rfl), Options.normal_unowned rfl] at run₂
    obtain ⟨_, run₂⟩ := returns_deepening run₂
    obtain ⟨middle, _, _⟩ := convertDepth_settles run₂ before₂.consistent fun owned => absurd rfl owned
    obtain ⟨last, grows⟩ := after₂.keeps middle
    exact convertDepth_places run₂ rfl rfl unhoisted before₂.consistent u (grows.keepsFrom last _)
  have agreed := laid.agrees isRef multi titled o.normal_base inPlace apart
  rwa [Options.normal_name] at agreed

end agreement

theorem kind_maybeAnswer {g : Fragment} (listed : g ∈ typeBranches (stripped maybeAnswer)) {raw : Json}
    (written : (stripped g).toJson? = some raw) :
    kindOf blankPage raw = .string ∨ kindOf blankPage raw = .boolean := by
  have kinds : ∀ g ∈ [Fragment.ofType "string", Fragment.ofType "boolean"],
      (stripped g).toJson?.map (kindOf blankPage) = some .string ∨
        (stripped g).toJson?.map (kindOf blankPage) = some .boolean := by
    simp only [List.forall_mem_cons]
    exact ⟨.inl (by decide +kernel), .inr (by decide +kernel), nofun⟩
  have kind := kinds g listed
  rw [written] at kind
  simpa using kind

theorem unhoisted_maybeAnswer (base : String) : Unhoisted blankPage base maybeAnswer := by
  -- nothing is nested but one fragment for each of the types
  have inside : ∀ x, Relation.ReflTransGen (Nests blankPage base) (false, maybeAnswer) x →
      x = (false, maybeAnswer) ∨ x.1 = false ∧ x.2 ∈ typeBranches (stripped maybeAnswer) := by
    intro x path
    induction path with
    | refl => exact .inl rfl
    | tail _ nests ih =>
      rcases ih with rfl | ⟨unnamed, listed⟩
      · cases nests with
        | types _ _ branch => exact .inr ⟨rfl, branch⟩
        | node _ single => cases single
        | chosen _ single => cases single
      · cases nests with
        | union => cases unnamed
        | types _ multi _ =>
          have lone : Lone _ := lone_branch rfl rfl listed
          rw [lone.stripped, lone.single] at multi
          cases multi
        | node _ _ written inner part =>
          rcases kind_maybeAnswer listed written with kind | kind
          all_goals
            rw [kind] at inner
            cases inner
            cases part
        | chosen _ _ written generic =>
          rcases kind_maybeAnswer listed written with kind | kind
          all_goals
            rw [kind] at generic
            cases generic
  intro x path hoists
  obtain ⟨_, single, raw, written, enum, _⟩ := hoists
  rcases inside x path with rfl | ⟨_, listed⟩
  · cases single
  · rcases kind_maybeAnswer listed written with kind | kind
    all_goals
      rw [kind] at enum
      cases enum

def answered : Store :=
  (exec (convertDepth blankPage firstDepth maybeAnswer { name := "Answer" }) {}).2

def answeredAgain : Store :=
  (exec (convertDepth blankPage firstDepth maybeAnswer {}) answered).2

def plainToken (d : Descriptor) : Option String :=
  match d.shape with
  | .value token => if d.name = "" then some token else none
  | _ => none

theorem not_saysNull {cfg : Setting} {u : Store} {i : Id} {token : String}
    (plain : (u.get? i).bind plainToken = some token) (other : token ≠ "null") : ¬ SaysNull cfg u i := by
  rintro ⟨deps, later, run⟩
  obtain ⟨d, found, plain⟩ := Option.bind_eq_some_iff.mp plain
  unfold plainToken at plain
  split at plain
  · rename_i shape
    split at plain
    · rename_i unnamed
      cases plain
      rw [inlineText_value found unnamed shape] at run
      cases run
      exact other rfl
    · cases plain
  · cases plain

theorem answered_texts : ∀ i ∈ [4, 5], ¬ SaysNull blankPage answeredAgain i := by
  have tokens : ∀ i ∈ [4, 5], (answeredAgain.get? i).bind plainToken ∈ [some "string", some "boolean"] := by
    decide +kernel
  intro i listed
  have among := tokens i listed
  simp only [List.mem_cons, List.not_mem_nil, or_false] at among
  rcases among with plain | plain
  · exact not_saysNull plain (by decide)
  · exact not_saysNull plain (by decide)

theorem types_agree_maybe :
    ∃ d, Returns (convert blankPage maybeAnswer { name := "Answer" }) {} [0, 1] answered ∧
      Returns (convert blankPage maybeAnswer {}) answered [4, 5, 6] answeredAgain ∧
      answeredAgain.get? 0 = some d ∧
      declarationText blankPage answeredAgain 0 = (do
        return d.comments ++ "export type " ++ "Answer" ++ " = " ++
          (← inlineContainer (inlineText blankPage answeredAgain) [4, 5, 6]) ++ ";") ∧
      ((declarationText blankPage answeredAgain 0).run []).toOption.map (·.1) =
        some "export type Answer = string | boolean | null;" := by
  have run₁ : Returns (convert blankPage maybeAnswer { name := "Answer" }) {} [0, 1] answered :=
    returns_deepening_first _ (by decide +kernel)
  have run₂ : Returns (convert blankPage maybeAnswer {}) answered [4, 5, 6] answeredAgain :=
    returns_deepening_first _ (by decide +kernel)
  have owns : ∀ o : Options, o.ref = "" → Owns blankPage maybeAnswer o :=
    fun _ empty owned => absurd empty owned
  obtain ⟨id, rest, d, whole, found, _, agreed⟩ := types_agree (o := { name := "Answer" }) rfl
    (by decide) rfl rfl (unites_defaults rfl rfl) (unhoisted_maybeAnswer "") (by decide) (owns _ rfl)
    (.inl rfl) .fresh run₁ (.converted .done (owns _ rfl) run₂ nofun)
    (.converted .fresh (owns _ rfl) run₁ nofun) run₂ .done (fun _ => answered_texts)
  cases whole
  exact ⟨d, run₁, run₂, found, agreed, by decide +kernel⟩

def harbour : Setting where
  resolver := { root := .obj [("components", .obj [("schemas", .obj [("Tide", .obj
    [("properties", .obj [("level", .obj
      [("enum", .arr [.str "low", .str "high"]), ("type", .str "string")])]),
      ("type", .str "object")])])])] }

def logEntry : Fragment where
  keywords := { types := ["object", "string"] }
  properties := [("tide", { allOf := [{ keywords := { ref := some "#/components/schemas/Tide" } }] })]

/-- Two types that are chosen by a key, and all that can be chosen is `null`. -/
def keyedNull : Fragment where
  keywords :=
    { types := ["boolean", "string", "null"]
      extensions := [(genericKeyword, .obj [("cases", .obj [("a", .obj [("type", .str "null")])])])] }

def fewRules : Setting :=
  { blankPage with rules := [⟨"string", .string⟩, ⟨"boolean", .boolean⟩] }

/-- Under a name the fragment is declared as one expression, and then in place it is written as another. -/
def Disagrees (cfg : Setting) (f : Fragment) (declared written : String) : Prop :=
  ∃ c c' t u, Returns (convert cfg f { name := "Note" }) {} (0 :: c) t ∧
    Returns (convert cfg f {}) t c' u ∧
    ((declarationText cfg u 0).run []).toOption.map (·.1) =
      some ("export type Note = " ++ declared ++ ";") ∧
    ((inlineContainer (inlineText cfg u) c').run []).toOption.map (·.1) = some written ∧
    declared ≠ written

/-- Both texts, and what the name stands for first. -/
def texts? (cfg : Setting) (f : Fragment) : Option (Option Id × String × String) :=
  match exec (convertDepth cfg firstDepth f { name := "Note" }) {} with
  | (.error _, _) => none
  | (.ok c, t) =>
    match exec (convertDepth cfg firstDepth f {}) t with
    | (.error _, _) => none
    | (.ok c', u) =>
      ((declarationText cfg u 0).run []).toOption.bind fun declared =>
        ((inlineContainer (inlineText cfg u) c').run []).toOption.map fun written =>
          (c.head?, declared.1, written.1)

theorem disagrees_of_texts {cfg : Setting} {f : Fragment} {declared written : String}
    (texts : texts? cfg f = some (some 0, "export type Note = " ++ declared ++ ";", written))
    (differ : declared ≠ written) : Disagrees cfg f declared written := by
  unfold texts? at texts
  split at texts
  · cases texts
  · rename_i c t first
    split at texts
    · cases texts
    · rename_i c' u second
      have run := returns_deepening_first (fun depth => convertDepth cfg depth f { name := "Note" })
        (congrArg Prod.fst first)
      have run' := returns_deepening_first (fun depth => convertDepth cfg depth f {})
        (congrArg Prod.fst second)
      rw [first] at run
      rw [second] at run'
      obtain ⟨one, shown, texts⟩ := Option.bind_eq_some_iff.mp texts
      obtain ⟨two, shown', same⟩ := Option.map_eq_some_iff.mp texts
      simp only [Prod.mk.injEq] at same
      obtain ⟨head, text, text'⟩ := same
      obtain ⟨rest, rfl⟩ := List.head?_eq_some_iff.mp head
      refine ⟨rest, c', t, u, run, run', ?_, ?_, differ⟩
      · rw [shown, Option.map_some, text]
      · rw [shown', Option.map_some, text']

/-- What is merged into a fragment may hold an enum, which gets its name from where it is converted; a
type may be written `null` by itself, and is told from the `null` behind it in a declaration only; and
with other rules, a union need not be one. -/
theorem types_disagree :
    (∀ f ∈ [logEntry, keyedNull, maybeAnswer], f.isRef = false ∧ 1 < f.nonNullTypes.length ∧
      f.combinator? = none ∧ f.keywords.enum = []) ∧
    Fragment.decode? (.obj [("properties", .obj [("tide", .obj [("allOf", .arr
      [.obj [("$ref", .str "#/components/schemas/Tide")]])])]),
      ("type", .arr [.str "object", .str "string"])]) = some logEntry ∧
    Disagrees harbour logEntry "\x7b tide?: \x7b level?: EnumNote_0TideLevel; \x7d; \x7d | string"
      "\x7b tide?: \x7b level?: EnumTideLevel; \x7d; \x7d | string" ∧
    Disagrees blankPage keyedNull "null | null" "null" ∧
    Disagrees fewRules maybeAnswer "any | null" "string | boolean | null" := by
  refine ⟨by decide +kernel, rfl, ?_, ?_, ?_⟩
  · exact disagrees_of_texts (by decide +kernel) (by decide)
  · exact disagrees_of_texts (by decide +kernel) (by decide)
  · exact disagrees_of_texts (by decide +kernel) (by decide)

end Typesmith.Model
