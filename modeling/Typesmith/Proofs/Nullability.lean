import Typesmith.Proofs.Features
import Typesmith.Proofs.Ownership

namespace Typesmith.Model

def AllowsNull (s : Store) (c : Container) : Prop :=
  ∃ id ∈ c, Standing id .null s

def AllOfKind (s : Store) (c : Container) (kind : Kind) : Prop :=
  c ≠ [] ∧ ∀ id ∈ c, Standing id kind s

section

variable {s t : Store} {id : Id} {kind : Kind}

theorem Standing.unique (has : Standing id kind s) {kind' : Kind} (also : Standing id kind' s) :
    kind = kind' := by
  obtain ⟨d, found, same⟩ := has
  obtain ⟨e, again, equal⟩ := also
  rw [found] at again
  cases again
  exact same.symm.trans equal

theorem AllOfKind.allowsNull_iff {c : Container} (all : AllOfKind s c kind) :
    AllowsNull s c ↔ kind = .null := by
  obtain ⟨some, each⟩ := all
  constructor
  · rintro ⟨id, inside, null⟩
    exact (each id inside).unique null
  · rintro rfl
    obtain ⟨id, rest, rfl⟩ := List.exists_cons_of_ne_nil some
    exact ⟨id, List.mem_cons_self, each id List.mem_cons_self⟩

theorem Built.kinds {cfg : Setting} {R : Converts} {f : Fragment} {o : Options} {nullable : Bool}
    {c : Container} (built : Built cfg R kind f o nullable s c t)
    (inside : ∀ g o s c t, R g o s c t → Grows s t) :
    ∃ id, Standing id kind t ∧
      if nullable then ∃ null, c = [id, null] ∧ Standing null .null t else c = [id] := by
  cases built with
  | @intro name gs cs start last named quiet inner each =>
    have stays {id : Id} {k : Kind}
        (opened : Standing id k (claimed (opening kind f { o with name }) nullable start)) :
        Standing id k (finished kind f start.descriptors.size cs last) := by
      have kept := each.keeps (Standing id k)
        (fun _ _ _ _ _ one before => before.grows (inside _ _ _ _ _ one))
        (fun cs s before => before.touches (noted_touches _ _ _ cs s)) opened
      exact kept.touches (finished_touches _ _ _ _ _)
    refine ⟨start.descriptors.size, stays ⟨_, get?_claimed _ _ _, opening_kind _ _ _⟩, ?_⟩
    cases nullable with
    | false => rfl
    | true => exact ⟨_, rfl, stays ⟨_, get?_claimed_null _ _, rfl⟩⟩

end

section

variable {cfg : Setting} {s t : Store} {f : Fragment} {o : Options} {c : Container}

/-- Where `null` is kept beside a fragment without combinators, one of the alternatives says `null`. -/
theorem Step.keepsNull {R : Converts} (step : Step cfg R f o s c t)
    (inside : ∀ g o s c t, R g o s c t → Grows s t) (isRef : f.isRef = false) (unnamed : o.name = "")
    (kept : keepsNull f = true) : AllowsNull t c := by
  cases step with
  | ref reference _ => exact absurd (isRef.symm.trans reference) Bool.false_ne_true
  | union _ _ named _ => exact absurd unnamed named
  | @types _ _ _ m cs _ _ _ each =>
    have last : (sideBySide (Model.keepsNull f) cs m) =
        (cs.flatten ++ [m.descriptors.size], (m.push nullDescriptor).2) := by rw [sideBySide, if_pos kept]
    rw [last]
    refine ⟨m.descriptors.size, by simp, nullDescriptor, ?_, rfl⟩
    rw [get?_register, Store.get?_push, if_pos rfl]
  | node _ _ _ built =>
    obtain ⟨id, _, alternatives⟩ := built.kinds inside
    rw [kept, if_pos rfl] at alternatives
    obtain ⟨null, rfl, last⟩ := alternatives
    exact ⟨null, by simp, last⟩

def nullKind (f : Fragment) : Kind :=
  if (Features.ofFragment f).generic then .generic
  else if f.keywords.enum = [] then .null
  else .enum

theorem onlyNull_types (only : onlyNull f = true) :
    f.keywords.types ≠ [] ∧ ∀ t ∈ f.keywords.types, t = "null" := by
  simpa [onlyNull] using only

theorem type_onlyNull (only : onlyNull f = true) (alone : f.combinator? = none)
    (single : isMultiType f = false) (hollow : f.keywords.enum = []) :
    (Features.ofFragment f).type = .text "null" := by
  obtain ⟨some, each⟩ := onlyNull_types only
  simp only [isMultiType, alone, hollow, Option.isNone_none, List.isEmpty_nil, Bool.and_true,
    decide_eq_false_iff_not, Nat.not_lt] at single
  cases types : f.keywords.types with
  | nil => exact absurd types some
  | cons name rest =>
    cases rest with
    | nil =>
      have null : name = "null" := each name (by simp [types])
      rw [Features.type_single types, null]
    | cons _ _ => simp [types] at single

theorem nullKind_features (only : onlyNull f = true) (alone : f.combinator? = none)
    (single : isMultiType f = false) : (Features.ofFragment f).kind = nullKind f := by
  have apart : (Features.ofFragment f).combined = false := by simp [Features.ofFragment, alone]
  have valued : (Features.ofFragment f).valued = !f.keywords.enum.isEmpty := rfl
  simp only [Features.kind, nullKind, apart, valued]
  by_cases hollow : f.keywords.enum = []
  · simp [type_onlyNull only alone single hollow, hollow, TypeSeen.kind, typeKind]
  · simp [hollow]

/-- What a fragment of no type but `null` is converted to: every alternative has the one kind. -/
def Eclipses : Converts := fun f o _ c t =>
  f.isRef = false → f.combinator? = none → onlyNull f = true → o.name = "" → WellKept f.keywords →
    AllOfKind t c (nullKind f)

theorem Eclipses.each {base : String} {gs : List Fragment} {cs out : List Container} (kind : Kind)
    (each : Each (fun f o s c t => Grows s t ∧ Eclipses f o s c t) base (fun _ t => t) gs cs s out t)
    (only : ∀ g ∈ gs, g.isRef = false ∧ g.combinator? = none ∧ onlyNull g = true ∧
      WellKept g.keywords ∧ nullKind g = kind)
    (before : ∀ id ∈ cs.flatten, Standing id kind s) :
    (∀ id ∈ out.flatten, Standing id kind t) ∧ (gs ≠ [] ∨ cs.flatten ≠ [] → out.flatten ≠ []) := by
  induction each with
  | done => exact ⟨before, fun some => some.resolve_left fun absurd => absurd rfl⟩
  | part first _ ih =>
    obtain ⟨grows, eclipses⟩ := first
    obtain ⟨isRef, alone, null, kept, same⟩ := only _ List.mem_cons_self
    have all := eclipses isRef alone null rfl kept
    rw [same] at all
    have next := ih (fun g inside => only g (List.mem_cons_of_mem _ inside)) (by
      intro id inside
      rw [List.flatten_append, List.mem_append] at inside
      rcases inside with old | new
      · exact (before id old).grows grows
      · exact all.2 id (by simpa using new))
    exact ⟨next.1, fun _ => next.2 (.inr (by simp [all.1]))⟩

theorem onlyNull_branch {g : Fragment} (only : onlyNull f = true) (listed : g ∈ typeBranches f) :
    onlyNull g = true ∧ nullKind g = nullKind f := by
  obtain ⟨t, type, rfl⟩ := List.mem_map.mp listed
  have null : t = "null" := (onlyNull_types only).2 t type
  exact ⟨by simp [onlyNull, null], rfl⟩

theorem eclipses_step (rules : cfg.rules = Rule.defaults)
    (step : Step cfg (fun f o s c t => Grows s t ∧ Eclipses f o s c t) f o s c t) :
    Eclipses f o s c t := by
  intro isRef alone only unnamed kept
  have same : stripped f = f := by simp [stripped, keepsNull, only]
  cases step with
  | ref reference _ => exact absurd (isRef.symm.trans reference) Bool.false_ne_true
  | union _ _ named _ => exact absurd unnamed named
  | types _ _ _ each =>
    rw [same] at each
    have some : typeBranches f ≠ [] := by simpa [typeBranches] using (onlyNull_types only).1
    have nothing : keepsNull f = false := by simp [keepsNull, only]
    have parts := Eclipses.each (nullKind f) each (fun g listed => ?_) (by simp)
    · simp only [nothing, sideBySide]
      refine ⟨parts.2 (.inl some), fun id inside => ?_⟩
      obtain ⟨d, found, kind⟩ := parts.1 id inside
      exact ⟨d, by rw [get?_register]; exact found, kind⟩
    · obtain ⟨null, kind⟩ := onlyNull_branch only listed
      refine ⟨?_, ?_, null, kept.branch listed, kind⟩
      · obtain ⟨_, _, rfl⟩ := List.mem_map.mp listed
        exact isRef
      · obtain ⟨_, _, rfl⟩ := List.mem_map.mp listed
        exact alone
  | node _ single written built =>
    rw [same] at single written
    obtain ⟨id, has, alternatives⟩ := built.kinds fun _ _ _ _ _ one => one.1
    rw [kindOf_features rules kept written, nullKind_features only alone single] at has
    simp only [keepsNull, only, Bool.not_true, Bool.and_false, Bool.false_eq_true, if_false] at alternatives
    rw [alternatives]
    exact ⟨by simp, fun other inside => by rwa [List.mem_singleton.mp inside]⟩

/-- A fragment is converted because it is asked for, unless its reference is known, or inside another
one. -/
inductive Converted (cfg : Setting) (f : Fragment) (o : Options) (s : Store) (c : Container)
    (t : Store) : Prop
  | asked (fresh : o.ref = "" ∨ s.lookup? (Reference.normalize o.ref) = none)
      (run : Returns (convert cfg f o) s c t)
  | nested {depth : Nat} (run : Returns (convertDepth cfg depth f o) s c t)

theorem Converted.depth (converted : Converted cfg f o s c t) :
    ∃ depth o', o'.name = o.name ∧ Returns (convertDepth cfg depth f o') s c t := by
  cases converted with
  | nested run => exact ⟨_, o, rfl, run⟩
  | asked fresh run =>
    rw [Returns, exec_convert_fresh f fresh] at run
    obtain ⟨depth, inside⟩ := returns_deepening run
    exact ⟨depth, o.normal, o.normal_name, inside⟩

/-- A fragment without combinators that allows `null` and is converted without a name has `null` among
its alternatives. If it has no type but `null`, that is so exactly when it has no values and no cases
that are chosen by a key: those are looked at before the type. -/
theorem anonymous_null (isRef : f.isRef = false) (alone : f.combinator? = none)
    (nullable : f.isNullable = true) (unnamed : o.name = "") (converted : Converted cfg f o s c t) :
    (onlyNull f = false → AllowsNull t c) ∧
      (cfg.rules = Rule.defaults → onlyNull f = true → WellKept f.keywords →
        (AllowsNull t c ↔ f.keywords.enum = [] ∧
          ((f.keywords.extensions.lookup genericKeyword).bind (·.get? "cases")) = none)) := by
  obtain ⟨depth, o', same, run⟩ := converted.depth
  constructor
  · intro mixed
    have step := convertDepth_keeps_also (P := fun f o s c t => f.isRef = false → o.name = "" →
      keepsNull f = true → AllowsNull t c) (fun _ _ _ _ _ _ => convertDepth_grows)
      (fun _ _ _ _ _ _ step => step.keepsNull fun _ _ _ _ _ one => one.1) run
    exact step isRef (same.trans unnamed) (by simp [keepsNull, nullable, mixed])
  · intro rules only kept
    have all := convertDepth_keeps_also (P := Eclipses) (fun _ _ _ _ _ _ => convertDepth_grows)
      (fun _ _ _ _ _ _ step => eclipses_step rules step) run isRef alone only (same.trans unnamed) kept
    rw [all.allowsNull_iff, nullKind]
    by_cases cases : ((f.keywords.extensions.lookup genericKeyword).bind (·.get? "cases")) = none
    · by_cases hollow : f.keywords.enum = [] <;> simp [Features.ofFragment, cases, hollow]
    · have generic : (Features.ofFragment f).generic = true := by
        simpa [Features.ofFragment, Option.isSome_iff_ne_none] using cases
      simp [generic, cases]

end

def blankPage : Setting where
  resolver := { root := .obj [] }

def maybeAnswer : Fragment where
  keywords := { types := ["string", "boolean"], nullable := true }

theorem anonymous_null_maybe :
    (∃ t, Converted blankPage maybeAnswer {} {} [0, 1, 2] t ∧ AllowsNull t [0, 1, 2]) ∧
      ∃ t, Converted blankPage (Fragment.ofType "null") {} {} [0] t ∧ AllowsNull t [0] := by
  constructor
  · have run : Returns (convert blankPage maybeAnswer {}) {} [0, 1, 2] _ :=
      returns_deepening_first _ (by decide +kernel)
    have converted : Converted blankPage maybeAnswer {} {} [0, 1, 2] _ := .asked (.inl rfl) run
    exact ⟨_, converted, (anonymous_null rfl rfl rfl rfl converted).1 rfl⟩
  · have run : Returns (convert blankPage (Fragment.ofType "null") {}) {} [0] _ :=
      returns_deepening_first _ (by decide +kernel)
    have converted : Converted blankPage (Fragment.ofType "null") {} {} [0] _ := .asked (.inl rfl) run
    have kept : WellKept (Fragment.ofType "null").keywords := by
      constructor <;> simp [Fragment.ofType]
    exact ⟨_, converted, ((anonymous_null rfl rfl rfl rfl converted).2 rfl rfl kept).mpr ⟨rfl, rfl⟩⟩

def listedNull : Fragment where
  keywords := { types := ["null"], enum := [.null] }

theorem null_lost_listed :
    Fragment.decode? (.obj [("enum", .arr [.null]), ("type", .str "null")]) = some listedNull ∧
      listedNull.isRef = false ∧ listedNull.isNullable = true ∧ listedNull.combinator? = none ∧
      ∃ t, Converted blankPage listedNull {} {} [0] t ∧ ¬ AllowsNull t [0] := by
  have run : Returns (convert blankPage listedNull {}) {} [0] _ :=
    returns_deepening_first _ (by decide +kernel)
  have enum : ((exec (convertDepth blankPage firstDepth listedNull {}) {}).2.get? 0).map (·.kind) =
      some .enum := by decide +kernel
  refine ⟨rfl, rfl, rfl, rfl, _, .asked (.inl rfl) run, ?_⟩
  rintro ⟨id, inside, d, found, null⟩
  cases List.mem_singleton.mp inside
  have held : (exec (convertDepth blankPage firstDepth listedNull {}) {}).2.get? 0 = some d := found
  rw [held, Option.map_some, null] at enum
  cases enum

end Typesmith.Model
