import Typesmith.Proofs.Sharing

namespace Typesmith.Model

section

variable {α β : Type} {s t : Store} {e : Failure}

def Throws (x : ConvertM α) (s : Store) (e : Failure) (t : Store) : Prop :=
  exec x s = (.error e, t)

@[simp] theorem not_throws_pure {a : α} : ¬ Throws (pure a) s e t := by
  simp [Throws]

@[simp] theorem throws_fail {f : Fault} : Throws (fail f : ConvertM α) s e t ↔ .fault f = e ∧ s = t := by
  simp [Throws]

@[simp] theorem throws_throw {cause : Failure} :
    Throws (throw cause : ConvertM α) s e t ↔ cause = e ∧ s = t := by
  simp [Throws]

@[simp] theorem throws_lift {r : Except Failure α} : Throws (liftM r) s e t ↔ r = .error e ∧ s = t := by
  simp [Throws]

theorem not_throws_claim {d : Descriptor} {nullable : Bool} : ¬ Throws (claim d nullable) s e t := by
  rw [Throws, exec_claim]
  intro same
  cases same

theorem throws_bind {x : ConvertM α} {f : α → ConvertM β} :
    Throws (x >>= f) s e t ↔ Throws x s e t ∨ ∃ a m, Returns x s a m ∧ Throws (f a) m e t := by
  simp only [Throws, Returns, exec_bind]
  rcases exec x s with ⟨_ | a, m⟩
  · simp
  · simp

theorem throws_foldlM {f : β → α → ConvertM β} {l : List α} {b : β} (run : Throws (l.foldlM f b) s e t) :
    ∃ before x after c m, l = before ++ x :: after ∧
      Rounds (fun b x s c t => Returns (f b x) s c t) b before s c m ∧ Throws (f c x) m e t := by
  induction l generalizing b s with
  | nil => exact absurd run not_throws_pure
  | cons x l ih =>
    rcases throws_bind.mp run with first | ⟨c, m, first, rest⟩
    · exact ⟨[], x, l, b, s, rfl, .done, first⟩
    · obtain ⟨before, y, after, d, n, rfl, rounds, last⟩ := ih rest
      exact ⟨x :: before, y, after, d, n, rfl, .round first rounds, last⟩

theorem throws_mapM {f : α → ConvertM β} {l : List α} (run : Throws (l.mapM f) s e t) :
    ∃ before x after r m, l = before ++ x :: after ∧ Returns (before.mapM f) s r m ∧
      Throws (f x) m e t := by
  induction l generalizing s with
  | nil => exact absurd run not_throws_pure
  | cons x l ih =>
    rw [List.mapM_cons] at run
    rcases throws_bind.mp run with first | ⟨y, m, first, rest⟩
    · exact ⟨[], x, l, [], s, rfl, returns_pure.mpr ⟨rfl, rfl⟩, first⟩
    · rcases throws_bind.mp rest with rest | ⟨_, _, _, done⟩
      · obtain ⟨before, z, after, r, n, rfl, rounds, last⟩ := ih rest
        exact ⟨x :: before, z, after, y :: r, n, rfl,
          returns_mapM_cons.mpr ⟨y, m, r, first, rounds, rfl⟩, last⟩
      · exact absurd done not_throws_pure

/-- A conversion that stopped at a fault stopped there at one of the depths that were tried. -/
theorem throws_deepening {run : Nat → ConvertM α} (stopped : Throws (deepening run) s e t)
    (ends : e ≠ .tooDeep) : ∃ depth, Throws (run depth) s e t := by
  change (firstEnding (fun depth => exec (run depth) s) firstDepth).getD _ = _ at stopped
  cases ending : firstEnding (fun depth => exec (run depth) s) firstDepth with
  | none =>
    rw [ending] at stopped
    cases stopped
    exact absurd rfl ends
  | some r =>
    rw [ending] at stopped
    obtain ⟨depth, same, _⟩ := firstEnding_some ending
    exact ⟨depth, same.trans stopped⟩

end

abbrev Halts := Fragment → Options → Store → Failure → Store → Prop

inductive Nested (cfg : Setting) (base : String) : Kind → Fragment → Fragment → Prop
  | property {f : Fragment} {p : String × Fragment} (listed : p ∈ f.properties) :
      Nested cfg base .object f p.2
  | extra {f g : Fragment} (described : g ∈ extraFragments f) : Nested cfg base .object f g
  | item {f g : Fragment} (listed : g ∈ f.itemFragments) : Nested cfg base .array f g
  | merged {f merged : Fragment} {found : List Fragment}
      (joined : Fragment.merge? (found ++ [untitled f.commonPart]) = some merged) :
      Nested cfg base .someOf f (untitled merged)
  | alternative {f member g : Fragment} {c : Fragment.Combinator} {members : List Fragment}
      (combined : f.combinator? = some (c, members)) (separate : c ≠ .allOf) (listed : member ∈ members)
      (chosen : alternative cfg f.commonPart member base = .ok g) : Nested cfg base .someOf f g
  | case {f g : Fragment} {key : String} (decoded : Fragment.decode? (caseJson f key) = some g) :
      Nested cfg base .generic f g

def partCount (kind : Kind) (f : Fragment) : Nat :=
  match kind with
  | .object => f.properties.length + (extraFragments f).length
  | .array => f.itemFragments.length
  | .someOf =>
    match f.combinator? with
    | some (.allOf, _) => 1
    | some (_, members) => members.length
    | none => 0
  | .generic => (caseKeys f).length
  | _ => 0

theorem forall₂_of_mapM_some {α β : Type} {pick : α → Option β} {l : List α} {r : List β}
    (picked : l.mapM pick = some r) : List.Forall₂ (fun x y => pick x = some y) l r := by
  induction l generalizing r with
  | nil =>
    cases picked
    exact .nil
  | cons x rest ih =>
    simp only [List.mapM_cons, Option.bind_eq_bind, Option.bind_eq_some_iff, Option.pure_def,
      Option.some.injEq] at picked
    obtain ⟨y, first, ys, others, rfl⟩ := picked
    exact .cons first (ih others)

theorem combinator?_members {f : Fragment} {c : Fragment.Combinator} {members : List Fragment}
    (combined : f.combinator? = some (c, members)) : members ≠ [] ∧
      (c = .oneOf ∧ members = f.oneOf ∨ c = .anyOf ∧ members = f.anyOf ∨ c = .allOf ∧ members = f.allOf) := by
  unfold Fragment.combinator? at combined
  repeat' split at combined
  all_goals cases combined
  all_goals
    rename_i some
    exact ⟨by simpa using some, by simp⟩

theorem partCount_someOf {f : Fragment} {c : Fragment.Combinator} {members : List Fragment}
    (combined : f.combinator? = some (c, members)) : 0 < partCount .someOf f := by
  have some := List.length_pos_iff.mpr (combinator?_members combined).1
  simp only [partCount, combined]
  cases c with
  | allOf => exact Nat.one_pos
  | _ => exact some

theorem Inner.length {cfg : Setting} {base : String} {kind : Kind} {f : Fragment} {gs : List Fragment}
    (inner : Inner cfg base kind f gs) : gs.length = partCount kind f := by
  cases inner with
  | object => simp [partCount]
  | array => rfl
  | allOf combined => simp [partCount, combined]
  | @alternatives _ c members _ combined separate chosen =>
    have same := (mapM_ok_iff.mp chosen).length_eq.symm
    cases c with
    | allOf => exact absurd rfl separate
    | _ => simpa [partCount, combined] using same
  | generic decoded => exact (forall₂_of_mapM_some decoded).length_eq.symm
  | leaf object array someOf generic => cases kind <;> simp_all [partCount]

theorem Inner.nested {cfg : Setting} {base : String} {kind : Kind} {f g : Fragment} {gs : List Fragment}
    (inner : Inner cfg base kind f gs) (listed : g ∈ gs) : Nested cfg base kind f g := by
  cases inner with
  | object =>
    rcases List.mem_append.mp listed with inside | extra
    · obtain ⟨p, member, rfl⟩ := List.mem_map.mp inside
      exact .property member
    · exact .extra extra
  | array => exact .item listed
  | allOf combined gathered joined =>
    cases List.mem_singleton.mp listed
    exact .merged joined
  | alternatives combined separate chosen =>
    obtain ⟨member, inside, chosen⟩ := exists_of_forall₂ (mapM_ok_iff.mp chosen) listed
    exact .alternative combined separate inside chosen
  | generic decoded =>
    obtain ⟨key, _, decoded⟩ := exists_of_forall₂ (forall₂_of_mapM_some decoded) listed
    exact .case decoded
  | leaf => cases listed

inductive Unprepared (cfg : Setting) (f : Fragment) (o : Options) : Kind → Failure → Prop
  | gathering {depth : Nat} {members : List Fragment} {e : Failure}
      (combined : f.combinator? = some (.allOf, members))
      (stopped : gather cfg depth members o.base = .error e) : Unprepared cfg f o .someOf e
  | merging {members : List Fragment} (combined : f.combinator? = some (.allOf, members)) :
      Unprepared cfg f o .someOf
        (.fault ⟨.combinator, o.ref, f.compact, "merging allOf members", some unwritableText⟩)
  | choosing {c : Fragment.Combinator} {members : List Fragment} {e : Failure}
      (combined : f.combinator? = some (c, members)) (separate : c ≠ .allOf)
      (stopped : (members.mapM fun member => alternative cfg f.commonPart member o.base) = .error e) :
      Unprepared cfg f o .someOf e
  | case {key : String} (listed : key ∈ caseKeys f) :
      Unprepared cfg f o .generic (.fault ⟨.reference, o.ref, (caseJson f key).compact,
        "case " ++ Text.quote key ++ " is not a valid schema", some "the fragment cannot be read"⟩)

/-- A descriptor that is not finished: it was not stored, or something inside it stops when fewer
fragments than it needs are converted. -/
inductive BuiltStops (cfg : Setting) (R : Converts) (H : Halts) (kind : Kind) (f : Fragment) (o : Options)
    (nullable : Bool) (s : Store) : Failure → Store → Prop
  | hollow (someOf : kind = .someOf) (hollow : f.combinator? = none) :
      BuiltStops cfg R H kind f o nullable s (.fault (Fault.ofCombinator o.ref f.compact)) s
  | unprepared {gs : List Fragment} {cs : List Container} {start t : Store} {e : Failure}
      (quiet : Quiet s start) (fewer : gs.length < partCount kind f)
      (each : Each R o.base (noted kind f start.descriptors.size) gs []
        (claimed (opening kind f o) nullable start) cs t)
      (own : Unprepared cfg f o kind e) : BuiltStops cfg R H kind f o nullable s e t
  | inside {gs : List Fragment} {g : Fragment} {hint : String} {cs : List Container} {start m t : Store}
      {e : Failure} (quiet : Quiet s start) (fewer : gs.length < partCount kind f)
      (each : Each R o.base (noted kind f start.descriptors.size) gs []
        (claimed (opening kind f o) nullable start) cs m)
      (nested : Nested cfg o.base kind f g)
      (last : H g { suggested := hint, base := o.base } m e t) : BuiltStops cfg R H kind f o nullable s e t

/-- How a request for a reference stops: its fragment cannot be read, or not be converted. -/
inductive FindsStops (cfg : Setting) (H : Halts) (ref : String) (s : Store) : Failure → Store → Prop
  | unresolved {e : Failure} (absent : s.lookup? (Reference.normalize ref) = none)
      (unresolved : resolve cfg (Reference.normalize ref) = .error e) : FindsStops cfg H ref s e s
  | converted {f : Fragment} {name : String} {names : Registry} {e : Failure} {t : Store}
      (absent : s.lookup? (Reference.normalize ref) = none)
      (resolved : cfg.resolver.fragment (Reference.normalize ref) = .ok f)
      (given : s.names.claim (Reference.normalize ref)
        (Naming.modelName (Reference.parse (Reference.normalize ref)).lastSegment) = (name, names))
      (kept : cfg.overrides.lookup name = none)
      (inside : H f { name, ref := Reference.normalize ref, base := Reference.normalize ref }
        { s with names } e t) :
      FindsStops cfg H ref s e t

/-- One layer of a conversion that stops. -/
inductive StepStops (cfg : Setting) (R : Converts) (H : Halts) : Halts
  | ref {f : Fragment} {o : Options} {s t : Store} {e : Failure} (isRef : f.isRef = true)
      (found : FindsStops cfg H (Reference.qualify f.ref o.base) s e t) : StepStops cfg R H f o s e t
  | union {f : Fragment} {o : Options} {s t : Store} {e : Failure} (isRef : f.isRef = false)
      (multi : isMultiType (stripped f) = true) (named : o.name ≠ "")
      (inside : H (typesUnion (stripped f) (keepsNull f)) o s e t) : StepStops cfg R H f o s e t
  | types {f g : Fragment} {o : Options} {gs : List Fragment} {hint : String} {s m t : Store}
      {cs : List Container} {e : Failure} (isRef : f.isRef = false)
      (multi : isMultiType (stripped f) = true) (unnamed : o.name = "")
      (each : Each R o.base (fun _ t => t) gs [] s cs m) (listed : g ∈ typeBranches (stripped f))
      (last : H g { suggested := hint, base := o.base } m e t) : StepStops cfg R H f o s e t
  | unwritten {f : Fragment} {o : Options} {s : Store} (isRef : f.isRef = false)
      (single : isMultiType (stripped f) = false) (unwritten : (stripped f).toJson? = none) :
      StepStops cfg R H f o s
        (.fault (Fault.ofReference o.ref "encoding fragment" (some unwritableText))) s
  | node {f : Fragment} {o : Options} {raw : Json} {s m t : Store} {e : Failure}
      (isRef : f.isRef = false) (single : isMultiType (stripped f) = false)
      (written : (stripped f).toJson? = some raw) (quiet : Quiet s m)
      (built : BuiltStops cfg R H (kindOf cfg raw) (stripped f) o (keepsNull f) m e t) :
      StepStops cfg R H f o s e t

section

variable {cfg : Setting} {conv : Converter} {R : Converts} {H : Halts}

structure Known (conv : Converter) (R : Converts) (H : Halts) : Prop where
  ends : ∀ f o s c t, Returns (conv f o) s c t → R f o s c t
  stops : ∀ f o s e t, Throws (conv f o) s e t → H f o s e t

variable (knows : Known conv R H) {f : Fragment} {o : Options} {nullable : Bool} {s t : Store} {e : Failure}
include knows

theorem properties_each {l : List (String × Fragment)} {r : List Property} {m : Store}
    (run : Returns (l.mapM fun p => do
      let types ← conv p.2 (o.child (o.hint ++ Naming.pascalCase p.1))
      return listedProperty f p types) s r m) :
    Each R o.base (fun _ t => t) (l.map (·.2)) [] s ([] ++ r.map (·.types)) m := by
  refine each_of_mapM ?_ run
  intro p s a t one
  obtain ⟨types, _, inside, made⟩ := returns_bind.mp one
  obtain ⟨rfl, rfl⟩ := returns_pure.mp made
  exact ⟨_, knows.ends _ _ _ _ _ inside⟩

theorem stops_object (run : Throws (convertObject conv f o nullable) s e t) :
    BuiltStops cfg R H .object f o nullable s e t := by
  unfold convertObject at run
  rcases throws_bind.mp run with start | ⟨⟨id, c⟩, m, start, run⟩
  · exact absurd start not_throws_claim
  obtain ⟨same, rfl⟩ := returns_claim.mp start
  cases same
  rcases throws_bind.mp run with listing | ⟨set, n, listed, run⟩
  · obtain ⟨before, p, after, r, m, all, done, last⟩ := throws_mapM listing
    rcases throws_bind.mp last with last | ⟨_, _, _, made⟩
    · have member : p ∈ f.properties := by simp [all]
      have fewer : (before.map (·.2)).length < partCount .object f := by
        simp only [partCount, all, List.length_map, List.length_append, List.length_cons]
        omega
      exact .inside (.refl s) fewer (properties_each knows done) (.property member)
        (knows.stops _ _ _ _ _ last)
    · exact absurd made not_throws_pure
  rcases throws_bind.mp run with closing | ⟨_, _, _, done⟩
  · unfold closeObject at closing
    split at closing
    · rename_i extra described
      have extras : extraFragments f = [extra] := by rw [extraFragments, described]
      rcases throws_bind.mp closing with last | ⟨_, _, _, shaped⟩
      · have fewer : (f.properties.map (·.2)).length < partCount .object f := by
          simp [partCount, extras]
        exact .inside (.refl s) fewer (properties_each knows listed) (.extra (by simp [extras]))
          (knows.stops _ _ _ _ _ last)
      · cases shaped
    · cases closing
    · split at closing
      · rcases throws_bind.mp closing with made | ⟨_, _, _, shaped⟩
        · cases made
        · cases shaped
      · cases closing
  · exact absurd done not_throws_pure

theorem stops_array (run : Throws (convertArray conv f o nullable) s e t) :
    BuiltStops cfg R H .array f o nullable s e t := by
  unfold convertArray at run
  rcases throws_bind.mp run with start | ⟨⟨id, c⟩, m, start, run⟩
  · exact absurd start not_throws_claim
  obtain ⟨same, rfl⟩ := returns_claim.mp start
  cases same
  rcases throws_bind.mp run with loop | ⟨_, _, _, done⟩
  · obtain ⟨before, item, after, items, m, all, rounds, last⟩ := throws_foldlM loop
    have each := each_items knows.ends f rounds
    rcases throws_bind.mp last with last | ⟨_, _, _, noting⟩
    · have member : item ∈ f.itemFragments := by simp [all]
      have fewer : before.length < partCount .array f := by simp [partCount, all]
      exact .inside (.refl s) fewer each (.item member) (knows.stops _ _ _ _ _ last)
    · rcases throws_bind.mp noting with shaped | ⟨_, _, _, noting⟩
      · cases shaped
      · exact absurd noting not_throws_pure
  · exact absurd done not_throws_pure

theorem stops_generic (run : Throws (convertGeneric conv f o nullable) s e t) :
    BuiltStops cfg R H .generic f o nullable s e t := by
  unfold convertGeneric at run
  rcases throws_bind.mp run with start | ⟨⟨id, c⟩, m, start, run⟩
  · exact absurd start not_throws_claim
  obtain ⟨same, rfl⟩ := returns_claim.mp start
  cases same
  rcases throws_bind.mp run with loop | ⟨_, _, _, done⟩
  · obtain ⟨before, key, after, cases, m, all, rounds, last⟩ := throws_foldlM loop
    have listed : caseKeys f = before ++ key :: after := all
    obtain ⟨gs, picks, each⟩ := each_cases knows.ends listed rounds
    have member : key ∈ caseKeys f := by simp [listed]
    have fewer : gs.length < partCount .generic f := by simp [partCount, listed, ← picks.length_eq]
    rcases throws_bind.mp last with reading | ⟨g, n, decoded, last⟩
    · unfold caseFragment at reading
      split at reading
      · exact absurd reading not_throws_pure
      · obtain ⟨rfl, rfl⟩ := throws_fail.mp reading
        exact .unprepared (.refl s) fewer each (.case member)
    · obtain ⟨read, rfl⟩ := returns_caseFragment decoded
      rcases throws_bind.mp last with last | ⟨_, _, _, noting⟩
      · exact .inside (.refl s) fewer each (.case read) (knows.stops _ _ _ _ _ last)
      · rcases throws_bind.mp noting with shaped | ⟨_, _, _, noting⟩
        · cases shaped
        · exact absurd noting not_throws_pure
  · exact absurd done not_throws_pure

omit knows in
theorem stops_branches {depth : Nat} {c : Fragment.Combinator} {members : List Fragment} {d : Descriptor}
    (combined : f.combinator? = some (c, members))
    (run : Throws (branchFragments cfg depth c f members o) (claimed d nullable s) e t) :
    Unprepared cfg f o .someOf e ∧ ∃ start, Quiet s start ∧
      start.descriptors.size = s.descriptors.size ∧ t = claimed d nullable start := by
  by_cases all : c = .allOf
  · subst all
    simp only [branchFragments, composite] at run
    rcases throws_bind.mp run with run | ⟨_, _, _, done⟩
    · rcases throws_bind.mp run with first | ⟨p, _, first, rest⟩
      · obtain ⟨stopped, rfl⟩ := throws_lift.mp first
        exact ⟨.gathering combined stopped, s, .refl s, rfl, rfl⟩
      obtain ⟨gathered, rfl⟩ := returns_lift.mp first
      cases joined : Fragment.merge? (p.found ++ [untitled f.commonPart]) with
      | none =>
        simp only [joined] at rest
        split at rest
        · rcases throws_bind.mp rest with warned | ⟨_, _, warned, rest⟩
          · cases warned
          cases warned
          obtain ⟨rfl, rfl⟩ := throws_fail.mp rest
          exact ⟨.merging combined, s.warn _ _ _, quiet_warn _ _ _ _, rfl, (claimed_warn _ _ _ _ _ _).symm⟩
        · obtain ⟨rfl, rfl⟩ := throws_fail.mp rest
          exact ⟨.merging combined, s, .refl s, rfl, rfl⟩
      | some merged =>
        simp only [joined] at rest
        split at rest
        · rcases throws_bind.mp rest with warned | ⟨_, _, _, rest⟩
          · cases warned
          · exact absurd rest not_throws_pure
        · exact absurd rest not_throws_pure
    · exact absurd done not_throws_pure
  · have lifted : Throws (liftM (members.mapM fun member =>
        alternative cfg f.commonPart member o.base)) (claimed d nullable s) e t := by
      cases c with
      | allOf => exact absurd rfl all
      | oneOf => exact run
      | anyOf => exact run
    obtain ⟨stopped, rfl⟩ := throws_lift.mp lifted
    exact ⟨.choosing combined all stopped, s, .refl s, rfl, rfl⟩

theorem stops_someOf {depth : Nat} (run : Throws (convertSomeOf cfg depth conv f o nullable) s e t) :
    BuiltStops cfg R H .someOf f o nullable s e t := by
  unfold convertSomeOf at run
  split at run
  · rename_i hollow
    obtain ⟨rfl, rfl⟩ := throws_fail.mp run
    exact .hollow rfl hollow
  rename_i c members combined
  have opened : blank .someOf f o (.someOf c []) = opening .someOf f o := by
    simp only [opening, combined, Option.map_some, Option.getD_some]
  rw [opened] at run
  rcases throws_bind.mp run with start | ⟨⟨id, _⟩, m, start, run⟩
  · exact absurd start not_throws_claim
  obtain ⟨same, rfl⟩ := returns_claim.mp start
  cases same
  rcases throws_bind.mp run with branching | ⟨branches, n, found, run⟩
  · obtain ⟨own, start, quiet, place, rfl⟩ := stops_branches combined branching
    have fewer : ([] : List Fragment).length < partCount .someOf f := partCount_someOf combined
    exact .unprepared quiet fewer .done own
  obtain ⟨inner, start, quiet, _, place, rfl⟩ := returns_branchFragments combined found
  rcases throws_bind.mp run with loop | ⟨_, _, _, done⟩
  · obtain ⟨before, branch, after, parts, m, rfl, rounds, last⟩ := throws_foldlM loop
    rw [← place] at rounds
    have each := each_branches knows.ends combined rounds
    rcases throws_bind.mp last with last | ⟨_, _, _, noting⟩
    · have fewer : before.length < partCount .someOf f := by
        rw [← inner.length]
        simp
      exact .inside quiet fewer each (inner.nested (by simp)) (knows.stops _ _ _ _ _ last)
    · rcases throws_bind.mp noting with shaped | ⟨_, _, _, noting⟩
      · cases shaped
      · exact absurd noting not_throws_pure
  · exact absurd done not_throws_pure

theorem stops_kind {depth : Nat} {kind : Kind}
    (run : Throws (convertKind cfg depth conv kind f o nullable) s e t) :
    BuiltStops cfg R H kind f o nullable s e t := by
  have leaf : ∀ d : Descriptor, ¬ Throws (do return (← claim d nullable).2) s e t := by
    intro d run
    rcases throws_bind.mp run with start | ⟨_, _, _, done⟩
    · exact not_throws_claim start
    · exact not_throws_pure done
  cases kind with
  | object => exact stops_object knows run
  | array => exact stops_array knows run
  | enum =>
    simp only [convertKind, convertEnum] at run
    split at run
    all_goals
      rcases throws_bind.mp run with naming | ⟨_, _, _, run⟩
      · cases naming
      rcases throws_bind.mp run with start | ⟨_, _, _, done⟩
      · exact absurd start not_throws_claim
      · exact absurd done not_throws_pure
  | someOf => exact stops_someOf knows run
  | generic => exact stops_generic knows run
  | _ => exact absurd run (leaf _)

omit knows in
theorem not_throws_classifyRaw {raw : Json} {ref : String} : ¬ Throws (classifyRaw cfg raw ref) s e t := by
  intro run
  simp only [classifyRaw] at run
  rcases throws_bind.mp run with lines | ⟨_, _, _, run⟩
  · cases lines
  · split at run
    · rcases throws_bind.mp run with warned | ⟨_, _, _, done⟩
      · cases warned
      · exact not_throws_pure done
    · exact not_throws_pure run

theorem stops_findOrCreateWith {ref : String} (run : Throws (findOrCreateWith cfg conv ref) s e t) :
    FindsStops cfg H ref s e t := by
  simp only [findOrCreateWith] at run
  rcases throws_bind.mp run with got | ⟨_, _, got, run⟩
  · cases got
  cases got
  split at run
  · exact absurd run not_throws_pure
  rename_i absent
  rcases throws_bind.mp run with reading | ⟨f, _, lifted, run⟩
  · obtain ⟨unresolved, rfl⟩ := throws_lift.mp reading
    exact .unresolved absent unresolved
  obtain ⟨resolved, rfl⟩ := returns_lift.mp lifted
  rcases throws_bind.mp run with naming | ⟨name, _, naming, run⟩
  · cases naming
  rw [returns_modifyGet] at naming
  rcases given : s.names.claim (Reference.normalize ref)
    (Naming.modelName (Reference.parse (Reference.normalize ref)).lastSegment) with ⟨name, names⟩
  rw [given] at naming
  cases naming
  split at run
  · rcases throws_bind.mp run with start | ⟨_, _, _, done⟩
    · exact absurd start not_throws_claim
    · exact absurd done not_throws_pure
  · rename_i kept
    exact .converted absent (fragment_of_resolve resolved) given kept (knows.stops _ _ _ _ _ run)

theorem stops_multiType (isRef : f.isRef = false) (multi : isMultiType (stripped f) = true)
    (run : Throws (convertMultiType conv (stripped f) o (keepsNull f)) s e t) :
    StepStops cfg R H f o s e t := by
  simp only [convertMultiType] at run
  split at run
  · rename_i named
    exact .union isRef multi named (knows.stops _ _ _ _ _ run)
  · rename_i unnamed
    rcases throws_bind.mp run with branching | ⟨parts, m, branches, run⟩
    · obtain ⟨before, branch, after, parts, m, all, done, last⟩ := throws_mapM branching
      have each : Each R o.base (fun _ t => t) (before.map id) [] s ([] ++ parts.map id) m := by
        refine each_of_mapM ?_ done
        intro branch s types t inside
        exact ⟨_, knows.ends _ _ _ _ _ inside⟩
      exact .types isRef multi (not_not.mp unnamed) each (by simp [all]) (knows.stops _ _ _ _ _ last)
    · split at run
      all_goals
        rcases throws_bind.mp run with null | ⟨_, _, _, run⟩
        · cases null
        rcases throws_bind.mp run with registered | ⟨_, _, _, done⟩
        · cases registered
        · exact absurd done not_throws_pure

theorem convertWith_stops {depth : Nat} (run : Throws (convertWith cfg depth conv f o) s e t) :
    StepStops cfg R H f o s e t := by
  rw [convertWith_eq] at run
  split at run
  · rename_i isRef
    rcases throws_bind.mp run with finding | ⟨_, _, _, run⟩
    · exact .ref isRef (stops_findOrCreateWith knows finding)
    · rcases throws_bind.mp run with registered | ⟨_, _, _, done⟩
      · cases registered
      · exact absurd done not_throws_pure
  · rename_i isRef
    have isRef : f.isRef = false := by simpa using isRef
    split at run
    · rename_i multi
      exact stops_multiType knows isRef multi run
    · rename_i single
      have single : isMultiType (stripped f) = false := by simpa using single
      split at run
      · rename_i unwritten
        obtain ⟨rfl, rfl⟩ := throws_fail.mp run
        exact .unwritten isRef single unwritten
      · rename_i raw written
        rcases throws_bind.mp run with classifying | ⟨kind, m, classified, run⟩
        · exact absurd classifying not_throws_classifyRaw
        · obtain ⟨rfl, quiet⟩ := returns_classifyRaw classified
          exact .node isRef single written quiet (stops_kind knows run)

end

section

variable {cfg : Setting} {R : Converts} {P : Halts}

/-- What every layer that stops keeps, a conversion that stops keeps; one that is cut off by its depth
apart. -/
theorem convertDepth_stops
    (known : ∀ depth f o s c t, Returns (convertDepth cfg depth f o) s c t → R f o s c t)
    (cut : ∀ f o s, P f o s .tooDeep s) (layer : ∀ f o s e t, StepStops cfg R P f o s e t → P f o s e t)
    {depth : Nat} {f : Fragment} {o : Options} {s t : Store} {e : Failure}
    (run : Throws (convertDepth cfg depth f o) s e t) : P f o s e t := by
  induction depth generalizing f o s e t with
  | zero =>
    obtain ⟨rfl, rfl⟩ := throws_throw.mp run
    exact cut f o s
  | succ depth ih =>
    rw [convertDepth_succ] at run
    exact layer f o s e t (convertWith_stops ⟨known depth, fun _ _ _ _ _ inside => ih inside⟩ run)

theorem findOrCreate_stops
    (known : ∀ depth f o s c t, Returns (convertDepth cfg depth f o) s c t → R f o s c t)
    (cut : ∀ f o s, P f o s .tooDeep s) (layer : ∀ f o s e t, StepStops cfg R P f o s e t → P f o s e t)
    {ref : String} {s t : Store} {e : Failure} (run : Throws (findOrCreate cfg ref) s e t)
    (ends : e ≠ .tooDeep) : FindsStops cfg P ref s e t := by
  obtain ⟨depth, stopped⟩ := throws_deepening run ends
  exact stops_findOrCreateWith (R := R)
    ⟨known depth, fun _ _ _ _ _ inside => convertDepth_stops known cut layer inside⟩ stopped

end

end Typesmith.Model
