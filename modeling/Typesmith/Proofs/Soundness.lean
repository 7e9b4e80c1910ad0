import Typesmith.Proofs.Meaning
import Typesmith.Proofs.Nesting

namespace Typesmith.Model

open Fragment

def Marked (s : Store) (id : Id) (f : Option Fragment) : Prop :=
  ∃ d, s.get? id = some d ∧ d.fragment = f

/-- The container of a fragment that was read at a place. `places` tells for every descriptor where its
fragment was read. -/
structure Represents (s : Store) (places : Id → String) (place : String) (f : Fragment)
    (c : Container) : Prop where
  followed : f.isRef = true → s.lookup? (aliasTarget f place) = some c
  found : f.isRef = false → ∃ id ∈ c, Marked s id (some (stripped f)) ∧ places id = place
  null : f.isRef = false → keepsNull f = true →
    ∃ id ∈ c, Marked s id (some (Fragment.ofType "null"))

inductive RecordShape (s : Store) (g : Fragment) (cs : List Container) : Shape → Prop
  | described {extra : Fragment} (extent : g.additionalProperties = some (.described extra)) :
      RecordShape s g cs (.object [propertySet g cs ++ [indexProperty (cs.getLastD [])]] false)
  | forbidden (extent : g.additionalProperties = some .forbidden) :
      RecordShape s g cs (.object [propertySet g cs] g.properties.isEmpty)
  | listed (extent : extraFragments g = []) : RecordShape s g cs (.object [propertySet g cs] false)
  | anything {id : Id} (extent : extraFragments g = []) (empty : g.properties = [])
      (marked : Marked s id none) : RecordShape s g cs (.object [[indexProperty [id]]] false)

/-- The shape of a descriptor when all that is inside it is represented. -/
inductive Shaped (s : Store) (places : Id → String) (place : String) : Kind → Fragment → Shape → Prop
  | record {g : Fragment} {cs : List Container} {shape : Shape}
      (each : List.Forall₂ (Represents s places place) (g.properties.map (·.2) ++ extraFragments g) cs)
      (shaped : RecordShape s g cs shape) : Shaped s places place .object g shape
  | list {g : Fragment} {cs : List Container}
      (each : List.Forall₂ (Represents s places place) g.itemFragments cs) :
      Shaped s places place .array g (.array cs)
  | union {g : Fragment} {c : Combinator} {members : List Fragment} {cs : List Container}
      (combined : g.combinator? = some (c, members))
      (each : List.Forall₂ (Represents s places place) members cs) :
      Shaped s places place .someOf g (.someOf c cs)
  | literals {g : Fragment} : Shaped s places place .enum g (.enum (enumMembers g))
  | value {kind : Kind} {g : Fragment} (leaf : kind ∈ [.string, .number, .boolean, .null]) :
      Shaped s places place kind g (.value (valueToken kind g))

def Faithful (s : Store) (places : Id → String) (id : Id) : Prop :=
  ∃ d, s.get? id = some d ∧ ((d.fragment = none ∧ d.shape = .value "any") ∨
    ∃ g, d.fragment = some g ∧ Shaped s places (places id) (readKind g) g d.shape)

structure Retains (s t : Store) : Prop where
  lookup : ∀ ref c, s.lookup? ref = some c → t.lookup? ref = some c
  marked : ∀ id f, Marked s id f → Marked t id f

theorem Retains.refl (s : Store) : Retains s s :=
  ⟨fun _ _ held => held, fun _ _ marked => marked⟩

theorem Retains.trans {s t u : Store} (first : Retains s t) (second : Retains t u) : Retains s u :=
  ⟨fun ref c held => second.lookup ref c (first.lookup ref c held),
    fun id f marked => second.marked id f (first.marked id f marked)⟩

theorem Grows.retains {cfg : Setting} {s t : Store} (grows : Grows s t)
    (consistent : Consistent cfg t) : Retains s t := by
  refine ⟨fun _ _ held => consistent.lookup?_of_suffix grows.log held, ?_⟩
  rintro id f ⟨d, found, marked⟩
  exact ⟨d, by rw [grows.kept id (Store.get?_lt found), found], marked⟩

theorem Touches.retains {id : Id} {s t : Store} (touches : Touches id s t) : Retains s t := by
  have lookup : ∀ ref, t.lookup? ref = s.lookup? ref := by
    intro ref
    simp only [Store.lookup?, touches.index]
  refine ⟨fun ref c held => by rw [lookup, held], ?_⟩
  have reshaped : ∀ (u : Store) shape i f, Marked u i f → Marked (u.setShape id shape) i f := by
    rintro u shape i f ⟨d, found, marked⟩
    rw [Marked, Store.get?_setShape, found]
    split
    · exact ⟨_, rfl, marked⟩
    · exact ⟨d, rfl, marked⟩
  intro i f marked
  cases touches with
  | nothing => exact marked
  | shape shape => exact reshaped s shape i f marked
  | any shape =>
    refine reshaped _ shape i f ?_
    obtain ⟨d, found, marked⟩ := marked
    refine ⟨d, ?_, marked⟩
    rw [Store.get?_push, if_neg (Nat.ne_of_lt (Store.get?_lt found)), found]

theorem Marked.lt {s : Store} {id : Id} {f : Option Fragment} (marked : Marked s id f) :
    id < s.descriptors.size := by
  obtain ⟨d, found, _⟩ := marked
  exact Store.get?_lt found

section

variable {s t : Store} {places more : Id → String} {place : String}

theorem Represents.mono (retains : Retains s t)
    (agrees : ∀ i, i < s.descriptors.size → more i = places i) {f : Fragment} {c : Container}
    (represents : Represents s places place f c) : Represents t more place f c := by
  refine ⟨fun isRef => retains.lookup _ _ (represents.followed isRef), ?_, ?_⟩
  · intro isRef
    obtain ⟨id, inside, marked, same⟩ := represents.found isRef
    exact ⟨id, inside, retains.marked _ _ marked, by rw [agrees id marked.lt, same]⟩
  · intro isRef kept
    obtain ⟨id, inside, marked⟩ := represents.null isRef kept
    exact ⟨id, inside, retains.marked _ _ marked⟩

theorem RecordShape.mono (retains : Retains s t) {g : Fragment} {cs : List Container} {shape : Shape}
    (shaped : RecordShape s g cs shape) : RecordShape t g cs shape := by
  cases shaped with
  | described extent => exact .described extent
  | forbidden extent => exact .forbidden extent
  | listed extent => exact .listed extent
  | anything extent empty marked => exact .anything extent empty (retains.marked _ _ marked)

theorem Shaped.mono (retains : Retains s t)
    (agrees : ∀ i, i < s.descriptors.size → more i = places i) {kind : Kind} {g : Fragment}
    {shape : Shape} (shaped : Shaped s places place kind g shape) :
    Shaped t more place kind g shape := by
  have mono : ∀ f c, Represents s places place f c → Represents t more place f c :=
    fun _ _ represents => represents.mono retains agrees
  cases shaped with
  | record each shaped => exact .record (each.imp mono) (shaped.mono retains)
  | list each => exact .list (each.imp mono)
  | union combined each => exact .union combined (each.imp mono)
  | literals => exact .literals
  | value leaf => exact .value leaf

theorem Faithful.mono (retains : Retains s t)
    (agrees : ∀ i, i < s.descriptors.size → more i = places i) {id : Id}
    (same : t.get? id = s.get? id) (faithful : Faithful s places id) : Faithful t more id := by
  obtain ⟨d, found, said⟩ := faithful
  refine ⟨d, same.trans found, said.imp_right ?_⟩
  rintro ⟨g, marked, shaped⟩
  refine ⟨g, marked, ?_⟩
  rw [agrees id (Store.get?_lt found)]
  exact shaped.mono retains agrees

end

def Indexed (cfg : Setting) (s : Store) (places : Id → String) : Prop :=
  ∀ ref c f, s.lookup? ref = some c → cfg.resolver.fragment ref = .ok f → f.isRef = false →
    Represents s places ref f c

/-- What a conversion adds to a store is faithful, and so is its index. -/
structure Adds (cfg : Setting) (s t : Store) (places more : Id → String) : Prop where
  agrees : ∀ i, i < s.descriptors.size → more i = places i
  indexed : Indexed cfg t more
  faithful : ∀ i, s.descriptors.size ≤ i → i < t.descriptors.size → Faithful t more i

def Renders (cfg : Setting) : Converts := fun f o s c t =>
  Consistent cfg s → (o.ref ≠ "" → Fits cfg f o s) →
    (o.ref ≠ "" → o.base = o.ref ∧ cfg.resolver.fragment o.ref = .ok f) → Within cfg o.base f →
    ∀ places, Indexed cfg s places →
      ∃ more, Adds cfg s t places more ∧ Represents t more o.base f c

def Knows (cfg : Setting) : Converts := fun f o s c t =>
  Settles cfg f o s c t ∧ Renders cfg f o s c t

inductive Reshapes (id : Id) (s : Store) : Store → Prop
  | nothing : Reshapes id s s
  | shape (shape : Shape) : Reshapes id s (s.setShape id shape)

theorem Reshapes.touches {id : Id} {s t : Store} (reshapes : Reshapes id s t) : Touches id s t := by
  cases reshapes with
  | nothing => exact .nothing
  | shape shape => exact .shape shape

theorem Reshapes.size {id : Id} {s t : Store} (reshapes : Reshapes id s t) :
    t.descriptors.size = s.descriptors.size := by
  cases reshapes with
  | nothing => rfl
  | shape shape => exact s.size_setShape id shape

theorem Reshapes.other {id i : Id} {s t : Store} (reshapes : Reshapes id s t) (other : i ≠ id) :
    t.get? i = s.get? i := by
  cases reshapes with
  | nothing => rfl
  | shape shape => rw [Store.get?_setShape, if_neg other]

theorem noted_reshapes (kind : Kind) (f : Fragment) (id : Id) (cs : List Container) (s : Store) :
    Reshapes id s (noted kind f id cs s) := by
  unfold noted
  split
  · exact .shape _
  · exact .shape _
  · exact .shape _
  · exact .nothing

section

variable {cfg : Setting}

theorem Indexed.of_index {s t : Store} {places : Id → String} (indexed : Indexed cfg s places)
    (index : t.index = s.index) (retains : Retains s t) : Indexed cfg t places := by
  intro ref c f held resolved isRef
  rw [Store.lookup?, index] at held
  exact (indexed ref c f held resolved isRef).mono retains (fun _ _ => rfl)

/-- Fragments converted one after another are all represented at the end. `mark` is the descriptor that
takes notes. -/
theorem Knows.each {base : String} {note : List Container → Store → Store} {gs : List Fragment}
    {cs out : List Container} {s t : Store} {id : Id} (mark : List Container → Descriptor)
    (each : Each (Knows cfg) base note gs cs s out t)
    (told : ∀ cs t, Reshapes id t (note cs t))
    (marks : ∀ cs u, u.get? id = some (mark cs) → ∀ c,
      (note (cs ++ [c]) u).get? id = some (mark (cs ++ [c])))
    (opened : s.get? id = some (mark cs)) (consistent : Consistent cfg s)
    (within : ∀ g ∈ gs, Within cfg base g) {places : Id → String} (indexed : Indexed cfg s places) :
    ∃ more ds, out = cs ++ ds ∧ Adds cfg s t places more ∧ Consistent cfg t ∧ Retains s t ∧
      s.descriptors.size ≤ t.descriptors.size ∧
      (∀ i, i < s.descriptors.size → i ≠ id → t.get? i = s.get? i) ∧
      t.get? id = some (mark out) ∧ List.Forall₂ (Represents t more base) gs ds := by
  induction each generalizing places with
  | done =>
    refine ⟨places, [], by simp, ⟨fun _ _ => rfl, indexed, ?_⟩, consistent, .refl _, Nat.le_refl _,
      fun _ _ _ => rfl, opened, .nil⟩
    intro i later earlier
    exact absurd earlier (Nat.not_lt.mpr later)
  | @part g gs hint cs out c s m t one _ ih =>
    obtain ⟨settles, renders⟩ := one
    obtain ⟨middle, grows, _⟩ := settles consistent (fun owned => absurd rfl owned)
    obtain ⟨first, adds, represents⟩ := renders consistent (fun owned => absurd rfl owned)
      (fun owned => absurd rfl owned) (within g List.mem_cons_self) places indexed
    have reshapes := told (cs ++ [c]) m
    have earlier : id < s.descriptors.size := Store.get?_lt opened
    -- between two parts, the descriptor that takes the note is the only one to change
    have touched : (note (cs ++ [c]) m).get? id = some (mark (cs ++ [c])) :=
      marks cs m (by rw [grows.kept id earlier, opened]) c
    obtain ⟨more, ds, rfl, rest, last, retains, size, kept, marked, others⟩ :=
      ih touched (middle.touches reshapes.touches) (fun h inside => within h (List.mem_cons_of_mem _ inside))
        (adds.indexed.of_index reshapes.touches.index reshapes.touches.retains)
    have before : Retains s m := grows.retains middle
    have after : Retains m t := reshapes.touches.retains.trans retains
    -- where `m` ends the places of the rest begin; below they are those of this part
    have agrees : ∀ i, i < m.descriptors.size → more i = first i := by
      intro i inside
      exact rest.agrees i (by rw [reshapes.size]; exact inside)
    rw [reshapes.size] at size
    have same : ∀ i, i < m.descriptors.size → i ≠ id → t.get? i = m.get? i := by
      intro i inside other
      rw [kept i (by rw [reshapes.size]; exact inside) other, reshapes.other other]
    refine ⟨more, c :: ds, by simp, ⟨?_, rest.indexed, ?_⟩, last, before.trans after,
      Nat.le_trans grows.size size, ?_, marked, .cons (represents.mono after agrees) others⟩
    · intro i inside
      rw [agrees i (Nat.lt_of_lt_of_le inside grows.size), adds.agrees i inside]
    · intro i later inside
      by_cases old : i < m.descriptors.size
      · have other : i ≠ id := Nat.ne_of_gt (Nat.lt_of_lt_of_le earlier later)
        exact (adds.faithful i later old).mono after agrees (same i old other)
      · exact rest.faithful i (by rw [reshapes.size]; exact Nat.le_of_not_lt old) inside
    · intro i inside other
      rw [same i (Nat.lt_of_lt_of_le inside grows.size) other, grows.kept i inside]

@[simp] theorem opening_fragment (kind : Kind) (f : Fragment) (o : Options) :
    (opening kind f o).fragment = some f := by
  cases kind <;> rfl

def noting (kind : Kind) (f : Fragment) (d : Descriptor) (cs : List Container) : Descriptor :=
  match kind with
  | .array => { d with shape := .array cs }
  | .someOf => { d with shape := .someOf ((f.combinator?.map (·.1)).getD .oneOf) cs }
  | .generic => { d with shape := .generic (parameterName (genericJson f)) (casesSoFar f cs) }
  | _ => d

theorem noting_noted (kind : Kind) (f : Fragment) (id : Id) (d : Descriptor) (cs : List Container)
    (u : Store) (held : u.get? id = some (noting kind f d cs)) (c : Container) :
    (noted kind f id (cs ++ [c]) u).get? id = some (noting kind f d (cs ++ [c])) := by
  have reshaped : ∀ shape, (u.setShape id shape).get? id =
      some { noting kind f d cs with shape } := by
    intro shape
    rw [Store.get?_setShape, if_pos rfl, held]
    rfl
  cases kind with
  | array => exact reshaped _
  | someOf => exact reshaped _
  | generic => exact reshaped _
  | _ => exact held

theorem noting_opening (kind : Kind) (f : Fragment) (o : Options) (nullable : Bool) :
    noting kind f { opening kind f o with nullable } [] = { opening kind f o with nullable } := by
  cases kind <;> rfl

theorem noting_fragment (kind : Kind) (f : Fragment) (d : Descriptor) (cs : List Container) :
    (noting kind f d cs).fragment = d.fragment := by
  cases kind <;> rfl

theorem claimed_null {d : Descriptor} {nullable : Bool} {s : Store} {i : Id}
    (later : s.descriptors.size ≤ i) (inside : i < (claimed d nullable s).descriptors.size)
    (other : i ≠ s.descriptors.size) : (claimed d nullable s).get? i = some nullDescriptor := by
  rw [size_claimed] at inside
  have behind : s.descriptors.size + 1 ≤ i := Nat.lt_of_le_of_ne later other.symm
  cases nullable with
  | false => exact absurd inside (Nat.not_lt.mpr behind)
  | true =>
    have same : i = s.descriptors.size + 1 := Nat.le_antisymm (Nat.le_of_lt_succ inside) behind
    rw [same]
    exact get?_claimed_null d s

theorem typeKind_known {type : String} (known : type ∈ typeNames) :
    typeKind type ∈ [Kind.number, .string, .object, .array, .boolean, .null] := by
  revert type
  decide

theorem Legible.kinds {g : Fragment} (legible : Legible g) :
    readKind g ∈ [Kind.someOf, .enum, .number, .string, .object, .array, .boolean, .null] := by
  unfold readKind
  split
  · decide
  · rename_i alone
    split
    · decide
    · rename_i plain
      obtain ⟨type, known, types⟩ := legible.typed (by simpa using alone) (by simpa using plain)
      rw [types]
      have kinds := typeKind_known known
      revert kinds
      simp only [List.headD_cons, List.mem_cons, List.not_mem_nil, or_false]
      tauto

theorem noting_shaped {t : Store} {more : Id → String} {place : String} {kind : Kind} {g : Fragment}
    {gs : List Fragment} {cs : List Container} {o : Options} {nullable : Bool} (legible : Legible g)
    (read : readKind g = kind) (other : kind ≠ .object) (inner : Inner cfg place kind g gs)
    (each : List.Forall₂ (Represents t more place) gs cs) :
    Shaped t more place kind g (noting kind g { opening kind g o with nullable } cs).shape := by
  have kinds := legible.kinds
  rw [read] at kinds
  cases inner with
  | object => exact absurd rfl other
  | array => exact .list each
  | allOf combined => exact absurd rfl (legible.plain _ _ combined).1
  | alternatives combined separate chosen =>
    rw [alternatives_eq (legible.plain _ _ combined).2 chosen] at each
    simp only [noting, combined, Option.map_some, Option.getD_some]
    exact .union combined each
  | generic => exact absurd kinds (by decide)
  | leaf object array someOf generic =>
    cases kind with
    | enum => exact .literals
    | string => exact .value (by decide)
    | number => exact .value (by decide)
    | boolean => exact .value (by decide)
    | null => exact .value (by decide)
    | object => exact absurd rfl object
    | array => exact absurd rfl array
    | someOf => exact absurd rfl someOf
    | generic => exact absurd rfl generic
    | any => exact absurd kinds (by decide)
    | external => exact absurd kinds (by decide)
    | other => exact absurd kinds (by decide)

theorem finished_record {g : Fragment} {id : Id} {d : Descriptor} {cs : List Container} {t : Store}
    (held : t.get? id = some d) :
    ∃ shape, (finished .object g id cs t).get? id = some { d with shape } ∧
      RecordShape (finished .object g id cs t) g cs shape := by
  have reshaped : ∀ shape, (t.setShape id shape).get? id = some { d with shape } := by
    intro shape
    rw [Store.get?_setShape, if_pos rfl, held]
    rfl
  unfold finished
  dsimp only
  split
  · rename_i extra extent
    exact ⟨_, reshaped _, .described extent⟩
  · rename_i extent
    exact ⟨_, reshaped _, .forbidden extent⟩
  · rename_i described _
    have extent : extraFragments g = [] := by
      unfold extraFragments
      split
      · exact absurd ‹_› (described _)
      · rfl
    split
    · rename_i empty
      have earlier : id ≠ t.descriptors.size := Nat.ne_of_lt (Store.get?_lt held)
      have marked : ∀ shape, Marked ((t.push anyDescriptor).2.setShape id shape) t.descriptors.size none := by
        intro shape
        refine ⟨anyDescriptor, ?_, rfl⟩
        rw [Store.get?_setShape, if_neg earlier.symm, Store.get?_push, if_pos rfl]
      refine ⟨_, ?_, .anything extent (by simpa using empty) (marked _)⟩
      rw [Store.get?_setShape, if_pos rfl, Store.get?_push, if_neg earlier, held]
      rfl
    · exact ⟨_, reshaped _, .listed extent⟩

theorem finished_other (kind : Kind) (g : Fragment) (cs : List Container) (t : Store) {id i : Id}
    (other : i ≠ id) :
    (i < t.descriptors.size → (finished kind g id cs t).get? i = t.get? i) ∧
    (t.descriptors.size ≤ i → i < (finished kind g id cs t).descriptors.size →
      (finished kind g id cs t).get? i = some anyDescriptor) := by
  have touches := finished_touches kind g id cs t
  generalize finished kind g id cs t = u at touches
  cases touches with
  | nothing => exact ⟨fun _ => rfl, fun later inside => absurd inside (Nat.not_lt.mpr later)⟩
  | shape shape =>
    rw [Store.size_setShape, Store.get?_setShape, if_neg other]
    exact ⟨fun _ => rfl, fun later inside => absurd inside (Nat.not_lt.mpr later)⟩
  | any shape =>
    rw [Store.size_setShape, Store.size_push, Store.get?_setShape, if_neg other, Store.get?_push]
    refine ⟨fun inside => by rw [if_neg (Nat.ne_of_lt inside)], fun later inside => ?_⟩
    rw [if_pos (Nat.le_antisymm (Nat.le_of_lt_succ inside) later)]

/-- The descriptor of a fragment is faithful once all that is inside it is represented. -/
theorem faithful_finished {t : Store} {more : Id → String} {kind : Kind} {g : Fragment}
    {gs : List Fragment} {cs : List Container} {o : Options} {nullable : Bool} {id : Id}
    (legible : Legible g) (read : readKind g = kind) (inner : Inner cfg (more id) kind g gs)
    (each : List.Forall₂ (Represents t more (more id)) gs cs)
    (held : t.get? id = some (noting kind g { opening kind g o with nullable } cs)) :
    Faithful (finished kind g id cs t) more id := by
  have retains := (finished_touches kind g id cs t).retains
  by_cases record : kind = .object
  · subst record
    obtain ⟨shape, found, shaped⟩ := finished_record held
    refine ⟨_, found, .inr ⟨g, by simp [noting], ?_⟩⟩
    rw [read]
    rw [inner.of_object] at each
    exact .record (each.imp fun _ _ represents => represents.mono retains (fun _ _ => rfl)) shaped
  · have nothing : finished kind g id cs t = t := by
      cases kind with
      | object => exact absurd rfl record
      | _ => rfl
    rw [nothing]
    refine ⟨_, held, .inr ⟨g, by simp [noting_fragment], ?_⟩⟩
    rw [read]
    exact noting_shaped legible read record inner each

theorem faithful_null {t : Store} {more : Id → String} {id : Id} (held : t.get? id = some nullDescriptor) :
    Faithful t more id :=
  ⟨nullDescriptor, held, .inr ⟨_, rfl, .value (by decide)⟩⟩

theorem Inner.parts {place : String} {kind : Kind} {g : Fragment} {gs : List Fragment}
    (legible : Legible g) (inner : Inner cfg place kind g gs) (generic : kind ≠ .generic) :
    ∀ h ∈ gs, h ∈ parts g := by
  intro h inside
  cases inner with
  | object => exact List.mem_append_left _ (List.mem_append_left _ (List.mem_append_left _ inside))
  | array => exact List.mem_append_left _ (List.mem_append_left _ (List.mem_append_right _ inside))
  | allOf combined => exact absurd rfl (legible.plain _ _ combined).1
  | alternatives combined separate chosen =>
    rw [alternatives_eq (legible.plain _ _ combined).2 chosen] at inside
    exact mem_parts_of_member combined separate inside
  | generic => exact absurd rfl generic
  | leaf => cases inside

theorem represents_claimed {f : Fragment} {o : Options} {s : Store} {kind : Kind}
    {places : Id → String} (isRef : f.isRef = false) (place : places s.descriptors.size = o.base) :
    Represents (claimed (opening kind (stripped f) o) (keepsNull f) s) places o.base f
      (claimedContainer (keepsNull f) s) := by
  refine ⟨fun other => (by rw [isRef] at other; cases other), fun _ => ?_, fun _ kept => ?_⟩
  · refine ⟨s.descriptors.size, ?_, ⟨_, get?_claimed _ _ s, by simp⟩, place⟩
    unfold claimedContainer
    split <;> exact List.mem_cons_self
  · rw [kept]
    refine ⟨s.descriptors.size + 1, ?_, ⟨_, get?_claimed_null _ s, rfl⟩⟩
    simp [claimedContainer]

theorem indexed_claimed {f : Fragment} {o : Options} {s start : Store} {kind : Kind}
    {places more : Id → String} (isRef : f.isRef = false) (quiet : Quiet s start)
    (placed : o.ref ≠ "" → o.base = o.ref ∧ cfg.resolver.fragment o.ref = .ok f)
    (retains : Retains s (claimed (opening kind (stripped f) o) (keepsNull f) start))
    (indexed : Indexed cfg s places) (agrees : ∀ i, i < s.descriptors.size → more i = places i)
    (place : more start.descriptors.size = o.base) :
    Indexed cfg (claimed (opening kind (stripped f) o) (keepsNull f) start) more := by
  intro ref c g held resolved other
  by_cases own : o.ref ≠ "" ∧ ref = o.ref
  · obtain ⟨owned, rfl⟩ := own
    obtain ⟨base, read⟩ := placed owned
    rw [read] at resolved
    cases resolved
    have present := lookup?_claimed start (d := opening kind (stripped f) o) (keepsNull f)
    rw [opening_ref] at present
    rw [present owned] at held
    cases held
    rw [← base]
    exact represents_claimed isRef place
  · have older : s.lookup? ref = some c := by
      have lookup : (claimed (opening kind (stripped f) o) (keepsNull f) start).lookup? ref =
          s.lookup? ref := by
        unfold claimed
        by_cases empty : o.ref = ""
        · rw [opening_ref, empty, Store.register_empty]
          split <;> simp [Store.lookup?, quiet.index]
        · rw [opening_ref, Store.lookup?_register _ empty, if_neg (fun same => own ⟨empty, same⟩)]
          split <;> simp [Store.lookup?, quiet.index]
      rw [← lookup, held]
    exact (indexed ref c g older resolved other).mono retains agrees

theorem Renders.built {f : Fragment} {o : Options} {s t : Store} {c : Container} {kind : Kind}
    (isRef : f.isRef = false) (legible : Legible (stripped f)) (read : readKind (stripped f) = kind)
    (built : Built cfg (Knows cfg) kind (stripped f) o (keepsNull f) s c t)
    (consistent : Consistent cfg s) (fits : o.ref ≠ "" → Fits cfg f o s)
    (placed : o.ref ≠ "" → o.base = o.ref ∧ cfg.resolver.fragment o.ref = .ok f)
    (within : Within cfg o.base f) {places : Id → String} (indexed : Indexed cfg s places) :
    ∃ more, Adds cfg s t places more ∧ Represents t more o.base f c := by
  obtain @⟨name, gs, cs, start, t, _, quiet, inner, each⟩ := built
  have generic : kind ≠ .generic := by
    rintro rfl
    have kinds := legible.kinds
    rw [read] at kinds
    exact absurd kinds (by decide)
  have size : start.descriptors.size = s.descriptors.size := by rw [quiet.descriptors]
  -- the new descriptors belong to the place of the fragment
  let first : Id → String := fun i => if i < s.descriptors.size then places i else o.base
  have agrees : ∀ i, i < s.descriptors.size → first i = places i := fun i inside => if_pos inside
  have place : first start.descriptors.size = o.base := if_neg (by rw [size]; exact Nat.lt_irrefl _)
  have opened := consistent.opened quiet kind (stripped f) { o with name } (keepsNull f)
    (fun owned => (fits owned).absent isRef)
  have begun : Grows s (claimed (opening kind (stripped f) { o with name }) (keepsNull f) start) :=
    quiet.grows.trans (grows_claimed _ _ _)
  have known : Indexed cfg (claimed (opening kind (stripped f) { o with name }) (keepsNull f) start)
      first := indexed_claimed isRef quiet placed (begun.retains opened) indexed agrees place
  obtain ⟨more, ds, rfl, adds, after, retains, grown, kept, marked, parts⟩ :=
    Knows.each (noting kind (stripped f)
        { opening kind (stripped f) { o with name } with nullable := keepsNull f }) each
      (fun cs t => noted_reshapes kind (stripped f) _ cs t)
      (fun cs u held c => noting_noted kind (stripped f) _ _ cs u held c)
      (by rw [noting_opening, get?_claimed]) opened
      (fun g inside => within.part (by
        rw [← stripped_parts]
        exact inner.parts legible generic g inside)) known
  have touched := finished_touches kind (stripped f) start.descriptors.size cs t
  have closing := touched.retains
  have spot : more start.descriptors.size = o.base := by
    rw [adds.agrees _ (Store.get?_lt (get?_claimed _ _ start)), place]
  refine ⟨more, ⟨?_, adds.indexed.of_index touched.index closing, ?_⟩, ?_⟩
  · intro i inside
    rw [adds.agrees i (Nat.lt_of_lt_of_le inside begun.size), agrees i inside]
  · intro i later inside
    by_cases own : i = start.descriptors.size
    · subst own
      exact faithful_finished legible read (by rw [spot]; exact inner) (by rw [spot]; exact parts) marked
    · obtain ⟨same, any⟩ := finished_other kind (stripped f) cs t own
      by_cases old : i < t.descriptors.size
      · by_cases new : (claimed (opening kind (stripped f) { o with name }) (keepsNull f)
            start).descriptors.size ≤ i
        · exact (adds.faithful i new old).mono closing (fun _ _ => rfl) (same old)
        · have held : t.get? i = some nullDescriptor := by
            rw [kept i (Nat.lt_of_not_le new) own]
            exact claimed_null (by rw [size]; exact later) (Nat.lt_of_not_le new) own
          exact faithful_null (by rw [same old, held])
      · exact ⟨anyDescriptor, any (Nat.le_of_not_lt old) inside, .inl ⟨rfl, rfl⟩⟩
  · exact (represents_claimed (o := { o with name }) isRef place).mono (retains.trans closing) adds.agrees

theorem Knows.finds {ref : String} {s t : Store} {c : Container}
    (finds : Finds cfg (Knows cfg) ref s c t) : Finds cfg (Settles cfg) ref s c t := by
  cases finds with
  | known found => exact .known found
  | replaced absent resolved given overridden => exact .replaced absent resolved given overridden
  | converted absent resolved given kept inside => exact .converted absent resolved given kept inside.1

theorem Renders.finds (plain : cfg.overrides = []) (spoken : Spoken cfg) {ref : String} {s t : Store}
    {c : Container} (finds : Finds cfg (Knows cfg) ref s c t) (consistent : Consistent cfg s)
    (linked : Linked cfg (Reference.normalize ref)) {places : Id → String}
    (indexed : Indexed cfg s places) : ∃ more, Adds cfg s t places more := by
  cases finds with
  | known found =>
    refine ⟨places, fun _ _ => rfl, indexed, ?_⟩
    intro i later inside
    exact absurd inside (Nat.not_lt.mpr later)
  | replaced _ _ _ overridden =>
    rw [plain] at overridden
    cases overridden
  | @converted f name names c t absent resolved given kept inside =>
    obtain ⟨quiet, _, fits⟩ := consistent.enter absent resolved given
    have next := consistent.of_quiet quiet
    obtain ⟨more, adds, _⟩ := inside.2 next (fun _ => fits kept) (fun _ => ⟨rfl, resolved⟩)
      (spoken.within linked resolved) places (indexed.of_index rfl (quiet.grows.retains next))
    exact ⟨more, adds.agrees, adds.indexed, adds.faithful⟩

theorem Indexed.register {f : Fragment} {o : Options} {t : Store} {c : Container}
    {places : Id → String} (isRef : f.isRef = true)
    (placed : o.ref ≠ "" → cfg.resolver.fragment o.ref = .ok f)
    (retains : Retains t (t.register o.ref c)) (indexed : Indexed cfg t places) :
    Indexed cfg (t.register o.ref c) places := by
  intro ref held g present resolved other
  by_cases own : o.ref ≠ "" ∧ ref = o.ref
  · obtain ⟨owned, rfl⟩ := own
    rw [placed owned] at resolved
    cases resolved
    rw [isRef] at other
    cases other
  · have older : t.lookup? ref = some held := by
      by_cases empty : o.ref = ""
      · rw [empty, Store.register_empty] at present
        exact present
      · rwa [Store.lookup?_register c empty, if_neg (fun same => own ⟨empty, same⟩)] at present
    exact (indexed ref held g older resolved other).mono retains (fun _ _ => rfl)

theorem Renders.ref (plain : cfg.overrides = []) (spoken : Spoken cfg) {f : Fragment} {o : Options}
    {s t : Store} {c : Container} (isRef : f.isRef = true)
    (found : Finds cfg (Knows cfg) (Reference.qualify f.ref o.base) s c t)
    (settles : Settles cfg f o s c (t.register o.ref c)) :
    Renders cfg f o s c (t.register o.ref c) := by
  intro consistent fits placed within places indexed
  have linked := within.linked f.ref (.itself isRef)
  obtain ⟨last, _, _⟩ := settles consistent fits
  obtain ⟨_, _, target⟩ := Settles.finds (Knows.finds found) consistent
  obtain ⟨more, adds⟩ := Renders.finds plain spoken found consistent linked indexed
  have retains : Retains t (t.register o.ref c) :=
    ((Grows.refl t).register o.ref c).retains last
  refine ⟨more, ⟨adds.agrees, ?_, ?_⟩, ?_⟩
  · exact adds.indexed.register isRef (fun owned => (placed owned).2) retains
  · intro i later inside
    rw [Store.descriptors_register] at inside
    exact (adds.faithful i later inside).mono retains (fun _ _ => rfl) (get?_register t o.ref c i)
  · refine ⟨fun _ => retains.lookup _ _ target, fun other => ?_, fun other => ?_⟩
    · rw [isRef] at other
      cases other
    · rw [isRef] at other
      cases other

theorem renders_step (rules : cfg.rules = Rule.defaults) (plain : cfg.overrides = [])
    (spoken : Spoken cfg) {f : Fragment} {o : Options} {s t : Store} {c : Container}
    (settles : Settles cfg f o s c t) (step : Step cfg (Knows cfg) f o s c t) :
    Renders cfg f o s c t := by
  cases step with
  | ref isRef found => exact .ref plain spoken isRef found settles
  | union isRef multi =>
    intro _ _ _ within
    rw [(within.expressible.legible isRef).single] at multi
    cases multi
  | types isRef multi =>
    intro _ _ _ within
    rw [(within.expressible.legible isRef).single] at multi
    cases multi
  | node isRef single written built =>
    intro consistent fits placed within places indexed
    have legible := within.expressible.legible isRef
    rw [legible.kindOf rules written] at built
    exact Renders.built isRef legible rfl built consistent fits placed within indexed

theorem convertDepth_knows (rules : cfg.rules = Rule.defaults) (plain : cfg.overrides = [])
    (spoken : Spoken cfg) {depth : Nat} {f : Fragment} {o : Options} {s t : Store} {c : Container}
    (run : Returns (convertDepth cfg depth f o) s c t) : Knows cfg f o s c t := by
  have settles : ∀ depth f o s c t, Returns (convertDepth cfg depth f o) s c t → Settles cfg f o s c t :=
    fun _ _ _ _ _ _ run => convertDepth_keeps (fun _ _ _ _ _ step => settles_step step) run
  refine ⟨settles _ _ _ _ _ _ run, ?_⟩
  exact convertDepth_keeps_also settles
    (fun _ _ _ _ _ settles step => renders_step rules plain spoken settles step) run

structure Sound (cfg : Setting) (s : Store) (places : Id → String) : Prop where
  consistent : Consistent cfg s
  indexed : Indexed cfg s places
  faithful : ∀ i, i < s.descriptors.size → Faithful s places i

theorem sound_fresh (cfg : Setting) (places : Id → String) : Sound cfg {} places := by
  refine ⟨consistent_fresh cfg, ?_, ?_⟩
  · intro ref c f held
    cases held
  · intro i inside
    exact absurd inside (Nat.not_lt_zero i)

theorem findOrCreate_sound_step (rules : cfg.rules = Rule.defaults) (plain : cfg.overrides = [])
    (spoken : Spoken cfg) {ref : String} {s t : Store} {c : Container}
    (linked : Linked cfg (Reference.normalize ref)) (run : Returns (findOrCreate cfg ref) s c t)
    {places : Id → String} (sound : Sound cfg s places) :
    (∃ more, Sound cfg t more) ∧ t.lookup? (Reference.normalize ref) = some c ∧ Retains s t := by
  obtain ⟨depth, first⟩ := returns_deepening run
  have knows : ∀ f o s c t, Returns (convertDepth cfg depth f o) s c t → Knows cfg f o s c t :=
    fun _ _ _ _ _ inside => convertDepth_knows rules plain spoken inside
  have found : Finds cfg (Knows cfg) ref s c t := finds_of_findOrCreateWith knows first
  obtain ⟨after, grows, present⟩ := Settles.finds (Knows.finds found) sound.consistent
  obtain ⟨more, adds⟩ := Renders.finds plain spoken found sound.consistent linked sound.indexed
  have retains := grows.retains after
  refine ⟨⟨more, after, adds.indexed, ?_⟩, present, retains⟩
  intro i inside
  by_cases old : i < s.descriptors.size
  · exact (sound.faithful i old).mono retains adds.agrees (grows.kept i old)
  · exact adds.faithful i (Nat.le_of_not_lt old) inside

theorem Asked.sound (rules : cfg.rules = Rule.defaults) (plain : cfg.overrides = [])
    (spoken : Spoken cfg) {s t : Store} (asked : Asked cfg s t) {places : Id → String}
    (sound : Sound cfg s places) : (∃ more, Sound cfg t more) ∧ Retains s t := by
  induction asked with
  | none => exact ⟨⟨places, sound⟩, .refl s⟩
  | more _ linked last ih =>
    obtain ⟨⟨middle, sound⟩, retains⟩ := ih
    obtain ⟨after, _, next⟩ := findOrCreate_sound_step rules plain spoken linked last sound
    exact ⟨after, retains.trans next⟩

theorem mem_nameMembers {v : Json} {l : List Json} (inside : v ∈ l) (used : List (String × Nat)) :
    ∃ m ∈ nameMembers used l, m.value = v := by
  induction l generalizing used with
  | nil => cases inside
  | cons w rest ih =>
    have first : ∃ name more, nameMembers used (w :: rest) = ⟨name, w⟩ :: nameMembers more rest := by
      rw [nameMembers]
      split
      · exact ⟨_, _, rfl⟩
      · exact ⟨_, _, rfl⟩
    obtain ⟨name, more, first⟩ := first
    rw [first]
    rcases List.mem_cons.mp inside with rfl | later
    · exact ⟨_, List.mem_cons_self, rfl⟩
    · obtain ⟨m, member, same⟩ := ih later more
      exact ⟨m, List.mem_cons_of_mem _ member, same⟩

theorem forall₂_zip {α β γ : Type} {R : β → γ → Prop} (view : α → β) {l : List α} {extra : List β}
    {cs : List γ} (all : List.Forall₂ R (l.map view ++ extra) cs) {a : α} {c : γ}
    (inside : (a, c) ∈ l.zip cs) : R (view a) c := by
  induction l generalizing cs with
  | nil => cases inside
  | cons head rest ih =>
    cases all with
    | cons first others =>
      rcases List.mem_cons.mp inside with same | later
      · cases same
        exact first
      · exact ih others later

theorem forall₂_getLast {β γ : Type} {R : β → γ → Prop} {l : List β} {b : β} {cs : List γ}
    (all : List.Forall₂ R (l ++ [b]) cs) (d : γ) : R b (cs.getLastD d) := by
  induction l generalizing cs d with
  | nil =>
    cases all with
    | cons first others =>
      cases others
      exact first
  | cons head rest ih =>
    cases all with
    | cons first others =>
      rw [List.getLastD_cons]
      exact ih others _

theorem mem_propertySet {t : Store} {places : Id → String} {place : String} {g : Fragment}
    {cs : List Container}
    (each : List.Forall₂ (Represents t places place) (g.properties.map (·.2) ++ extraFragments g) cs)
    {p : Property} (inside : p ∈ propertySet g cs) :
    p.isIndex = false ∧ (p.required = true → p.name ∈ g.keywords.required) ∧
      ∃ h, (p.name, h) ∈ g.properties ∧ Represents t places place h p.types := by
  obtain ⟨⟨⟨name, h⟩, c⟩, zipped, rfl⟩ := List.mem_map.mp inside
  refine ⟨rfl, fun required => List.contains_iff_mem.mp required, h, (List.of_mem_zip zipped).1, ?_⟩
  exact forall₂_zip (·.2) each zipped

theorem mem_names_propertySet {t : Store} {places : Id → String} {place : String} {g : Fragment}
    {cs : List Container}
    (each : List.Forall₂ (Represents t places place) (g.properties.map (·.2) ++ extraFragments g) cs)
    {name : String} (inside : name ∈ Json.keys g.properties) : ∃ q ∈ propertySet g cs, q.name = name := by
  obtain ⟨p, member, rfl⟩ := List.mem_map.mp inside
  have longer : g.properties.length ≤ cs.length := by
    rw [← each.length_eq]
    simp
  have zipped : p ∈ (g.properties.zip cs).map (·.1) := by
    rw [List.map_fst_zip longer]
    exact member
  obtain ⟨⟨q, c⟩, both, rfl⟩ := List.mem_map.mp zipped
  exact ⟨_, List.mem_map.mpr ⟨_, both, rfl⟩, rfl⟩

theorem Sound.represents (plain : cfg.overrides = []) {t : Store} {places : Id → String}
    (sound : Sound cfg t places) {ref : String} {c : Container} {f : Fragment}
    (held : t.lookup? ref = some c) (resolved : cfg.resolver.fragment ref = .ok f) :
    Represents t places ref f c := by
  by_cases isRef : f.isRef = true
  · refine ⟨fun _ => ?_, fun other => ?_, fun other => ?_⟩
    · rcases sound.consistent.aliased ref c f held resolved isRef with ⟨name, _, replaced⟩ | same
      · rw [plain] at replaced
        cases replaced
      · exact same
    · rw [isRef] at other
      cases other
    · rw [isRef] at other
      cases other
  · exact sound.indexed ref c f held resolved (by simpa using isRef)

theorem Sound.shaped {t : Store} {places : Id → String} (sound : Sound cfg t places) {id : Id}
    {g : Fragment} (marked : Marked t id (some g)) :
    ∃ d, t.get? id = some d ∧ Shaped t places (places id) (readKind g) g d.shape := by
  obtain ⟨d, found, fragment⟩ := marked
  obtain ⟨e, same, said⟩ := sound.faithful id (Store.get?_lt found)
  rw [found] at same
  cases same
  rcases said with ⟨none, _⟩ | ⟨h, some, shaped⟩
  · rw [fragment] at none
    cases none
  · rw [fragment] at some
    cases some
    exact ⟨d, found, shaped⟩

theorem readKind_typed {f : Fragment} {type : String} (alone : f.combinator? = none)
    (types : f.keywords.types = [type]) (plain : f.keywords.enum = []) :
    readKind (stripped f) = typeKind type := by
  have empty : (stripped f).keywords.enum = [] := by
    rcases stripped_cases f with ⟨_, same⟩ | ⟨_, same⟩
    · rw [same]
      simp [withoutNull, plain]
    · rw [same, plain]
  simp [readKind, alone, empty, stripped_types types]

theorem readKind_combined {f : Fragment} {c : Combinator} {members : List Fragment}
    (combined : f.combinator? = some (c, members)) : readKind (stripped f) = .someOf := by
  simp [readKind, combined]

theorem fitsToken_of_fitsType {g : Fragment} {type : String} {v : Json}
    (text : type = "string" → g.keywords.format ≠ "binary") (typed : fitsType type v = true) :
    fitsToken (valueToken (typeKind type) g) v = true ∧
      typeKind type ∈ [Kind.string, .number, .boolean, .null] := by
  unfold fitsType at typed
  split at typed
  · rename_i s
    simp [typeKind, valueToken, text rfl, fitsToken]
  · exact ⟨rfl, by decide⟩
  · exact ⟨rfl, by decide⟩
  · exact ⟨rfl, by decide⟩
  · exact ⟨rfl, by decide⟩
  · cases typed

section

variable {t : Store} {places : Id → String} {place : String} {f : Fragment} {c : Container}

theorem Sound.found (sound : Sound cfg t places) (represents : Represents t places place f c)
    (isRef : f.isRef = false) : ∃ id ∈ c, ∃ d, t.get? id = some d ∧
      Shaped t places place (readKind (stripped f)) (stripped f) d.shape := by
  obtain ⟨id, inside, marked, same⟩ := represents.found isRef
  obtain ⟨d, found, shaped⟩ := sound.shaped marked
  rw [same] at shaped
  exact ⟨id, inside, d, found, shaped⟩

theorem Sound.inhabits_scalar (sound : Sound cfg t places) (represents : Represents t places place f c)
    (isRef : f.isRef = false) {type : String} {v : Json} (alone : f.combinator? = none)
    (types : f.keywords.types = [type]) (plain : f.keywords.enum = [])
    (text : type = "string" → f.keywords.format ≠ "binary") (typed : fitsType type v = true) :
    Inhabits t c v := by
  obtain ⟨id, inside, d, found, shaped⟩ := sound.found represents isRef
  rw [readKind_typed alone types plain] at shaped
  obtain ⟨token, leaf⟩ := fitsToken_of_fitsType (g := stripped f) (by simpa using text) typed
  generalize shape : d.shape = sh at shaped
  generalize typeKind type = kind at shaped token leaf
  cases shaped with
  | value => exact .intro inside (.token found shape token)
  | record => exact absurd leaf (by decide)
  | list => exact absurd leaf (by decide)
  | union => exact absurd leaf (by decide)
  | literals => exact absurd leaf (by decide)

theorem onlyNull_of_dropped (nullable : f.keywords.nullable = true) (dropped : keepsNull f = false) :
    onlyNull f = true := by
  simpa [keepsNull, isNullable, nullable] using dropped

theorem Sound.inhabits_null (sound : Sound cfg t places) (represents : Represents t places place f c)
    (isRef : f.isRef = false) (expressible : Expressible f) (nullable : f.keywords.nullable = true) :
    Inhabits t c .null := by
  by_cases kept : keepsNull f = true
  · obtain ⟨id, inside, marked⟩ := represents.null isRef kept
    obtain ⟨d, found, shaped⟩ := sound.shaped marked
    have kind : readKind (Fragment.ofType "null") = .null := by decide
    rw [kind] at shaped
    generalize shape : d.shape = sh at shaped
    cases shaped with
    | value => exact .intro inside (.token found shape rfl)
  · have only := onlyNull_of_dropped nullable (by simpa using kept)
    cases expressible with
    | reference => cases isRef
    | @scalar type _ _ _ _ _ text =>
      have same : type = "null" := by simpa [onlyNull] using only
      exact sound.inhabits_scalar represents rfl rfl rfl rfl text (by rw [same]; rfl)
    | @literals type _ _ _ _ _ typed =>
      have same : type = "null" := by simpa [onlyNull] using only
      rw [same] at typed
      exact absurd typed (by decide)
    | record => cases only
    | list => cases only
    | oneOf => cases only
    | anyOf => cases only

theorem Sound.inhabits_literal (sound : Sound cfg t places) (represents : Represents t places place f c)
    (isRef : f.isRef = false) {v w : Json} (alone : f.combinator? = none)
    (listed : w ∈ f.keywords.enum) (some : w.isNull = false) (same : w.same v = true) :
    Inhabits t c v := by
  obtain ⟨id, inside, d, found, shaped⟩ := sound.found represents isRef
  have kept : w ∈ (stripped f).keywords.enum := (mem_stripped_enum some).mpr listed
  have kind : readKind (stripped f) = .enum := by
    have values : (stripped f).keywords.enum ≠ [] := List.ne_nil_of_mem kept
    simp [readKind, alone, values]
  rw [kind] at shaped
  generalize shape : d.shape = sh at shaped
  cases shaped with
  | literals =>
    obtain ⟨m, member, value⟩ := mem_nameMembers
      (List.mem_filter.mpr ⟨kept, by simp [some]⟩ : w ∈ (stripped f).keywords.enum.filter fun v => !v.isNull) []
    exact .intro inside (.literal found shape member (by rw [value, same]))
  | value leaf => exact absurd leaf (by decide)

theorem Sound.inhabits_list (sound : Sound cfg t places) (represents : Represents t places place f c)
    (isRef : f.isRef = false) {vs : List Json} (alone : f.combinator? = none)
    (types : f.keywords.types = ["array"]) (plain : f.keywords.enum = [])
    (each : ∀ g ∈ f.itemFragments, ∀ v ∈ vs, ∀ c, Represents t places place g c → Inhabits t c v) :
    Inhabits t c (.arr vs) := by
  obtain ⟨id, inside, d, found, shaped⟩ := sound.found represents isRef
  have kind : readKind (stripped f) = .array := readKind_typed alone types plain
  rw [kind] at shaped
  generalize shape : d.shape = sh at shaped
  cases shaped with
  | @list _ cs items =>
    rw [stripped_itemFragments] at items
    generalize f.itemFragments = gs at items each
    cases items with
    | nil => exact .intro inside (.anyList found shape)
    | @cons g e gs es first _ =>
      refine .intro inside (.list found shape List.mem_cons_self ?_)
      intro v member
      exact each g List.mem_cons_self v member e first
  | value leaf => exact absurd leaf (by decide)

theorem forall₂_mem {α β : Type} {R : α → β → Prop} {l : List α} {r : List β}
    (all : List.Forall₂ R l r) {a : α} (inside : a ∈ l) : ∃ b ∈ r, R a b := by
  induction all with
  | nil => cases inside
  | cons first _ ih =>
    rcases List.mem_cons.mp inside with rfl | later
    · exact ⟨_, List.mem_cons_self, first⟩
    · obtain ⟨b, member, related⟩ := ih later
      exact ⟨b, List.mem_cons_of_mem _ member, related⟩

theorem Sound.inhabits_member (sound : Sound cfg t places) (represents : Represents t places place f c)
    (isRef : f.isRef = false) {v : Json} {comb : Combinator} {members : List Fragment} {g : Fragment}
    (combined : f.combinator? = some (comb, members)) (separate : comb ≠ .allOf) (member : g ∈ members)
    (inhabits : ∀ c, Represents t places place g c → Inhabits t c v) : Inhabits t c v := by
  obtain ⟨id, inside, d, found, shaped⟩ := sound.found represents isRef
  rw [readKind_combined combined] at shaped
  generalize shape : d.shape = sh at shaped
  cases shaped with
  | union other each =>
    rw [stripped_combinator, combined] at other
    cases other
    obtain ⟨branch, chosen, represented⟩ := forall₂_mem each member
    exact .intro inside (.union found shape separate chosen (inhabits branch represented))
  | value leaf => exact absurd leaf (by decide)

theorem Sound.inhabits_any (sound : Sound cfg t places) {id : Id} (marked : Marked t id none) (v : Json) :
    Inhabits t [id] v := by
  obtain ⟨d, found, fragment⟩ := marked
  obtain ⟨e, same, said⟩ := sound.faithful id (Store.get?_lt found)
  rw [found] at same
  cases same
  rcases said with ⟨_, shape⟩ | ⟨g, some, _⟩
  · exact .intro (List.mem_singleton.mpr rfl) (.token found shape rfl)
  · rw [fragment] at some
    cases some

/-- An object has what the listed properties ask for, and what it has of them fits. -/
structure Takes (t : Store) (set : List Property) (fields : List (String × Json)) : Prop where
  plain : ∀ p ∈ set, p.isIndex = false
  required : ∀ p ∈ set, p.required = true → p.name ∈ Json.keys fields
  listed : ∀ p ∈ set, ∀ v, (p.name, v) ∈ fields → Inhabits t p.types v

theorem takes_nil (t : Store) (fields : List (String × Json)) : Takes t [] fields := by
  constructor <;> exact fun _ member => nomatch member

theorem takes_propertySet {g : Fragment} {cs : List Container} {fields : List (String × Json)}
    (each : List.Forall₂ (Represents t places place) (g.properties.map (·.2) ++ extraFragments g) cs)
    (required : ∀ name ∈ g.keywords.required, name ∈ Json.keys fields)
    (listed : ∀ p ∈ g.properties, ∀ v, (p.1, v) ∈ fields →
      ∀ c, Represents t places place p.2 c → Inhabits t c v) :
    Takes t (propertySet g cs) fields := by
  constructor
  · exact fun p member => (mem_propertySet each member).1
  · exact fun p member need => required _ ((mem_propertySet each member).2.1 need)
  · intro p member v field
    obtain ⟨_, _, h, property, represented⟩ := mem_propertySet each member
    exact listed _ property v field _ represented

theorem Takes.admits {set : List Property} {fields : List (String × Json)} (takes : Takes t set fields)
    {id : Id} {d : Descriptor} (found : t.get? id = some d) (shape : d.shape = .object [set] false) :
    Admits t id (.obj fields) := by
  refine .record found shape (List.mem_singleton.mpr rfl)
    (fun p member _ => takes.required p member) (fun p member _ => takes.listed p member) ?_
  intro p member index
  rw [takes.plain p member] at index
  cases index

/-- A property for all others asks for nothing, and only what is not listed has to fit it. -/
theorem Takes.admits_indexed {set : List Property} {fields : List (String × Json)}
    (takes : Takes t set fields) {id : Id} {d : Descriptor} {others : Container}
    (found : t.get? id = some d) (shape : d.shape = .object [set ++ [indexProperty others]] false)
    (fit : ∀ kv ∈ fields, (∀ q ∈ set, q.name ≠ kv.1) → Inhabits t others kv.2) :
    Admits t id (.obj fields) := by
  refine .record found shape (List.mem_singleton.mpr rfl) ?_ ?_ ?_
  · intro p member single
    rcases List.mem_append.mp member with own | index
    · exact takes.required p own
    · rw [List.mem_singleton.mp index] at single
      cases single
  · intro p member single
    rcases List.mem_append.mp member with own | index
    · exact takes.listed p own
    · rw [List.mem_singleton.mp index] at single
      cases single
  · intro p member index kv field unlisted
    rcases List.mem_append.mp member with own | same
    · rw [takes.plain p own] at index
      cases index
    · rw [List.mem_singleton.mp same]
      exact fit kv field fun q own => unlisted q (List.mem_append_left _ own) (takes.plain q own)

theorem Sound.inhabits_record (sound : Sound cfg t places) (represents : Represents t places place f c)
    (isRef : f.isRef = false) {fields : List (String × Json)} (alone : f.combinator? = none)
    (types : f.keywords.types = ["object"]) (plain : f.keywords.enum = [])
    (required : ∀ name ∈ f.keywords.required, name ∈ Json.keys fields)
    (listed : ∀ p ∈ f.properties, ∀ v, (p.1, v) ∈ fields →
      ∀ c, Represents t places place p.2 c → Inhabits t c v)
    (allowed : f.additionalProperties = some .forbidden →
      ∀ kv ∈ fields, kv.1 ∈ Json.keys f.properties)
    (extra : ∀ g, f.additionalProperties = some (.described g) → ∀ kv ∈ fields,
      kv.1 ∉ Json.keys f.properties → ∀ c, Represents t places place g c → Inhabits t c kv.2) :
    Inhabits t c (.obj fields) := by
  obtain ⟨id, inside, d, found, shaped⟩ := sound.found represents isRef
  have kind : readKind (stripped f) = .object := readKind_typed alone types plain
  rw [kind] at shaped
  generalize shape : d.shape = sh at shaped
  refine .intro inside ?_
  cases shaped with
  | value leaf => exact absurd leaf (by decide)
  | @record _ cs _ each said =>
    -- the listed properties fit, whatever is said of the others
    have takes : Takes t (propertySet (stripped f) cs) fields :=
      takes_propertySet each (by simpa using required) (by rwa [stripped_properties])
    cases said with
    | @described h extent =>
      have last : Represents t places place h (cs.getLastD []) := by
        rw [extraFragments, extent] at each
        exact forall₂_getLast each []
      refine takes.admits_indexed found shape ?_
      intro kv field unlisted
      refine extra h (by simpa using extent) kv field ?_ _ last
      intro known
      rw [← stripped_properties] at known
      obtain ⟨q, own, name⟩ := mem_names_propertySet each known
      exact unlisted q own name
    | forbidden extent =>
      rw [stripped_properties] at shape
      cases empty : f.properties.isEmpty with
      | true =>
        -- a record that lists nothing and allows nothing has the shape of an empty object
        have none : fields = [] := by
          rw [List.eq_nil_iff_forall_not_mem]
          intro kv field
          have known := allowed (by simpa using extent) kv field
          rw [List.isEmpty_iff.mp empty] at known
          cases known
        rw [empty] at shape
        rw [none]
        exact .closed found shape
      | false =>
        rw [empty] at shape
        exact takes.admits found shape
    | listed => exact takes.admits found shape
    | anything _ _ marked =>
      exact (takes_nil t fields).admits_indexed found shape
        fun kv _ _ => sound.inhabits_any marked kv.2

end

/-- In a sound store the container of a fragment takes all values of the fragment. -/
theorem Sound.inhabits (plain : cfg.overrides = []) (spoken : Spoken cfg) {t : Store}
    {places : Id → String} (sound : Sound cfg t places) {place : String} {f : Fragment} {v : Json}
    (valid : Valid cfg place f v) (within : Within cfg place f) (c : Container)
    (represents : Represents t places place f c) : Inhabits t c v := by
  induction valid generalizing c with
  | null isRef nullable => exact sound.inhabits_null represents isRef within.expressible nullable
  | reference isRef resolved _ ih =>
    refine ih (spoken.within (within.linked _ (.itself isRef)) resolved) c ?_
    exact sound.represents plain (represents.followed isRef) resolved
  | scalar types none typed =>
    obtain ⟨isRef, alone⟩ := within.expressible.alone types
    exact sound.inhabits_scalar represents isRef alone types none
      (within.expressible.text types none) typed
  | literal types _ listed same =>
    obtain ⟨isRef, alone⟩ := within.expressible.alone types
    exact sound.inhabits_literal represents isRef alone listed (within.expressible.literal listed) same
  | record types required _ allowed _ listed extra =>
    obtain ⟨isRef, alone⟩ := within.expressible.alone types
    refine sound.inhabits_record represents isRef alone types
      (within.expressible.plain types (by decide)) required ?_ allowed ?_
    · intro p member v field
      refine listed p member v field (within.part ?_)
      simp only [parts, List.mem_append, List.mem_map]
      exact .inl (.inl (.inl (.inl ⟨p, member, rfl⟩)))
    · intro g extent kv field other
      refine extra g extent kv field other (within.part ?_)
      simp [parts, extraFragments, extent]
  | list types _ each =>
    obtain ⟨isRef, alone⟩ := within.expressible.alone types
    refine sound.inhabits_list represents isRef alone types (within.expressible.plain types (by decide)) ?_
    intro g member v item
    refine each g member v item (within.part ?_)
    simp only [parts, List.mem_append]
    exact .inl (.inl (.inr member))
  | member combined separate inside _ ih =>
    have isRef := within.expressible.isRef_of_combined combined
    exact sound.inhabits_member represents isRef combined separate inside
      (ih (within.part (mem_parts_of_member combined separate inside)))

end

/-- Take a document whose components, and all that they lead to, are in the language. After any
successful requests, every value that is valid for a component inhabits the container that a request
for it gives, and still does after any later requests. -/
theorem findOrCreate_sound {cfg : Setting} (rules : cfg.rules = Rule.defaults)
    (plain : cfg.overrides = []) (spoken : Spoken cfg) {name : String}
    (listed : name ∈ componentNames cfg) {c : Container} {s t u : Store} (before : Asked cfg {} s)
    (request : Returns (findOrCreate cfg (Reference.component name)) s c t)
    (after : Asked cfg t u) {f : Fragment} {v : Json}
    (resolved : cfg.resolver.fragment (Reference.normalize (Reference.component name)) = .ok f)
    (valid : Valid cfg (Reference.normalize (Reference.component name)) f v) : Inhabits u c v := by
  have linked : Linked cfg (Reference.normalize (Reference.component name)) := .component listed
  obtain ⟨⟨first, start⟩, _⟩ := before.sound rules plain spoken (sound_fresh cfg fun _ => "")
  obtain ⟨⟨middle, done⟩, held, _⟩ := findOrCreate_sound_step rules plain spoken linked request start
  obtain ⟨⟨last, sound⟩, retains⟩ := after.sound rules plain spoken done
  exact sound.inhabits plain spoken valid (spoken.within linked resolved) c
    (sound.represents plain (retains.lookup _ _ held) resolved)

def tree : Setting where
  resolver := { root := .obj [("components", .obj [("schemas", .obj [("Node", .obj [
    ("properties", .obj [("under", .obj [("items", .obj [("$ref", .str "#/components/schemas/Node")]),
      ("nullable", .bool true), ("type", .str "array")])]),
    ("required", .arr [.str "under"]), ("type", .str "object")])])])] }

def under : Fragment :=
  { keywords := { types := ["array"], nullable := true },
    items := some (.one { keywords := { ref := some "#/components/schemas/Node" } }) }

def node : Fragment :=
  { keywords := { types := ["object"], required := ["under"] }, properties := [("under", under)] }

theorem tree_node : tree.resolver.fragment "#/components/schemas/Node" = .ok node := by
  rfl

theorem node_expressible : Expressible node := by
  have list : Expressible under := by
    refine @Expressible.list (some _) "" "" true ?_
    intro g same
    cases same
    exact .reference _
  refine .record "" "" false ["under"] ?_ (fun g described => nomatch described)
  intro p member
  rw [List.mem_singleton.mp member]
  exact list

theorem node_mentions {ref : String} (mentions : Mentions node ref) :
    ref = "#/components/schemas/Node" := by
  cases mentions with
  | itself isRef => cases isRef
  | inside part mentions =>
    cases List.mem_singleton.mp part
    cases mentions with
    | itself isRef => cases isRef
    | inside part mentions =>
      cases List.mem_singleton.mp part
      cases mentions with
      | itself => rfl
      | inside part => cases part

theorem tree_linked {place : String} (linked : Linked tree place) :
    place = "#/components/schemas/Node" := by
  induction linked with
  | component listed =>
    rw [List.mem_singleton.mp listed]
    decide
  | next _ resolved mentions ih =>
    subst ih
    cases tree_node.symm.trans resolved
    rw [node_mentions mentions]
    decide

theorem tree_spoken : Spoken tree := by
  intro place f linked resolved
  rw [tree_linked linked] at resolved
  cases tree_node.symm.trans resolved
  exact node_expressible

theorem valid_node {v : Json} (valid : Valid tree "#/components/schemas/Node" under v) :
    Valid tree "#/components/schemas/Node" node (.obj [("under", v)]) := by
  refine .record rfl (fun _ needed => needed) ?_ (fun closed => nomatch closed)
    (fun _ described => nomatch described)
  intro p member w field
  rw [List.mem_singleton.mp member] at field ⊢
  cases List.mem_singleton.mp field
  exact valid

def stem : Json :=
  .obj [("under", .arr [.obj [("under", .null)]])]

theorem stem_valid : Valid tree "#/components/schemas/Node" node stem := by
  have leaf : Valid tree "#/components/schemas/Node" node (.obj [("under", .null)]) :=
    valid_node (.null rfl rfl)
  refine valid_node (.list rfl ?_)
  intro g item w inside
  rw [List.mem_singleton.mp item, List.mem_singleton.mp inside]
  exact .reference rfl tree_node leaf

theorem findOrCreate_sound_tree : ∃ t : Store,
    Returns (findOrCreate tree (Reference.component "Node")) {} [0] t ∧ Inhabits t [0] stem := by
  have request : Returns (findOrCreate tree (Reference.component "Node")) {} [0] _ :=
    returns_deepening_first _ (by decide +kernel)
  exact ⟨_, request, findOrCreate_sound rfl rfl tree_spoken (List.mem_singleton.mpr rfl) .none request
    .none tree_node stem_valid⟩

end Typesmith.Model
