import Typesmith.Proofs.Growth

namespace Typesmith.Model

theorem canonical_ne_empty (r : Reference) : r.canonical ≠ "" := by
  intro empty
  have letters := congrArg String.toList empty
  simp [Reference.canonical] at letters

theorem normalize_ne_empty (ref : String) : Reference.normalize ref ≠ "" :=
  canonical_ne_empty _

def Overridden (cfg : Setting) (names : Registry) (ref : String) : Prop :=
  ∃ name, names.lookup? ref = some name ∧ (cfg.overrides.lookup name).isSome = true

/-- Where a reference leads whose fragment is itself nothing but a reference. -/
def aliasTarget (f : Fragment) (ref : String) : String :=
  Reference.normalize (Reference.qualify f.ref ref)

/-- What holds between any two steps of a conversion. -/
structure Consistent (cfg : Setting) (s : Store) : Prop where
  settled : ∀ entry ∈ s.index, s.lookup? entry.1 = some entry.2
  /-- A descriptor with a reference is found under it or under what took its place. -/
  registered : ∀ i d, s.get? i = some d → d.ref ≠ "" → (s.lookup? d.ref).isSome = true
  unique : ∀ i j d e, s.get? i = some d → s.get? j = some e → d.ref ≠ "" → d.ref = e.ref → i = j
  /-- A reference to a reference has the container of the second one. -/
  aliased : ∀ ref c f, s.lookup? ref = some c → cfg.resolver.fragment ref = .ok f → f.isRef = true →
    Overridden cfg s.names ref ∨ s.lookup? (aliasTarget f ref) = some c
  named : s.names.Named

section

variable {cfg : Setting} {s t : Store}

theorem consistent_fresh (cfg : Setting) : Consistent cfg {} := by
  constructor
  case settled =>
    intro entry member
    cases member
  case registered =>
    intro i d found
    simp [Store.get?] at found
  case unique =>
    intro i j d e found
    simp [Store.get?] at found
  case aliased =>
    intro ref c f found
    simp [Store.lookup?] at found
  case named =>
    intro entry member
    cases member

theorem Overridden.mono {names later : Registry} {ref : String} (grown : names.Extends later)
    (overridden : Overridden cfg names ref) : Overridden cfg later ref := by
  obtain ⟨name, held, replaced⟩ := overridden
  exact ⟨name, grown.kept _ _ held, replaced⟩

theorem Consistent.of_quiet (consistent : Consistent cfg s) (quiet : Quiet s t) :
    Consistent cfg t := by
  have get : ∀ i, t.get? i = s.get? i := fun i => by simp only [Store.get?, quiet.descriptors]
  have lookup : ∀ ref, t.lookup? ref = s.lookup? ref :=
    fun ref => by simp only [Store.lookup?, quiet.index]
  constructor
  case settled =>
    intro entry member
    rw [quiet.index] at member
    rw [lookup]
    exact consistent.settled entry member
  case registered =>
    intro i d found
    rw [get] at found
    rw [lookup]
    exact consistent.registered i d found
  case unique =>
    intro i j d e first second
    rw [get] at first second
    exact consistent.unique i j d e first second
  case aliased =>
    intro ref c f found resolved isRef
    rw [lookup] at found ⊢
    exact (consistent.aliased ref c f found resolved isRef).imp_left (.mono quiet.names)
  case named => exact quiet.names.named consistent.named

theorem Consistent.setShape (consistent : Consistent cfg s) (id : Id) (shape : Shape) :
    Consistent cfg (s.setShape id shape) := by
  -- references stay where they are when a shape changes
  have same : ∀ i d, (s.setShape id shape).get? i = some d →
      ∃ e, s.get? i = some e ∧ e.ref = d.ref := by
    intro i d found
    rw [Store.get?_setShape] at found
    split at found
    · obtain ⟨e, older, rfl⟩ := Option.map_eq_some_iff.mp found
      exact ⟨e, older, rfl⟩
    · exact ⟨d, found, rfl⟩
  constructor
  case settled => exact consistent.settled
  case registered =>
    intro i d found named
    obtain ⟨e, older, ref⟩ := same i d found
    rw [← ref] at named ⊢
    exact consistent.registered i e older named
  case unique =>
    intro i j d e first second named equal
    obtain ⟨d', first, refd⟩ := same i d first
    obtain ⟨e', second, refe⟩ := same j e second
    rw [← refd] at named
    rw [← refd, ← refe] at equal
    exact consistent.unique i j d' e' first second named equal
  case aliased => exact consistent.aliased
  case named => exact consistent.named

theorem Consistent.push (consistent : Consistent cfg s) {d : Descriptor} (unnamed : d.ref = "") :
    Consistent cfg (s.push d).2 := by
  have older : ∀ i e, (s.push d).2.get? i = some e → e.ref ≠ "" → s.get? i = some e := by
    intro i e found named
    rw [Store.get?_push] at found
    split at found
    · cases found
      exact absurd unnamed named
    · exact found
  constructor
  case settled => exact consistent.settled
  case registered =>
    intro i e found named
    exact consistent.registered i e (older i e found named) named
  case unique =>
    intro i j e g first second named equal
    exact consistent.unique i j e g (older i e first named) (older j g second (equal ▸ named))
      named equal
  case aliased => exact consistent.aliased
  case named => exact consistent.named

theorem Consistent.touches (consistent : Consistent cfg s) {id : Id} (touches : Touches id s t) :
    Consistent cfg t := by
  cases touches with
  | nothing => exact consistent
  | shape shape => exact consistent.setShape id shape
  | any shape => exact (consistent.push rfl).setShape id shape

theorem lookup?_register_kept {ref : String} {c : Container} (named : ref ≠ "")
    (fits : s.lookup? ref = none ∨ s.lookup? ref = some c) {other : String} {found : Container}
    (held : s.lookup? other = some found) : (s.register ref c).lookup? other = some found := by
  rw [Store.lookup?_register c named]
  split
  · rename_i same
    rw [same] at held
    rcases fits with absent | present
    · rw [absent] at held
      cases held
    · rw [present] at held
      exact held
  · exact held

theorem Consistent.register (consistent : Consistent cfg s) {ref : String} {c : Container}
    (fits : ref ≠ "" → s.lookup? ref = none ∨ s.lookup? ref = some c)
    (aliased : ref ≠ "" → ∀ f, cfg.resolver.fragment ref = .ok f → f.isRef = true →
      Overridden cfg s.names ref ∨ s.lookup? (aliasTarget f ref) = some c) :
    Consistent cfg (s.register ref c) := by
  by_cases empty : ref = ""
  · rw [empty, Store.register_empty]
    exact consistent
  have keeps : ∀ other found, s.lookup? other = some found →
      (s.register ref c).lookup? other = some found :=
    fun _ _ held => lookup?_register_kept empty (fits empty) held
  have get : ∀ i, (s.register ref c).get? i = s.get? i := fun i => by simp [Store.get?]
  constructor
  case settled =>
    intro entry member
    rw [Store.index_register c empty] at member
    rcases List.mem_cons.mp member with rfl | older
    · rw [Store.lookup?_register c empty, if_pos rfl]
    · exact keeps _ _ (consistent.settled entry older)
  case registered =>
    intro i d found named
    rw [get] at found
    obtain ⟨held, present⟩ := Option.isSome_iff_exists.mp (consistent.registered i d found named)
    exact Option.isSome_iff_exists.mpr ⟨held, keeps _ _ present⟩
  case unique =>
    intro i j d e first second
    rw [get] at first second
    exact consistent.unique i j d e first second
  case aliased =>
    intro other found f held resolved isRef
    rw [Store.names_register]
    rw [Store.lookup?_register c empty] at held
    split at held
    · rename_i same
      subst same
      cases held
      exact (aliased empty f resolved isRef).imp_right (keeps _ _)
    · exact (consistent.aliased other found f held resolved isRef).imp_right (keeps _ _)
  case named =>
    rw [Store.names_register]
    exact consistent.named

theorem Consistent.foreign (consistent : Consistent cfg s) {ref : String}
    (absent : s.lookup? ref = none) {i : Id} {d : Descriptor} (found : s.get? i = some d)
    (owned : d.ref ≠ "") : d.ref ≠ ref := by
  intro same
  have known := consistent.registered i d found owned
  rw [same, absent] at known
  cases known

theorem get?_of_push_register {d e : Descriptor} {ref : String} {c : Container} {i : Id}
    (found : ((s.push d).2.register ref c).get? i = some e) :
    (i = s.descriptors.size ∧ e = d) ∨ s.get? i = some e := by
  rw [Store.get?, Store.descriptors_register] at found
  change (s.push d).2.get? i = some e at found
  rw [Store.get?_push] at found
  split at found
  · cases found
    exact .inl ⟨‹_›, rfl⟩
  · exact .inr found

theorem Consistent.add (consistent : Consistent cfg s) {d : Descriptor} {c : Container}
    (named : d.ref ≠ "") (absent : s.lookup? d.ref = none)
    (aliased : ∀ f, cfg.resolver.fragment d.ref = .ok f → f.isRef = true →
      Overridden cfg s.names d.ref) :
    Consistent cfg ((s.push d).2.register d.ref c) := by
  -- the entry alone keeps the store consistent, and the descriptor changes no lookup
  have plain : Consistent cfg (s.register d.ref c) :=
    consistent.register (fun _ => .inl absent) (fun _ f resolved isRef => .inl (aliased f resolved isRef))
  have present : (s.register d.ref c).lookup? d.ref = some c := by
    rw [Store.lookup?_register c named, if_pos rfl]
  have same : ∀ ref, ((s.push d).2.register d.ref c).lookup? ref = (s.register d.ref c).lookup? ref := by
    intro ref
    rw [Store.lookup?_register c named, Store.lookup?_register c named]
    rfl
  constructor
  case settled =>
    intro entry member
    rw [Store.index_register c named] at member
    rw [same]
    exact plain.settled entry (by rw [Store.index_register c named]; exact member)
  case registered =>
    intro i e found owned
    rw [same]
    rcases get?_of_push_register found with ⟨_, rfl⟩ | older
    · rw [present]
      rfl
    · exact plain.registered i e (by simpa [Store.get?] using older) owned
  case unique =>
    intro i j e g first second owned equal
    rcases get?_of_push_register first with ⟨rfl, rfl⟩ | older
    · rcases get?_of_push_register second with ⟨rfl, rfl⟩ | later
      · rfl
      · exact absurd equal.symm (consistent.foreign absent later (equal ▸ owned))
    · rcases get?_of_push_register second with ⟨rfl, rfl⟩ | later
      · exact absurd equal (consistent.foreign absent older owned)
      · exact consistent.unique i j e g older later owned equal
  case aliased =>
    intro ref found f held resolved isRef
    rw [same] at held ⊢
    rw [Store.names_register]
    exact (plain.aliased ref found f held resolved isRef).imp_left (by simp)
  case named =>
    rw [Store.names_register]
    exact consistent.named

theorem push_register (s : Store) (d : Descriptor) (ref : String) (c : Container) :
    ((s.register ref c).push d).2 = (s.push d).2.register ref c := by
  unfold Store.register
  split <;> rfl

theorem lookup?_claimed (s : Store) {d : Descriptor} (nullable : Bool) (named : d.ref ≠ "") :
    (claimed d nullable s).lookup? d.ref = some (claimedContainer nullable s) := by
  unfold claimed
  rw [Store.lookup?_register _ named, if_pos rfl]

theorem Consistent.claimed (consistent : Consistent cfg s) {d : Descriptor} {nullable : Bool}
    (absent : d.ref ≠ "" → s.lookup? d.ref = none)
    (aliased : d.ref ≠ "" → ∀ f, cfg.resolver.fragment d.ref = .ok f → f.isRef = true →
      Overridden cfg s.names d.ref) :
    Consistent cfg (claimed d nullable s) := by
  have first : ∀ c, Consistent cfg ((s.push { d with nullable }).2.register d.ref c) := by
    intro c
    by_cases empty : d.ref = ""
    · rw [empty, Store.register_empty]
      exact consistent.push rfl
    · exact Consistent.add (d := { d with nullable }) consistent empty (absent empty) (aliased empty)
  unfold Model.claimed
  split
  · rw [← push_register]
    exact (first _).push rfl
  · exact first _

/-- What must be known before a fragment is converted under a reference. -/
structure Fits (cfg : Setting) (f : Fragment) (o : Options) (s : Store) : Prop where
  named : o.name ≠ ""
  /-- A reference to a reference is read at its own place and is not replaced. -/
  followed : f.isRef = true → cfg.resolver.fragment o.ref = .ok f ∧ o.base = o.ref ∧
    ∃ name, s.names.lookup? o.ref = some name ∧ cfg.overrides.lookup name = none
  /-- Anything else is converted for the first time. -/
  absent : f.isRef = false → s.lookup? o.ref = none ∧
    ∀ g, cfg.resolver.fragment o.ref = .ok g → g.isRef = false

def Options.normal (o : Options) : Options :=
  if o.ref = "" then o else { o with ref := Reference.normalize o.ref }

@[simp] theorem Options.normal_name (o : Options) : o.normal.name = o.name := by
  unfold Options.normal
  split <;> rfl

@[simp] theorem Options.normal_base (o : Options) : o.normal.base = o.base := by
  unfold Options.normal
  split <;> rfl

theorem Options.normal_unowned {o : Options} (empty : o.ref = "") : o.normal = o :=
  if_pos empty

theorem Options.normal_ref {o : Options} (owned : o.ref ≠ "") :
    o.normal.ref = Reference.normalize o.ref := by
  rw [Options.normal, if_neg owned]

def Owns (cfg : Setting) (f : Fragment) (o : Options) : Prop :=
  o.ref ≠ "" → o.name ≠ "" ∧ f.isRef = false ∧
    ∀ g, cfg.resolver.fragment (Reference.normalize o.ref) = .ok g → g.isRef = false

theorem Owns.fits {f : Fragment} {o : Options} (owns : Owns cfg f o)
    (fresh : o.ref = "" ∨ s.lookup? (Reference.normalize o.ref) = none) :
    o.normal.ref ≠ "" → Fits cfg f o.normal s := by
  intro owned
  have filled : o.ref ≠ "" := by
    intro empty
    exact owned ((congrArg Options.ref (Options.normal_unowned empty)).trans empty)
  obtain ⟨named, isRef, plain⟩ := owns filled
  refine ⟨by rwa [Options.normal_name], ?_, ?_⟩
  · intro followed
    rw [isRef] at followed
    cases followed
  · intro _
    rw [Options.normal_ref filled]
    exact ⟨fresh.resolve_left filled, plain⟩

theorem exec_convert_known (f : Fragment) {o : Options} (owned : o.ref ≠ "") {c : Container}
    (found : s.lookup? (Reference.normalize o.ref) = some c) : exec (convert cfg f o) s = (.ok c, s) := by
  simp only [convert, exec_bind, exec_get, owned, normalize_ne_empty, if_false, found]
  rfl

theorem exec_convert_fresh (f : Fragment) {o : Options}
    (fresh : o.ref = "" ∨ s.lookup? (Reference.normalize o.ref) = none) :
    exec (convert cfg f o) s = exec (deepening fun depth => convertDepth cfg depth f o.normal) s := by
  by_cases empty : o.ref = ""
  · simp only [convert, exec_bind, exec_get, Options.normal, empty, if_true]
  · simp only [convert, exec_bind, exec_get, Options.normal, empty, normalize_ne_empty, if_false,
      fresh.resolve_left empty]

/-- A conversion keeps the store consistent and lets it grow, and its result is found under its
reference. -/
def Settles (cfg : Setting) : Converts := fun f o s c t =>
  Consistent cfg s → (o.ref ≠ "" → Fits cfg f o s) →
    Consistent cfg t ∧ Grows s t ∧ (o.ref ≠ "" → t.lookup? o.ref = some c)

theorem Consistent.lookup?_of_suffix (consistent : Consistent cfg t) (log : s.index <:+ t.index)
    {ref : String} {c : Container} (held : s.lookup? ref = some c) : t.lookup? ref = some c := by
  have member : (ref, c) ∈ s.index := by
    obtain ⟨before, after, split, _⟩ := List.lookup_eq_some_iff.mp held
    rw [split]
    simp
  exact consistent.settled (ref, c) (log.subset member)

theorem Settles.each {base : String} {note : List Container → Store → Store} {gs : List Fragment}
    {cs out : List Container} {start : Store} {id : Id}
    (each : Each (Settles cfg) base note gs cs s out t) (told : ∀ cs t, Touches id t (note cs t))
    (later : start.descriptors.size ≤ id) (consistent : Consistent cfg s) (grows : Grows start s) :
    Consistent cfg t ∧ Grows start t ∧ s.index <:+ t.index := by
  refine each.keeps (fun t => Consistent cfg t ∧ Grows start t ∧ s.index <:+ t.index) ?_ ?_
    ⟨consistent, grows, List.suffix_rfl⟩
  · rintro g hint u c v inside ⟨consistent, grows, log⟩
    obtain ⟨after, more, _⟩ := inside consistent (fun named => absurd rfl named)
    exact ⟨after, grows.trans more, log.trans more.log⟩
  · rintro cs u ⟨consistent, grows, log⟩
    refine ⟨consistent.touches (told cs u), grows.touches later (told cs u), ?_⟩
    rw [(told cs u).index]
    exact log

@[simp] theorem opening_ref (kind : Kind) (f : Fragment) (o : Options) :
    (opening kind f o).ref = o.ref := by
  cases kind <;> rfl

theorem Consistent.opened {start : Store} (consistent : Consistent cfg s) (quiet : Quiet s start)
    (kind : Kind) (f : Fragment) (o : Options) (nullable : Bool)
    (fits : o.ref ≠ "" → s.lookup? o.ref = none ∧
      ∀ g, cfg.resolver.fragment o.ref = .ok g → g.isRef = false) :
    Consistent cfg (Model.claimed (opening kind f o) nullable start) := by
  refine (consistent.of_quiet quiet).claimed ?_ ?_
  · intro named
    rw [opening_ref] at named ⊢
    simpa only [Store.lookup?, quiet.index] using (fits named).1
  · intro named g resolved followed
    rw [opening_ref] at named resolved
    rw [(fits named).2 g resolved] at followed
    cases followed

theorem Settles.built {kind : Kind} {f : Fragment} {o : Options} {nullable : Bool} {c : Container}
    (built : Built cfg (Settles cfg) kind f o nullable s c t)
    (consistent : Consistent cfg s)
    (fits : o.ref ≠ "" → s.lookup? o.ref = none ∧
      ∀ g, cfg.resolver.fragment o.ref = .ok g → g.isRef = false) :
    Consistent cfg t ∧ Grows s t ∧ (o.ref ≠ "" → t.lookup? o.ref = some c) := by
  obtain @⟨name, gs, cs, start, t, _, quiet, _, each⟩ := built
  have opened := consistent.opened quiet kind f { o with name } nullable fits
  obtain ⟨after, grown, log⟩ := Settles.each each (fun cs t => noted_touches kind f _ cs t)
    (Nat.le_refl _) opened (grows_claimed _ nullable start)
  have touched := finished_touches kind f start.descriptors.size cs t
  refine ⟨after.touches touched, quiet.grows.trans (grown.touches (Nat.le_refl _) touched), ?_⟩
  intro named
  have present : (claimed (opening kind f { o with name }) nullable start).lookup? o.ref =
      some (claimedContainer nullable start) := by
    have held := lookup?_claimed start (d := opening kind f { o with name }) nullable
    rw [opening_ref] at held
    exact held named
  exact (after.touches touched).lookup?_of_suffix (touched.index ▸ log) present

theorem Consistent.enter (consistent : Consistent cfg s) {ref name : String} {f : Fragment}
    {names : Registry} (absent : s.lookup? (Reference.normalize ref) = none)
    (resolved : cfg.resolver.fragment (Reference.normalize ref) = .ok f)
    (given : s.names.claim (Reference.normalize ref)
      (Naming.modelName (Reference.parse (Reference.normalize ref)).lastSegment) = (name, names)) :
    Quiet s { s with names } ∧ names.lookup? (Reference.normalize ref) = some name ∧
    (cfg.overrides.lookup name = none →
      Fits cfg f { name, ref := Reference.normalize ref, base := Reference.normalize ref }
        { s with names }) := by
  have owned := normalize_ne_empty ref
  have named := Naming.modelName_ne_empty (Reference.parse (Reference.normalize ref)).lastSegment
  have held := s.names.lookup?_claim
    (Naming.modelName (Reference.parse (Reference.normalize ref)).lastSegment) owned
  have filled := Registry.claim_ne_empty consistent.named (Reference.normalize ref) named
  rw [given] at held filled
  refine ⟨quiet_claim given, held, fun kept => ⟨filled, ?_, ?_⟩⟩
  · intro _
    exact ⟨resolved, rfl, name, held, kept⟩
  · intro isRef
    refine ⟨absent, ?_⟩
    intro g other
    rw [resolved] at other
    cases other
    exact isRef

/-- How a reference is found keeps the store consistent, and leaves its container in the index. -/
theorem Settles.finds {ref : String} {c : Container} (finds : Finds cfg (Settles cfg) ref s c t)
    (consistent : Consistent cfg s) :
    Consistent cfg t ∧ Grows s t ∧ t.lookup? (Reference.normalize ref) = some c := by
  have owned := normalize_ne_empty ref
  cases finds with
  | known found => exact ⟨consistent, .refl s, found⟩
  | @replaced f name other names absent resolved given overridden =>
    obtain ⟨quiet, held, _⟩ := consistent.enter absent resolved given
    have after : Consistent cfg (claimed (externalDescriptor f { ref := Reference.normalize ref } other)
        false { s with names }) := by
      refine (consistent.of_quiet quiet).claimed (fun _ => absent) ?_
      intro _ _ _ _
      exact ⟨name, held, by rw [overridden]; rfl⟩
    exact ⟨after, quiet.grows.trans (grows_claimed _ _ _), lookup?_claimed { s with names } false owned⟩
  | @converted f name names c t absent resolved given kept inside =>
    obtain ⟨quiet, _, fits⟩ := consistent.enter absent resolved given
    obtain ⟨after, grown, present⟩ := inside (consistent.of_quiet quiet) (fun _ => fits kept)
    exact ⟨after, quiet.grows.trans grown, present owned⟩

theorem sideBySide_settles (cs : List Container) (nullable : Bool) {start : Store}
    (consistent : Consistent cfg t) (grows : Grows start t) :
    Consistent cfg (sideBySide nullable cs t).2 ∧ Grows start (sideBySide nullable cs t).2 := by
  unfold sideBySide
  split
  · exact ⟨consistent.push rfl, grows.push _⟩
  · exact ⟨consistent, grows⟩

theorem Settles.ref {f : Fragment} {o : Options} {c : Container} (isRef : f.isRef = true)
    (found : Finds cfg (Settles cfg) (Reference.qualify f.ref o.base) s c t) :
    Settles cfg f o s c (t.register o.ref c) := by
  intro consistent fits
  obtain ⟨after, grown, target⟩ := Settles.finds found consistent
  have followed := fun named => (fits named).followed isRef
  -- while the target was being converted, the reference may have been asked for again
  have agrees : o.ref ≠ "" → t.lookup? o.ref = none ∨ t.lookup? o.ref = some c := by
    intro named
    obtain ⟨resolved, base, name, held, kept⟩ := followed named
    cases present : t.lookup? o.ref with
    | none => exact .inl rfl
    | some other =>
      rcases after.aliased o.ref other f present resolved isRef with replaced | same
      · obtain ⟨name', held', overridden⟩ := replaced
        rw [grown.names.kept _ _ held] at held'
        cases held'
        rw [kept] at overridden
        cases overridden
      · rw [aliasTarget, ← base, target] at same
        exact .inr same.symm
  refine ⟨after.register agrees ?_, grown.register o.ref c, ?_⟩
  · intro named g resolved _
    obtain ⟨own, base, _⟩ := followed named
    rw [own] at resolved
    cases resolved
    rw [aliasTarget, ← base]
    exact .inr target
  · intro named
    rw [Store.lookup?_register c named, if_pos rfl]

/-- One layer of a conversion settles its reference when the layers inside it do. -/
theorem settles_step {f : Fragment} {o : Options} {c : Container}
    (step : Step cfg (Settles cfg) f o s c t) : Settles cfg f o s c t := by
  intro consistent fits
  cases step with
  | ref isRef found => exact Settles.ref isRef found consistent fits
  | union isRef multi named inside =>
    refine inside consistent ?_
    intro owned
    exact ⟨named, fun followed => absurd followed (by simp [typesUnion, Fragment.isRef]),
      fun _ => (fits owned).absent isRef⟩
  | @types _ _ _ t cs isRef multi unnamed each =>
    have unowned : o.ref = "" := by
      by_contra owned
      exact (fits owned).named unnamed
    have nothing : ∀ (cs : List Container) (t : Store), Touches s.descriptors.size t t :=
      fun _ _ => .nothing
    obtain ⟨after, grown, _⟩ := Settles.each each nothing (Nat.le_refl _) consistent (.refl s)
    obtain ⟨after, grown⟩ := sideBySide_settles cs (keepsNull f) after grown
    rw [unowned, Store.register_empty]
    exact ⟨after, grown, fun named => absurd rfl named⟩
  | node isRef single written built =>
    exact Settles.built built consistent (fun owned => (fits owned).absent isRef)

end

inductive Requests (cfg : Setting) (s : Store) : Store → Prop
  | none : Requests cfg s s
  | more {ref : String} {c : Container} {t u : Store} (before : Requests cfg s t)
      (last : Returns (findOrCreate cfg ref) t c u) : Requests cfg s u

theorem findOrCreate_settles {cfg : Setting} {ref : String} {s t : Store} {c : Container}
    (request : Returns (findOrCreate cfg ref) s c t) (consistent : Consistent cfg s) :
    Consistent cfg t ∧ Grows s t ∧ t.lookup? (Reference.normalize ref) = some c :=
  Settles.finds (findOrCreate_keeps (fun _ _ _ _ _ step => settles_step step) request) consistent

theorem Requests.settle {cfg : Setting} {s t : Store} (requests : Requests cfg s t)
    (consistent : Consistent cfg s) : Consistent cfg t ∧ Grows s t := by
  induction requests with
  | none => exact ⟨consistent, .refl s⟩
  | more _ last ih =>
    obtain ⟨middle, grown⟩ := ih
    obtain ⟨after, more, _⟩ := findOrCreate_settles last middle
    exact ⟨after, grown.trans more⟩

theorem findOrCreate_known (cfg : Setting) {ref : String} {s : Store} {c : Container}
    (known : s.lookup? (Reference.normalize ref) = some c) :
    exec (findOrCreate cfg ref) s = (.ok c, s) := by
  have now : ∀ depth, exec (findOrCreateWith cfg (convertDepth cfg depth) ref) s = (.ok c, s) := by
    intro depth
    simp only [findOrCreateWith, exec_bind, exec_get, known, exec_pure]
  have done := returns_deepening_first
    (fun depth => findOrCreateWith cfg (convertDepth cfg depth) ref) (s := s) (a := c) (by rw [now])
  rw [now] at done
  exact done

/-- Whatever was asked for before and after, a reference keeps the container of its first request:
asking again changes nothing at all. The index only grows at its front, so its suffixes are the
states it went through, in the middle of a conversion as well: whatever one of them says of a
reference is what the last one says. No two descriptors have the same reference. -/
theorem findOrCreate_identity {cfg : Setting} {ref : String} {c : Container} {s t u : Store}
    (before : Requests cfg {} s) (request : Returns (findOrCreate cfg ref) s c t)
    (after : Requests cfg t u) :
    (∀ again, Reference.normalize again = Reference.normalize ref →
      exec (findOrCreate cfg again) u = (.ok c, u)) ∧
    (∀ i, i < t.descriptors.size → u.get? i = t.get? i) ∧
    (s.index <:+ t.index ∧ t.index <:+ u.index ∧
      ∀ moment, moment <:+ u.index → ∀ other held, moment.lookup other = some held →
        u.lookup? other = some held) ∧
    (∀ i j d e, u.get? i = some d → u.get? j = some e → d.ref ≠ "" → d.ref = e.ref → i = j) := by
  obtain ⟨start, _⟩ := before.settle (consistent_fresh cfg)
  obtain ⟨middle, grown, held⟩ := findOrCreate_settles request start
  obtain ⟨last, more⟩ := after.settle middle
  refine ⟨?_, more.kept, ⟨grown.log, more.log, ?_⟩, last.unique⟩
  · intro again same
    apply findOrCreate_known
    rw [same]
    exact last.lookup?_of_suffix more.log held
  · intro moment log other held found
    exact last.lookup?_of_suffix (s := { u with index := moment }) log found

def linkedList : Setting where
  resolver := { root := .obj [("properties", .obj [("next", .obj [("$ref", .str "#")])]),
                  ("type", .str "object")] }

theorem findOrCreate_identity_linkedList :
    ∃ t, Returns (findOrCreate linkedList "#") {} [0] t ∧
      exec (findOrCreate linkedList " #") t = (.ok [0], t) := by
  have request : Returns (findOrCreate linkedList "#") {} [0] _ :=
    returns_deepening_first _ (by decide +kernel)
  exact ⟨_, request, (findOrCreate_identity .none request .none).1 " #" (by decide)⟩

end Typesmith.Model
