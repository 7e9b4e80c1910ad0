import Typesmith.Proofs.Collecting
import Typesmith.Proofs.Settling

namespace Typesmith.Model

open Fragment Declaration

/-- The kinds of descriptors that have nothing inside them and may be listed without a name. -/
def Descriptor.Bare (d : Descriptor) : Prop :=
  d.kind = .external ∨ d.kind = .null

/-- What holds of names, references and descriptors between any two steps of a conversion, wherever
references lead; so it also holds when something is mounted in between. -/
structure Tidy (s : Store) : Prop where
  named : s.names.Named
  distinct : s.names.Distinct
  legal : s.names.Legal
  held : ∀ i d, s.get? i = some d → d.name ≠ "" → (d.name, d.ref) ∈ s.names.issued
  unique : ∀ i j d e, s.get? i = some d → s.get? j = some e → d.name ≠ "" → d.name = e.name → i = j
  known : ∀ i d, s.get? i = some d → d.ref ≠ "" → d.ref ∈ s.known
  /-- A descriptor is in every container of its reference. -/
  placed : ∀ i d c, s.get? i = some d → d.ref ≠ "" → (d.ref, c) ∈ s.index → i ∈ c
  listed : ∀ ref c, (ref, c) ∈ s.index → ∀ i ∈ c, ∃ d, s.get? i = some d ∧ (d.name ≠ "" ∨ d.Bare)
  bare : ∀ i d, s.get? i = some d → d.Bare → d.shape.Bare
  owned : ∀ ref ∈ s.known, ∃ name, s.names.lookup? ref = some name

theorem tidy_fresh : Tidy {} := by
  constructor
  · exact fun _ member => by cases member
  · exact List.nodup_nil
  · exact fun _ member => by cases member
  all_goals intros; simp_all [Store.get?, Store.known]

section

variable {s t : Store}

theorem Tidy.of_quiet (tidy : Tidy s) (quiet : Quiet s t) : Tidy t := by
  have get : ∀ i, t.get? i = s.get? i := fun i => by simp only [Store.get?, quiet.descriptors]
  constructor
  case named => exact quiet.names.named tidy.named
  case distinct => exact quiet.names.distinct tidy.distinct
  case legal => exact quiet.names.legal tidy.legal
  case held =>
    intro i d found named
    rw [get] at found
    exact quiet.names.issued.subset (tidy.held i d found named)
  case unique =>
    intro i j d e first second
    rw [get] at first second
    exact tidy.unique i j d e first second
  case known =>
    intro i d found
    rw [get] at found
    rw [Store.known, quiet.index]
    exact tidy.known i d found
  case placed =>
    intro i d c found
    rw [get] at found
    rw [quiet.index]
    exact tidy.placed i d c found
  case listed =>
    intro ref c member i inside
    rw [quiet.index] at member
    rw [get]
    exact tidy.listed ref c member i inside
  case bare =>
    intro i d found
    rw [get] at found
    exact tidy.bare i d found
  case owned =>
    intro ref known
    rw [Store.known, quiet.index] at known
    obtain ⟨name, held⟩ := tidy.owned ref known
    exact ⟨name, quiet.names.kept _ _ held⟩

theorem get?_of_setShape {id i : Id} {shape : Shape} {d : Descriptor}
    (found : (s.setShape id shape).get? i = some d) :
    ∃ e, s.get? i = some e ∧ e.name = d.name ∧ e.ref = d.ref ∧ e.kind = d.kind ∧
      (i ≠ id → e.shape = d.shape) := by
  rw [Store.get?_setShape] at found
  split at found
  · obtain ⟨e, older, rfl⟩ := Option.map_eq_some_iff.mp found
    exact ⟨e, older, rfl, rfl, rfl, fun other => absurd ‹_› other⟩
  · exact ⟨d, found, rfl, rfl, rfl, fun _ => rfl⟩

theorem Tidy.setShape (tidy : Tidy s) {id : Id} (shape : Shape)
    (open_ : ∀ d, s.get? id = some d → ¬ d.Bare) : Tidy (s.setShape id shape) := by
  constructor
  case named => exact tidy.named
  case distinct => exact tidy.distinct
  case legal => exact tidy.legal
  case held =>
    intro i d found named
    obtain ⟨e, older, name, ref, _⟩ := get?_of_setShape found
    rw [← name] at named
    rw [← name, ← ref]
    exact tidy.held i e older named
  case unique =>
    intro i j d e first second named same
    obtain ⟨d', first, named', _⟩ := get?_of_setShape first
    obtain ⟨e', second, other, _⟩ := get?_of_setShape second
    rw [← named'] at named
    rw [← named', ← other] at same
    exact tidy.unique i j d' e' first second named same
  case known =>
    intro i d found owned
    obtain ⟨e, older, _, ref, _⟩ := get?_of_setShape found
    rw [← ref] at owned ⊢
    exact tidy.known i e older owned
  case placed =>
    intro i d c found owned member
    obtain ⟨e, older, _, ref, _⟩ := get?_of_setShape found
    rw [← ref] at owned member
    exact tidy.placed i e c older owned member
  case listed =>
    intro ref c member i inside
    obtain ⟨d, found, closed⟩ := tidy.listed ref c member i inside
    rw [Store.get?_setShape, found]
    split
    · exact ⟨_, rfl, closed⟩
    · exact ⟨d, rfl, closed⟩
  case bare =>
    intro i d found bare
    obtain ⟨e, older, _, _, kind, same⟩ := get?_of_setShape found
    rw [Descriptor.Bare, ← kind] at bare
    have other : i ≠ id := by
      rintro rfl
      exact open_ e older bare
    rw [← same other]
    exact tidy.bare i e older bare
  case owned => exact tidy.owned

theorem Tidy.push (tidy : Tidy s) {d : Descriptor} (unnamed : d.name = "") (unowned : d.ref = "")
    (bare : d.shape.Bare) : Tidy (s.push d).2 := by
  have older : ∀ i e, (s.push d).2.get? i = some e → (e.name ≠ "" ∨ e.ref ≠ "" ∨ ¬ e.shape.Bare) →
      s.get? i = some e := by
    intro i e found other
    rw [Store.get?_push] at found
    split at found
    · cases found
      rcases other with named | owned | shaped
      · exact absurd unnamed named
      · exact absurd unowned owned
      · exact absurd bare shaped
    · exact found
  constructor
  case named => exact tidy.named
  case distinct => exact tidy.distinct
  case legal => exact tidy.legal
  case held => exact fun i e found named => tidy.held i e (older i e found (.inl named)) named
  case unique =>
    intro i j e g first second named same
    exact tidy.unique i j e g (older i e first (.inl named)) (older j g second (.inl (same ▸ named)))
      named same
  case known =>
    exact fun i e found owned => tidy.known i e (older i e found (.inr (.inl owned))) owned
  case placed =>
    exact fun i e c found owned => tidy.placed i e c (older i e found (.inr (.inl owned))) owned
  case listed =>
    intro ref c member i inside
    obtain ⟨e, found, closed⟩ := tidy.listed ref c member i inside
    have small := Store.get?_lt found
    exact ⟨e, by rw [Store.get?_push, if_neg (Nat.ne_of_lt small), found], closed⟩
  case bare =>
    intro i e found closed
    by_contra shaped
    exact shaped (tidy.bare i e (older i e found (.inr (.inr shaped))) closed)
  case owned => exact tidy.owned

theorem Tidy.touches (tidy : Tidy s) {id : Id} (inside : ∀ d, s.get? id = some d → ¬ d.Bare)
    (touches : Touches id s t) : Tidy t := by
  cases touches with
  | nothing => exact tidy
  | shape shape => exact tidy.setShape shape inside
  | any shape =>
    refine (tidy.push (d := anyDescriptor) rfl rfl trivial).setShape shape ?_
    intro d found
    rw [Store.get?_push] at found
    split at found
    · cases found
      rintro (external | null)
      · cases external
      · cases null
    · exact inside d found

theorem get?_of_claimed {d e : Descriptor} {nullable : Bool} {i : Id}
    (found : (claimed d nullable s).get? i = some e) :
    s.get? i = some e ∨ (i = s.descriptors.size ∧ e = { d with nullable }) ∨
      (nullable = true ∧ i = s.descriptors.size + 1 ∧ e = nullDescriptor) := by
  cases nullable with
  | false =>
    have pushed : (s.push { d with nullable := false }).2.get? i = some e := by
      simpa [claimed, Store.get?] using found
    rw [Store.get?_push] at pushed
    split at pushed
    · cases pushed
      exact .inr (.inl ⟨‹_›, rfl⟩)
    · exact .inl pushed
  | true =>
    have pushed : ((s.push { d with nullable := true }).2.push nullDescriptor).2.get? i = some e := by
      simpa [claimed, Store.get?] using found
    rw [Store.get?_push, Store.size_push, Store.get?_push] at pushed
    split at pushed
    · cases pushed
      exact .inr (.inr ⟨rfl, ‹_›, rfl⟩)
    · split at pushed
      · cases pushed
        exact .inr (.inl ⟨‹_›, rfl⟩)
      · exact .inl pushed

theorem mem_claimedContainer {d : Descriptor} {nullable : Bool} {i : Id}
    (inside : i ∈ claimedContainer nullable s) :
    (i = s.descriptors.size ∧ (claimed d nullable s).get? i = some { d with nullable }) ∨
      (claimed d nullable s).get? i = some nullDescriptor := by
  cases nullable with
  | false =>
    obtain rfl : i = s.descriptors.size := by simpa [claimedContainer] using inside
    exact .inl ⟨rfl, get?_claimed d false s⟩
  | true =>
    have among : i = s.descriptors.size ∨ i = s.descriptors.size + 1 := by
      simpa [claimedContainer] using inside
    rcases among with rfl | rfl
    · exact .inl ⟨rfl, get?_claimed d true s⟩
    · exact .inr (get?_claimed_null d s)

@[simp] theorem names_claimed (d : Descriptor) (nullable : Bool) (s : Store) :
    (claimed d nullable s).names = s.names := by
  cases nullable <;> simp [claimed]

theorem index_claimed (d : Descriptor) (nullable : Bool) (s : Store) :
    (claimed d nullable s).index =
      if d.ref = "" then s.index else (d.ref, claimedContainer nullable s) :: s.index := by
  by_cases empty : d.ref = ""
  · cases nullable <;> simp [claimed, empty, Store.register_empty]
  · cases nullable <;> simp [claimed, Store.index_register _ empty, empty]

theorem mem_index_claimed {d : Descriptor} {nullable : Bool} {ref : String} {c : Container} :
    (ref, c) ∈ (claimed d nullable s).index ↔
      (d.ref ≠ "" ∧ ref = d.ref ∧ c = claimedContainer nullable s) ∨ (ref, c) ∈ s.index := by
  rw [index_claimed]
  split <;> simp [*]

theorem mem_known_claimed {d : Descriptor} {nullable : Bool} {ref : String} :
    ref ∈ (claimed d nullable s).known ↔ (d.ref ≠ "" ∧ ref = d.ref) ∨ ref ∈ s.known := by
  rw [Store.known, index_claimed]
  split <;> simp [*, Store.known]

theorem Tidy.foreign (tidy : Tidy s) {ref : String} (absent : ref ≠ "" → ref ∉ s.known) {i : Id}
    {d : Descriptor} (found : s.get? i = some d) (owned : d.ref ≠ "") : d.ref ≠ ref := by
  intro same
  exact absent (same ▸ owned) (same ▸ tidy.known i d found owned)

theorem Tidy.unique_claimed (tidy : Tidy s) {d : Descriptor} {nullable : Bool}
    (new : d.name ≠ "" → ∀ i e, s.get? i = some e → e.name ≠ d.name) {i j : Id} {e g : Descriptor}
    (first : (Model.claimed d nullable s).get? i = some e)
    (second : (Model.claimed d nullable s).get? j = some g) (named : e.name ≠ "")
    (same : e.name = g.name) : i = j := by
  rcases get?_of_claimed first with older | ⟨rfl, rfl⟩ | ⟨_, _, rfl⟩
  · rcases get?_of_claimed second with later | ⟨rfl, rfl⟩ | ⟨_, _, rfl⟩
    · exact tidy.unique i j e g older later named same
    · exact absurd same (new (fun empty => named (same.trans empty)) i e older)
    · exact absurd same named
  · rcases get?_of_claimed second with later | ⟨rfl, rfl⟩ | ⟨_, _, rfl⟩
    · exact absurd same.symm (new named j g later)
    · rfl
    · exact absurd same named
  · exact absurd rfl named

theorem Tidy.claimed (tidy : Tidy s) {d : Descriptor} {nullable : Bool}
    (held : d.name ≠ "" → (d.name, d.ref) ∈ s.names.issued)
    (new : d.name ≠ "" → ∀ i e, s.get? i = some e → e.name ≠ d.name)
    (absent : d.ref ≠ "" → d.ref ∉ s.known) (closed : d.ref ≠ "" → d.name ≠ "" ∨ d.Bare)
    (bare : d.Bare → d.shape.Bare) (owned : d.ref ≠ "" → ∃ name, s.names.lookup? d.ref = some name) :
    Tidy (claimed d nullable s) := by
  constructor
  case named => simpa using tidy.named
  case distinct => simpa using tidy.distinct
  case legal => simpa using tidy.legal
  case held =>
    intro i e found named
    rw [names_claimed]
    rcases get?_of_claimed found with older | ⟨_, rfl⟩ | ⟨_, _, rfl⟩
    · exact tidy.held i e older named
    · exact held named
    · exact absurd rfl named
  case unique => exact fun _ _ _ _ first second => tidy.unique_claimed new first second
  case known =>
    intro i e found owned
    rw [mem_known_claimed]
    rcases get?_of_claimed found with older | ⟨_, rfl⟩ | ⟨_, _, rfl⟩
    · exact .inr (tidy.known i e older owned)
    · exact .inl ⟨owned, rfl⟩
    · exact absurd rfl owned
  case placed =>
    intro i e c found owned member
    rcases get?_of_claimed found with older | ⟨rfl, rfl⟩ | ⟨_, _, rfl⟩
    · -- the new entry is for a reference that no older descriptor has
      rcases mem_index_claimed.mp member with ⟨_, same, _⟩ | inside
      · exact absurd same (tidy.foreign absent older owned)
      · exact tidy.placed i e c older owned inside
    · rcases mem_index_claimed.mp member with ⟨_, _, rfl⟩ | inside
      · cases nullable <;> simp [claimedContainer]
      · exact absurd (List.mem_map.mpr ⟨_, inside, rfl⟩) (absent owned)
    · exact absurd rfl owned
  case listed =>
    intro ref c member i inside
    rcases mem_index_claimed.mp member with ⟨owned, rfl, rfl⟩ | older
    · rcases mem_claimedContainer (d := d) inside with ⟨_, found⟩ | found
      · exact ⟨_, found, closed owned⟩
      · exact ⟨_, found, .inr (.inr rfl)⟩
    · obtain ⟨e, found, closed⟩ := tidy.listed ref c older i inside
      have kept := (grows_claimed d nullable s).kept i (Store.get?_lt found)
      exact ⟨e, by rw [kept, found], closed⟩
  case bare =>
    intro i e found closed
    rcases get?_of_claimed found with older | ⟨_, rfl⟩ | ⟨_, _, rfl⟩
    · exact tidy.bare i e older closed
    · exact bare closed
    · exact trivial
  case owned =>
    intro ref known
    rw [names_claimed]
    rcases mem_known_claimed.mp known with ⟨filled, rfl⟩ | older
    · exact owned filled
    · exact tidy.owned ref older

theorem Tidy.register (tidy : Tidy s) {ref : String} {c : Container}
    (closed : ∀ i ∈ c, ∃ d, s.get? i = some d ∧ (d.name ≠ "" ∨ d.Bare))
    (free : ref ≠ "" → ∀ i d, s.get? i = some d → d.ref ≠ ref)
    (owned : ref ≠ "" → ∃ name, s.names.lookup? ref = some name) : Tidy (s.register ref c) := by
  by_cases empty : ref = ""
  · rw [empty, Store.register_empty]
    exact tidy
  -- names and descriptors stay, so only the new entry is to be looked at
  have get : ∀ i, (s.register ref c).get? i = s.get? i := fun i => by simp [Store.get?]
  constructor
  case named => simpa using tidy.named
  case distinct => simpa using tidy.distinct
  case legal => simpa using tidy.legal
  case held =>
    intro i d found
    rw [get] at found
    rw [Store.names_register]
    exact tidy.held i d found
  case unique =>
    intro i j d e first second
    rw [get] at first second
    exact tidy.unique i j d e first second
  case known =>
    intro i d found owned
    rw [get] at found
    rw [Store.known, Store.index_register c empty]
    exact List.mem_cons_of_mem _ (tidy.known i d found owned)
  case placed =>
    intro i d c' found owned member
    rw [get] at found
    rw [Store.index_register c empty, List.mem_cons] at member
    rcases member with same | older
    · exact absurd (congrArg Prod.fst same) (free empty i d found)
    · exact tidy.placed i d c' found owned older
  case listed =>
    intro other c' member i inside
    rw [Store.index_register c empty, List.mem_cons] at member
    rw [get]
    rcases member with same | older
    · cases same
      exact closed i inside
    · exact tidy.listed other c' older i inside
  case bare =>
    intro i d found
    rw [get] at found
    exact tidy.bare i d found
  case owned =>
    intro other known
    rw [Store.names_register]
    rw [Store.known, Store.index_register c empty, List.map_cons, List.mem_cons] at known
    rcases known with rfl | older
    · exact owned empty
    · exact tidy.owned other older

def Described (s : Store) (ref : String) : Prop :=
  ∃ i d, s.get? i = some d ∧ d.ref = ref

/-- The reference leads on to another one, and its name is not replaced by a type declared elsewhere. -/
structure Passes (cfg : Setting) (names : Registry) (ref : String) : Prop where
  leads : ∃ g, cfg.resolver.fragment ref = .ok g ∧ g.isRef = true
  kept : ∃ name, names.lookup? ref = some name ∧ cfg.overrides.lookup name = none

def Spares (cfg : Setting) (s t : Store) : Prop :=
  ∀ ref, Passes cfg s.names ref → Described t ref → Described s ref

variable {cfg : Setting}

theorem Passes.mono {names later : Registry} {ref : String} (passes : Passes cfg names ref)
    (extends_ : names.Extends later) : Passes cfg later ref := by
  obtain ⟨name, held, free⟩ := passes.kept
  exact ⟨passes.leads, name, extends_.kept _ _ held, free⟩

theorem Passes.ne_empty {names : Registry} {ref : String} (passes : Passes cfg names ref) :
    ref ≠ "" := by
  rintro rfl
  obtain ⟨_, held, _⟩ := passes.kept
  cases held

theorem Spares.refl (cfg : Setting) (s : Store) : Spares cfg s s :=
  fun _ _ described => described

theorem Spares.trans {u : Store} (first : Spares cfg s t) (grows : Grows s t)
    (second : Spares cfg t u) : Spares cfg s u :=
  fun ref passes described =>
    first ref passes (second ref (passes.mono grows.names) described)

theorem spares_of_new {u : Store} (first : Spares cfg s t)
    (new : ∀ i d, u.get? i = some d → Described t d.ref ∨ d.ref = "" ∨ ¬ Passes cfg s.names d.ref) :
    Spares cfg s u := by
  rintro ref passes ⟨i, d, found, rfl⟩
  rcases new i d found with older | empty | blocked
  · exact first _ passes older
  · exact absurd empty passes.ne_empty
  · exact absurd passes blocked

theorem Spares.register (spares : Spares cfg s t) (ref : String) (c : Container) :
    Spares cfg s (t.register ref c) := by
  refine spares_of_new spares fun i d found => .inl ⟨i, d, ?_, rfl⟩
  rwa [get?_register] at found

theorem Spares.push (spares : Spares cfg s t) {d : Descriptor} (unowned : d.ref = "") :
    Spares cfg s (t.push d).2 := by
  refine spares_of_new spares fun i e found => ?_
  rw [Store.get?_push] at found
  split at found
  · cases found
    exact .inr (.inl unowned)
  · exact .inl ⟨i, e, found, rfl⟩

theorem Spares.setShape (spares : Spares cfg s t) (id : Id) (shape : Shape) :
    Spares cfg s (t.setShape id shape) := by
  refine spares_of_new spares fun i d found => .inl ?_
  obtain ⟨e, older, _, ref, _⟩ := get?_of_setShape found
  exact ⟨i, e, older, ref⟩

theorem Spares.touches {u : Store} (spares : Spares cfg s t) {id : Id} (touches : Touches id t u) :
    Spares cfg s u := by
  cases touches with
  | nothing => exact spares
  | shape shape => exact spares.setShape id shape
  | any shape => exact (spares.push (d := anyDescriptor) rfl).setShape id shape

theorem Quiet.spares (quiet : Quiet s t) : Spares cfg s t := by
  rintro ref _ ⟨i, d, found, same⟩
  refine ⟨i, d, ?_, same⟩
  simpa only [Store.get?, quiet.descriptors] using found

theorem Spares.claimed (spares : Spares cfg s t) {d : Descriptor} {nullable : Bool}
    (blocked : d.ref ≠ "" → ¬ Passes cfg s.names d.ref) : Spares cfg s (claimed d nullable t) := by
  refine spares_of_new spares fun i e found => ?_
  rcases get?_of_claimed found with older | ⟨_, rfl⟩ | ⟨_, _, rfl⟩
  · exact .inl ⟨i, e, older, rfl⟩
  · by_cases empty : d.ref = ""
    · exact .inr (.inl empty)
    · exact .inr (.inr (blocked empty))
  · exact .inr (.inl rfl)

structure Entitled (cfg : Setting) (f : Fragment) (o : Options) (s : Store) : Prop where
  named : o.name ≠ ""
  owned : o.ref ≠ ""
  held : s.names.lookup? o.ref = some o.name
  kept : cfg.overrides.lookup o.name = none
  absent : o.ref ∉ s.known
  same : ∃ g, cfg.resolver.fragment o.ref = .ok g ∧ g.isRef = f.isRef

/-- A fragment is converted without a name and a reference, or under both. -/
def Admitted (cfg : Setting) (f : Fragment) (o : Options) (s : Store) : Prop :=
  o.name = "" ∧ o.ref = "" ∨ Entitled cfg f o s

theorem Admitted.entitled {f : Fragment} {o : Options} (admitted : Admitted cfg f o s)
    (owned : o.ref ≠ "" ∨ o.name ≠ "") : Entitled cfg f o s := by
  rcases admitted with ⟨unnamed, unowned⟩ | entitled
  · rcases owned with owned | named
    · exact absurd unowned owned
    · exact absurd unnamed named
  · exact entitled

theorem Entitled.passes {f : Fragment} {o : Options} (entitled : Entitled cfg f o s)
    (isRef : f.isRef = true) : Passes cfg s.names o.ref := by
  obtain ⟨g, resolved, same⟩ := entitled.same
  exact ⟨⟨g, resolved, same.trans isRef⟩, o.name, entitled.held, entitled.kept⟩

theorem Entitled.not_passes {f : Fragment} {o : Options} (entitled : Entitled cfg f o s)
    (isRef : f.isRef = false) : ¬ Passes cfg s.names o.ref := by
  intro passes
  obtain ⟨g, resolved, same⟩ := entitled.same
  obtain ⟨h, other, leads⟩ := passes.leads
  rw [resolved] at other
  cases other
  rw [same, isRef] at leads
  cases leads

theorem Entitled.union {f : Fragment} {o : Options} (entitled : Entitled cfg f o s)
    (isRef : f.isRef = false) (nullable : Bool) : Entitled cfg (typesUnion (stripped f) nullable) o s := by
  obtain ⟨g, resolved, same⟩ := entitled.same
  refine { entitled with same := ⟨g, resolved, same.trans ?_⟩ }
  rw [isRef]
  rfl

theorem Tidy.enter (tidy : Tidy s) {ref name : String} {f : Fragment} {names : Registry}
    (absent : s.lookup? (Reference.normalize ref) = none)
    (resolved : cfg.resolver.fragment (Reference.normalize ref) = .ok f)
    (given : s.names.claim (Reference.normalize ref)
      (Naming.modelName (Reference.parse (Reference.normalize ref)).lastSegment) = (name, names))
    (kept : cfg.overrides.lookup name = none) :
    Entitled cfg f { name, ref := Reference.normalize ref, base := Reference.normalize ref }
      { s with names } := by
  have owned := normalize_ne_empty ref
  have named := Registry.claim_ne_empty tidy.named (Reference.normalize ref)
    (Naming.modelName_ne_empty (Reference.parse (Reference.normalize ref)).lastSegment)
  have held := s.names.lookup?_claim
    (Naming.modelName (Reference.parse (Reference.normalize ref)).lastSegment) owned
  rw [given] at named held
  have unknown : Reference.normalize ref ∉ s.known := by
    rw [Store.mem_known, absent]
    simp
  exact ⟨named, owned, held, kept, unknown, f, resolved, rfl⟩

def Tidies (cfg : Setting) : Converts := fun f o s c t =>
  Grows s t ∧ (Tidy s → Admitted cfg f o s →
    Tidy t ∧ Spares cfg s t ∧ (o.ref ≠ "" → (o.ref, c) ∈ t.index))

theorem opening_kind (kind : Kind) (f : Fragment) (o : Options) : (opening kind f o).kind = kind := by
  cases kind <;> rfl

theorem opening_name (kind : Kind) (f : Fragment) (o : Options) :
    (opening kind f o).name = o.name ∨ (opening kind f o).name = "" ∧ kind = .external := by
  cases kind <;> simp [opening, blank, externalDescriptor]

theorem opening_bare {kind : Kind} {f : Fragment} {o : Options} (bare : (opening kind f o).Bare) :
    (opening kind f o).shape.Bare := by
  rw [Descriptor.Bare, opening_kind] at bare
  rcases bare with rfl | rfl <;> trivial

theorem opening_named {kind : Kind} {f : Fragment} {o : Options} (named : (opening kind f o).name ≠ "") :
    (opening kind f o).name = o.name := by
  rcases opening_name kind f o with same | ⟨empty, _⟩
  · exact same
  · exact absurd empty named

theorem Titled.issued {kind : Kind} {f : Fragment} {o : Options} {name : String} {start : Store}
    (titled : Titled kind o s start name) (admitted : Admitted cfg f o s) (quiet : Quiet s start)
    (named : name ≠ "") : (name, o.ref) ∈ start.names.issued := by
  cases titled with
  | own =>
    have held := (admitted.entitled (.inr named)).held
    exact quiet.names.issued.subset (Registry.mem_issued_of_lookup? held)
  | new _ unnamed _ issued _ =>
    rcases admitted with ⟨_, unowned⟩ | entitled
    · rwa [unowned]
    · exact absurd unnamed entitled.named

theorem Titled.unused {kind : Kind} {f : Fragment} {o : Options} {name : String} {start : Store}
    (titled : Titled kind o s start name) (tidy : Tidy s) (admitted : Admitted cfg f o s)
    (named : name ≠ "") {i : Id} {d : Descriptor} (found : s.get? i = some d) : d.name ≠ name := by
  intro same
  have held := tidy.held i d found (same ▸ named)
  cases titled with
  | own =>
    -- the name belongs to one reference, and that is not known yet
    have entitled := admitted.entitled (.inr named)
    rw [same] at held
    have owner := tidy.distinct.owner_unique held (Registry.mem_issued_of_lookup? entitled.held)
    have known := tidy.known i d found (owner ▸ entitled.owned)
    exact entitled.absent (owner ▸ known)
  | new _ _ free _ _ => exact free (List.mem_map.mpr ⟨_, held, same⟩)

/-- A descriptor that is opened for a fragment leaves the store tidy. -/
theorem Tidy.opened (tidy : Tidy s) {kind : Kind} {f g : Fragment} {o : Options} {nullable : Bool}
    {name : String} {start : Store} (admitted : Admitted cfg f o s) (titled : Titled kind o s start name)
    (quiet : Quiet s start) : Tidy (Model.claimed (opening kind g { o with name }) nullable start) := by
  have ref : (opening kind g { o with name }).ref = o.ref := opening_ref _ _ _
  have get : ∀ i, start.get? i = s.get? i := fun i => by simp only [Store.get?, quiet.descriptors]
  refine (tidy.of_quiet quiet).claimed ?held ?new ?absent ?closed opening_bare ?owned
  case held =>
    intro named
    have own : (opening kind g { o with name }).name = name := opening_named named
    rw [own] at named ⊢
    rw [ref]
    exact titled.issued admitted quiet named
  case new =>
    intro named i e found
    have own : (opening kind g { o with name }).name = name := opening_named named
    rw [own] at named ⊢
    rw [get] at found
    exact titled.unused tidy admitted named found
  case absent =>
    intro owned
    rw [ref] at owned ⊢
    rw [Store.known, quiet.index]
    exact (admitted.entitled (.inl owned)).absent
  case closed =>
    intro owned
    rw [ref] at owned
    have named := (admitted.entitled (.inl owned)).named
    rcases opening_name kind g { o with name } with same | ⟨_, rfl⟩
    · refine .inl ?_
      rw [same]
      cases titled with
      | own => exact named
      | new _ unnamed _ _ _ => exact absurd unnamed named
    · exact .inr (.inl rfl)
  case owned =>
    intro owned
    rw [ref] at owned ⊢
    exact ⟨o.name, quiet.names.kept _ _ (admitted.entitled (.inl owned)).held⟩

def Standing (id : Id) (kind : Kind) (s : Store) : Prop :=
  ∃ d, s.get? id = some d ∧ d.kind = kind

theorem Standing.grows {id : Id} {kind : Kind} (standing : Standing id kind s) (grows : Grows s t) :
    Standing id kind t := by
  obtain ⟨d, found, same⟩ := standing
  exact ⟨d, by rw [grows.kept id (Store.get?_lt found), found], same⟩

theorem Standing.setShape {id place : Id} {kind : Kind} (standing : Standing id kind s) (shape : Shape) :
    Standing id kind (s.setShape place shape) := by
  obtain ⟨d, found, same⟩ := standing
  unfold Standing
  rw [Store.get?_setShape, found]
  split
  · exact ⟨_, rfl, same⟩
  · exact ⟨d, rfl, same⟩

theorem Standing.touches {id place : Id} {kind : Kind} (standing : Standing id kind s)
    (touches : Touches place s t) : Standing id kind t := by
  cases touches with
  | nothing => exact standing
  | shape shape => exact standing.setShape shape
  | any shape => exact (standing.grows ((Grows.refl s).push _)).setShape shape

theorem Tidy.told (tidy : Tidy s) {id : Id} {kind : Kind} (standing : Standing id kind s)
    (touches : Touches id s t) (idle : kind = .external ∨ kind = .null → t = s) : Tidy t := by
  by_cases bare : kind = .external ∨ kind = .null
  · rw [idle bare]
    exact tidy
  · refine tidy.touches ?_ touches
    obtain ⟨d, found, rfl⟩ := standing
    intro e other
    rw [found] at other
    cases other
    exact bare

theorem Tidies.built {kind : Kind} {f g : Fragment} {o : Options} {nullable : Bool} {c : Container}
    (built : Built cfg (Tidies cfg) kind g o nullable s c t) (isRef : f.isRef = false)
    (tidy : Tidy s) (admitted : Admitted cfg f o s) :
    Tidy t ∧ Spares cfg s t ∧ (o.ref ≠ "" → (o.ref, c) ∈ t.index) := by
  obtain @⟨name, gs, cs, start, t, titled, quiet, _, each⟩ := built
  have ref : (opening kind g { o with name }).ref = o.ref := opening_ref _ _ _
  have opened : Spares cfg s (claimed (opening kind g { o with name }) nullable start) := by
    refine quiet.spares.claimed ?_
    rw [ref]
    exact fun owned => (admitted.entitled (.inl owned)).not_passes isRef
  have standing : Standing start.descriptors.size kind
      (claimed (opening kind g { o with name }) nullable start) :=
    ⟨_, get?_claimed _ _ _, opening_kind _ _ _⟩
  -- what holds between the fragments inside; they have no names and references of their own
  have inside := each.keeps
    (fun t => Tidy t ∧ Spares cfg s t ∧ Standing start.descriptors.size kind t ∧ Grows s t ∧
      (o.ref ≠ "" → (o.ref, claimedContainer nullable start) ∈ t.index))
    (by
      rintro h hint m c' t ⟨grows, tidies⟩ ⟨tidy, spares, standing, grown, listed⟩
      obtain ⟨after, spared, _⟩ := tidies tidy (.inl ⟨rfl, rfl⟩)
      exact ⟨after, spares.trans grown spared, standing.grows grows, grown.trans grows,
        fun owned => grows.log.subset (listed owned)⟩)
    (by
      rintro cs m ⟨tidy, spares, standing, grown, listed⟩
      have touches := noted_touches kind g start.descriptors.size cs m
      refine ⟨tidy.told standing touches ?_, spares.touches touches, standing.touches touches,
        grown.touches (by rw [quiet.descriptors]) touches, ?_⟩
      · rintro (rfl | rfl) <;> rfl
      · rw [touches.index]
        exact listed)
    (by
      refine ⟨tidy.opened admitted titled quiet, opened, standing, quiet.grows.trans (grows_claimed _ _ _), ?_⟩
      intro owned
      rw [index_claimed, ref, if_neg owned]
      exact List.mem_cons_self)
  obtain ⟨tidy, spares, standing, _, listed⟩ := inside
  have touches := finished_touches kind g start.descriptors.size cs t
  refine ⟨tidy.told standing touches ?_, spares.touches touches, ?_⟩
  · rintro (rfl | rfl) <;> rfl
  · rw [touches.index]
    exact listed

theorem Tidies.finds {ref : String} {c : Container} (finds : Finds cfg (Tidies cfg) ref s c t)
    (tidy : Tidy s) :
    Tidy t ∧ Spares cfg s t ∧ (Reference.normalize ref, c) ∈ t.index := by
  have owned := normalize_ne_empty ref
  have unknown : s.lookup? (Reference.normalize ref) = none → Reference.normalize ref ∉ s.known := by
    intro absent known
    rw [Store.mem_known, absent] at known
    cases known
  cases finds with
  | known found => exact ⟨tidy, .refl cfg s, Json.mem_of_lookup found⟩
  | @replaced f name other names absent resolved given overridden =>
    have quiet := quiet_claim given
    have held := s.names.lookup?_claim
      (Naming.modelName (Reference.parse (Reference.normalize ref)).lastSegment) owned
    rw [given] at held
    refine ⟨?_, ?_, ?_⟩
    · refine (tidy.of_quiet quiet).claimed ?_ ?_ ?_ ?_ ?_ ?_
      · exact fun named => absurd rfl named
      · exact fun named => absurd rfl named
      · exact fun _ => unknown absent
      · exact fun _ => .inr (.inl rfl)
      · exact fun _ => trivial
      · exact fun _ => ⟨name, held⟩
    · refine quiet.spares.claimed fun _ passes => ?_
      obtain ⟨own, mine, free⟩ := (passes.mono quiet.names).kept
      rw [show names.lookup? (Reference.normalize ref) = some own from mine] at held
      cases held
      rw [overridden] at free
      cases free
    · rw [index_claimed]
      change (_, _) ∈ if Reference.normalize ref = "" then _ else _
      rw [if_neg owned]
      exact List.mem_cons_self
  | @converted f name names c t absent resolved given kept inside =>
    have quiet := quiet_claim given
    obtain ⟨after, spares, listed⟩ := inside.2 (tidy.of_quiet quiet)
      (.inr (tidy.enter absent resolved given kept))
    exact ⟨after, quiet.spares.trans quiet.grows spares, listed owned⟩

theorem Tidy.sideBySide (tidy : Tidy t) (nullable : Bool) (cs : List Container) :
    Tidy (sideBySide nullable cs t).2 := by
  unfold Model.sideBySide
  split
  · exact tidy.push rfl rfl trivial
  · exact tidy

theorem tidies_step {f : Fragment} {o : Options} {c : Container}
    (step : Step cfg (Tidies cfg) f o s c t) : Tidies cfg f o s c t := by
  refine ⟨step.grows fun _ _ _ _ _ one => one.1, fun tidy admitted => ?_⟩
  cases step with
  | ref isRef found =>
    obtain ⟨after, spares, listed⟩ := Tidies.finds found tidy
    have grows := found.grows fun _ _ _ _ _ one => one.1
    refine ⟨after.register (after.listed _ _ listed) ?_ ?_, spares.register _ _, ?_⟩
    · intro owned i d stored same
      have entitled := admitted.entitled (.inl owned)
      obtain ⟨j, e, older, owner⟩ := spares o.ref (entitled.passes isRef) ⟨i, d, stored, same⟩
      exact entitled.absent (owner ▸ tidy.known j e older (owner ▸ owned))
    · intro owned
      exact ⟨o.name, grows.names.kept _ _ (admitted.entitled (.inl owned)).held⟩
    · intro owned
      rw [Store.index_register _ owned]
      exact List.mem_cons_self
  | union isRef multi named inside =>
    exact inside.2 tidy (.inr ((admitted.entitled (.inr named)).union isRef _))
  | types isRef multi unnamed each =>
    have unowned : o.ref = "" := by
      by_contra owned
      exact (admitted.entitled (.inl owned)).named unnamed
    have inside := each.keeps (fun t => Tidy t ∧ Spares cfg s t ∧ Grows s t)
      (by
        rintro h hint m c' t ⟨grows, tidies⟩ ⟨tidy, spares, grown⟩
        obtain ⟨after, spared, _⟩ := tidies tidy (.inl ⟨rfl, rfl⟩)
        exact ⟨after, spares.trans grown spared, grown.trans grows⟩)
      (fun _ _ kept => kept) ⟨tidy, .refl cfg s, .refl s⟩
    obtain ⟨after, spares, _⟩ := inside
    rw [unowned, Store.register_empty]
    refine ⟨after.sideBySide _ _, ?_, fun owned => absurd rfl owned⟩
    unfold sideBySide
    split
    · exact spares.push rfl
    · exact spares
  | node isRef single written built => exact Tidies.built built isRef tidy admitted

/-- A request in a tidy store leaves a tidy store, in which its container is found. -/
theorem findOrCreate_tidy {ref : String} {c : Container} (run : Returns (findOrCreate cfg ref) s c t)
    (tidy : Tidy s) : Tidy t ∧ Grows s t ∧ (Reference.normalize ref, c) ∈ t.index := by
  have finds := findOrCreate_keeps (P := Tidies cfg) (fun _ _ _ _ _ => tidies_step) run
  obtain ⟨after, _, listed⟩ := Tidies.finds finds tidy
  exact ⟨after, finds.grows fun _ _ _ _ _ one => one.1, listed⟩

theorem Tidy.nameOf_inj (tidy : Tidy s) {i j : Id} (named : HasName s i)
    (same : nameOf s i = nameOf s j) : i = j := by
  obtain ⟨e, other, _⟩ := hasName_of_nameOf (same ▸ named.nameOf)
  obtain ⟨d, stored, filled⟩ := named
  exact tidy.unique i j d e stored other filled (by simpa [nameOf, stored, other] using same)

end

end Typesmith.Model
