import Typesmith.Proofs.Nullability
import Typesmith.Proofs.Unfolding

namespace Typesmith.Model

abbrev Portrait := Fragment → Descriptor → Prop

/-- What a fragment says holds of its descriptor when it is stored, and nothing later changes it. -/
structure Portrays (cfg : Setting) (tells : Portrait) : Prop where
  shapeless : ∀ f d shape, tells f d → tells f { d with shape }
  opened : ∀ f o raw, isMultiType (stripped f) = false → (stripped f).toJson? = some raw →
    tells f { opening (kindOf cfg raw) (stripped f) o with nullable := keepsNull f }
  union : ∀ f d, isMultiType (stripped f) = true → tells (typesUnion (stripped f) (keepsNull f)) d →
    tells f d
  replaced : ∀ f o name other, cfg.overrides.lookup name = some other →
    tells f { externalDescriptor f o other with nullable := false }

def Headed (P : Descriptor → Prop) (s : Store) (c : Container) : Prop :=
  ∃ id rest, c = id :: rest ∧ ∃ d, s.get? id = some d ∧ P d

def Announced (cfg : Setting) (tells : Portrait) (ref : String) (s : Store) (c : Container) : Prop :=
  ∃ g, cfg.resolver.fragment ref = .ok g ∧ (g.isRef = false → Headed (tells g) s c)

def AllAnnounced (cfg : Setting) (tells : Portrait) (s : Store) : Prop :=
  ∀ ref c, (ref, c) ∈ s.index → Announced cfg tells ref s c

/-- A fragment that is converted for a reference says what the one says that the reference leads to. -/
structure StandsFor (cfg : Setting) (tells : Portrait) (f : Fragment) (o : Options) : Prop where
  named : o.ref ≠ "" → o.name ≠ ""
  like : o.ref ≠ "" → ∃ g, cfg.resolver.fragment o.ref = .ok g ∧
    (g.isRef = false → f.isRef = false ∧ ∀ d, tells f d → tells g d)

/-- What a conversion makes starts as its fragment says, and so does all that is known. -/
def Announces (cfg : Setting) (tells : Portrait) : Converts := fun f o s c t =>
  s.names.Named → StandsFor cfg tells f o → AllAnnounced cfg tells s → AllAnnounced cfg tells t ∧
    (f.isRef = false → o.name ≠ "" → Headed (tells f) t c)

section

variable {cfg : Setting} {tells : Portrait} {P Q : Descriptor → Prop} {s t : Store} {c : Container}
  {f : Fragment} {o : Options}

theorem Headed.imp (headed : Headed P s c) (implies : ∀ d, P d → Q d) : Headed Q s c := by
  obtain ⟨id, rest, rfl, d, found, holds⟩ := headed
  exact ⟨id, rest, rfl, d, found, implies d holds⟩

theorem Headed.grows (headed : Headed P s c) (grows : Grows s t) : Headed P t c := by
  obtain ⟨id, rest, rfl, d, found, holds⟩ := headed
  exact ⟨id, rest, rfl, d, by rw [grows.kept id (Store.get?_lt found), found], holds⟩

theorem Headed.setShape (headed : Headed P s c) (shapeless : ∀ d shape, P d → P { d with shape })
    (place : Id) (shape : Shape) : Headed P (s.setShape place shape) c := by
  obtain ⟨id, rest, rfl, d, found, holds⟩ := headed
  refine ⟨id, rest, rfl, ?_⟩
  rw [Store.get?_setShape, found]
  split
  · exact ⟨_, rfl, shapeless d shape holds⟩
  · exact ⟨d, rfl, holds⟩

theorem Headed.touches (headed : Headed P s c) (shapeless : ∀ d shape, P d → P { d with shape })
    {place : Id} (touches : Touches place s t) : Headed P t c := by
  cases touches with
  | nothing => exact headed
  | shape shape => exact headed.setShape shapeless place shape
  | any shape => exact (headed.grows ((Grows.refl s).push _)).setShape shapeless place shape

theorem Announced.grows {ref : String} (announced : Announced cfg tells ref s c) (grows : Grows s t) :
    Announced cfg tells ref t c := by
  obtain ⟨g, resolved, headed⟩ := announced
  exact ⟨g, resolved, fun isRef => (headed isRef).grows grows⟩

theorem allAnnounced_fresh : AllAnnounced cfg tells {} := by
  intro ref c inside
  cases inside

theorem AllAnnounced.of_index (all : AllAnnounced cfg tells s) (same : t.index = s.index)
    (grows : Grows s t) : AllAnnounced cfg tells t := by
  intro ref c inside
  rw [same] at inside
  exact (all ref c inside).grows grows

theorem AllAnnounced.of_quiet (all : AllAnnounced cfg tells s) (quiet : Quiet s t) :
    AllAnnounced cfg tells t :=
  all.of_index quiet.index quiet.grows

theorem AllAnnounced.touches (all : AllAnnounced cfg tells s) (portrays : Portrays cfg tells) {id : Id}
    (touches : Touches id s t) : AllAnnounced cfg tells t := by
  intro ref c inside
  rw [touches.index] at inside
  obtain ⟨g, resolved, headed⟩ := all ref c inside
  exact ⟨g, resolved, fun isRef => (headed isRef).touches (portrays.shapeless g) touches⟩

theorem AllAnnounced.register (all : AllAnnounced cfg tells s) {ref : String}
    (own : ref ≠ "" → Announced cfg tells ref s c) : AllAnnounced cfg tells (s.register ref c) := by
  have grows : Grows s (s.register ref c) := (Grows.refl s).register ref c
  by_cases unowned : ref = ""
  · rwa [unowned, Store.register_empty]
  · intro other c' inside
    rw [Store.index_register c unowned] at inside
    rcases List.mem_cons.mp inside with same | older
    · cases same
      exact (own unowned).grows grows
    · exact (all other c' older).grows grows

theorem headed_claimed {d : Descriptor} {nullable : Bool} (holds : P { d with nullable }) (s : Store) :
    Headed P (claimed d nullable s) (claimedContainer nullable s) := by
  cases nullable with
  | false => exact ⟨_, _, rfl, _, get?_claimed _ _ _, holds⟩
  | true => exact ⟨_, _, rfl, _, get?_claimed _ _ _, holds⟩

theorem AllAnnounced.claimed (all : AllAnnounced cfg tells s) {d : Descriptor} {nullable : Bool}
    (own : d.ref ≠ "" → Announced cfg tells d.ref (claimed d nullable s) (claimedContainer nullable s)) :
    AllAnnounced cfg tells (claimed d nullable s) := by
  intro ref c inside
  have older (listed : (ref, c) ∈ s.index) : Announced cfg tells ref (Model.claimed d nullable s) c :=
    (all ref c listed).grows (grows_claimed _ _ _)
  rw [index_claimed] at inside
  split at inside
  · exact older inside
  · rename_i owned
    rcases List.mem_cons.mp inside with same | listed
    · cases same
      exact own owned
    · exact older listed

theorem standsFor_inside (cfg : Setting) (tells : Portrait) (f : Fragment) (hint base : String) :
    StandsFor cfg tells f { suggested := hint, base } :=
  ⟨fun owned => absurd rfl owned, fun owned => absurd rfl owned⟩

theorem Announces.each (portrays : Portrays cfg tells) {base : String}
    {note : List Container → Store → Store} {gs : List Fragment} {cs out : List Container} {id : Id}
    (each : Each (fun f o s c t => Grows s t ∧ Announces cfg tells f o s c t) base note gs cs s out t)
    (told : ∀ cs s, Touches id s (note cs s)) (named : s.names.Named) (all : AllAnnounced cfg tells s) :
    AllAnnounced cfg tells t := by
  have inside := each.keeps (fun s => s.names.Named ∧ AllAnnounced cfg tells s)
    (fun g hint s c t one before => by
      obtain ⟨grows, announces⟩ := one
      exact ⟨grows.names.named before.1,
        (announces before.1 (standsFor_inside cfg tells g hint base) before.2).1⟩)
    (fun cs s before => ⟨(told cs s).later.names.named before.1, before.2.touches portrays (told cs s)⟩)
    ⟨named, all⟩
  exact inside.2

theorem Announces.finds (portrays : Portrays cfg tells) {ref : String}
    (finds : Finds cfg (fun f o s c t => Grows s t ∧ Announces cfg tells f o s c t) ref s c t)
    (named : s.names.Named) (all : AllAnnounced cfg tells s) :
    AllAnnounced cfg tells t ∧ Announced cfg tells (Reference.normalize ref) t c := by
  cases finds with
  | known found => exact ⟨all, all _ c (Json.mem_of_lookup found)⟩
  | @replaced f name other names absent resolved given overridden =>
    have before : AllAnnounced cfg tells { s with names } := all.of_quiet (quiet_claim given)
    have first := headed_claimed (P := tells f)
      (portrays.replaced f { ref := Reference.normalize ref } name other overridden) { s with names }
    have own : Announced cfg tells (Reference.normalize ref) _ _ := ⟨f, resolved, fun _ => first⟩
    exact ⟨before.claimed fun _ => own, own⟩
  | @converted f name names _ _ absent resolved given kept inside =>
    obtain ⟨grows, announces⟩ := inside
    have quiet := quiet_claim given
    have filled := Registry.claim_ne_empty named (Reference.normalize ref)
      (Naming.modelName_ne_empty (Reference.parse (Reference.normalize ref)).lastSegment)
    rw [given] at filled
    have stands : StandsFor cfg tells f
        { name, ref := Reference.normalize ref, base := Reference.normalize ref } :=
      ⟨fun _ => filled, fun _ => ⟨f, resolved, fun isRef => ⟨isRef, fun _ => id⟩⟩⟩
    obtain ⟨after, headed⟩ := announces (quiet.names.named named) stands (all.of_quiet quiet)
    exact ⟨after, f, resolved, fun isRef => headed isRef filled⟩

/-- A descriptor that is opened for a fragment says what the fragment does, whatever is converted inside it. -/
theorem Announces.built (portrays : Portrays cfg tells) {raw : Json}
    (single : isMultiType (stripped f) = false) (written : (stripped f).toJson? = some raw)
    (built : Built cfg (fun f o s c t => Grows s t ∧ Announces cfg tells f o s c t) (kindOf cfg raw)
      (stripped f) o (keepsNull f) s c t) : Announces cfg tells f o s c t := by
  intro named stands all
  obtain @⟨name, gs, cs, start, last, titled, quiet, _, each⟩ := built
  have first := headed_claimed (P := tells f) (portrays.opened f { o with name } raw single written) start
  have announced : AllAnnounced cfg tells
      (claimed (opening (kindOf cfg raw) (stripped f) { o with name }) (keepsNull f) start) := by
    refine (all.of_quiet quiet).claimed fun owned => ?_
    rw [opening_ref] at owned ⊢
    obtain ⟨g, resolved, like⟩ := stands.like owned
    exact ⟨g, resolved, fun whole => first.imp (like whole).2⟩
  have inside := Announces.each portrays each (fun cs s => noted_touches _ _ _ cs s)
    (by rw [names_claimed]; exact quiet.names.named named) announced
  have kept := each.keeps (fun s => Headed (tells f) s (claimedContainer (keepsNull f) start))
    (fun _ _ _ _ _ one before => before.grows one.1)
    (fun cs s before => before.touches (portrays.shapeless f) (noted_touches _ _ _ cs s)) first
  have touches := finished_touches (kindOf cfg raw) (stripped f) start.descriptors.size cs last
  exact ⟨inside.touches portrays touches, fun _ _ => kept.touches (portrays.shapeless f) touches⟩

theorem announces_step (portrays : Portrays cfg tells)
    (step : Step cfg (fun f o s c t => Grows s t ∧ Announces cfg tells f o s c t) f o s c t) :
    Announces cfg tells f o s c t := by
  intro named stands all
  cases step with
  | ref isRef found =>
    obtain ⟨after, _⟩ := Announces.finds portrays found named all
    have apart (whole : f.isRef = false) : False := Bool.false_ne_true (whole.symm.trans isRef)
    refine ⟨after.register fun owned => ?_, fun whole => (apart whole).elim⟩
    obtain ⟨g, resolved, like⟩ := stands.like owned
    exact ⟨g, resolved, fun whole => (apart (like whole).1).elim⟩
  | union isRef several _ inside =>
    have stands' : StandsFor cfg tells (typesUnion (stripped f) (keepsNull f)) o := by
      refine ⟨stands.named, fun owned => ?_⟩
      obtain ⟨g, resolved, like⟩ := stands.like owned
      exact ⟨g, resolved, fun whole => ⟨rfl, fun d union => (like whole).2 d (portrays.union f d several union)⟩⟩
    obtain ⟨after, headed⟩ := inside.2 named stands' all
    exact ⟨after, fun _ filled => (headed rfl filled).imp fun d => portrays.union f d several⟩
  | @types _ _ _ t cs isRef several unnamed each =>
    have unowned : o.ref = "" := by
      by_contra owned
      exact stands.named owned unnamed
    rw [unowned, Store.register_empty]
    have inside := Announces.each portrays each (fun _ t => (Touches.nothing : Touches 0 t t)) named all
    refine ⟨?_, fun _ filled => absurd unnamed filled⟩
    refine inside.of_index ?_ (grows_sideBySide _ _ _)
    unfold sideBySide
    split <;> rfl
  | node _ single written built => exact Announces.built portrays single written built named stands all

theorem Portrays.findOrCreate (portrays : Portrays cfg tells) {ref : String}
    (run : Returns (findOrCreate cfg ref) s c t) (named : s.names.Named) (all : AllAnnounced cfg tells s) :
    AllAnnounced cfg tells t ∧ Announced cfg tells (Reference.normalize ref) t c := by
  obtain ⟨depth, run⟩ := returns_deepening run
  refine Announces.finds portrays (finds_of_findOrCreateWith ?_ run) named all
  intro f o s c t inside
  refine ⟨convertDepth_grows inside, ?_⟩
  exact convertDepth_keeps_also (fun _ _ _ _ _ _ => convertDepth_grows)
    (fun _ _ _ _ _ _ step => announces_step portrays step) inside

theorem Portrays.requests (portrays : Portrays cfg tells) (requests : Requests cfg {} s) :
    AllAnnounced cfg tells s := by
  induction requests with
  | none => exact allAnnounced_fresh
  | more before last ih => exact (portrays.findOrCreate last before.unfold.1.named ih).1

end

def headKind (f : Fragment) : Kind :=
  if isMultiType (stripped f) then .someOf else (Features.ofFragment (stripped f)).kind

def OfHeadKind : Portrait := fun f d =>
  WellKept f.keywords → d.kind = headKind f

def MarksNull : Portrait := fun f d =>
  d.name ≠ "" → d.nullable = keepsNull f

section

variable {cfg : Setting} {s t : Store} {c : Container} {f : Fragment}

theorem stripped_typesUnion (f : Fragment) (nullable : Bool) :
    stripped (typesUnion f nullable) = typesUnion f false := by
  cases nullable <;> rfl

theorem headKind_union (several : isMultiType f = true) (nullable : Bool) :
    headKind (typesUnion f nullable) = .someOf := by
  have branches : typeBranches f ≠ [] := by
    simp only [isMultiType, Bool.and_eq_true, decide_eq_true_eq] at several
    intro none
    rw [typeBranches, List.map_eq_nil_iff] at none
    simp [none] at several
  have single : isMultiType (typesUnion f false) = false := rfl
  have generic : (Features.ofFragment (typesUnion f false)).generic = false := rfl
  have combined : (Features.ofFragment (typesUnion f false)).combined = true := by
    simpa [Features.ofFragment, isSome_combinator, typesUnion] using branches
  rw [headKind, stripped_typesUnion, single]
  simp [Features.kind, generic, combined]

theorem portrays_headKind (rules : cfg.rules = Rule.defaults) (plain : cfg.overrides = []) :
    Portrays cfg OfHeadKind where
  shapeless _ _ _ tells := tells
  opened f o raw single written kept := by
    rw [headKind, single, ← kindOf_features rules kept.stripped written]
    exact opening_kind _ _ _
  union f d several tells kept := by
    have unmarked : WellKept (typesUnion (stripped f) (keepsNull f)).keywords := by
      constructor <;> simp [typesUnion]
    rw [tells unmarked, headKind_union several, headKind, if_pos several]
  replaced _ _ _ _ overridden := by
    rw [plain] at overridden
    cases overridden

theorem portrays_null (cfg : Setting) : Portrays cfg MarksNull where
  shapeless _ _ _ tells := tells
  opened _ _ _ _ _ _ := rfl
  union f d _ tells named := by
    rw [tells named]
    cases keepsNull f <;> rfl
  replaced _ _ _ _ _ named := absurd rfl named

/-- A request answers with the kind of the fragment that its reference leads to in front, and what is
known afterwards starts so too. -/
theorem findOrCreate_headed (rules : cfg.rules = Rule.defaults) (plain : cfg.overrides = []) {ref : String}
    (run : Returns (findOrCreate cfg ref) s c t) (named : s.names.Named)
    (all : AllAnnounced cfg OfHeadKind s) :
    AllAnnounced cfg OfHeadKind t ∧ ∃ g, cfg.resolver.fragment (Reference.normalize ref) = .ok g ∧
      (g.isRef = false → WellKept g.keywords → ∃ id rest, c = id :: rest ∧ Standing id (headKind g) t) := by
  obtain ⟨after, g, resolved, headed⟩ := (portrays_headKind rules plain).findOrCreate run named all
  refine ⟨after, g, resolved, fun isRef kept => ?_⟩
  obtain ⟨id, rest, rfl, d, found, kind⟩ := headed isRef
  exact ⟨id, rest, rfl, d, found, kind kept⟩

theorem Requests.announced (rules : cfg.rules = Rule.defaults) (plain : cfg.overrides = [])
    (requests : Requests cfg {} s) : AllAnnounced cfg OfHeadKind s :=
  (portrays_headKind rules plain).requests requests

end

end Typesmith.Model
