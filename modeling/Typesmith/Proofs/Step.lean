import Mathlib.Data.List.Forall2
import Typesmith.Proofs.Execution
import Typesmith.Proofs.Names

namespace Typesmith.Model

abbrev Converts := Fragment → Options → Store → Container → Store → Prop

def keepsNull (f : Fragment) : Bool :=
  f.isNullable && !onlyNull f

/-- The fragment that is looked at once `null` has been put aside. -/
def stripped (f : Fragment) : Fragment :=
  if keepsNull f then withoutNull f else f

/-- The fragment that stands for one with several types under its name. -/
def typesUnion (f : Fragment) (nullable : Bool) : Fragment :=
  { keywords := { title := f.keywords.title, description := f.keywords.description, nullable },
    anyOf := typeBranches f }

def genericJson (f : Fragment) : Json :=
  (f.keywords.extensions.lookup genericKeyword).getD .null

def caseKeys (f : Fragment) : List String :=
  caseOrder ((genericJson f).getD "order") ((genericJson f).fieldsAt "cases")

def caseJson (f : Fragment) (key : String) : Json :=
  (((genericJson f).fieldsAt "cases").lookup key).getD .null

def extraFragments (f : Fragment) : List Fragment :=
  match f.additionalProperties with
  | some (.described g) => [g]
  | _ => []

/-- The fragments that are converted inside a fragment of a kind, in order. -/
inductive Inner (cfg : Setting) (base : String) : Kind → Fragment → List Fragment → Prop
  | object {f : Fragment} : Inner cfg base .object f (f.properties.map (·.2) ++ extraFragments f)
  | array {f : Fragment} : Inner cfg base .array f f.itemFragments
  | allOf {f merged : Fragment} {members : List Fragment} {depth : Nat} {p : Pieces}
      (combined : f.combinator? = some (.allOf, members))
      (gathered : gather cfg depth members base = .ok p)
      (joined : Fragment.merge? (p.found ++ [untitled f.commonPart]) = some merged) :
      Inner cfg base .someOf f [untitled merged]
  | alternatives {f : Fragment} {c : Fragment.Combinator} {members branches : List Fragment}
      (combined : f.combinator? = some (c, members)) (separate : c ≠ .allOf)
      (chosen : (members.mapM fun member => alternative cfg f.commonPart member base) = .ok branches) :
      Inner cfg base .someOf f branches
  | generic {f : Fragment} {cases : List Fragment}
      (decoded : ((caseKeys f).mapM fun key => Fragment.decode? (caseJson f key)) = some cases) :
      Inner cfg base .generic f cases
  | leaf {kind : Kind} {f : Fragment} (object : kind ≠ .object) (array : kind ≠ .array)
      (someOf : kind ≠ .someOf) (generic : kind ≠ .generic) : Inner cfg base kind f []

namespace Inner

variable {cfg : Setting} {base : String} {f : Fragment} {gs : List Fragment}

theorem of_object (inner : Inner cfg base .object f gs) :
    gs = f.properties.map (·.2) ++ extraFragments f := by
  cases inner with
  | object => rfl
  | leaf object => exact absurd rfl object

theorem of_array (inner : Inner cfg base .array f gs) : gs = f.itemFragments := by
  cases inner with
  | array => rfl
  | leaf _ array => exact absurd rfl array

theorem of_generic (inner : Inner cfg base .generic f gs) :
    ((caseKeys f).mapM fun key => Fragment.decode? (caseJson f key)) = some gs := by
  cases inner with
  | generic decoded => exact decoded
  | leaf _ _ _ generic => exact absurd rfl generic

theorem of_allOf {members : List Fragment} (inner : Inner cfg base .someOf f gs)
    (combined : f.combinator? = some (.allOf, members)) :
    ∃ depth p merged, gather cfg depth members base = .ok p ∧
      Fragment.merge? (p.found ++ [untitled f.commonPart]) = some merged ∧ gs = [untitled merged] := by
  cases inner with
  | allOf combined' gathered joined =>
    rw [combined] at combined'
    cases combined'
    exact ⟨_, _, _, gathered, joined, rfl⟩
  | alternatives combined' separate =>
    rw [combined] at combined'
    cases combined'
    exact absurd rfl separate
  | leaf _ _ someOf => exact absurd rfl someOf

theorem of_alternatives {c : Fragment.Combinator} {members : List Fragment}
    (inner : Inner cfg base .someOf f gs) (combined : f.combinator? = some (c, members))
    (separate : c ≠ .allOf) :
    (members.mapM fun member => alternative cfg f.commonPart member base) = .ok gs := by
  cases inner with
  | allOf combined' =>
    rw [combined] at combined'
    cases combined'
    exact absurd rfl separate
  | alternatives combined' _ chosen =>
    rw [combined] at combined'
    cases combined'
    exact chosen
  | leaf _ _ someOf => exact absurd rfl someOf

end Inner

/-- Nested fragments converted one after another, with a note taken after each of them. -/
inductive Each (R : Converts) (base : String) (note : List Container → Store → Store) :
    List Fragment → List Container → Store → List Container → Store → Prop
  | done {cs : List Container} {s : Store} : Each R base note [] cs s cs s
  | part {g : Fragment} {gs : List Fragment} {hint : String} {cs out : List Container}
      {c : Container} {s m t : Store} :
      R g { suggested := hint, base } s c m → Each R base note gs (cs ++ [c]) (note (cs ++ [c]) m) out t →
      Each R base note (g :: gs) cs s out t

def opening (kind : Kind) (f : Fragment) (o : Options) : Descriptor :=
  match kind with
  | .object => blank .object f o (.object [] false)
  | .array => blank .array f o (.array [])
  | .enum => blank .enum f o (.enum (enumMembers f))
  | .someOf => blank .someOf f o (.someOf ((f.combinator?.map (·.1)).getD .oneOf) [])
  | .generic =>
    blank .generic f o (.generic (parameterName (genericJson f)) ((caseKeys f).map fun k => (k, [])))
  | .external => externalDescriptor f o (externalName f)
  | kind => blank kind f o (.value (valueToken kind f))

def casesSoFar (f : Fragment) (cs : List Container) : List (String × Container) :=
  ((caseKeys f).take cs.length).zip cs ++ ((caseKeys f).drop cs.length).map fun k => (k, [])

/-- What a descriptor is told while the fragments inside it are converted. -/
def noted (kind : Kind) (f : Fragment) (id : Id) (cs : List Container) (s : Store) : Store :=
  match kind with
  | .array => s.setShape id (.array cs)
  | .someOf => s.setShape id (.someOf ((f.combinator?.map (·.1)).getD .oneOf) cs)
  | .generic => s.setShape id (.generic (parameterName (genericJson f)) (casesSoFar f cs))
  | _ => s

def listedProperty (f : Fragment) (p : String × Fragment) (types : Container) : Property :=
  { name := p.1, types, required := f.keywords.required.contains p.1,
    readOnly := p.2.keywords.readOnly, fragment := some p.2 }

def propertySet (f : Fragment) (cs : List Container) : List Property :=
  (f.properties.zip cs).map fun x => listedProperty f x.1 x.2

def anyDescriptor : Descriptor :=
  { kind := .any, shape := .value "any" }

def finished (kind : Kind) (f : Fragment) (id : Id) (cs : List Container) (s : Store) : Store :=
  match kind with
  | .object =>
    match f.additionalProperties with
    | some (.described _) =>
      s.setShape id (.object [propertySet f cs ++ [indexProperty (cs.getLastD [])]] false)
    | some .forbidden => s.setShape id (.object [propertySet f cs] f.properties.isEmpty)
    | _ =>
      if f.properties.isEmpty then
        (s.push anyDescriptor).2.setShape id (.object [[indexProperty [s.descriptors.size]]] false)
      else s.setShape id (.object [propertySet f cs] false)
  | _ => s

def claimedContainer (nullable : Bool) (s : Store) : Container :=
  if nullable then [s.descriptors.size, s.descriptors.size + 1] else [s.descriptors.size]

def claimed (d : Descriptor) (nullable : Bool) (s : Store) : Store :=
  let made := (s.push { d with nullable }).2
  (if nullable then (made.push nullDescriptor).2 else made).register d.ref (claimedContainer nullable s)

theorem claimedContainer_eq_cons (nullable : Bool) (s : Store) :
    claimedContainer nullable s = s.descriptors.size :: (claimedContainer nullable s).tail := by
  unfold claimedContainer
  split <;> rfl

theorem exec_claim (d : Descriptor) (nullable : Bool) (s : Store) :
    exec (claim d nullable) s =
      (.ok (s.descriptors.size, claimedContainer nullable s), claimed d nullable s) := by
  cases nullable
  · rfl
  · simp only [claim, exec_bind, exec_create, exec_register, exec_pure, claimed, claimedContainer,
      if_true, Store.push, Array.size_push]

theorem returns_claim {d : Descriptor} {nullable : Bool} {s t : Store} {r : Id × Container} :
    Returns (claim d nullable) s r t ↔
      r = (s.descriptors.size, claimedContainer nullable s) ∧ t = claimed d nullable s := by
  simp only [Returns, exec_claim, Prod.mk.injEq, Except.ok.injEq]
  constructor <;> rintro ⟨rfl, rfl⟩ <;> exact ⟨rfl, rfl⟩

/-- Nothing changed but lines for the curious; warnings and names may have been added. -/
structure Quiet (s t : Store) : Prop where
  descriptors : t.descriptors = s.descriptors
  index : t.index = s.index
  names : s.names.Extends t.names
  warnings : s.warnings <+: t.warnings

theorem Quiet.refl (s : Store) : Quiet s s :=
  ⟨rfl, rfl, .refl _, List.prefix_rfl⟩

theorem Quiet.trans {s t u : Store} (first : Quiet s t) (second : Quiet t u) : Quiet s u :=
  ⟨second.descriptors.trans first.descriptors, second.index.trans first.index,
    first.names.trans second.names, first.warnings.trans second.warnings⟩

theorem quiet_warn (s : Store) (code : Warning.Code) (ref message : String) :
    Quiet s (s.warn code ref message) :=
  ⟨rfl, rfl, .refl _, List.prefix_append _ _⟩

def HoistedName (name : String) : Prop :=
  ∃ hint, Registry.Derived (Naming.sanitize ("Enum" ++ hint)) name

/-- The name of a new descriptor is the one it is asked to have, or, for an enum without one, a name
that was not given out before. -/
inductive Titled (kind : Kind) (o : Options) (s start : Store) : String → Prop
  | own : Titled kind o s start o.name
  | new {name : String} (enum : kind = .enum) (unnamed : o.name = "")
      (free : name ∉ s.names.issued.map (·.1)) (issued : (name, "") ∈ start.names.issued)
      (hoisted : HoistedName name) :
      Titled kind o s start name

/-- A descriptor is stored first, the fragments inside it are converted, and then it is closed. -/
inductive Built (cfg : Setting) (R : Converts) (kind : Kind) (f : Fragment) (o : Options)
    (nullable : Bool) (s : Store) : Container → Store → Prop
  | intro {name : String} {gs : List Fragment} {cs : List Container} {start t : Store}
      (named : Titled kind o s start name) (quiet : Quiet s start)
      (inner : Inner cfg o.base kind f gs)
      (each : Each R o.base (noted kind f start.descriptors.size) gs []
        (claimed (opening kind f { o with name }) nullable start) cs t) :
      Built cfg R kind f o nullable s (claimedContainer nullable start)
        (finished kind f start.descriptors.size cs t)

/-- How the container of a reference is found: it is known, it is a type declared elsewhere, or the
fragment of the reference is converted. -/
inductive Finds (cfg : Setting) (R : Converts) (ref : String) (s : Store) : Container → Store → Prop
  | known {c : Container} (found : s.lookup? (Reference.normalize ref) = some c) :
      Finds cfg R ref s c s
  | replaced {f : Fragment} {name other : String} {names : Registry}
      (absent : s.lookup? (Reference.normalize ref) = none)
      (resolved : cfg.resolver.fragment (Reference.normalize ref) = .ok f)
      (given : s.names.claim (Reference.normalize ref)
        (Naming.modelName (Reference.parse (Reference.normalize ref)).lastSegment) = (name, names))
      (overridden : cfg.overrides.lookup name = some other) :
      Finds cfg R ref s (claimedContainer false s)
        (claimed (externalDescriptor f { ref := Reference.normalize ref } other) false
          { s with names })
  | converted {f : Fragment} {name : String} {names : Registry} {c : Container} {t : Store}
      (absent : s.lookup? (Reference.normalize ref) = none)
      (resolved : cfg.resolver.fragment (Reference.normalize ref) = .ok f)
      (given : s.names.claim (Reference.normalize ref)
        (Naming.modelName (Reference.parse (Reference.normalize ref)).lastSegment) = (name, names))
      (kept : cfg.overrides.lookup name = none)
      (inside : R f { name, ref := Reference.normalize ref, base := Reference.normalize ref }
        { s with names } c t) :
      Finds cfg R ref s c t

def kindOf (cfg : Setting) (raw : Json) : Kind :=
  (Rule.classify cfg.rules raw).1

def sideBySide (nullable : Bool) (cs : List Container) (s : Store) : Container × Store :=
  if nullable then (cs.flatten ++ [s.descriptors.size], (s.push nullDescriptor).2) else (cs.flatten, s)

/-- One layer of a conversion. -/
inductive Step (cfg : Setting) (R : Converts) : Converts
  | ref {f : Fragment} {o : Options} {s t : Store} {c : Container} (isRef : f.isRef = true)
      (found : Finds cfg R (Reference.qualify f.ref o.base) s c t) :
      Step cfg R f o s c (t.register o.ref c)
  | union {f : Fragment} {o : Options} {s t : Store} {c : Container} (isRef : f.isRef = false)
      (multi : isMultiType (stripped f) = true) (named : o.name ≠ "")
      (inside : R (typesUnion (stripped f) (keepsNull f)) o s c t) : Step cfg R f o s c t
  | types {f : Fragment} {o : Options} {s t : Store} {cs : List Container} (isRef : f.isRef = false)
      (multi : isMultiType (stripped f) = true) (unnamed : o.name = "")
      (each : Each R o.base (fun _ t => t) (typeBranches (stripped f)) [] s cs t) :
      Step cfg R f o s (sideBySide (keepsNull f) cs t).1
        ((sideBySide (keepsNull f) cs t).2.register o.ref (sideBySide (keepsNull f) cs t).1)
  | node {f : Fragment} {o : Options} {raw : Json} {s t : Store} {c : Container}
      (isRef : f.isRef = false) (single : isMultiType (stripped f) = false)
      (written : (stripped f).toJson? = some raw)
      (built : Built cfg R (kindOf cfg raw) (stripped f) o (keepsNull f) s c t) :
      Step cfg R f o s c t

section

variable {cfg : Setting} {conv : Converter} {R : Converts}

theorem each_of_mapM {ι α : Type} {one : ι → ConvertM α} {fragment : ι → Fragment}
    {types : α → Container} {base : String}
    (each : ∀ i s a t, Returns (one i) s a t →
      ∃ hint, R (fragment i) { suggested := hint, base } s (types a) t)
    {l : List ι} {r : List α} {s t : Store} {cs : List Container}
    (run : Returns (l.mapM one) s r t) :
    Each R base (fun _ t => t) (l.map fragment) cs s (cs ++ r.map types) t := by
  induction l generalizing r s cs with
  | nil =>
    obtain ⟨rfl, rfl⟩ := returns_pure.mp run
    simpa using Each.done
  | cons i l ih =>
    obtain ⟨a, m, rest, first, last, rfl⟩ := returns_mapM_cons.mp run
    obtain ⟨hint, inside⟩ := each i s a m first
    have tail : Each R base (fun _ t => t) (l.map fragment) (cs ++ [types a]) m
        (cs ++ [types a] ++ rest.map types) t := ih last
    rw [List.append_assoc] at tail
    exact .part inside tail

/-- A loop whose rounds convert one fragment each. `inv` ties the state of the loop to what is left
of the list, and `view` reads off the containers made so far. -/
theorem each_of_rounds {ι β : Type} {one : β → ι → Store → β → Store → Prop}
    (pick : ι → Fragment → Prop) (inv : β → List ι → Prop) (view : β → List Container)
    (base : String) (note : List Container → Store → Store)
    (each : ∀ b i l s b' t, inv b (i :: l) → one b i s b' t → inv b' l ∧ ∃ g hint c m,
      pick i g ∧ R g { suggested := hint, base } s c m ∧ view b' = view b ++ [c] ∧
        t = note (view b ++ [c]) m)
    {b r : β} {l : List ι} {s t : Store} (start : inv b l) (rounds : Rounds one b l s r t) :
    ∃ gs, List.Forall₂ pick l gs ∧ Each R base note gs (view b) s (view r) t := by
  induction rounds with
  | done => exact ⟨[], .nil, .done⟩
  | round first _ ih =>
    obtain ⟨next, g, hint, c, m, picked, inside, grown, rfl⟩ := each _ _ _ _ _ _ start first
    obtain ⟨gs, picks, rest⟩ := ih next
    rw [grown] at rest
    exact ⟨g :: gs, .cons picked picks, .part inside rest⟩

theorem Finds.mono {S : Converts} (implies : ∀ f o s c t, R f o s c t → S f o s c t) {ref : String}
    {s t : Store} {c : Container} (finds : Finds cfg R ref s c t) : Finds cfg S ref s c t := by
  cases finds with
  | known found => exact .known found
  | replaced absent resolved given overridden => exact .replaced absent resolved given overridden
  | converted absent resolved given kept inside =>
    exact .converted absent resolved given kept (implies _ _ _ _ _ inside)

theorem Each.append {base : String} {note : List Container → Store → Store} {gs hs : List Fragment}
    {cs ds out : List Container} {s m t : Store} (first : Each R base note gs cs s ds m)
    (second : Each R base note hs ds m out t) : Each R base note (gs ++ hs) cs s out t := by
  induction first with
  | done => exact second
  | part inside _ ih => exact .part inside (ih second)

theorem Each.length {base : String} {note : List Container → Store → Store} {gs : List Fragment}
    {cs out : List Container} {s t : Store} (each : Each R base note gs cs s out t) :
    out.length = cs.length + gs.length := by
  induction each with
  | done => rfl
  | part _ _ ih =>
    simp only [List.length_append, List.length_cons, List.length_nil] at ih ⊢
    omega

theorem propertySet_append {f : Fragment} {cs : List Container} (extra : List Container)
    (all : cs.length = f.properties.length) : propertySet f (cs ++ extra) = propertySet f cs := by
  have zipped : (f.properties ++ []).zip (cs ++ extra) = f.properties.zip cs ++ [].zip extra :=
    List.zip_append all.symm
  rw [List.append_nil, List.zip_nil_left, List.append_nil] at zipped
  rw [propertySet, zipped, propertySet]

theorem convertProperties_set {f : Fragment} {o : Options} {s t : Store} {set : List Property}
    (run : Returns (convertProperties conv f o) s set t) :
    set = propertySet f (set.map (·.types)) := by
  have general : ∀ (l : List (String × Fragment)) (s : Store) (set : List Property),
      Returns (l.mapM fun p => do
        let types ← conv p.2 (o.child (o.hint ++ Naming.pascalCase p.1))
        return listedProperty f p types) s set t →
      set = (l.zip (set.map (·.types))).map fun x => listedProperty f x.1 x.2 := by
    intro l
    induction l with
    | nil =>
      intro s set run
      obtain ⟨rfl, _⟩ := returns_pure.mp run
      rfl
    | cons p l ih =>
      intro s set run
      obtain ⟨property, m, rest, first, last, rfl⟩ := returns_mapM_cons.mp run
      obtain ⟨types, _, _, made⟩ := returns_bind.mp first
      obtain ⟨rfl, rfl⟩ := returns_pure.mp made
      rw [List.map_cons, List.zip_cons_cons, List.map_cons, ← ih _ _ last]
      rfl
  exact general f.properties s set run

theorem returns_closeObject_open {f : Fragment} {id : Id} {set : List Property} {s t : Store} {u : Unit}
    (empty : set.isEmpty = f.properties.isEmpty)
    (run : Returns (if set.isEmpty then do
        let any ← create anyDescriptor
        setShape id (.object [[indexProperty [any]]] false)
      else setShape id (.object [set] false)) s u t) :
    t = if f.properties.isEmpty then
        (s.push anyDescriptor).2.setShape id (.object [[indexProperty [s.descriptors.size]]] false)
      else s.setShape id (.object [set] false) := by
  rw [← empty]
  split at run
  · obtain ⟨_, _, made, shaped⟩ := returns_bind.mp run
    cases made
    cases shaped
    rw [if_pos ‹_›]
    rfl
  · cases run
    rw [if_neg ‹_›]

theorem returns_closeObject (sound : ∀ f o s c t, Returns (conv f o) s c t → R f o s c t)
    {f : Fragment} {o : Options} {id : Id} {cs : List Container} {s t : Store} {u : Unit}
    (all : cs.length = f.properties.length)
    (run : Returns (closeObject conv f o id (propertySet f cs)) s u t) :
    ∃ out m, Each R o.base (fun _ t => t) (extraFragments f) cs s out m ∧
      t = finished .object f id out m := by
  have empty : (propertySet f cs).isEmpty = f.properties.isEmpty := by
    rw [Bool.eq_iff_iff, List.isEmpty_iff_length_eq_zero, List.isEmpty_iff_length_eq_zero]
    simp [propertySet, all]
  unfold closeObject at run
  simp only [extraFragments, finished]
  cases extent : f.additionalProperties with
  | none =>
    simp only [extent] at run
    exact ⟨cs, s, .done, returns_closeObject_open empty run⟩
  | some extent' =>
    cases extent' with
    | allowed =>
      simp only [extent] at run
      exact ⟨cs, s, .done, returns_closeObject_open empty run⟩
    | forbidden =>
      simp only [extent, empty] at run
      cases run
      exact ⟨cs, s, .done, rfl⟩
    | described extra =>
      simp only [extent] at run
      obtain ⟨types, m, inside, shaped⟩ := returns_bind.mp run
      cases shaped
      refine ⟨cs ++ [types], m, .part (sound _ _ _ _ _ inside) .done, ?_⟩
      rw [propertySet_append _ all, List.getLastD_concat]

theorem built_object (sound : ∀ f o s c t, Returns (conv f o) s c t → R f o s c t) {f : Fragment}
    {o : Options} {nullable : Bool} {s t : Store} {out : Container}
    (run : Returns (convertObject conv f o nullable) s out t) :
    Built cfg R .object f o nullable s out t := by
  unfold convertObject at run
  obtain ⟨⟨id, c⟩, m, start, run⟩ := returns_bind.mp run
  obtain ⟨same, rfl⟩ := returns_claim.mp start
  cases same
  obtain ⟨set, n, listed, run⟩ := returns_bind.mp run
  obtain ⟨_, _, closed, run⟩ := returns_bind.mp run
  obtain ⟨rfl, rfl⟩ := returns_pure.mp run
  have each : Each R o.base (fun _ t => t) (f.properties.map (·.2)) []
      (claimed (blank .object f o (.object [] false)) nullable s) ([] ++ set.map (·.types)) n := by
    refine each_of_mapM ?_ listed
    intro p s a t one
    obtain ⟨types, _, inside, made⟩ := returns_bind.mp one
    obtain ⟨rfl, rfl⟩ := returns_pure.mp made
    exact ⟨_, sound _ _ _ _ _ inside⟩
  have all : (set.map (·.types)).length = f.properties.length := by
    simpa using each.length
  rw [convertProperties_set listed] at closed
  obtain ⟨cs, m, rest, rfl⟩ := returns_closeObject sound all closed
  exact .intro .own (.refl s) .object (each.append rest)

theorem each_items (sound : ∀ f o s c t, Returns (conv f o) s c t → R f o s c t) (f : Fragment)
    {o : Options} {id : Id} {l : List Fragment} {r : List Container} {s t : Store}
    (rounds : Rounds (fun items item s out t => Returns (do
      let types ← conv item (o.child (o.hint ++ "Item"))
      setShape id (.array (items ++ [types]))
      return items ++ [types]) s out t) [] l s r t) :
    Each R o.base (noted .array f id) l [] s r t := by
  obtain ⟨gs, picks, each⟩ := each_of_rounds (· = ·) (fun _ _ => True) (fun items => items) o.base
    (noted .array f id)
    (by
      intro items item l s items' t _ one
      obtain ⟨types, m, inside, one⟩ := returns_bind.mp one
      obtain ⟨_, _, shaped, one⟩ := returns_bind.mp one
      cases shaped
      obtain ⟨rfl, rfl⟩ := returns_pure.mp one
      exact ⟨trivial, item, _, types, m, rfl, sound _ _ _ _ _ inside, rfl, rfl⟩)
    trivial rounds
  rw [List.forall₂_eq_eq_eq] at picks
  subst picks
  exact each

theorem built_array (sound : ∀ f o s c t, Returns (conv f o) s c t → R f o s c t) {f : Fragment}
    {o : Options} {nullable : Bool} {s t : Store} {out : Container}
    (run : Returns (convertArray conv f o nullable) s out t) :
    Built cfg R .array f o nullable s out t := by
  unfold convertArray at run
  obtain ⟨⟨id, c⟩, m, start, run⟩ := returns_bind.mp run
  obtain ⟨same, rfl⟩ := returns_claim.mp start
  cases same
  obtain ⟨items, n, loop, run⟩ := returns_bind.mp run
  obtain ⟨rfl, rfl⟩ := returns_pure.mp run
  exact .intro .own (.refl s) .array (each_items sound f (returns_foldlM loop))

theorem claimed_warn (d : Descriptor) (nullable : Bool) (s : Store) (code : Warning.Code)
    (ref message : String) :
    claimed d nullable (s.warn code ref message) = (claimed d nullable s).warn code ref message := by
  cases nullable <;> by_cases empty : d.ref = "" <;>
    simp [claimed, Store.register, Store.push, Store.warn, claimedContainer, empty]

theorem branchFragments_allOf {depth : Nat} {f : Fragment} {members branches : List Fragment}
    {o : Options} {s t : Store}
    (run : Returns (branchFragments cfg depth .allOf f members o) s branches t) :
    (∃ p merged, gather cfg depth members o.base = .ok p ∧
      Fragment.merge? (p.found ++ [untitled f.commonPart]) = some merged ∧
      branches = [untitled merged]) ∧ (t = s ∨ ∃ code ref message, t = s.warn code ref message) := by
  simp only [branchFragments, composite] at run
  obtain ⟨branch, _, combine, last⟩ := returns_bind.mp run
  obtain ⟨rfl, rfl⟩ := returns_pure.mp last
  obtain ⟨p, _, first, rest⟩ := returns_bind.mp combine
  obtain ⟨gathered, rfl⟩ := returns_lift.mp first
  cases joined : Fragment.merge? (p.found ++ [untitled f.commonPart]) with
  | none =>
    simp only [joined] at rest
    split at rest
    · obtain ⟨_, _, _, rest⟩ := returns_bind.mp rest
      exact absurd rest not_returns_fail
    · exact absurd rest not_returns_fail
  | some merged =>
    simp only [joined] at rest
    split at rest
    · obtain ⟨_, _, warned, rest⟩ := returns_bind.mp rest
      cases warned
      obtain ⟨rfl, rfl⟩ := returns_pure.mp rest
      exact ⟨⟨p, merged, gathered, joined, rfl⟩, .inr ⟨_, _, _, rfl⟩⟩
    · obtain ⟨rfl, rfl⟩ := returns_pure.mp rest
      exact ⟨⟨p, merged, gathered, joined, rfl⟩, .inl rfl⟩

theorem returns_branchFragments {depth : Nat} {c : Fragment.Combinator} {f : Fragment}
    {members branches : List Fragment} {o : Options} {d : Descriptor} {nullable : Bool}
    {s t : Store} (combined : f.combinator? = some (c, members))
    (run : Returns (branchFragments cfg depth c f members o) (claimed d nullable s) branches t) :
    Inner cfg o.base .someOf f branches ∧
      ∃ start, Quiet s start ∧ claimedContainer nullable start = claimedContainer nullable s ∧
        start.descriptors.size = s.descriptors.size ∧ t = claimed d nullable start := by
  by_cases all : c = .allOf
  · subst all
    obtain ⟨⟨p, merged, gathered, joined, rfl⟩, same | ⟨code, ref, message, warned⟩⟩ :=
      branchFragments_allOf run
    · exact ⟨.allOf combined gathered joined, s, .refl s, rfl, rfl, same⟩
    · refine ⟨.allOf combined gathered joined, s.warn code ref message, quiet_warn _ _ _ _, rfl, rfl, ?_⟩
      rw [claimed_warn]
      exact warned
  · have lifted : Returns (liftM (members.mapM fun member =>
        alternative cfg f.commonPart member o.base)) (claimed d nullable s) branches t := by
      cases c with
      | allOf => exact absurd rfl all
      | oneOf => exact run
      | anyOf => exact run
    obtain ⟨chosen, rfl⟩ := returns_lift.mp lifted
    exact ⟨.alternatives combined all chosen, s, .refl s, rfl, rfl, rfl⟩

theorem each_branches (sound : ∀ f o s c t, Returns (conv f o) s c t → R f o s c t) {f : Fragment}
    {o : Options} {id : Id} {c : Fragment.Combinator} {members l : List Fragment} {r : List Container}
    {s t : Store} (combined : f.combinator? = some (c, members))
    (rounds : Rounds (fun branches branch s out t => Returns (do
      let types ← conv branch (o.child (branchHint c o.hint branches.length))
      setShape id (.someOf c (branches ++ [types]))
      return branches ++ [types]) s out t) [] l s r t) :
    Each R o.base (noted .someOf f id) l [] s r t := by
  obtain ⟨gs, picks, each⟩ := each_of_rounds (· = ·) (fun _ _ => True) (fun branches => branches) o.base
    (noted .someOf f id)
    (by
      intro branches branch l s branches' t _ one
      obtain ⟨types, m, inside, one⟩ := returns_bind.mp one
      obtain ⟨_, _, shaped, one⟩ := returns_bind.mp one
      cases shaped
      obtain ⟨rfl, rfl⟩ := returns_pure.mp one
      refine ⟨trivial, branch, _, types, m, rfl, sound _ _ _ _ _ inside, rfl, ?_⟩
      simp only [noted, combined, Option.map_some, Option.getD_some])
    trivial rounds
  rw [List.forall₂_eq_eq_eq] at picks
  subst picks
  exact each

theorem built_someOf (sound : ∀ f o s c t, Returns (conv f o) s c t → R f o s c t) {depth : Nat}
    {f : Fragment} {o : Options} {nullable : Bool} {s t : Store} {out : Container}
    (run : Returns (convertSomeOf cfg depth conv f o nullable) s out t) :
    Built cfg R .someOf f o nullable s out t := by
  unfold convertSomeOf at run
  split at run
  · exact absurd run not_returns_fail
  rename_i c members combined
  have opened : blank .someOf f o (.someOf c []) = opening .someOf f o := by
    simp only [opening, combined, Option.map_some, Option.getD_some]
  obtain ⟨⟨id, _⟩, m, start, run⟩ := returns_bind.mp run
  obtain ⟨same, rfl⟩ := returns_claim.mp start
  cases same
  obtain ⟨branches, n, found, run⟩ := returns_bind.mp run
  obtain ⟨inner, start, quiet, container, place, rfl⟩ := returns_branchFragments combined found
  obtain ⟨parts, n, loop, run⟩ := returns_bind.mp run
  obtain ⟨rfl, rfl⟩ := returns_pure.mp run
  have each := each_branches sound combined (returns_foldlM loop)
  rw [opened] at each
  rw [← container]
  rw [← place] at each
  exact .intro .own quiet inner each

theorem mapM_eq_some_of_forall₂ {α β : Type} {pick : α → Option β} {l : List α} {r : List β}
    (picks : List.Forall₂ (fun x y => pick x = some y) l r) : l.mapM pick = some r := by
  induction picks with
  | nil => rfl
  | cons first _ ih => simp [List.mapM_cons, first, ih]

theorem returns_caseFragment {ref key : String} {raw : Json} {g : Fragment} {s t : Store}
    (run : Returns (caseFragment ref key raw) s g t) : Fragment.decode? raw = some g ∧ s = t := by
  unfold caseFragment at run
  split at run
  · obtain ⟨rfl, rfl⟩ := returns_pure.mp run
    exact ⟨‹_›, rfl⟩
  · exact absurd run not_returns_fail

theorem casesSoFar_eq {f : Fragment} {cases : List (String × Container)} {rest : List String}
    (all : caseKeys f = cases.map (·.1) ++ rest) :
    casesSoFar f (cases.map (·.2)) =
      cases ++ ((caseKeys f).drop cases.length).map fun k => (k, []) := by
  have front : (caseKeys f).take cases.length = cases.map (·.1) := by
    rw [all, List.take_left' (by simp)]
  have zipped : (cases.map (·.1)).zip (cases.map (·.2)) = cases := by
    induction cases with
    | nil => rfl
    | cons c cases _ => simp [List.zip_map']
  rw [casesSoFar, List.length_map, front, zipped]

theorem each_cases (sound : ∀ f o s c t, Returns (conv f o) s c t → R f o s c t) {f : Fragment}
    {o : Options} {id : Id} {keys more : List String} {r : List (String × Container)} {s t : Store}
    (all : caseKeys f = keys ++ more)
    (rounds : Rounds (fun done key s out t => Returns (do
      let inner ← caseFragment o.ref key (caseJson f key)
      let types ← conv inner (o.child (o.hint ++ Naming.pascalCase key))
      setShape id (.generic (parameterName (genericJson f)) (done ++ [(key, types)] ++
        ((caseKeys f).drop (done ++ [(key, types)]).length).map fun k => (k, [])))
      return done ++ [(key, types)]) s out t) [] keys s r t) :
    ∃ gs, List.Forall₂ (fun key g => Fragment.decode? (caseJson f key) = some g) keys gs ∧
      Each R o.base (noted .generic f id) gs [] s (r.map (·.2)) t := by
  refine each_of_rounds (fun key g => Fragment.decode? (caseJson f key) = some g)
    (fun cases rest => caseKeys f = cases.map (·.1) ++ (rest ++ more)) (·.map (·.2)) o.base
    (noted .generic f id) ?_ all rounds
  intro cases key rest s cases' t all one
  obtain ⟨g, _, decoded, one⟩ := returns_bind.mp one
  obtain ⟨read, rfl⟩ := returns_caseFragment decoded
  obtain ⟨types, m, inside, one⟩ := returns_bind.mp one
  obtain ⟨_, _, shaped, one⟩ := returns_bind.mp one
  cases shaped
  obtain ⟨rfl, rfl⟩ := returns_pure.mp one
  have next : caseKeys f = (cases ++ [(key, types)]).map (·.1) ++ (rest ++ more) := by
    rw [all, List.map_append, List.append_assoc]
    rfl
  have view : (cases ++ [(key, types)]).map (·.2) = cases.map (·.2) ++ [types] :=
    List.map_append
  refine ⟨next, g, _, types, m, read, sound _ _ _ _ _ inside, view, ?_⟩
  simp only [noted, ← view, casesSoFar_eq next]

theorem built_generic (sound : ∀ f o s c t, Returns (conv f o) s c t → R f o s c t) {f : Fragment}
    {o : Options} {nullable : Bool} {s t : Store} {out : Container}
    (run : Returns (convertGeneric conv f o nullable) s out t) :
    Built cfg R .generic f o nullable s out t := by
  unfold convertGeneric at run
  obtain ⟨⟨id, _⟩, m, start, run⟩ := returns_bind.mp run
  obtain ⟨same, rfl⟩ := returns_claim.mp start
  cases same
  obtain ⟨cases, n, loop, run⟩ := returns_bind.mp run
  obtain ⟨rfl, rfl⟩ := returns_pure.mp run
  obtain ⟨gs, picks, each⟩ := each_cases sound (List.append_nil _).symm (returns_foldlM loop)
  exact .intro .own (.refl s) (.generic (mapM_eq_some_of_forall₂ picks)) each

theorem built_enum {f : Fragment} {o : Options} {nullable : Bool} {s t : Store} {out : Container}
    (run : Returns (convertEnum cfg f o nullable) s out t) :
    Built cfg R .enum f o nullable s out t := by
  simp only [convertEnum] at run
  split at run
  · rename_i unnamed
    obtain ⟨name, m, reserved, run⟩ := returns_bind.mp run
    cases reserved
    obtain ⟨_, _, start, run⟩ := returns_bind.mp run
    obtain ⟨same, rfl⟩ := returns_claim.mp start
    cases same
    obtain ⟨rfl, rfl⟩ := returns_pure.mp run
    have empty : o.name = "" := by
      simp only [Bool.and_eq_true, decide_eq_true_eq] at unnamed
      exact unnamed.1
    have nobody : s.names.lookup? "" = none := rfl
    obtain ⟨issued, name⟩ := Registry.claim_new (Naming.sanitize ("Enum" ++ o.suggested)) nobody
    have reserved := @Registry.claim_extends s.names "" _
      (Naming.sanitize_legal ("Enum" ++ o.suggested)) fun owned => absurd rfl owned
    refine .intro (.new rfl empty ?_ ?_ ⟨o.suggested, ?_⟩) ⟨rfl, rfl, reserved, List.prefix_rfl⟩
      (.leaf (by decide) (by decide) (by decide) (by decide)) .done
    · rw [Registry.reserve, name]
      exact Registry.next_free _ _
    · rw [Registry.reserve, issued]
      exact List.mem_cons_self
    · rw [Registry.reserve, name]
      exact Registry.next_derived _ _
  · obtain ⟨name, m, kept, run⟩ := returns_bind.mp run
    obtain ⟨rfl, rfl⟩ := returns_pure.mp kept
    obtain ⟨_, _, start, run⟩ := returns_bind.mp run
    obtain ⟨same, rfl⟩ := returns_claim.mp start
    cases same
    obtain ⟨rfl, rfl⟩ := returns_pure.mp run
    exact .intro .own (.refl s) (.leaf (by decide) (by decide) (by decide) (by decide)) .done

theorem built_leaf {kind : Kind} {f : Fragment} {o : Options} {nullable : Bool} {s t : Store}
    {out : Container} (inner : ∀ base, Inner cfg base kind f [])
    (shaped : ∀ id s, finished kind f id [] s = s)
    (run : Returns (do return (← claim (opening kind f o) nullable).2) s out t) :
    Built cfg R kind f o nullable s out t := by
  obtain ⟨_, _, start, run⟩ := returns_bind.mp run
  obtain ⟨same, rfl⟩ := returns_claim.mp start
  cases same
  obtain ⟨rfl, rfl⟩ := returns_pure.mp run
  have built : Built cfg R kind f o nullable s (claimedContainer nullable s)
      (finished kind f s.descriptors.size [] (claimed (opening kind f o) nullable s)) :=
    .intro .own (.refl s) (inner o.base) .done
  rwa [shaped] at built

theorem built_of_convertKind (sound : ∀ f o s c t, Returns (conv f o) s c t → R f o s c t)
    {depth : Nat} {kind : Kind} {f : Fragment} {o : Options} {nullable : Bool} {s t : Store}
    {out : Container} (run : Returns (convertKind cfg depth conv kind f o nullable) s out t) :
    Built cfg R kind f o nullable s out t := by
  cases kind with
  | object => exact built_object sound run
  | array => exact built_array sound run
  | enum => exact built_enum run
  | someOf => exact built_someOf sound run
  | generic => exact built_generic sound run
  | _ =>
    exact built_leaf (fun _ => .leaf (by decide) (by decide) (by decide) (by decide))
      (fun _ _ => rfl) run

theorem returns_classifyRaw {raw : Json} {ref : String} {s t : Store} {kind : Kind}
    (run : Returns (classifyRaw cfg raw ref) s kind t) : kind = kindOf cfg raw ∧ Quiet s t := by
  simp only [classifyRaw] at run
  obtain ⟨_, _, lines, run⟩ := returns_bind.mp run
  cases lines
  split at run
  · obtain ⟨_, _, warned, run⟩ := returns_bind.mp run
    cases warned
    obtain ⟨rfl, rfl⟩ := returns_pure.mp run
    exact ⟨rfl, rfl, rfl, .refl _, List.prefix_append _ _⟩
  · obtain ⟨rfl, rfl⟩ := returns_pure.mp run
    exact ⟨rfl, rfl, rfl, .refl _, List.prefix_rfl⟩

theorem Built.of_quiet {kind : Kind} {f : Fragment} {o : Options} {nullable : Bool}
    {s m t : Store} {out : Container} (quiet : Quiet s m)
    (built : Built cfg R kind f o nullable m out t) : Built cfg R kind f o nullable s out t := by
  obtain ⟨named, later, inner, each⟩ := built
  refine .intro ?_ (quiet.trans later) inner each
  cases named with
  | own => exact .own
  | new enum unnamed free issued hoisted =>
    refine .new enum unnamed ?_ issued hoisted
    exact fun taken => free (List.map_subset _ quiet.names.issued.subset taken)

theorem finds_of_findOrCreateWith (sound : ∀ f o s c t, Returns (conv f o) s c t → R f o s c t)
    {ref : String} {s t : Store} {c : Container}
    (run : Returns (findOrCreateWith cfg conv ref) s c t) : Finds cfg R ref s c t := by
  simp only [findOrCreateWith] at run
  obtain ⟨_, _, got, run⟩ := returns_bind.mp run
  cases got
  split at run
  · rename_i found
    obtain ⟨rfl, rfl⟩ := returns_pure.mp run
    exact .known found
  · rename_i absent
    obtain ⟨f, _, lifted, run⟩ := returns_bind.mp run
    obtain ⟨resolved, rfl⟩ := returns_lift.mp lifted
    obtain ⟨name, _, naming, run⟩ := returns_bind.mp run
    rw [returns_modifyGet] at naming
    rcases given : s.names.claim (Reference.normalize ref)
      (Naming.modelName (Reference.parse (Reference.normalize ref)).lastSegment) with ⟨name, names⟩
    rw [given] at naming
    cases naming
    split at run
    · rename_i other overridden
      obtain ⟨_, _, start, run⟩ := returns_bind.mp run
      obtain ⟨same, made⟩ := returns_claim.mp start
      cases same
      -- the other way round, so that the new store is not unfolded
      obtain rfl := made.symm
      obtain ⟨rfl, rfl⟩ := returns_pure.mp run
      exact .replaced absent (fragment_of_resolve resolved) given overridden
    · rename_i kept
      exact .converted absent (fragment_of_resolve resolved) given kept (sound _ _ _ _ _ run)

theorem step_of_convertMultiType (sound : ∀ f o s c t, Returns (conv f o) s c t → R f o s c t)
    {f : Fragment} {o : Options} {s t : Store} {c : Container} (isRef : f.isRef = false)
    (multi : isMultiType (stripped f) = true)
    (run : Returns (convertMultiType conv (stripped f) o (keepsNull f)) s c t) :
    Step cfg R f o s c t := by
  simp only [convertMultiType] at run
  split at run
  · rename_i named
    exact .union isRef multi named (sound _ _ _ _ _ run)
  · rename_i unnamed
    obtain ⟨parts, m, branches, run⟩ := returns_bind.mp run
    have each : Each R o.base (fun _ t => t) ((typeBranches (stripped f)).map id) [] s
        ([] ++ parts.map id) m := by
      refine each_of_mapM ?_ branches
      intro branch s types t inside
      exact ⟨_, sound _ _ _ _ _ inside⟩
    rw [List.map_id, List.map_id, List.nil_append] at each
    have step : Step cfg R f o s _ _ := .types isRef multi (not_not.mp unnamed) each
    by_cases nullable : keepsNull f
    · simp only [nullable, if_true] at run
      simp only [sideBySide, nullable, if_true] at step
      obtain ⟨_, _, null, run⟩ := returns_bind.mp run
      cases null
      obtain ⟨_, _, registered, run⟩ := returns_bind.mp run
      cases registered
      obtain ⟨rfl, rfl⟩ := returns_pure.mp run
      exact step
    · simp only [nullable] at run
      simp only [sideBySide, nullable] at step
      obtain ⟨_, _, null, run⟩ := returns_bind.mp run
      cases null
      obtain ⟨_, _, registered, run⟩ := returns_bind.mp run
      cases registered
      obtain ⟨rfl, rfl⟩ := returns_pure.mp run
      simpa using step

theorem convertWith_eq (depth : Nat) (f : Fragment) (o : Options) :
    convertWith cfg depth conv f o =
      (if f.isRef then do
        let out ← findOrCreateWith cfg conv (Reference.qualify f.ref o.base)
        register o.ref out
        return out
      else if isMultiType (stripped f) then convertMultiType conv (stripped f) o (keepsNull f)
      else match (stripped f).toJson? with
        | none => fail (Fault.ofReference o.ref "encoding fragment" (some unwritableText))
        | some raw => do
          let kind ← classifyRaw cfg raw o.ref
          convertKind cfg depth conv kind (stripped f) o (keepsNull f)) :=
  rfl

theorem convertDepth_succ (depth : Nat) (f : Fragment) (o : Options) :
    convertDepth cfg (depth + 1) f o = convertWith cfg depth (convertDepth cfg depth) f o :=
  rfl

theorem convertWith_step (sound : ∀ f o s c t, Returns (conv f o) s c t → R f o s c t)
    {depth : Nat} {f : Fragment} {o : Options} {s t : Store} {c : Container}
    (run : Returns (convertWith cfg depth conv f o) s c t) : Step cfg R f o s c t := by
  rw [convertWith_eq] at run
  split at run
  · rename_i isRef
    obtain ⟨_, _, found, run⟩ := returns_bind.mp run
    obtain ⟨_, _, registered, run⟩ := returns_bind.mp run
    cases registered
    obtain ⟨rfl, rfl⟩ := returns_pure.mp run
    exact .ref isRef (finds_of_findOrCreateWith sound found)
  · rename_i isRef
    have isRef : f.isRef = false := by simpa using isRef
    split at run
    · rename_i multi
      exact step_of_convertMultiType sound isRef multi run
    · rename_i single
      have single : isMultiType (stripped f) = false := by simpa using single
      split at run
      · exact absurd run not_returns_fail
      · rename_i raw written
        obtain ⟨kind, m, classified, run⟩ := returns_bind.mp run
        obtain ⟨rfl, quiet⟩ := returns_classifyRaw classified
        exact .node isRef single written ((built_of_convertKind sound run).of_quiet quiet)

/-- What every layer of a conversion keeps, a conversion of any depth keeps. -/
theorem convertDepth_keeps {P : Converts} (layer : ∀ f o s c t, Step cfg P f o s c t → P f o s c t)
    {depth : Nat} {f : Fragment} {o : Options} {s t : Store} {c : Container}
    (run : Returns (convertDepth cfg depth f o) s c t) : P f o s c t := by
  induction depth generalizing f o s c t with
  | zero => exact absurd run not_returns_throw
  | succ depth ih =>
    rw [convertDepth_succ] at run
    have sound : ∀ f o s c t, Returns (convertDepth cfg depth f o) s c t → P f o s c t :=
      fun _ _ _ _ _ inside => ih inside
    exact layer f o s c t (convertWith_step sound run)

/-- What every layer keeps with the help of something known of all conversions. -/
theorem convertDepth_keeps_also {P Q : Converts}
    (known : ∀ depth f o s c t, Returns (convertDepth cfg depth f o) s c t → Q f o s c t)
    (layer : ∀ f o s c t, Q f o s c t →
      Step cfg (fun f o s c t => Q f o s c t ∧ P f o s c t) f o s c t → P f o s c t)
    {depth : Nat} {f : Fragment} {o : Options} {s t : Store} {c : Container}
    (run : Returns (convertDepth cfg depth f o) s c t) : P f o s c t := by
  induction depth generalizing f o s c t with
  | zero => exact absurd run not_returns_throw
  | succ depth ih =>
    refine layer f o s c t (known _ _ _ _ _ _ run) (convertWith_step ?_ run)
    exact fun _ _ _ _ _ inside => ⟨known _ _ _ _ _ _ inside, ih inside⟩

theorem findOrCreate_keeps {P : Converts} (layer : ∀ f o s c t, Step cfg P f o s c t → P f o s c t)
    {ref : String} {s t : Store} {c : Container} (run : Returns (findOrCreate cfg ref) s c t) :
    Finds cfg P ref s c t := by
  obtain ⟨depth, run⟩ := returns_deepening run
  have sound : ∀ f o s c t, Returns (convertDepth cfg depth f o) s c t → P f o s c t :=
    fun _ _ _ _ _ inside => convertDepth_keeps layer inside
  exact finds_of_findOrCreateWith sound run

end

end Typesmith.Model
