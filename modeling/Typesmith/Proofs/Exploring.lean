import Typesmith.Proofs.Settling

namespace Typesmith.Model

open Fragment

/-- Everything inside a fragment has been gone through, up to places that are known. -/
inductive Explored (cfg : Setting) (known : List String) (place : String) : Spot → Prop
  | intro {x : Spot} (followed : x.2.isRef = true → aliasTarget x.2 place ∈ known)
      (gathered : x.2.isRef = false → ∀ raw members, (stripped x.2).toJson? = some raw →
        kindOf cfg raw = .someOf → (stripped x.2).combinator? = some (.allOf, members) →
        ∃ refs, ∀ member ∈ members, FollowsOnly cfg refs (member, place))
      (inside : ∀ y, Nests cfg place x y → Explored cfg known place y) : Explored cfg known place x

def Entered (cfg : Setting) (known : List String) (ref : String) : Prop :=
  ∃ f, cfg.resolver.fragment ref = .ok f ∧ Explored cfg known ref (true, f)

/-- No known reference leads to references only. -/
def Anchored (cfg : Setting) (s : Store) : Prop :=
  ∀ ref ∈ s.known, Acc (fun next ref => Leads cfg ref next) ref

/-- A fragment is converted under the reference that it was read at. -/
structure Placed (cfg : Setting) (f : Fragment) (o : Options) : Prop where
  named : o.name ≠ ""
  base : o.base = o.ref
  read : ∃ g, cfg.resolver.fragment o.ref = .ok g ∧ g.isRef = f.isRef ∧ (f.isRef = true → g = f)

section

variable {cfg : Setting} {place : String}

theorem Explored.mono {known more : List String} {x : Spot} (within : ∀ ref ∈ known, ref ∈ more)
    (explored : Explored cfg known place x) : Explored cfg more place x := by
  induction explored with
  | intro followed gathered _ ih =>
    exact .intro (fun isRef => within _ (followed isRef)) gathered ih

theorem Explored.acc {known : List String} {x : Spot} (explored : Explored cfg known place x) :
    Acc (fun y x => Nests cfg place x y) x := by
  induction explored with
  | intro _ _ _ ih => exact ⟨_, ih⟩

theorem Entered.mono {known more : List String} {ref : String} (within : ∀ ref ∈ known, ref ∈ more)
    (entered : Entered cfg known ref) : Entered cfg more ref := by
  obtain ⟨f, resolved, explored⟩ := entered
  exact ⟨f, resolved, explored.mono within⟩

theorem gather_unique {first second : Nat} {members : List Fragment} {base : String} {p q : Pieces}
    (one : gather cfg first members base = .ok p) (other : gather cfg second members base = .ok q) :
    p = q := by
  have same : ∀ {less more : Nat} {p q : Pieces}, less ≤ more → gather cfg less members base = .ok p →
      gather cfg more members base = .ok q → p = q := by
    intro less more p q deeper one other
    rw [gather_deep deeper (by rw [one]; exact whole_ok p), one] at other
    cases other
    rfl
  rcases Nat.le_total first second with deeper | deeper
  · exact same deeper one other
  · exact (same deeper other one).symm

theorem Inner.unique {base : String} {kind : Kind} {f : Fragment} {gs hs : List Fragment}
    (first : Inner cfg base kind f gs) (second : Inner cfg base kind f hs) : gs = hs := by
  cases first with
  | object => exact second.of_object.symm
  | array => exact second.of_array.symm
  | allOf combined gathered joined =>
    obtain ⟨_, _, _, gathered', joined', rfl⟩ := second.of_allOf combined
    cases gather_unique gathered gathered'
    rw [joined] at joined'
    cases joined'
    rfl
  | alternatives combined separate chosen =>
    have chosen' := second.of_alternatives combined separate
    rw [chosen] at chosen'
    cases chosen'
    rfl
  | generic decoded =>
    have decoded' := second.of_generic
    rw [decoded] at decoded'
    cases decoded'
    rfl
  | leaf object array someOf generic =>
    cases second with
    | object => exact absurd rfl object
    | array => exact absurd rfl array
    | allOf => exact absurd rfl someOf
    | alternatives => exact absurd rfl someOf
    | generic => exact absurd rfl generic
    | leaf => rfl

theorem gather_followsOnly {depth : Nat} {members : List Fragment} {base : String} {p : Pieces}
    (run : gather cfg depth members base = .ok p) {member : Fragment} (inside : member ∈ members) :
    FollowsOnly cfg p.visited (member, base) := by
  obtain ⟨covers, opened⟩ := gather_covers run
  intro y path
  have covered : Covered base p y.1 y.2 := by
    induction path with
    | refl => exact covers member inside
    | @tail y z _ next ih =>
      cases ih with
      | ref isRef followed =>
        rcases next with ⟨_, f, resolved, nested, place⟩ | ⟨other, _⟩
        · obtain ⟨g, piece, resolved', _, _, all⟩ := opened _ followed
          rw [resolved] at resolved'
          cases resolved'
          rw [place]
          exact all _ nested
        · rw [isRef] at other
          cases other
      | plain isRef _ _ all =>
        rcases next with ⟨other, _⟩ | ⟨_, nested, place⟩
        · rw [isRef] at other
          cases other
        · rw [place]
          exact all _ nested
  intro isRef
  cases covered with
  | ref _ followed => exact followed
  | plain other =>
    rw [isRef] at other
    cases other

/-- What a conversion goes through, and what it leaves in the index. -/
def Explores (cfg : Setting) : Converts := fun f o s _ t =>
  Later s t ∧ (s.names.Named → Anchored cfg s → (o.ref ≠ "" → Placed cfg f o) →
    Anchored cfg t ∧ (o.ref ≠ "" → o.ref ∈ t.known) ∧
    Explored cfg t.known o.base (decide (o.name ≠ ""), f) ∧
    ∀ ref ∈ t.known, ref ∈ s.known ∨ (o.ref ≠ "" ∧ ref = o.ref) ∨ Entered cfg t.known ref)

theorem Touches.known {id : Id} {s t : Store} (touches : Touches id s t) : t.known = s.known := by
  rw [Store.known, touches.index, Store.known]

theorem mem_known_register {s : Store} {ref other : String} {c : Container} :
    other ∈ (s.register ref c).known ↔ other ∈ s.known ∨ (ref ≠ "" ∧ other = ref) := by
  by_cases empty : ref = ""
  · simp [empty, Store.register_empty]
  · simp [Store.known, Store.index_register c empty, empty, or_comm]

theorem Explores.each {base : String} {note : List Container → Store → Store} {gs : List Fragment}
    {cs out : List Container} {id : Id} {s t : Store}
    (each : Each (Explores cfg) base note gs cs s out t) (told : ∀ cs t, Touches id t (note cs t))
    (named : s.names.Named) (anchored : Anchored cfg s) :
    Later s t ∧ Anchored cfg t ∧ (∀ g ∈ gs, Explored cfg t.known base (false, g)) ∧
      ∀ ref ∈ t.known, ref ∈ s.known ∨ Entered cfg t.known ref := by
  induction each with
  | done =>
    refine ⟨.refl _, anchored, ?_, fun _ inside => .inl inside⟩
    intro _ member
    cases member
  | @part g gs hint cs out c s m t one _ ih =>
    obtain ⟨later, explores⟩ := one
    obtain ⟨anchored, _, explored, entered⟩ := explores named anchored (fun owned => absurd rfl owned)
    have touches := told (cs ++ [c]) m
    have known := touches.known
    obtain ⟨rest, anchored, others, more⟩ := ih (touches.later.names.named (later.names.named named))
      (by rw [Anchored, known]; exact anchored)
    have within := rest.known
    rw [known] at within more
    refine ⟨(later.trans touches.later).trans rest, anchored, ?_, ?_⟩
    · intro h inside
      rcases List.mem_cons.mp inside with rfl | after
      · exact explored.mono within
      · exact others h after
    · intro ref inside
      rcases more ref inside with older | new
      · rcases entered ref older with oldest | ⟨owned, _⟩ | new
        · exact .inl oldest
        · exact absurd rfl owned
        · exact .inr (new.mono within)
      · exact .inr new

theorem Explores.finds (plain : cfg.overrides = []) {ref : String} {c : Container} {s t : Store}
    (finds : Finds cfg (Explores cfg) ref s c t) :
    Later s t ∧ (s.names.Named → Anchored cfg s →
      Anchored cfg t ∧ Reference.normalize ref ∈ t.known ∧
        ∀ other ∈ t.known, other ∈ s.known ∨ Entered cfg t.known other) := by
  cases finds with
  | known found =>
    refine ⟨.refl s, fun _ anchored => ⟨anchored, ?_, fun _ inside => .inl inside⟩⟩
    rw [Store.mem_known, found]
    rfl
  | replaced _ _ _ overridden =>
    rw [plain] at overridden
    cases overridden
  | @converted f name names c t absent resolved given kept inside =>
    obtain ⟨later, explores⟩ := inside
    have before := later_claim given
    refine ⟨before.trans later, fun named anchored => ?_⟩
    have filled := Registry.claim_ne_empty named (Reference.normalize ref)
      (Naming.modelName_ne_empty (Reference.parse (Reference.normalize ref)).lastSegment)
    rw [given] at filled
    obtain ⟨anchored, present, explored, entered⟩ := explores (before.names.named named) anchored
      (fun _ => ⟨filled, rfl, f, resolved, rfl, fun _ => rfl⟩)
    refine ⟨anchored, present (normalize_ne_empty ref), ?_⟩
    intro other inside
    rcases entered other inside with older | ⟨_, rfl⟩ | new
    · exact .inl older
    · have spot : decide (name ≠ "") = true := by simpa using filled
      dsimp only at explored
      rw [spot] at explored
      exact .inr ⟨f, resolved, explored⟩
    · exact .inr new

theorem Explores.built {kind : Kind} {f : Fragment} {o : Options} {nullable : Bool} {c : Container}
    {s t : Store} (built : Built cfg (Explores cfg) kind f o nullable s c t) :
    ∃ gs, Inner cfg o.base kind f gs ∧ Later s t ∧ (s.names.Named → Anchored cfg s →
      (o.ref ≠ "" → Acc (fun next ref => Leads cfg ref next) o.ref) →
      Anchored cfg t ∧ (o.ref ≠ "" → o.ref ∈ t.known) ∧
      (∀ g ∈ gs, Explored cfg t.known o.base (false, g)) ∧
      ∀ ref ∈ t.known, ref ∈ s.known ∨ (o.ref ≠ "" ∧ ref = o.ref) ∨ Entered cfg t.known ref) := by
  obtain @⟨name, gs, cs, start, t, _, quiet, inner, each⟩ := built
  have begun : Later s (claimed (opening kind f { o with name }) nullable start) :=
    (quiet.grows.trans (grows_claimed _ _ _)).later
  have touched := finished_touches kind f start.descriptors.size cs t
  have first : ∀ ref, ref ∈ (claimed (opening kind f { o with name }) nullable start).known ↔
      ref ∈ s.known ∨ (o.ref ≠ "" ∧ ref = o.ref) := by
    intro ref
    have same : s.known = start.known := by rw [Store.known, Store.known, quiet.index]
    unfold claimed
    rw [mem_known_register, opening_ref, same]
    split <;> rfl
  have parts := each.later (fun _ _ _ _ _ one => one.1) (fun cs s => (noted_touches _ _ _ cs s).later)
  refine ⟨gs, inner, (begun.trans parts).trans touched.later, ?_⟩
  intro named anchored owner
  obtain ⟨_, anchored, explored, entered⟩ := Explores.each each (fun cs t => noted_touches kind f _ cs t)
    (begun.names.named named) (fun ref inside => by
      rcases (first ref).mp inside with older | ⟨owned, rfl⟩
      · exact anchored ref older
      · exact owner owned)
  rw [Anchored, touched.known]
  refine ⟨anchored, ?_, explored, ?_⟩
  · intro owned
    exact parts.known _ ((first o.ref).mpr (.inr ⟨owned, rfl⟩))
  · intro ref inside
    rcases entered ref inside with older | new
    · exact ((first ref).mp older).imp_right .inl
    · exact .inr (.inr new)

theorem explored_node {known : List String} {named : Bool} {f : Fragment} {raw : Json}
    {gs : List Fragment} (isRef : f.isRef = false) (single : isMultiType (stripped f) = false)
    (written : (stripped f).toJson? = some raw)
    (inner : Inner cfg place (kindOf cfg raw) (stripped f) gs)
    (inside : ∀ g ∈ gs, Explored cfg known place (false, g)) :
    Explored cfg known place (named, f) := by
  refine .intro (fun other => by rw [isRef] at other; cases other) ?_ ?_
  · intro _ raw' members written' kind combined
    rw [written] at written'
    cases written'
    rw [kind] at inner
    obtain ⟨_, _, _, gathered, _, _⟩ := inner.of_allOf combined
    exact ⟨_, fun member => gather_followsOnly gathered⟩
  · intro y nests
    cases nests with
    | node _ _ written' inner' member =>
      rw [written] at written'
      cases written'
      rw [← inner.unique inner'] at member
      exact inside _ member
    | chosen _ _ written' kind member decoded =>
      rw [written] at written'
      cases written'
      rw [kind] at inner
      exact inside _ (mem_of_mapM_some inner.of_generic member decoded)
    | types _ multi =>
      rw [single] at multi
      cases multi
    | union _ multi =>
      rw [single] at multi
      cases multi

theorem explored_multi {known : List String} {named : Bool} {f : Fragment} (isRef : f.isRef = false)
    (multi : isMultiType (stripped f) = true)
    (inside : ∀ y, Nests cfg place (named, f) y → Explored cfg known place y) :
    Explored cfg known place (named, f) := by
  refine .intro (fun other => by rw [isRef] at other; cases other) ?_ inside
  intro _ raw members _ _ combined
  rw [isMultiType, combined] at multi
  simp at multi

theorem Nests.of_multi {named : Bool} {f : Fragment} {y : Spot} (nests : Nests cfg place (named, f) y)
    (multi : isMultiType (stripped f) = true) :
    (named = true ∧ y = (true, typesUnion (stripped f) (keepsNull f))) ∨
      (named = false ∧ ∃ g ∈ typeBranches (stripped f), y = (false, g)) := by
  cases nests with
  | node _ single =>
    rw [multi] at single
    cases single
  | chosen _ single =>
    rw [multi] at single
    cases single
  | union => exact .inl ⟨rfl, rfl⟩
  | types _ _ member => exact .inr ⟨rfl, _, member, rfl⟩

/-- Under a name, the types of a fragment are only reached through the union that stands for it. -/
theorem explored_union {known : List String} {f : Fragment} (isRef : f.isRef = false)
    (multi : isMultiType (stripped f) = true)
    (union : Explored cfg known place (true, typesUnion (stripped f) (keepsNull f))) :
    Explored cfg known place (true, f) := by
  refine explored_multi isRef multi ?_
  intro y nests
  rcases nests.of_multi multi with ⟨_, rfl⟩ | ⟨unnamed, _⟩
  · exact union
  · cases unnamed

theorem explored_types {known : List String} {f : Fragment} (isRef : f.isRef = false)
    (multi : isMultiType (stripped f) = true)
    (inside : ∀ g ∈ typeBranches (stripped f), Explored cfg known place (false, g)) :
    Explored cfg known place (false, f) := by
  refine explored_multi isRef multi ?_
  intro y nests
  rcases nests.of_multi multi with ⟨named, _⟩ | ⟨_, g, member, rfl⟩
  · cases named
  · exact inside g member

theorem explored_ref {known : List String} {named : Bool} {f : Fragment} (isRef : f.isRef = true)
    (followed : aliasTarget f place ∈ known) : Explored cfg known place (named, f) := by
  refine .intro (fun _ => followed) (fun other => ?_) ?_
  · rw [isRef] at other
    cases other
  · intro y nests
    have other := nests.isRef
    rw [isRef] at other
    cases other

theorem Placed.acc {f : Fragment} {o : Options} (placed : Placed cfg f o) (isRef : f.isRef = false) :
    Acc (fun next ref => Leads cfg ref next) o.ref := by
  obtain ⟨_, _, g, resolved, same, _⟩ := placed
  constructor
  rintro next ⟨h, resolved', followed, rfl⟩
  rw [resolved] at resolved'
  cases resolved'
  rw [same, isRef] at followed
  cases followed

theorem Placed.acc_ref {f : Fragment} {o : Options} (placed : Placed cfg f o) (isRef : f.isRef = true)
    (next : Acc (fun next ref => Leads cfg ref next) (aliasTarget f o.base)) :
    Acc (fun next ref => Leads cfg ref next) o.ref := by
  obtain ⟨_, base, g, resolved, _, same⟩ := placed
  constructor
  rintro _ ⟨h, resolved', _, rfl⟩
  rw [resolved, same isRef] at resolved'
  cases resolved'
  rw [← base]
  exact next

theorem Explores.ref (plain : cfg.overrides = []) {f : Fragment} {o : Options} {s t : Store}
    {c : Container} (isRef : f.isRef = true)
    (found : Finds cfg (Explores cfg) (Reference.qualify f.ref o.base) s c t) :
    Explores cfg f o s c (t.register o.ref c) := by
  obtain ⟨later, explores⟩ := Explores.finds plain found
  refine ⟨later.trans (later_register _ _ _), ?_⟩
  intro named anchored placed
  obtain ⟨anchored, present, entered⟩ := explores named anchored
  have within : ∀ ref ∈ t.known, ref ∈ (t.register o.ref c).known :=
    fun ref inside => mem_known_register.mpr (.inl inside)
  refine ⟨?_, fun owned => mem_known_register.mpr (.inr ⟨owned, rfl⟩),
    explored_ref isRef (within _ present), ?_⟩
  · intro ref inside
    rcases mem_known_register.mp inside with older | ⟨owned, rfl⟩
    · exact anchored ref older
    · exact (placed owned).acc_ref isRef (anchored _ present)
  · intro ref inside
    rcases mem_known_register.mp inside with older | new
    · exact (entered ref older).imp_right fun entered => .inr (entered.mono within)
    · exact .inr (.inl new)

theorem Explores.types {f : Fragment} {o : Options} {s t : Store} {cs : List Container}
    (isRef : f.isRef = false) (multi : isMultiType (stripped f) = true) (unnamed : o.name = "")
    (each : Each (Explores cfg) o.base (fun _ s => s) (typeBranches (stripped f)) [] s cs t) :
    Explores cfg f o s (sideBySide (keepsNull f) cs t).1
      ((sideBySide (keepsNull f) cs t).2.register o.ref (sideBySide (keepsNull f) cs t).1) := by
  have parts := each.later (fun _ _ _ _ _ one => one.1) (fun _ s => .refl s)
  have side := (grows_sideBySide (keepsNull f) cs t).later
  refine ⟨(parts.trans side).trans (later_register _ _ _), ?_⟩
  intro named anchored placed
  -- whatever is converted under a reference has a name, so nothing is registered here
  have unowned : o.ref = "" := by
    by_contra owned
    exact (placed owned).named unnamed
  have known : (sideBySide (keepsNull f) cs t).2.known = t.known := by
    unfold sideBySide
    split <;> rfl
  have nothing : ∀ (cs : List Container) (t : Store), Touches s.descriptors.size t t :=
    fun _ _ => .nothing
  obtain ⟨_, anchored, explored, entered⟩ := Explores.each each nothing named anchored
  have spot : decide (o.name ≠ "") = false := by simp [unnamed]
  rw [unowned, Store.register_empty, Anchored, known, spot]
  exact ⟨anchored, fun owned => absurd rfl owned, explored_types isRef multi explored,
    fun ref inside => (entered ref inside).imp_right .inr⟩

theorem explores_step (plain : cfg.overrides = []) {f : Fragment} {o : Options} {s t : Store}
    {c : Container} (step : Step cfg (Explores cfg) f o s c t) : Explores cfg f o s c t := by
  cases step with
  | ref isRef found => exact .ref plain isRef found
  | union isRef multi filled inside =>
    obtain ⟨later, explores⟩ := inside
    refine ⟨later, ?_⟩
    intro named anchored placed
    obtain ⟨anchored, present, explored, entered⟩ := explores named anchored (fun owned => by
      obtain ⟨named, base, g, resolved, same, _⟩ := placed owned
      exact ⟨named, base, g, resolved, same.trans isRef, fun other => by cases other⟩)
    have spot : decide (o.name ≠ "") = true := by simpa using filled
    rw [spot] at explored ⊢
    exact ⟨anchored, present, explored_union isRef multi explored, entered⟩
  | types isRef multi unnamed each => exact .types isRef multi unnamed each
  | node isRef single written built =>
    obtain ⟨gs, inner, later, explores⟩ := Explores.built built
    refine ⟨later, ?_⟩
    intro named anchored placed
    obtain ⟨anchored, present, explored, entered⟩ :=
      explores named anchored (fun owned => (placed owned).acc isRef)
    exact ⟨anchored, present, explored_node isRef single written inner explored, entered⟩

end

/-- A request that succeeds without overrides met nothing endless. -/
theorem bounded_of_returns {cfg : Setting} (plain : cfg.overrides = []) {ref : String} {c : Container}
    {t : Store} (run : Returns (findOrCreate cfg ref) {} c t) : Bounded cfg ref := by
  obtain ⟨_, explores⟩ := Explores.finds plain
    (findOrCreate_keeps (fun _ _ _ _ _ step => explores_step plain step) run)
  obtain ⟨anchored, present, entered⟩ := explores (fun _ member => by cases member)
    (fun _ member => by cases member)
  have entered : ∀ ref ∈ t.known, Entered cfg t.known ref := by
    intro ref inside
    rcases entered ref inside with older | new
    · cases older
    · exact new
  have enter : ∀ place ∈ t.known, ∀ f, cfg.resolver.fragment place = .ok f →
      Explored cfg t.known place (true, f) := by
    intro place inside f resolved
    obtain ⟨g, resolved', explored⟩ := entered place inside
    rw [resolved] at resolved'
    cases resolved'
    exact explored
  -- the known places are closed under everything that can be met from one of them
  have met : ∀ place x, Met cfg ref place x → place ∈ t.known ∧ Explored cfg t.known place x := by
    intro place x met
    induction met with
    | first resolved => exact ⟨present, enter _ present _ resolved⟩
    | nested _ nests ih =>
      obtain ⟨inside, explored⟩ := ih
      cases explored with
      | intro _ _ all => exact ⟨inside, all _ nests⟩
    | followed _ isRef resolved ih =>
      obtain ⟨_, explored⟩ := ih
      cases explored with
      | intro followed _ _ => exact ⟨followed isRef, enter _ (followed isRef) _ resolved⟩
  constructor
  · exact ⟨t.known, fun place x one => (met place x one).1⟩
  · intro place x one
    exact anchored place (met place x one).1
  · intro place x raw members one isRef
    obtain ⟨_, explored⟩ := met place x one
    cases explored with
    | intro _ gathered _ => exact gathered isRef raw members
  · intro place x one
    exact acc_merges (met place x one).2.acc

end Typesmith.Model
