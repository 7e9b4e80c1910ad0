import Typesmith.Proofs.Depth
import Typesmith.Proofs.Identity
import Typesmith.Proofs.Nesting

namespace Typesmith.Model

open Fragment

def Store.known (s : Store) : List String :=
  s.index.map (·.1)

theorem Store.mem_known {s : Store} {ref : String} : ref ∈ s.known ↔ (s.lookup? ref).isSome = true := by
  simp only [known, lookup?, List.mem_map, List.lookup_isSome_iff, beq_iff_eq]
  constructor <;> rintro ⟨entry, inside, same⟩ <;> exact ⟨entry, inside, same.symm⟩

structure Later (s t : Store) : Prop where
  log : s.index <:+ t.index
  names : s.names.Extends t.names

theorem Later.refl (s : Store) : Later s s :=
  ⟨List.suffix_rfl, .refl _⟩

theorem Later.trans {s t u : Store} (first : Later s t) (second : Later t u) : Later s u :=
  ⟨first.log.trans second.log, first.names.trans second.names⟩

theorem Grows.later {s t : Store} (grows : Grows s t) : Later s t :=
  ⟨grows.log, grows.names⟩

theorem Touches.later {id : Id} {s t : Store} (touches : Touches id s t) : Later s t := by
  cases touches with
  | nothing => exact .refl s
  | shape shape => exact ⟨List.suffix_rfl, .refl _⟩
  | any shape => exact ⟨List.suffix_rfl, .refl _⟩

theorem later_register (s : Store) (ref : String) (c : Container) : Later s (s.register ref c) :=
  ((Grows.refl s).register ref c).later

theorem later_claim {s : Store} {owner name : String} {names : Registry}
    (given : s.names.claim owner (Naming.modelName (Reference.parse owner).lastSegment) = (name, names)) :
    Later s { s with names } :=
  (quiet_claim given).grows.later

theorem later_claimed (d : Descriptor) (nullable : Bool) {s m : Store} (quiet : Quiet s m) :
    Later (claimed d nullable s) (claimed d nullable m) := by
  have index : (claimed d nullable m).index = (claimed d nullable s).index := by
    by_cases empty : d.ref = ""
    · cases nullable <;> simpa [claimed, empty, Store.register_empty] using quiet.index
    · cases nullable <;>
        simp [claimed, Store.index_register _ empty, claimedContainer, quiet.index, quiet.descriptors]
  have names : ∀ u : Store, (claimed d nullable u).names = u.names := by
    intro u
    cases nullable <;> simp [claimed]
  exact ⟨index ▸ List.suffix_rfl, by rw [names, names]; exact quiet.names⟩

theorem Each.later {R : Converts} {base : String} {note : List Container → Store → Store}
    {gs : List Fragment} {cs out : List Container} {s t : Store}
    (each : Each R base note gs cs s out t)
    (inside : ∀ g o s c t, R g o s c t → Later s t) (told : ∀ cs s, Later s (note cs s)) :
    Later s t :=
  each.keeps (Later s) (fun _ _ _ _ _ one before => before.trans (inside _ _ _ _ _ one))
    (fun cs t before => before.trans (told cs t)) (.refl s)

theorem convertDepth_later {cfg : Setting} {depth : Nat} {f : Fragment} {o : Options} {s t : Store}
    {c : Container} (run : Returns (convertDepth cfg depth f o) s c t) : Later s t :=
  (convertDepth_grows run).later

def Lasting (keep : Store → Prop) : Prop :=
  ∀ s t, Later s t → keep s → keep t

/-- Whatever is kept, converting the fragment inside another one comes to an end. -/
def Handled (cfg : Setting) (keep : Store → Prop) (base : String) (g : Fragment) : Prop :=
  ∀ hint s, keep s → Steady (fun depth => convertDepth cfg depth g { suggested := hint, base }) s

section layers

variable {cfg : Setting} {keep : Store → Prop} {f : Fragment} {o : Options} {nullable : Bool}
  {s : Store}

theorem ends_claim (d : Descriptor) (nullable : Bool) (s : Store) : Ends (claim d nullable) s := by
  rw [Ends, exec_claim]
  intro cut
  cases cut

theorem ends_lift {α : Type} {e : Except Failure α} (whole : Whole e) (s : Store) : Ends (liftM e) s :=
  whole

theorem ends_get (s : Store) : Ends get s := by
  intro cut
  cases cut

theorem ends_modifyGet {α : Type} (change : Store → α × Store) (s : Store) :
    Ends (modifyGet change) s := by
  intro cut
  cases cut

theorem ends_setShape (id : Id) (shape : Shape) (s : Store) : Ends (setShape id shape) s := by
  intro cut
  cases cut

theorem steady_claim {α : Type} {d : Descriptor} {rest : Nat → Id × Container → ConvertM α}
    (after : Steady (fun depth => rest depth (s.descriptors.size, claimedContainer nullable s))
      (claimed d nullable s)) :
    Steady (fun depth => claim d nullable >>= rest depth) s := by
  refine steady_bind_const (ends_claim d nullable s) ?_
  intro _ t run
  obtain ⟨rfl, rfl⟩ := returns_claim.mp run
  exact after

theorem steady_parts {α β : Type} {l : List α} {g : α → Fragment} {hint : β → α → String}
    {next : β → α → Container → ConvertM β} (lasting : Lasting keep)
    (each : ∀ i ∈ l, Handled cfg keep o.base (g i))
    (quick : ∀ b i c s, Ends (next b i c) s)
    (told : ∀ b i c s b' t, Returns (next b i c) s b' t → Later s t) {b : β} (start : keep s) :
    Steady (fun depth => l.foldlM (fun b i => do
      let types ← convertDepth cfg depth (g i) (o.child (hint b i))
      next b i types) b) s := by
  refine steady_foldlM keep ?_ ?_ start
  · intro i inside b s kept
    refine (each i inside (hint b i) s kept).bind ?_
    intro _ types t _
    exact steady_of_ends (quick b i types t)
  · intro i _ depth b s c t run kept
    obtain ⟨types, m, one, note⟩ := returns_bind.mp run
    exact lasting _ _ ((convertDepth_later one).trans (told _ _ _ _ _ _ note)) kept

theorem steady_object (lasting : Lasting keep)
    (each : ∀ g ∈ f.properties.map (·.2) ++ extraFragments f, Handled cfg keep o.base g)
    (start : keep (claimed (opening .object f o) nullable s)) :
    Steady (fun depth => convertObject (convertDepth cfg depth) f o nullable) s := by
  have keeps : ∀ depth, ∀ p ∈ f.properties, ∀ s property t, Returns (do
      let types ← convertDepth cfg depth p.2 (o.child (o.hint ++ Naming.pascalCase p.1))
      return { name := p.1, types, required := f.keywords.required.contains p.1,
               readOnly := p.2.keywords.readOnly, fragment := some p.2 : Property }) s property t →
      keep s → keep t := by
    intro depth p _ s property t run kept
    obtain ⟨types, m, one, made⟩ := returns_bind.mp run
    obtain ⟨_, rfl⟩ := returns_pure.mp made
    exact lasting _ _ (convertDepth_later one) kept
  refine steady_claim ?_
  refine Steady.bind (steady_mapM keep ?_ (fun p inside depth => keeps depth p inside) start) ?_
  · intro p inside s kept
    refine Steady.bind (each p.2 (by simp; exact .inl ⟨p.1, inside⟩) _ s kept) ?_
    intro _ _ t _
    exact steady_pure _ t
  · intro depth set t run
    have kept : keep t := mapM_keeps keep (keeps depth) run start
    refine Steady.bind ?_ fun _ _ t _ => steady_pure _ t
    unfold closeObject
    split
    · rename_i extra described
      refine Steady.bind (each extra (by simp [extraFragments, described]) _ t kept) ?_
      intro _ _ t _
      exact steady_of_ends (ends_setShape _ _ t)
    · exact steady_of_ends (ends_setShape _ _ t)
    · split
      · exact steady_of_ends (by intro cut; cases cut)
      · exact steady_of_ends (ends_setShape _ _ t)

theorem steady_array (lasting : Lasting keep)
    (each : ∀ g ∈ f.itemFragments, Handled cfg keep o.base g)
    (start : keep (claimed (opening .array f o) nullable s)) :
    Steady (fun depth => convertArray (convertDepth cfg depth) f o nullable) s := by
  refine steady_claim ?_
  refine Steady.bind (steady_parts (g := id) lasting each ?_ ?_ start) fun _ _ t _ => steady_pure _ t
  · intro _ _ _ _ cut
    cases cut
  · intro _ _ _ _ _ _ note
    cases note
    exact (Touches.shape _).later

theorem steady_composite {whole common : Fragment} {members : List Fragment} {ref base : String}
    (gathers : ∃ depth, Whole (gather cfg depth members base)) :
    Steady (fun depth => composite cfg depth whole common members ref base) s := by
  obtain ⟨enough, uncut⟩ := gathers
  have gathered : Steady (fun depth => (liftM (gather cfg depth members base) : ConvertM Pieces)) s :=
    ⟨enough, (gather cfg enough members base, s), uncut, fun depth more => by
      rw [exec_lift, gather_deep more uncut]⟩
  refine gathered.bind fun _ p t _ => ?_
  refine steady_of_ends ?_
  dsimp only
  split <;> split <;> (intro cut; cases cut)

theorem steady_branchFragments {c : Combinator} {members : List Fragment}
    (gathers : c = .allOf → ∃ depth, Whole (gather cfg depth members o.base)) :
    Steady (fun depth => branchFragments cfg depth c f members o) s := by
  by_cases all : c = .allOf
  · subst all
    exact (steady_composite (gathers rfl)).bind fun _ _ t _ => steady_pure _ t
  · have lifted : Steady (fun _ => (liftM (members.mapM fun member =>
        alternative cfg f.commonPart member o.base) : ConvertM (List Fragment))) s :=
      steady_of_ends (ends_lift (whole_mapM (fun member => whole_alternative cfg f.commonPart member o.base) members) s)
    cases c with
    | allOf => exact absurd rfl all
    | oneOf => exact lifted
    | anyOf => exact lifted

theorem steady_someOf (lasting : Lasting keep)
    (each : ∀ gs, Inner cfg o.base .someOf f gs → ∀ g ∈ gs, Handled cfg keep o.base g)
    (gathers : ∀ members, f.combinator? = some (.allOf, members) →
      ∃ depth, Whole (gather cfg depth members o.base))
    (start : keep (claimed (opening .someOf f o) nullable s)) :
    Steady (fun depth => convertSomeOf cfg depth (convertDepth cfg depth) f o nullable) s := by
  unfold convertSomeOf
  split
  · exact steady_of_ends (by intro cut; cases cut)
  · rename_i c members combined
    have opened : blank .someOf f o (.someOf c []) = opening .someOf f o := by
      simp only [opening, combined, Option.map_some, Option.getD_some]
    refine steady_claim ?_
    refine (steady_branchFragments ?_).bind ?_
    · rintro rfl
      exact gathers members combined
    · intro depth branches t run
      obtain ⟨inner, begun, quiet, _, _, rfl⟩ := returns_branchFragments combined run
      rw [opened]
      have kept : keep (claimed (opening .someOf f o) nullable begun) :=
        lasting _ _ (later_claimed _ _ quiet) start
      refine Steady.bind (steady_parts (g := id) lasting (each branches inner) ?_ ?_ kept)
        fun _ _ t _ => steady_pure _ t
      · intro _ _ _ _ cut
        cases cut
      · intro _ _ _ _ _ _ note
        cases note
        exact (Touches.shape _).later

theorem ends_caseFragment (ref key : String) (raw : Json) (s : Store) :
    Ends (caseFragment ref key raw) s := by
  unfold caseFragment
  split
  · exact ends_pure _ s
  · intro cut
    cases cut

theorem steady_generic (lasting : Lasting keep)
    (each : ∀ key ∈ caseKeys f, ∀ g, Fragment.decode? (caseJson f key) = some g →
      Handled cfg keep o.base g)
    (start : keep (claimed (opening .generic f o) nullable s)) :
    Steady (fun depth => convertGeneric (convertDepth cfg depth) f o nullable) s := by
  refine steady_claim ?_
  refine Steady.bind (steady_foldlM keep ?_ ?_ start) fun _ _ t _ => steady_pure _ t
  · intro key inside cases s kept
    refine steady_bind_const (ends_caseFragment _ _ _ s) ?_
    intro g t read
    obtain ⟨decoded, rfl⟩ := returns_caseFragment read
    refine Steady.bind (each key inside g decoded _ s kept) ?_
    intro _ _ t _
    exact steady_of_ends (by intro cut; cases cut)
  · intro key _ depth done s done' t run kept
    obtain ⟨g, m, read, run⟩ := returns_bind.mp run
    obtain ⟨_, rfl⟩ := returns_caseFragment read
    obtain ⟨types, m, one, run⟩ := returns_bind.mp run
    cases run
    exact lasting _ _ ((convertDepth_later one).trans (Touches.shape _).later) kept

theorem ends_classifyRaw (raw : Json) (ref : String) (s : Store) : Ends (classifyRaw cfg raw ref) s := by
  unfold classifyRaw
  dsimp only
  split <;> (intro cut; cases cut)

theorem ends_convertEnum : Ends (convertEnum cfg f o nullable) s := by
  unfold convertEnum
  dsimp only
  split
  · refine ends_bind (by intro cut; cases cut) ?_
    intro name t _
    exact ends_bind (ends_claim _ _ t) fun _ t _ => ends_pure _ t
  · refine ends_bind (ends_pure _ s) ?_
    intro name t _
    exact ends_bind (ends_claim _ _ t) fun _ t _ => ends_pure _ t

theorem steady_kind {named : Bool} {raw : Json} (lasting : Lasting keep)
    (isRef : f.isRef = false) (single : isMultiType (stripped f) = false)
    (written : (stripped f).toJson? = some raw)
    (each : ∀ g, Nests cfg o.base (named, f) (false, g) → Handled cfg keep o.base g)
    (gathers : kindOf cfg raw = .someOf → ∀ members,
      (stripped f).combinator? = some (.allOf, members) →
      ∃ depth, Whole (gather cfg depth members o.base))
    (start : ∀ kind, keep (claimed (opening kind (stripped f) o) nullable s)) :
    Steady (fun depth =>
      convertKind cfg depth (convertDepth cfg depth) (kindOf cfg raw) (stripped f) o nullable) s := by
  have inside : ∀ gs, Inner cfg o.base (kindOf cfg raw) (stripped f) gs → ∀ g ∈ gs,
      Handled cfg keep o.base g :=
    fun gs inner g member => each g (.node isRef single written inner member)
  have chosen : kindOf cfg raw = .generic → ∀ key ∈ caseKeys (stripped f), ∀ g,
      Fragment.decode? (caseJson (stripped f) key) = some g → Handled cfg keep o.base g :=
    fun generic key known g decoded => each g (.chosen isRef single written generic known decoded)
  generalize kindOf cfg raw = kind at inside chosen gathers ⊢
  cases kind with
  | object => exact steady_object lasting (inside _ .object) (start .object)
  | array => exact steady_array lasting (inside _ .array) (start .array)
  | enum => exact steady_of_ends ends_convertEnum
  | someOf => exact steady_someOf lasting inside (gathers rfl) (start .someOf)
  | generic => exact steady_generic lasting (chosen rfl) (start .generic)
  | _ => exact steady_of_ends (ends_bind (ends_claim _ _ s) fun _ t _ => ends_pure _ t)

theorem steady_node (lasting : Lasting keep) (isRef : f.isRef = false)
    (each : ∀ g, Nests cfg o.base (decide (o.name ≠ ""), f) (false, g) → Handled cfg keep o.base g)
    (gathers : ∀ raw members, (stripped f).toJson? = some raw → kindOf cfg raw = .someOf →
      (stripped f).combinator? = some (.allOf, members) →
      ∃ depth, Whole (gather cfg depth members o.base))
    (union : o.name ≠ "" → isMultiType (stripped f) = true →
      Steady (fun depth => convertDepth cfg depth (typesUnion (stripped f) (keepsNull f)) o) s)
    (unnamed : o.name = "" → keep s)
    (start : ∀ m kind, Quiet s m → keep (claimed (opening kind (stripped f) o) (keepsNull f) m)) :
    Steady (fun depth => convertDepth cfg depth f o) s := by
  refine Steady.shift ?_
  simp only [convertDepth_succ, convertWith_eq, isRef, Bool.false_eq_true, if_false]
  split
  · rename_i multi
    unfold convertMultiType
    dsimp only
    split
    · exact union ‹_› multi
    · rename_i empty
      have empty : o.name = "" := not_not.mp empty
      have handled : ∀ g ∈ typeBranches (stripped f), Handled cfg keep o.base g := by
        intro g inside
        refine each g ?_
        have spot : decide (o.name ≠ "") = false := by simp [empty]
        rw [spot]
        exact .types isRef multi inside
      refine Steady.bind (steady_mapM keep ?_ ?_ (unnamed empty)) ?_
      · exact fun g inside s kept => handled g inside _ s kept
      · exact fun g _ depth s c t run kept => lasting _ _ (convertDepth_later run) kept
      · intro _ parts t _
        refine steady_of_ends ?_
        split <;> (intro cut; cases cut)
  · rename_i single
    split
    · exact steady_of_ends (by intro cut; cases cut)
    · rename_i raw written
      refine steady_bind_const (ends_classifyRaw raw o.ref s) ?_
      intro kind t run
      obtain ⟨rfl, quiet⟩ := returns_classifyRaw run
      exact steady_kind lasting isRef (by simpa using single) written each
        (fun kind members combined => gathers raw members written kind combined)
        (fun kind => start t kind quiet)

end layers

def Leads (cfg : Setting) (ref next : String) : Prop :=
  ∃ f, cfg.resolver.fragment ref = .ok f ∧ f.isRef = true ∧ next = aliasTarget f ref

/-- The fragments that a request for a reference can lead to, with the places they are read at. -/
inductive Met (cfg : Setting) (ref : String) : String → Spot → Prop
  | first {f : Fragment} (resolved : cfg.resolver.fragment (Reference.normalize ref) = .ok f) :
      Met cfg ref (Reference.normalize ref) (true, f)
  | nested {place : String} {x y : Spot} (outer : Met cfg ref place x) (nests : Nests cfg place x y) :
      Met cfg ref place y
  | followed {place : String} {x : Spot} {f : Fragment} (outer : Met cfg ref place x)
      (isRef : x.2.isRef = true) (resolved : cfg.resolver.fragment (aliasTarget x.2 place) = .ok f) :
      Met cfg ref (aliasTarget x.2 place) (true, f)

/-- Nothing that a request for a reference leads to goes on without end. -/
structure Bounded (cfg : Setting) (ref : String) : Prop where
  /-- Finitely many places are met. -/
  finite : ∃ places : List String, ∀ place x, Met cfg ref place x → place ∈ places
  /-- No reference leads to references only. -/
  aliases : ∀ place x, Met cfg ref place x → Acc (fun next ref => Leads cfg ref next) place
  /-- Finitely many references are followed for one `allOf`. -/
  gathers : ∀ place x raw members, Met cfg ref place x → x.2.isRef = false →
    (stripped x.2).toJson? = some raw → kindOf cfg raw = .someOf →
    (stripped x.2).combinator? = some (.allOf, members) →
    ∃ refs, ∀ member ∈ members, FollowsOnly cfg refs (member, place)
  /-- Nothing is merged inside what was merged again and again. -/
  merges : ∀ place x, Met cfg ref place x → Acc (fun z y => MergesInside cfg place y z) x

/-- All names are in order, and fewer than `n` of these places are still to be entered. -/
structure Pending (places : List String) (n : Nat) (s : Store) : Prop where
  named : s.names.Named
  left : Walk.remaining id places s.known < n

theorem Later.known {s t : Store} (later : Later s t) : ∀ ref ∈ s.known, ref ∈ t.known := by
  intro ref inside
  exact List.map_subset _ later.log.subset inside

theorem lasting_pending (places : List String) (n : Nat) : Lasting (Pending places n) := by
  intro s t later pending
  exact ⟨later.names.named pending.named,
    Nat.lt_of_le_of_lt (remaining_mono later.known) pending.left⟩

section

variable {cfg : Setting} {ref : String} {places : List String} {n : Nat}

theorem pending_claimed {s m : Store} {d : Descriptor} (nullable : Bool) (pending : Pending places (n + 1) s)
    (inside : d.ref ∈ places) (owned : d.ref ≠ "") (absent : s.lookup? d.ref = none) (quiet : Quiet s m) :
    Pending places n (claimed d nullable m) := by
  have later : Later m (claimed d nullable m) := (grows_claimed d nullable m).later
  have fresh : d.ref ∉ s.known := by
    rw [Store.mem_known, absent]
    simp
  have entered : ∀ ref ∈ d.ref :: s.known, ref ∈ (claimed d nullable m).known := by
    intro ref member
    rcases List.mem_cons.mp member with rfl | older
    · rw [Store.mem_known, lookup?_claimed m nullable owned]
      rfl
    · exact later.known ref (quiet.grows.later.known ref older)
  have fewer := Nat.lt_of_le_of_lt (remaining_mono entered) (remaining_lt inside fresh)
  exact ⟨(quiet.grows.later.trans later).names.named pending.named,
    Nat.lt_of_lt_of_le fewer (Nat.le_of_lt_succ pending.left)⟩

theorem Bounded.gathered (bounded : Bounded cfg ref) {place : String} {x : Spot}
    (met : Met cfg ref place x) (isRef : x.2.isRef = false) {raw : Json} {members : List Fragment}
    (written : (stripped x.2).toJson? = some raw) (kind : kindOf cfg raw = .someOf)
    (combined : (stripped x.2).combinator? = some (.allOf, members)) :
    ∃ depth, Whole (gather cfg depth members place) := by
  obtain ⟨refs, only⟩ := bounded.gathers place x raw members met isRef written kind combined
  exact gather_whole only

theorem Bounded.next_aliases (bounded : Bounded cfg ref) {place : String} {x : Spot}
    (met : Met cfg ref place x) (isRef : x.2.isRef = true) :
    Acc (fun next ref => Leads cfg ref next) (aliasTarget x.2 place) := by
  constructor
  rintro next ⟨f, resolved, followed, rfl⟩
  exact (bounded.aliases _ _ (met.followed isRef resolved)).inv ⟨f, resolved, followed, rfl⟩

/-- A fragment under a reference is registered first, so that fewer places are left for what is inside
it. -/
theorem steady_entered (bounded : Bounded cfg ref) (all : ∀ place x, Met cfg ref place x → place ∈ places)
    (inside : ∀ place g, Met cfg ref place (false, g) → Handled cfg (Pending places n) place g)
    {place name : String} {f : Fragment} {s : Store} (met : Met cfg ref place (true, f))
    (isRef : f.isRef = false) (owned : place ≠ "") (named : name ≠ "")
    (pending : Pending places (n + 1) s) (absent : s.lookup? place = none) :
    Steady (fun depth => convertDepth cfg depth f { name, ref := place, base := place }) s := by
  have spot : decide (name ≠ "") = true := by simpa using named
  -- said for any fragment at this place: `f` itself, and the union that stands for its types
  have node : ∀ g, Met cfg ref place (true, g) → g.isRef = false →
      (isMultiType (stripped g) = true → Steady (fun depth => convertDepth cfg depth
        (typesUnion (stripped g) (keepsNull g)) { name, ref := place, base := place }) s) →
      Steady (fun depth => convertDepth cfg depth g { name, ref := place, base := place }) s := by
    intro g met isRef union
    refine steady_node (lasting_pending places n) isRef ?_ ?_ (fun _ => union)
      (fun empty => absurd empty named) ?_
    · intro h nests
      dsimp only at nests
      rw [spot] at nests
      exact inside place h (met.nested nests)
    · intro raw members written kind combined
      exact bounded.gathered met isRef written kind combined
    · intro m kind quiet
      refine pending_claimed _ pending ?_ ?_ ?_ quiet
      · rw [opening_ref]
        exact all place _ met
      · rw [opening_ref]
        exact owned
      · rw [opening_ref]
        exact absent
  refine node f met isRef ?_
  intro multi
  refine node _ (met.nested (.union isRef multi)) rfl ?_
  intro again
  have single : isMultiType (stripped (typesUnion (stripped f) (keepsNull f))) = false :=
    isMultiType_stripped (Nat.zero_le 1)
  rw [single] at again
  cases again

theorem steady_find (bounded : Bounded cfg ref) (all : ∀ place x, Met cfg ref place x → place ∈ places)
    (inside : ∀ place g, Met cfg ref place (false, g) → Handled cfg (Pending places n) place g)
    {place : String} (aliases : Acc (fun next ref => Leads cfg ref next) place) {asked : String}
    (same : Reference.normalize asked = place)
    (met : ∀ f, cfg.resolver.fragment place = .ok f → Met cfg ref place (true, f)) {s : Store}
    (pending : Pending places (n + 1) s) :
    Steady (fun depth => findOrCreateWith cfg (convertDepth cfg depth) asked) s := by
  -- along the references to references; these add no entry before the last one is converted
  induction aliases generalizing asked s with
  | intro place _ ih =>
    subst same
    simp only [findOrCreateWith]
    refine steady_bind_const (ends_get s) ?_
    intro _ _ got
    cases got
    split
    · exact steady_pure _ s
    · rename_i absent
      refine steady_bind_const (ends_lift (whole_resolve cfg _) s) ?_
      intro f _ lifted
      obtain ⟨resolved, rfl⟩ := returns_lift.mp lifted
      have resolved := fragment_of_resolve resolved
      refine steady_bind_const (ends_modifyGet _ s) ?_
      intro name t naming
      rw [returns_modifyGet] at naming
      have filled := Registry.claim_ne_empty pending.named (Reference.normalize asked)
        (Naming.modelName_ne_empty (Reference.parse (Reference.normalize asked)).lastSegment)
      rcases given : s.names.claim (Reference.normalize asked)
        (Naming.modelName (Reference.parse (Reference.normalize asked)).lastSegment) with ⟨name, names⟩
      rw [given] at naming filled
      cases naming
      have pending := lasting_pending places (n + 1) _ _
        (later_claim given) pending
      split
      · exact steady_of_ends (ends_bind (ends_claim _ _ _) fun _ t _ => ends_pure _ t)
      · by_cases isRef : f.isRef = true
        · refine Steady.shift ?_
          simp only [convertDepth_succ, convertWith_eq, isRef, if_true]
          refine Steady.bind (ih _ ⟨f, resolved, isRef, rfl⟩ rfl ?_ pending) ?_
          · intro g next
            exact (met f resolved).followed isRef next
          · intro _ _ t _
            exact steady_of_ends (by intro cut; cases cut)
        · exact steady_entered bounded all inside (met f resolved) (by simpa using isRef)
            (normalize_ne_empty asked) filled pending absent

/-- However many places are left, everything that is met inside another fragment comes to an end. -/
theorem handled_met (bounded : Bounded cfg ref) (all : ∀ place x, Met cfg ref place x → place ∈ places)
    (n : Nat) {place : String} {g : Fragment} (met : Met cfg ref place (false, g)) :
    Handled cfg (Pending places n) place g := by
  induction n generalizing place g with
  | zero =>
    intro hint s pending
    exact absurd pending.left (Nat.not_lt_zero _)
  | succ n fewer =>
    have nests := acc_nests (bounded.merges place _ met)
    generalize spot : (false, g) = x at nests met
    induction nests generalizing g with
    | intro x _ ih =>
      subst spot
      intro hint s pending
      by_cases isRef : g.isRef = true
      · refine Steady.shift ?_
        simp only [convertDepth_succ, convertWith_eq, isRef, if_true]
        refine Steady.bind ?_ fun _ _ t _ => steady_of_ends (by intro cut; cases cut)
        exact steady_find bounded all (fun _ _ => fewer) (bounded.next_aliases met isRef) rfl
          (fun _ resolved => met.followed isRef resolved) pending
      · have isRef : g.isRef = false := by simpa using isRef
        refine steady_node (lasting_pending places (n + 1)) isRef ?_ ?_ (fun named => absurd rfl named)
          (fun _ => pending) ?_
        · intro h nests
          exact ih _ nests rfl (met.nested nests)
        · intro raw members written kind combined
          exact bounded.gathered met isRef written kind combined
        · intro m kind quiet
          exact lasting_pending places (n + 1) _ _
            (quiet.grows.trans (grows_claimed _ _ _)).later pending

end

end Typesmith.Model
