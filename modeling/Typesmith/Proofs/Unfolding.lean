import Mathlib.Data.List.Chain
import Typesmith.Proofs.Undisturbed

namespace Typesmith.Model

/-- The descriptor at a place has a name, or nothing inside it. -/
def Closed (s : Store) (i : Id) : Prop :=
  ∃ d, s.get? i = some d ∧ (d.name ≠ "" ∨ d.Bare)

def Beyond (n : Nat) (s : Store) (i : Id) : Prop :=
  Closed s i ∨ (n ≤ i ∧ i < s.descriptors.size)

/-- What is inside a descriptor is closed, or was stored after it. -/
def Unfolds (s : Store) : Prop :=
  ∀ i d, s.get? i = some d → ∀ j ∈ d.shape.inside, Beyond (i + 1) s j

section

variable {s t : Store} {n i id : Nat}

theorem Closed.lt (closed : Closed s i) : i < s.descriptors.size := by
  obtain ⟨d, found, _⟩ := closed
  exact Store.get?_lt found

theorem Beyond.lt (beyond : Beyond n s i) : i < s.descriptors.size := by
  rcases beyond with closed | ⟨_, small⟩
  · exact closed.lt
  · exact small

theorem Beyond.weaken {m : Nat} (beyond : Beyond n s i) (less : m ≤ n) : Beyond m s i :=
  beyond.imp_right fun ⟨later, small⟩ => ⟨Nat.le_trans less later, small⟩

theorem Closed.grows (closed : Closed s i) (grows : Grows s t) : Closed t i := by
  obtain ⟨d, found, named⟩ := closed
  exact ⟨d, by rw [grows.kept i (Store.get?_lt found), found], named⟩

theorem Closed.setShape (closed : Closed s i) (id : Id) (shape : Shape) : Closed (s.setShape id shape) i := by
  obtain ⟨d, found, named⟩ := closed
  rw [Closed, Store.get?_setShape, found]
  split
  · exact ⟨_, rfl, named⟩
  · exact ⟨d, rfl, named⟩

theorem Closed.touches (closed : Closed s i) (touches : Touches id s t) : Closed t i := by
  cases touches with
  | nothing => exact closed
  | shape shape => exact closed.setShape id shape
  | any shape => exact (closed.grows ((Grows.refl s).push _)).setShape id shape

theorem Touches.size (touches : Touches id s t) : s.descriptors.size ≤ t.descriptors.size := by
  cases touches with
  | nothing => exact Nat.le_refl _
  | shape shape => rw [Store.size_setShape]
  | any shape =>
    rw [Store.size_setShape, Store.size_push]
    exact Nat.le_succ _

structure Secures (s t : Store) : Prop where
  closed : ∀ j, Closed s j → Closed t j
  size : s.descriptors.size ≤ t.descriptors.size

theorem Secures.refl (s : Store) : Secures s s :=
  ⟨fun _ closed => closed, Nat.le_refl _⟩

theorem Secures.trans {u : Store} (first : Secures s t) (second : Secures t u) : Secures s u :=
  ⟨fun j closed => second.closed j (first.closed j closed), Nat.le_trans first.size second.size⟩

theorem Grows.secures (grows : Grows s t) : Secures s t :=
  ⟨fun _ closed => closed.grows grows, grows.size⟩

theorem Touches.secures (touches : Touches id s t) : Secures s t :=
  ⟨fun _ closed => closed.touches touches, touches.size⟩

theorem Beyond.secures (beyond : Beyond n s i) (secures : Secures s t) : Beyond n t i :=
  beyond.imp (secures.closed i) fun ⟨later, small⟩ => ⟨later, Nat.lt_of_lt_of_le small secures.size⟩

theorem unfolds_fresh : Unfolds {} := by
  intro i d found
  simp [Store.get?] at found

theorem Unfolds.of_same (unfolds : Unfolds s) (same : t.descriptors = s.descriptors) : Unfolds t := by
  have get : ∀ i, t.get? i = s.get? i := fun i => by simp only [Store.get?, same]
  intro i d found j inside
  rw [get] at found
  have beyond := unfolds i d found j inside
  unfold Beyond Closed at beyond ⊢
  rw [get, same]
  exact beyond

theorem Unfolds.push (unfolds : Unfolds s) {d : Descriptor} (empty : d.shape.inside = []) :
    Unfolds (s.push d).2 := by
  intro i e found j inside
  rw [Store.get?_push] at found
  split at found
  · cases found
    rw [empty] at inside
    cases inside
  · exact (unfolds i e found j inside).secures ((Grows.refl s).push d).secures

theorem Unfolds.claimed (unfolds : Unfolds s) {d : Descriptor} (nullable : Bool)
    (empty : d.shape.inside = []) : Unfolds (claimed d nullable s) := by
  have opened : Unfolds (s.push { d with nullable }).2 := unfolds.push empty
  unfold Model.claimed
  split
  · exact (opened.push rfl).of_same (Store.descriptors_register _ _ _)
  · exact opened.of_same (Store.descriptors_register _ _ _)

theorem Unfolds.setShape (unfolds : Unfolds s) {shape : Shape}
    (each : ∀ j ∈ shape.inside, Beyond (id + 1) s j) : Unfolds (s.setShape id shape) := by
  have touches : Touches id s (s.setShape id shape) := .shape shape
  intro i d found j inside
  refine Beyond.secures ?_ touches.secures
  rw [Store.get?_setShape] at found
  split at found
  · rename_i same
    obtain ⟨e, _, rfl⟩ := Option.map_eq_some_iff.mp found
    rw [same]
    exact each j inside
  · exact unfolds i d found j inside

theorem opening_inside (kind : Kind) (f : Fragment) (o : Options) :
    (opening kind f o).shape.inside = [] := by
  cases kind with
  | generic => simp [opening, blank, Shape.inside]
  | _ => rfl

theorem mem_casesSoFar {f : Fragment} {cs : List Container} {j : Id}
    (inside : j ∈ (casesSoFar f cs).flatMap (·.2)) : j ∈ cs.flatten := by
  obtain ⟨⟨key, types⟩, listed, inside⟩ := List.mem_flatMap.mp inside
  rcases List.mem_append.mp listed with done | coming
  · exact List.mem_flatten.mpr ⟨types, (List.of_mem_zip done).2, inside⟩
  · obtain ⟨_, _, same⟩ := List.mem_map.mp coming
    cases same
    cases inside

theorem mem_types_propertySet {f : Fragment} {cs : List Container} {j : Id}
    (inside : j ∈ (propertySet f cs).flatMap (·.types)) : j ∈ cs.flatten := by
  obtain ⟨p, listed, inside⟩ := List.mem_flatMap.mp inside
  obtain ⟨⟨property, types⟩, zipped, rfl⟩ := List.mem_map.mp listed
  exact List.mem_flatten.mpr ⟨types, (List.of_mem_zip zipped).2, inside⟩

theorem Unfolds.noted (unfolds : Unfolds s) {kind : Kind} {f : Fragment} {cs : List Container}
    (each : ∀ j ∈ cs.flatten, Beyond (id + 1) s j) : Unfolds (noted kind f id cs s) := by
  unfold Model.noted
  split
  · exact unfolds.setShape each
  · exact unfolds.setShape each
  · exact unfolds.setShape fun j inside => each j (mem_casesSoFar inside)
  · exact unfolds

theorem Unfolds.finished (unfolds : Unfolds s) {kind : Kind} {f : Fragment} {cs : List Container}
    (small : id < s.descriptors.size) (each : ∀ j ∈ cs.flatten, Beyond (id + 1) s j) :
    Unfolds (finished kind f id cs s) := by
  have listed : ∀ closed, ∀ j ∈ (Shape.object [propertySet f cs] closed).inside, Beyond (id + 1) s j := by
    intro closed j inside
    exact each j (mem_types_propertySet (by simpa [Shape.inside] using inside))
  unfold Model.finished
  split
  · split
    · apply unfolds.setShape
      intro j inside
      have among : j ∈ (propertySet f cs).flatMap (·.types) ∨ j ∈ cs.getLastD [] := by
        simpa [Shape.inside, indexProperty] using inside
      rcases among with property | extra
      · exact each j (mem_types_propertySet property)
      · cases cs with
        | nil => cases extra
        | cons c cs =>
          rw [List.getLastD_cons] at extra
          exact each j (List.mem_flatten.mpr ⟨_, List.getLastD_mem_cons, extra⟩)
    · exact unfolds.setShape (listed _)
    · split
      · have pushed : Unfolds (s.push anyDescriptor).2 := unfolds.push rfl
        apply pushed.setShape
        intro j inside
        obtain rfl : j = s.descriptors.size := by simpa [Shape.inside, indexProperty] using inside
        refine .inr ⟨small, ?_⟩
        rw [Store.size_push]
        exact Nat.lt_succ_self _
      · exact unfolds.setShape (listed _)
  · exact unfolds

/-- What makes texts come to an end: what was given a name has one, what the index lists is closed, and
what has nothing inside it shows it. -/
structure Grounded (s : Store) : Prop where
  named : s.names.Named
  listed : ∀ ref c, (ref, c) ∈ s.index → ∀ i ∈ c, Closed s i
  bare : ∀ i d, s.get? i = some d → d.Bare → d.shape.Bare
  unfolds : Unfolds s

theorem Tidy.grounded (tidy : Tidy s) (unfolds : Unfolds s) : Grounded s :=
  ⟨tidy.named, tidy.listed, tidy.bare, unfolds⟩

theorem Grounded.of_quiet (grounded : Grounded s) (quiet : Quiet s t) : Grounded t := by
  have get : ∀ i, t.get? i = s.get? i := fun i => by simp only [Store.get?, quiet.descriptors]
  refine ⟨quiet.names.named grounded.named, ?_, ?_, grounded.unfolds.of_same quiet.descriptors⟩
  · intro ref c member i inside
    rw [quiet.index] at member
    exact (grounded.listed ref c member i inside).grows quiet.grows
  · intro i d found
    rw [get] at found
    exact grounded.bare i d found

theorem closed_register {ref : String} {c : Container} : Closed (s.register ref c) i ↔ Closed s i := by
  rw [Closed, Closed, get?_register]

theorem Grounded.register (grounded : Grounded s) {ref : String} {c : Container}
    (closed : ref ≠ "" → ∀ i ∈ c, Closed s i) : Grounded (s.register ref c) := by
  refine ⟨?_, ?_, ?_, grounded.unfolds.of_same (Store.descriptors_register _ _ _)⟩
  · rw [Store.names_register]
    exact grounded.named
  · intro other found member i inside
    rw [closed_register]
    by_cases empty : ref = ""
    · rw [empty, Store.register_empty] at member
      exact grounded.listed other found member i inside
    · rw [Store.index_register c empty] at member
      rcases List.mem_cons.mp member with same | older
      · cases same
        exact closed empty i inside
      · exact grounded.listed other found older i inside
  · intro i d found
    rw [get?_register] at found
    exact grounded.bare i d found

theorem Grounded.push (grounded : Grounded s) {d : Descriptor} (bare : d.Bare → d.shape.Bare)
    (empty : d.shape.inside = []) : Grounded (s.push d).2 := by
  refine ⟨grounded.named, ?_, ?_, grounded.unfolds.push empty⟩
  · exact fun ref c member i inside => (grounded.listed ref c member i inside).grows ((Grows.refl s).push d)
  · intro i e found
    rw [Store.get?_push] at found
    split at found
    · cases found
      exact bare
    · exact grounded.bare i e found

theorem Grounded.told (grounded : Grounded s) {kind : Kind} (standing : Standing id kind s)
    (touches : Touches id s t) (idle : kind = .external ∨ kind = .null → t = s) (unfolds : Unfolds t) :
    Grounded t := by
  by_cases leaf : kind = .external ∨ kind = .null
  · rw [idle leaf]
    exact grounded
  obtain ⟨d, found, same⟩ := standing.touches touches
  have names : t.names = s.names := by cases touches <;> rfl
  refine ⟨names ▸ grounded.named, ?_, ?_, unfolds⟩
  · intro ref c member i inside
    rw [touches.index] at member
    exact (grounded.listed ref c member i inside).touches touches
  · intro i e held bare
    have other : i ≠ id := by
      rintro rfl
      rw [found] at held
      cases held
      rw [← same] at leaf
      exact leaf bare
    cases touches with
    | nothing => exact grounded.bare i e held bare
    | shape shape =>
      rw [Store.get?_setShape, if_neg other] at held
      exact grounded.bare i e held bare
    | any shape =>
      rw [Store.get?_setShape, if_neg other] at held
      exact (grounded.push (d := anyDescriptor) (fun _ => trivial) rfl).bare i e held bare

theorem Each.collects {R : Converts} {base : String} {note : List Container → Store → Store}
    {gs : List Fragment} {cs out : List Container} (each : Each R base note gs cs s out t)
    (keep : List Container → Store → Prop)
    (part : ∀ g hint cs s c m, R g { suggested := hint, base } s c m → keep cs s →
      keep (cs ++ [c]) (note (cs ++ [c]) m)) (start : keep cs s) : keep out t := by
  induction each with
  | done => exact start
  | part first _ ih => exact ih (part _ _ _ _ _ _ first start)

def Grounds : Converts := fun _ o s c t =>
  Grows s t ∧ (Grounded s → (o.ref ≠ "" → o.name ≠ "") →
    Grounded t ∧ (∀ j ∈ c, Beyond s.descriptors.size t j) ∧ (o.name ≠ "" → ∀ j ∈ c, Closed t j))

theorem closed_claimed {d : Descriptor} (closed : d.name ≠ "" ∨ d.Bare) {nullable : Bool} {j : Id}
    (inside : j ∈ claimedContainer nullable s) : Closed (claimed d nullable s) j := by
  rcases mem_claimedContainer (d := d) inside with ⟨_, found⟩ | found
  · exact ⟨_, found, closed⟩
  · exact ⟨_, found, .inr (.inr rfl)⟩

theorem Grounded.claimed (grounded : Grounded s) {d : Descriptor} (nullable : Bool)
    (closed : d.ref ≠ "" → d.name ≠ "" ∨ d.Bare) (bare : d.Bare → d.shape.Bare)
    (empty : d.shape.inside = []) : Grounded (claimed d nullable s) := by
  refine ⟨?_, ?_, ?_, grounded.unfolds.claimed nullable empty⟩
  · rw [names_claimed]
    exact grounded.named
  · intro ref c member i inside
    have older : (ref, c) ∈ s.index → Closed (Model.claimed d nullable s) i := fun member =>
      (grounded.listed ref c member i inside).grows (grows_claimed d nullable s)
    rw [index_claimed] at member
    split at member
    · exact older member
    · rename_i owned
      rcases List.mem_cons.mp member with same | before
      · cases same
        exact closed_claimed (closed owned) inside
      · exact older before
  · intro i e found
    rcases get?_of_claimed found with before | ⟨_, rfl⟩ | ⟨_, _, rfl⟩
    · exact grounded.bare i e before
    · exact bare
    · exact fun _ => trivial

variable {cfg : Setting}

theorem Grounds.finds {ref : String} {c : Container} (finds : Finds cfg Grounds ref s c t)
    (grounded : Grounded s) : Grounded t ∧ ∀ j ∈ c, Closed t j := by
  cases finds with
  | known found => exact ⟨grounded, grounded.listed _ _ (Json.mem_of_lookup found)⟩
  | @replaced f name other names absent resolved given overridden =>
    have started : Grounded { s with names } := grounded.of_quiet (quiet_claim given)
    have closed : (externalDescriptor f { ref := Reference.normalize ref } other).Bare := .inl rfl
    exact ⟨started.claimed false (fun _ => .inr closed) (fun _ => trivial) rfl,
      fun j inside => closed_claimed (s := { s with names }) (.inr closed) inside⟩
  | @converted f name names c t absent resolved given kept inside =>
    have named := Registry.claim_ne_empty grounded.named (Reference.normalize ref)
      (Naming.modelName_ne_empty (Reference.parse (Reference.normalize ref)).lastSegment)
    rw [given] at named
    obtain ⟨after, _, closed⟩ := inside.2 (grounded.of_quiet (quiet_claim given)) fun _ => named
    exact ⟨after, closed named⟩

theorem mem_flatten_concat {cs : List Container} {c : Container} {j : Id}
    (inside : j ∈ (cs ++ [c]).flatten) : j ∈ cs.flatten ∨ j ∈ c := by
  rw [List.flatten_concat] at inside
  exact List.mem_append.mp inside

theorem beyond_claimed (d : Descriptor) {nullable : Bool} {j : Id}
    (inside : j ∈ claimedContainer nullable s) :
    Beyond s.descriptors.size (claimed d nullable s) j := by
  refine .inr ?_
  cases nullable with
  | false =>
    have size : (claimed d false s).descriptors.size = s.descriptors.size + 1 := size_claimed d false s
    have own : j = s.descriptors.size := by simpa [claimedContainer] using inside
    rw [size, own]
    exact ⟨Nat.le_refl _, Nat.lt_succ_self _⟩
  | true =>
    have size : (claimed d true s).descriptors.size = s.descriptors.size + 2 := size_claimed d true s
    have among : j = s.descriptors.size ∨ j = s.descriptors.size + 1 := by
      simpa [claimedContainer] using inside
    rw [size]
    rcases among with rfl | rfl
    · exact ⟨Nat.le_refl _, Nat.lt_add_of_pos_right (by decide)⟩
    · exact ⟨Nat.le_succ _, Nat.lt_succ_self _⟩

theorem Grounded.sideBySide (grounded : Grounded s) (nullable : Bool) {cs : List Container}
    (each : ∀ j ∈ cs.flatten, Beyond n s j) :
    Grounded (sideBySide nullable cs s).2 ∧
      ∀ j ∈ (sideBySide nullable cs s).1, Beyond n (sideBySide nullable cs s).2 j := by
  unfold Model.sideBySide
  split
  · refine ⟨grounded.push (fun _ => trivial) rfl, ?_⟩
    intro j inside
    rcases List.mem_append.mp inside with part | null
    · exact (each j part).secures ((Grows.refl s).push _).secures
    · obtain rfl : j = s.descriptors.size := by simpa using null
      refine .inl ⟨nullDescriptor, ?_, .inr (.inr rfl)⟩
      rw [Store.get?_push, if_pos rfl]
  · exact ⟨grounded, each⟩

theorem opening_closed {kind : Kind} {f : Fragment} {o : Options} (named : o.name ≠ "") :
    (opening kind f o).name ≠ "" ∨ (opening kind f o).Bare := by
  rcases opening_name kind f o with same | ⟨_, rfl⟩
  · exact .inl (same ▸ named)
  · exact .inr (.inl rfl)

theorem Grounded.opened (grounded : Grounded s) {kind : Kind} {f : Fragment} {o : Options} (nullable : Bool)
    (entitled : o.ref ≠ "" → o.name ≠ "") : Grounded (Model.claimed (opening kind f o) nullable s) := by
  refine grounded.claimed nullable ?_ opening_bare (opening_inside _ _ _)
  rw [opening_ref]
  exact fun owned => opening_closed (entitled owned)

/-- What is known while the fragments inside a descriptor are converted: all of them come after it. -/
theorem Grounds.underway {base : String} {kind : Kind} {f : Fragment} {gs : List Fragment} {cs : List Container}
    (each : Each Grounds base (noted kind f id) gs [] s cs t) (grounded : Grounded s)
    (standing : Standing id kind s) :
    Grounded t ∧ Standing id kind t ∧ (∀ j ∈ cs.flatten, Beyond (id + 1) t j) ∧ Secures s t := by
  refine each.collects (fun cs t => Grounded t ∧ Standing id kind t ∧
    (∀ j ∈ cs.flatten, Beyond (id + 1) t j) ∧ Secures s t) ?_ ⟨grounded, standing, by simp, .refl s⟩
  rintro h hint cs m c u ⟨grows, grounds⟩ ⟨grounded, standing, before, secures⟩
  obtain ⟨after, new, _⟩ := grounds grounded fun owned => absurd rfl owned
  have all : ∀ j ∈ (cs ++ [c]).flatten, Beyond (id + 1) u j := by
    intro j among
    rcases mem_flatten_concat among with older | newer
    · exact (before j older).secures grows.secures
    · obtain ⟨_, stored, _⟩ := standing
      exact (new j newer).weaken (Store.get?_lt stored)
  have touches := noted_touches kind f id (cs ++ [c]) u
  have standing := standing.grows grows
  refine ⟨after.told standing touches ?_ (after.unfolds.noted all), standing.touches touches,
    fun j among => (all j among).secures touches.secures,
    secures.trans (grows.secures.trans touches.secures)⟩
  rintro (rfl | rfl) <;> rfl

theorem Grounds.built {kind : Kind} {f : Fragment} {o : Options} {nullable : Bool} {c : Container}
    (built : Built cfg Grounds kind f o nullable s c t) (grounded : Grounded s)
    (entitled : o.ref ≠ "" → o.name ≠ "") :
    Grounded t ∧ (∀ j ∈ c, Beyond s.descriptors.size t j) ∧ (o.name ≠ "" → ∀ j ∈ c, Closed t j) := by
  obtain @⟨name, gs, cs, start, t, titled, quiet, _, each⟩ := built
  have own : o.name ≠ "" → name ≠ "" := by
    cases titled with
    | own => exact id
    | new _ unnamed => exact fun named => absurd unnamed named
  have opened : Grounded (claimed (opening kind f { o with name }) nullable start) :=
    (grounded.of_quiet quiet).opened nullable fun owned => own (entitled owned)
  have standing : Standing start.descriptors.size kind
      (claimed (opening kind f { o with name }) nullable start) :=
    ⟨_, get?_claimed _ _ _, opening_kind _ _ _⟩
  obtain ⟨after, standing, all, secures⟩ := Grounds.underway each opened standing
  have touches := finished_touches kind f start.descriptors.size cs t
  have secures := secures.trans touches.secures
  obtain ⟨_, stored, _⟩ := id standing
  refine ⟨after.told standing touches ?_ (after.unfolds.finished (Store.get?_lt stored) all), ?_, ?_⟩
  · rintro (rfl | rfl) <;> rfl
  · intro j among
    rw [← quiet.descriptors]
    exact (beyond_claimed _ among).secures secures
  · exact fun named j among => secures.closed j (closed_claimed (opening_closed (own named)) among)

theorem grounds_step {f : Fragment} {o : Options} {c : Container} (step : Step cfg Grounds f o s c t) :
    Grounds f o s c t := by
  refine ⟨step.grows fun _ _ _ _ _ inside => inside.1, fun grounded entitled => ?_⟩
  cases step with
  | ref isRef found =>
    obtain ⟨after, closed⟩ := Grounds.finds found grounded
    have listed : ∀ j ∈ c, Closed (Store.register _ o.ref c) j :=
      fun j inside => closed_register.mpr (closed j inside)
    exact ⟨after.register fun _ => closed, fun j inside => .inl (listed j inside), fun _ => listed⟩
  | union isRef multi named inside => exact inside.2 grounded entitled
  | @types _ _ _ t cs isRef multi unnamed each =>
    have unowned : o.ref = "" := by
      by_contra owned
      exact entitled owned unnamed
    obtain ⟨_, after, all⟩ := each.collects
      (fun cs t => Grows s t ∧ Grounded t ∧ ∀ j ∈ cs.flatten, Beyond s.descriptors.size t j)
      (by
        rintro h hint cs m c u ⟨grows, grounds⟩ ⟨grown, grounded, before⟩
        obtain ⟨after, new, _⟩ := grounds grounded fun owned => absurd rfl owned
        refine ⟨grown.trans grows, after, ?_⟩
        intro j among
        rcases mem_flatten_concat among with older | newer
        · exact (before j older).secures grows.secures
        · exact (new j newer).weaken grown.size)
      ⟨.refl s, grounded, by simp⟩
    obtain ⟨after, beside⟩ := after.sideBySide (keepsNull f) all
    rw [unowned, Store.register_empty]
    exact ⟨after, beside, fun named => absurd unnamed named⟩
  | node isRef single written built => exact Grounds.built built grounded entitled

theorem convertDepth_grounds {depth : Nat} {f : Fragment} {o : Options} {c : Container}
    (run : Returns (convertDepth cfg depth f o) s c t) : Grounds f o s c t :=
  convertDepth_keeps (fun _ _ _ _ _ => grounds_step) run

theorem findOrCreate_grounded {ref : String} {c : Container} (run : Returns (findOrCreate cfg ref) s c t)
    (grounded : Grounded s) : Grounded t ∧ ∀ j ∈ c, Closed t j :=
  Grounds.finds (findOrCreate_keeps (fun _ _ _ _ _ => grounds_step) run) grounded

theorem findOrCreate_unfolds {ref : String} {c : Container} (run : Returns (findOrCreate cfg ref) s c t)
    (tidy : Tidy s) (unfolds : Unfolds s) : Unfolds t :=
  (findOrCreate_grounded run (tidy.grounded unfolds)).1.unfolds

theorem Requests.unfold (requests : Requests cfg {} s) : Tidy s ∧ Unfolds s := by
  induction requests with
  | none => exact ⟨tidy_fresh, unfolds_fresh⟩
  | more before last ih =>
    obtain ⟨tidy, unfolds⟩ := ih
    exact ⟨(findOrCreate_tidy last tidy).1, findOrCreate_unfolds last tidy unfolds⟩

def Contains (s : Store) (i j : Id) : Prop :=
  ∃ d, s.get? i = some d ∧ j ∈ d.shape.inside

theorem inlineDepth_named (cfg : Setting) {d : Descriptor} {i j : Id} (found : s.get? i = some d)
    (named : d.name ≠ "") (inside : j ∈ d.shape.inside) (depth : Nat) :
    inlineDepth cfg s (depth + 1) i = reference i d := by
  change inlineWith cfg s (inlineDepth cfg s depth) i = _
  unfold inlineWith fetch
  rw [found]
  dsimp only
  rw [pure_bind]
  cases shape : d.shape with
  | external name => simp [shape, Shape.inside] at inside
  | enum members => simp [shape, Shape.inside] at inside
  | _ => exact if_pos named

theorem isChain_source {α : Type} {R : α → α → Prop} {l : List α} {last a : α}
    (chain : List.IsChain R (l ++ [last])) (inside : a ∈ l) : ∃ b, R a b := by
  obtain ⟨before, after, rfl⟩ := List.append_of_mem inside
  rw [List.append_assoc, List.cons_append] at chain
  have rest := chain.right_of_append
  cases after with
  | nil => exact ⟨last, List.rel_of_isChain_cons_cons rest⟩
  | cons b after => exact ⟨b, List.rel_of_isChain_cons_cons rest⟩

/-- Every circle of descriptors goes through one that has a name. -/
theorem Unfolds.circle (unfolds : Unfolds s) (tidy : Tidy s) {path : List Id}
    (chain : List.IsChain (Contains s) (i :: path ++ [i])) :
    ∃ j ∈ i :: path, ∃ d, s.get? j = some d ∧ d.name ≠ "" ∧ d.shape.inside ≠ [] := by
  by_contra none
  -- without a name, whatever contains something is not closed
  have unnamed : ∀ j ∈ i :: path, ¬ Closed s j := by
    rintro j inside ⟨d, found, named | bare⟩
    all_goals obtain ⟨k, e, again, contained⟩ := isChain_source chain inside
    all_goals rw [found] at again
    all_goals cases again
    · exact none ⟨j, inside, d, found, named, List.ne_nil_of_mem contained⟩
    · rw [(tidy.bare j d found bare).inside] at contained
      cases contained
  have upward : List.IsChain (· < ·) (i :: path ++ [i]) := by
    apply chain.imp_of_mem_imp
    rintro j k _ inside ⟨d, found, contained⟩
    have among : k ∈ i :: path := by
      rcases List.mem_append.mp inside with early | late
      · exact early
      · rw [List.mem_singleton.mp late]
        exact List.mem_cons_self
    rcases unfolds j d found k contained with closed | ⟨later, _⟩
    · exact absurd closed (unnamed k among)
    · exact later
  have loop : i < i := upward.rel_cons (by simp)
  exact Nat.lt_irrefl i loop

theorem Closed.completes (closed : Closed s i) (grounded : Grounded s) (depth : Nat) :
    Completes (inlineDepth cfg s (depth + 1) i) := by
  obtain ⟨d, found, named⟩ := closed
  apply completes_composes.inlineWith found (completes_reference i d)
  intro unnamed j inside
  rw [(grounded.bare i d found (named.resolve_left (not_not.mpr unnamed))).inside] at inside
  cases inside

/-- A descriptor needs no more depth than there are descriptors from it on. -/
theorem Grounded.completes (grounded : Grounded s) {depth : Nat}
    (small : i < s.descriptors.size) (enough : s.descriptors.size < i + depth) :
    Completes (inlineDepth cfg s depth i) := by
  induction depth generalizing i with
  | zero => omega
  | succ depth ih =>
    obtain ⟨d, found⟩ : ∃ d, s.get? i = some d := ⟨_, Array.getElem?_eq_getElem small⟩
    apply completes_composes.inlineWith found (completes_reference i d)
    intro _ j inside
    rcases grounded.unfolds i d found j inside with closed | ⟨later, stored⟩
    · obtain ⟨less, rfl⟩ : ∃ less, depth = less + 1 := ⟨depth - 1, by omega⟩
      exact closed.completes grounded less
    · exact ih stored (by omega)

/-- Whatever was asked for: what the index lists has a name, or is a type declared elsewhere or `null`;
every circle goes through a descriptor that is written as its name where it is used; and every
descriptor has a text there, which no depth beyond the number of descriptors changes. A descriptor has
a declaration unless it has no name. -/
theorem requested_texts_end (requests : Requests cfg {} s) :
    (∀ ref c, (ref, c) ∈ s.index → ∀ i ∈ c, ∃ d, s.get? i = some d ∧
      (d.name ≠ "" ∨ d.kind = .external ∨ d.kind = .null)) ∧
    (∀ i path, List.IsChain (Contains s) (i :: path ++ [i]) →
      ∃ j ∈ i :: path, ∃ d, s.get? j = some d ∧ d.name ≠ "" ∧
        ∀ deps, ∃ later, (renderText cfg s false j).run deps = .ok (d.name, later)) ∧
    (∀ i, i < s.descriptors.size → ∀ deps, ∃ r, (renderText cfg s false i).run deps = .ok r ∧
      ∀ depth, s.descriptors.size < depth → (inlineDepth cfg s depth i).run deps = .ok r) ∧
    (∀ i d, s.get? i = some d → ∀ deps,
      (d.name ≠ "" → ∃ r, (renderText cfg s true i).run deps = .ok r) ∧
      (d.name = "" → (renderText cfg s true i).run deps =
        .error (.fault (Fault.ofUnnamedRoot d.ref d.suggested)))) := by
  obtain ⟨tidy, unfolds⟩ := requests.unfold
  have texts : ∀ i, i < s.descriptors.size → Completes (inlineText cfg s i) :=
    fun i small => (tidy.grounded unfolds).completes small (by omega)
  refine ⟨tidy.listed, ?_, ?_, ?_⟩
  · intro i path chain
    obtain ⟨j, inside, d, found, named, filled⟩ := unfolds.circle tidy chain
    obtain ⟨k, contained⟩ := List.exists_mem_of_ne_nil _ filled
    refine ⟨j, inside, d, found, named, ?_⟩
    intro deps
    change ∃ later, (inlineDepth cfg s (s.descriptors.size + 1) j).run deps = _
    rw [inlineDepth_named cfg found named contained]
    exact ⟨_, rfl⟩
  · intro i small deps
    obtain ⟨⟨text, later⟩, run⟩ := texts i small deps
    refine ⟨(text, later), run, ?_⟩
    intro depth enough
    exact confirms_inlineDepth (.refl s) enough i deps text later run
  · intro i d found deps
    constructor
    · intro named
      refine completes_composes.declaration found named ?_ deps
      exact fun j e stored k inside => texts k (unfolds j e stored k inside).lt
    · intro unnamed
      change (declarationText cfg s i).run deps = _
      rw [declarationText_unnamed found unnamed]
      rfl

theorem requested_texts_end_linkedList :
    ∃ t, Requests linkedList {} t ∧ Contains t 0 0 ∧
      (∃ d, t.get? 0 = some d ∧ d.name ≠ "" ∧
        ∀ deps, ∃ later, (renderText linkedList t false 0).run deps = .ok (d.name, later)) ∧
      ∀ d, t.get? 0 = some d → d.name ≠ "" → ∃ r, (renderText linkedList t true 0).run [] = .ok r := by
  have request : Returns (findOrCreate linkedList "#") {} [0] _ :=
    returns_deepening_first _ (by decide +kernel)
  have requests : Requests linkedList {} _ := .more .none request
  have shape : (Store.get? _ 0).map (·.shape.inside) = some [0] :=
    show ((exec (findOrCreateWith linkedList (convertDepth linkedList firstDepth) "#") {}).2.get? 0).map
      (·.shape.inside) = some [0] by decide +kernel
  obtain ⟨d, found, inside⟩ := Option.map_eq_some_iff.mp shape
  have contains : Contains _ 0 0 := ⟨d, found, by rw [inside]; exact List.mem_singleton_self 0⟩
  obtain ⟨_, circles, _, declared⟩ := requested_texts_end requests
  refine ⟨_, requests, contains, ?_, ?_⟩
  · obtain ⟨j, among, named⟩ := circles 0 [] (.cons_cons contains (.singleton 0))
    rw [List.mem_singleton.mp among] at named
    exact named
  · exact fun d found named => (declared 0 d found []).1 named

end

end Typesmith.Model
