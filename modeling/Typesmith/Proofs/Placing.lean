import Typesmith.Proofs.Exploring
import Typesmith.Proofs.Failing
import Typesmith.Proofs.Soundness

namespace Typesmith.Model

open Fragment Relation

def Hoists (cfg : Setting) (f : Fragment) : Prop :=
  f.isRef = false ∧ isMultiType (stripped f) = false ∧ ∃ raw, (stripped f).toJson? = some raw ∧
    kindOf cfg raw = .enum ∧ (cfg.inlineStringEnums && allStrings (enumMembers (stripped f))) = false

/-- No enum gets a name of its own where the fragment is converted in place. -/
def Unhoisted (cfg : Setting) (base : String) (f : Fragment) : Prop :=
  ∀ x : Spot, ReflTransGen (Nests cfg base) (false, f) x → ¬ Hoists cfg x.2

def takesAnything (f : Fragment) : Bool :=
  match f.additionalProperties with
  | some (.described _) => false
  | some .forbidden => false
  | _ => f.properties.isEmpty

def recordShape (f : Fragment) (cs : List Container) (any : Id) : Shape :=
  match f.additionalProperties with
  | some (.described _) => .object [propertySet f cs ++ [indexProperty (cs.getLastD [])]] false
  | some .forbidden => .object [propertySet f cs] f.properties.isEmpty
  | _ =>
    if f.properties.isEmpty then .object [[indexProperty [any]]] false
    else .object [propertySet f cs] false

def shapeOf (kind : Kind) (f : Fragment) (cs : List Container) (any : Id) : Shape :=
  match kind with
  | .object => recordShape f cs any
  | .array => .array cs
  | .enum => .enum (enumMembers f)
  | .someOf => .someOf ((f.combinator?.map (·.1)).getD .oneOf) cs
  | .generic => .generic (parameterName (genericJson f)) (casesSoFar f cs)
  | .external => .external (if externalName f = "" then "any" else externalName f)
  | kind => .value (valueToken kind f)

/-- What stands behind the descriptor of a fragment: `null`, if it is kept. -/
def Trails (u : Store) (nullable : Bool) (rest : Container) : Prop :=
  if nullable then ∃ i, rest = [i] ∧ u.get? i = some nullDescriptor else rest = []

structure Nameless (cfg : Setting) (u : Store) (kind : Kind) (f : Fragment) (cs : List Container)
    (id : Id) : Prop where
  found : ∃ d any, u.get? id = some d ∧ (kind ≠ .enum → d.name = "") ∧ d.fragment = some f ∧
    d.shape = shapeOf kind f cs any ∧
    (kind = .object → takesAnything f = true → u.get? any = some anyDescriptor)
  inline : kind = .enum → (cfg.inlineStringEnums && allStrings (enumMembers f)) = true

/-- The container is what a fragment comes to that is read at `base` and converted in place. -/
inductive InPlace (cfg : Setting) (u : Store) (base : String) : Fragment → Container → Prop
  | ref {f : Fragment} {c : Container} (isRef : f.isRef = true)
      (found : u.lookup? (Reference.normalize (Reference.qualify f.ref base)) = some c) :
      InPlace cfg u base f c
  | types {f : Fragment} {cs : List Container} {rest : Container} (isRef : f.isRef = false)
      (multi : isMultiType (stripped f) = true)
      (length : cs.length = (typeBranches (stripped f)).length)
      (each : ∀ x ∈ (typeBranches (stripped f)).zip cs, InPlace cfg u base x.1 x.2)
      (null : Trails u (keepsNull f) rest) : InPlace cfg u base f (cs.flatten ++ rest)
  | node {f : Fragment} {raw : Json} {gs : List Fragment} {cs : List Container} {id : Id}
      {rest : Container} (isRef : f.isRef = false) (single : isMultiType (stripped f) = false)
      (written : (stripped f).toJson? = some raw)
      (inner : Inner cfg base (kindOf cfg raw) (stripped f) gs) (length : cs.length = gs.length)
      (each : ∀ x ∈ gs.zip cs, InPlace cfg u base x.1 x.2)
      (nameless : Nameless cfg u (kindOf cfg raw) (stripped f) cs id)
      (null : Trails u (keepsNull f) rest) : InPlace cfg u base f (id :: rest)

/-- What stands for a fragment that is one descriptor: the descriptor, made of what the fragments inside
come to in place, and `null` behind it if it is kept. -/
inductive Laid (cfg : Setting) (u : Store) (kind : Kind) (f : Fragment) (o : Options) (nullable : Bool) :
    Container → Prop
  | intro {name : String} {gs : List Fragment} {cs : List Container} {id any : Id} {rest : Container}
      (titled : kind ≠ .enum → name = o.name) (inner : Inner cfg o.base kind f gs)
      (length : cs.length = gs.length) (each : ∀ x ∈ gs.zip cs, InPlace cfg u o.base x.1 x.2)
      (found : u.get? id =
        some { opening kind f { o with name } with nullable, shape := shapeOf kind f cs any })
      (unlisted : kind = .object → takesAnything f = true → u.get? any = some anyDescriptor)
      (null : Trails u nullable rest) : Laid cfg u kind f o nullable (id :: rest)

structure KeepsFrom (n : Nat) (s t : Store) : Prop where
  size : s.descriptors.size ≤ t.descriptors.size
  lookup : ∀ ref c, s.lookup? ref = some c → t.lookup? ref = some c
  kept : ∀ i, n ≤ i → i < s.descriptors.size → t.get? i = s.get? i

section keeps

variable {cfg : Setting} {s t u : Store} {n : Nat}

theorem KeepsFrom.refl (n : Nat) (s : Store) : KeepsFrom n s s :=
  ⟨Nat.le_refl _, fun _ _ held => held, fun _ _ _ => rfl⟩

theorem KeepsFrom.trans (first : KeepsFrom n s t) (second : KeepsFrom n t u) : KeepsFrom n s u := by
  refine ⟨Nat.le_trans first.size second.size, ?_, ?_⟩
  · exact fun ref c held => second.lookup ref c (first.lookup ref c held)
  · intro i later inside
    rw [second.kept i later (Nat.lt_of_lt_of_le inside first.size), first.kept i later inside]

theorem KeepsFrom.weaken {m : Nat} (keeps : KeepsFrom n s t) (less : n ≤ m) : KeepsFrom m s t :=
  ⟨keeps.size, keeps.lookup, fun i later inside => keeps.kept i (Nat.le_trans less later) inside⟩

theorem KeepsFrom.get? (keeps : KeepsFrom n s t) {i : Id} {d : Descriptor} (later : n ≤ i)
    (found : s.get? i = some d) : t.get? i = some d := by
  rw [keeps.kept i later (Store.get?_lt found), found]

theorem Grows.keepsFrom (grows : Grows s t) (consistent : Consistent cfg t) (n : Nat) : KeepsFrom n s t :=
  ⟨grows.size, fun _ _ held => consistent.lookup?_of_suffix grows.log held,
    fun i _ inside => grows.kept i inside⟩

theorem Touches.keepsFrom {id : Id} (touches : Touches id s t) (earlier : id < n) : KeepsFrom n s t := by
  have lookup : ∀ ref c, s.lookup? ref = some c → t.lookup? ref = some c := by
    intro ref c held
    rw [Store.lookup?, touches.index]
    exact held
  cases touches with
  | nothing => exact .refl n s
  | shape shape =>
    refine ⟨by simp, lookup, fun i later _ => ?_⟩
    rw [Store.get?_setShape, if_neg (Nat.ne_of_gt (Nat.lt_of_lt_of_le earlier later))]
  | any shape =>
    refine ⟨by simp, lookup, fun i later inside => ?_⟩
    rw [Store.get?_setShape, if_neg (Nat.ne_of_gt (Nat.lt_of_lt_of_le earlier later)), Store.get?_push,
      if_neg (Nat.ne_of_lt inside)]

end keeps

section nested

variable {cfg : Setting} {base : String} {f g : Fragment}

theorem Unhoisted.nested (unhoisted : Unhoisted cfg base f)
    (nests : Nests cfg base (false, f) (false, g)) : Unhoisted cfg base g :=
  fun x path => unhoisted x (.head nests path)

theorem Unhoisted.part (unhoisted : Unhoisted cfg base f) {raw : Json} {gs : List Fragment}
    (isRef : f.isRef = false) (single : isMultiType (stripped f) = false)
    (written : (stripped f).toJson? = some raw)
    (inner : Inner cfg base (kindOf cfg raw) (stripped f) gs) : ∀ g ∈ gs, Unhoisted cfg base g :=
  fun _ inside => unhoisted.nested (.node isRef single written inner inside)

theorem Unhoisted.branch (unhoisted : Unhoisted cfg base f) (isRef : f.isRef = false)
    (multi : isMultiType (stripped f) = true) : ∀ g ∈ typeBranches (stripped f), Unhoisted cfg base g :=
  fun _ inside => unhoisted.nested (.types isRef multi inside)

end nested

/-- A conversion in place leaves what its fragment comes to, and what is stored later leaves it there. -/
def Places (cfg : Setting) : Converts := fun f o s c t =>
  o.name = "" → o.ref = "" → Unhoisted cfg o.base f → Consistent cfg s →
    ∀ u, KeepsFrom s.descriptors.size t u → InPlace cfg u o.base f c

def Rests (cfg : Setting) : Converts := fun f o s c t =>
  (Settles cfg f o s c t ∧ Grows s t) ∧ Places cfg f o s c t

section steps

variable {cfg : Setting} {s t u : Store} {base : String} {note : List Container → Store → Store}
  {gs : List Fragment} {cs out : List Container} {n : Nat}

theorem Rests.each (each : Each (Rests cfg) base note gs cs s out t) (small : n ≤ s.descriptors.size)
    (told : ∀ cs m, Consistent cfg m → Consistent cfg (note cs m) ∧ KeepsFrom n m (note cs m))
    (consistent : Consistent cfg s) (unhoisted : ∀ g ∈ gs, Unhoisted cfg base g) :
    Consistent cfg t ∧ KeepsFrom n s t ∧ ∃ ds, out = cs ++ ds ∧ ds.length = gs.length ∧
      ∀ u, KeepsFrom n t u → ∀ x ∈ gs.zip ds, InPlace cfg u base x.1 x.2 := by
  induction each with
  | done =>
    refine ⟨consistent, .refl _ _, [], (List.append_nil _).symm, rfl, fun u _ x inside => ?_⟩
    cases inside
  | @part g gs hint cs out c s m t one _ ih =>
    obtain ⟨⟨settles, grows⟩, places⟩ := one
    obtain ⟨middle, _, _⟩ := settles consistent fun owned => absurd rfl owned
    obtain ⟨noted, spared⟩ := told (cs ++ [c]) m middle
    have first := (grows.keepsFrom middle n).trans spared
    obtain ⟨last, rest, ds, rfl, length, others⟩ := ih (Nat.le_trans small first.size) noted
      fun h inside => unhoisted h (List.mem_cons_of_mem _ inside)
    refine ⟨last, first.trans rest, c :: ds, by simp, by simp [length], fun u keeps x inside => ?_⟩
    rw [List.zip_cons_cons] at inside
    rcases List.mem_cons.mp inside with rfl | later
    · refine places rfl rfl (unhoisted g List.mem_cons_self) consistent u ?_
      exact (spared.trans (rest.trans keeps)).weaken small
    · exact others u keeps x later

theorem Each.marked {kind : Kind} {f : Fragment} {id : Id} {d : Descriptor}
    (each : Each (Rests cfg) base (noted kind f id) gs cs s out t)
    (opened : s.get? id = some (noting kind f d cs)) : t.get? id = some (noting kind f d out) := by
  induction each with
  | done => exact opened
  | part one _ ih =>
    refine ih (noting_noted kind f id d _ _ ?_ _)
    rw [one.1.2.kept id (Store.get?_lt opened), opened]

theorem finished_object_eq (f : Fragment) (id : Id) (cs : List Container) (t : Store) :
    finished .object f id cs t = (if takesAnything f then (t.push anyDescriptor).2 else t).setShape id
      (recordShape f cs t.descriptors.size) := by
  rcases extent : f.additionalProperties with _ | ⟨_ | _ | extra⟩
  all_goals
    simp only [finished, recordShape, takesAnything, extent]
    cases f.properties.isEmpty <;> rfl

theorem finished_record_shape {f : Fragment} {id : Id} {d : Descriptor} (cs : List Container)
    (held : t.get? id = some d) :
    (finished .object f id cs t).get? id =
        some { d with shape := recordShape f cs t.descriptors.size } ∧
      (takesAnything f = true →
        (finished .object f id cs t).get? t.descriptors.size = some anyDescriptor) := by
  have earlier : id ≠ t.descriptors.size := Nat.ne_of_lt (Store.get?_lt held)
  rw [finished_object_eq]
  split
  · simp [Store.get?_setShape, Store.get?_push, earlier, earlier.symm, held]
  · rename_i listed
    refine ⟨?_, fun anything => absurd anything listed⟩
    rw [Store.get?_setShape, if_pos rfl, held]
    rfl

theorem finished_shape {kind : Kind} {f : Fragment} {id : Id} {o : Options} {nullable : Bool}
    (held : t.get? id = some (noting kind f { opening kind f o with nullable } cs)) :
    (finished kind f id cs t).get? id =
        some { opening kind f o with nullable, shape := shapeOf kind f cs t.descriptors.size } ∧
      (kind = .object → takesAnything f = true →
        (finished kind f id cs t).get? t.descriptors.size = some anyDescriptor) := by
  by_cases record : kind = .object
  · subst record
    obtain ⟨closed, unlisted⟩ := finished_record_shape cs held
    exact ⟨closed, fun _ => unlisted⟩
  · refine ⟨?_, fun object => absurd object record⟩
    cases kind with
    | object => exact absurd rfl record
    | _ => exact held

theorem Built.laid {kind : Kind} {f : Fragment} {o : Options} {nullable : Bool} {c : Container}
    (built : Built cfg (Rests cfg) kind f o nullable s c t)
    (fits : o.ref ≠ "" → s.lookup? o.ref = none ∧
      ∀ g, cfg.resolver.fragment o.ref = .ok g → g.isRef = false)
    (unhoisted : ∀ gs, Inner cfg o.base kind f gs → ∀ g ∈ gs, Unhoisted cfg o.base g)
    (consistent : Consistent cfg s) (keeps : KeepsFrom s.descriptors.size t u) :
    Laid cfg u kind f o nullable c := by
  obtain @⟨name, gs, cs, start, t, titled, quiet, inner, each⟩ := built
  have size : start.descriptors.size = s.descriptors.size := by rw [quiet.descriptors]
  rw [← size] at keeps
  have opened := consistent.opened quiet kind f { o with name } nullable fits
  have room : start.descriptors.size + 1 ≤
      (claimed (opening kind f { o with name }) nullable start).descriptors.size :=
    Store.get?_lt (get?_claimed _ _ _)
  obtain ⟨_, spared, _, rfl, length, parts⟩ := Rests.each each room
    (fun cs m consistent => ⟨consistent.touches (noted_touches _ _ _ cs m),
      (noted_touches _ _ _ cs m).keepsFrom (Nat.lt_succ_self _)⟩)
    opened (unhoisted gs inner)
  have marked := each.marked (by rw [noting_opening, get?_claimed])
  obtain ⟨closed, unlisted⟩ := finished_shape marked
  -- what the descriptor was told, and what was converted after it, is there in the end
  have own := keeps.get? (Nat.le_refl _) closed
  have touched := (finished_touches kind f start.descriptors.size cs t).keepsFrom (Nat.lt_succ_self _)
  have later := touched.trans (keeps.weaken (Nat.le_succ _))
  have null : Trails u nullable (claimedContainer nullable start).tail := by
    unfold Trails claimedContainer
    split
    · rename_i kept
      rw [kept] at spared
      refine ⟨_, rfl, later.get? (Nat.le_refl _) (spared.get? (Nat.le_refl _) ?_)⟩
      exact get?_claimed_null _ _
    · rfl
  rw [claimedContainer_eq_cons]
  refine .intro ?_ inner length (parts u later) own ?_ null
  · intro other
    cases titled with
    | own => rfl
    | new enum => exact absurd enum other
  · intro record anything
    exact keeps.get? (Nat.le_trans (Nat.le_of_succ_le room) spared.size) (unlisted record anything)

theorem Places.built {f : Fragment} {o : Options} {c : Container} {raw : Json} (isRef : f.isRef = false)
    (single : isMultiType (stripped f) = false) (written : (stripped f).toJson? = some raw)
    (built : Built cfg (Rests cfg) (kindOf cfg raw) (stripped f) o (keepsNull f) s c t)
    (unnamed : o.name = "") (unowned : o.ref = "") (unhoisted : Unhoisted cfg o.base f)
    (consistent : Consistent cfg s) (keeps : KeepsFrom s.descriptors.size t u) :
    InPlace cfg u o.base f c := by
  obtain @⟨name, gs, cs, id, any, rest, titled, inner, length, each, found, unlisted, null⟩ :=
    built.laid (fun owned => absurd unowned owned)
      (fun _ inner => unhoisted.part isRef single written inner) consistent keeps
  have hoisted : kindOf cfg raw = .enum →
      (cfg.inlineStringEnums && allStrings (enumMembers (stripped f))) = true := by
    intro enum
    by_contra named
    exact unhoisted _ .refl ⟨isRef, single, raw, written, enum, by simpa using named⟩
  have nameless : kindOf cfg raw ≠ .enum →
      (opening (kindOf cfg raw) (stripped f) { o with name }).name = "" := by
    intro other
    rcases opening_name (kindOf cfg raw) (stripped f) { o with name } with same | ⟨empty, _⟩
    · exact same.trans ((titled other).trans unnamed)
    · exact empty
  exact .node isRef single written inner length each
    ⟨⟨_, any, found, nameless, by simp, rfl, unlisted⟩, hoisted⟩ null

theorem places_step {f : Fragment} {o : Options} {c : Container}
    (step : Step cfg (Rests cfg) f o s c t) : Places cfg f o s c t := by
  intro unnamed unowned unhoisted consistent u keeps
  cases step with
  | ref isRef found =>
    rw [unowned, Store.register_empty] at keeps
    obtain ⟨_, _, target⟩ := Settles.finds (found.mono fun _ _ _ _ _ one => one.1.1) consistent
    exact .ref isRef (keeps.lookup _ _ target)
  | union _ _ named => exact absurd unnamed named
  | @types _ _ _ t cs isRef multi _ each =>
    rw [unowned, Store.register_empty] at keeps
    obtain ⟨_, spared, _, rfl, length, parts⟩ := Rests.each each (Nat.le_refl _)
      (fun _ m consistent => ⟨consistent, .refl _ m⟩) consistent (unhoisted.branch isRef multi)
    unfold sideBySide at keeps ⊢
    split at keeps
    · rename_i kept
      rw [if_pos kept]
      have grown : KeepsFrom s.descriptors.size t (t.push nullDescriptor).2 := by
        refine ⟨by simp, fun _ _ held => held, fun i _ inside => ?_⟩
        rw [Store.get?_push, if_neg (Nat.ne_of_lt inside)]
      refine .types isRef multi length (parts u (grown.trans keeps)) ?_
      rw [Trails, if_pos kept]
      refine ⟨_, rfl, keeps.get? spared.size ?_⟩
      rw [Store.get?_push, if_pos rfl]
    · rename_i kept
      rw [if_neg kept]
      have null : Trails u (keepsNull f) [] := by rw [Trails, if_neg kept]
      have whole := InPlace.types isRef multi length (parts u keeps) null
      rwa [List.append_nil] at whole
  | node isRef single written built =>
    exact Places.built isRef single written built unnamed unowned unhoisted consistent keeps

/-- Whatever is converted in place is found there later. -/
theorem convertDepth_places {depth : Nat} {f : Fragment} {o : Options} {c : Container}
    (run : Returns (convertDepth cfg depth f o) s c t) : Places cfg f o s c t :=
  convertDepth_keeps_also (fun _ _ _ _ _ _ run => ⟨convertDepth_settles run, convertDepth_grows run⟩)
    (fun _ _ _ _ _ _ step => places_step step) run

end steps

end Typesmith.Model
