import Typesmith.Proofs.Placing
import Typesmith.Proofs.Rendering

namespace Typesmith.Model

open Fragment

def Property.Like (R : Id → Id → Prop) (p q : Property) : Prop :=
  p = { q with types := p.types } ∧ List.Forall₂ R p.types q.types

inductive Shape.Like (R : Id → Id → Prop) : Shape → Shape → Prop
  | value (token : String) : Shape.Like R (.value token) (.value token)
  | external (name : String) : Shape.Like R (.external name) (.external name)
  | enum (members : List Member) : Shape.Like R (.enum members) (.enum members)
  | array {items others : List Container} (each : List.Forall₂ (List.Forall₂ R) items others) :
      Shape.Like R (.array items) (.array others)
  | someOf (c : Fragment.Combinator) {branches others : List Container}
      (each : List.Forall₂ (List.Forall₂ R) branches others) :
      Shape.Like R (.someOf c branches) (.someOf c others)
  | generic (parameter : String) {cases others : List (String × Container)}
      (each : List.Forall₂ (fun x y => x.1 = y.1 ∧ List.Forall₂ R x.2 y.2) cases others) :
      Shape.Like R (.generic parameter cases) (.generic parameter others)
  | object {sets others : List (List Property)} (closed : Bool)
      (each : List.Forall₂ (List.Forall₂ (Property.Like R)) sets others) :
      Shape.Like R (.object sets closed) (.object others closed)

section shapes

variable {α β γ : Type} {R : Id → Id → Prop} {cs ds : List Container}

theorem forall₂_zip_right {S : β → γ → Prop} {bs : List β} {gs : List γ} (each : List.Forall₂ S bs gs)
    (as : List α) : List.Forall₂ (fun x y => x.1 = y.1 ∧ S x.2 y.2) (as.zip bs) (as.zip gs) := by
  induction each generalizing as with
  | nil =>
    rw [List.zip_nil_right, List.zip_nil_right]
    exact .nil
  | cons first _ ih =>
    cases as with
    | nil => exact .nil
    | cons a as => exact .cons ⟨rfl, first⟩ (ih as)

theorem forall₂_getLastD {S : α → β → Prop} {as : List α} {bs : List β} (each : List.Forall₂ S as bs)
    {a : α} {b : β} (default : S a b) : S (as.getLastD a) (bs.getLastD b) := by
  induction each generalizing a b with
  | nil => exact default
  | cons first _ ih =>
    rw [List.getLastD_cons, List.getLastD_cons]
    exact ih first

theorem propertySet_like (f : Fragment) (each : List.Forall₂ (List.Forall₂ R) cs ds) :
    List.Forall₂ (Property.Like R) (propertySet f cs) (propertySet f ds) := by
  rw [propertySet, propertySet, List.forall₂_map_left_iff, List.forall₂_map_right_iff]
  refine (forall₂_zip_right each f.properties).imp ?_
  rintro ⟨p, c⟩ ⟨q, d⟩ ⟨rfl, types⟩
  exact ⟨rfl, types⟩

theorem casesSoFar_like (f : Fragment) (each : List.Forall₂ (List.Forall₂ R) cs ds) :
    List.Forall₂ (fun x y => x.1 = y.1 ∧ List.Forall₂ R x.2 y.2) (casesSoFar f cs) (casesSoFar f ds) := by
  rw [casesSoFar, casesSoFar, each.length_eq]
  refine List.rel_append (forall₂_zip_right each _) ?_
  rw [List.forall₂_same]
  rintro x open_
  obtain ⟨_, _, rfl⟩ := List.mem_map.mp open_
  exact ⟨rfl, .nil⟩

theorem recordShape_like (f : Fragment) (each : List.Forall₂ (List.Forall₂ R) cs ds) {any other : Id}
    (open_ : takesAnything f = true → R any other) :
    Shape.Like R (recordShape f cs any) (recordShape f ds other) := by
  have listed := propertySet_like f each
  unfold recordShape
  rcases extent : f.additionalProperties with _ | ⟨_ | _ | extra⟩
  case some.forbidden => exact .object _ (.cons listed .nil)
  case some.described =>
    have rest : Property.Like R (indexProperty (cs.getLastD [])) (indexProperty (ds.getLastD [])) :=
      ⟨rfl, forall₂_getLastD each .nil⟩
    exact .object _ (.cons (List.rel_append listed (.cons rest .nil)) .nil)
  all_goals
    dsimp only
    split
    · rename_i empty
      have rest : Property.Like R (indexProperty [any]) (indexProperty [other]) :=
        ⟨rfl, .cons (open_ (by rw [takesAnything, extent, empty])) .nil⟩
      exact .object _ (.cons (.cons rest .nil) .nil)
    · exact .object _ (.cons listed .nil)

theorem shapeOf_like (kind : Kind) (f : Fragment) (each : List.Forall₂ (List.Forall₂ R) cs ds)
    {any other : Id} (open_ : kind = .object → takesAnything f = true → R any other) :
    Shape.Like R (shapeOf kind f cs any) (shapeOf kind f ds other) := by
  cases kind with
  | object => exact recordShape_like f each (open_ rfl)
  | array => exact .array each
  | enum => exact .enum _
  | someOf => exact .someOf _ each
  | generic => exact .generic _ (casesSoFar_like f each)
  | external => exact .external _
  | _ => exact .value _

theorem shapeOf_enum {kind : Kind} {f : Fragment} {any : Id} {members : List Member}
    (enum : shapeOf kind f cs any = .enum members) : kind = .enum ∧ members = enumMembers f := by
  cases kind with
  | enum =>
    cases enum
    exact ⟨rfl, rfl⟩
  | object =>
    simp only [shapeOf, recordShape] at enum
    repeat' split at enum
    all_goals cases enum
  | _ => cases enum

end shapes

/-- The descriptors at two places are written alike where they are used, however deep, and they have
the same fragment. -/
structure Twins (cfg : Setting) (u : Store) (i j : Id) : Prop where
  text : ∀ depth, inlineDepth cfg u depth i = inlineDepth cfg u depth j
  fragment : (u.get? i).bind (·.fragment) = (u.get? j).bind (·.fragment)

section texts

variable {α β : Type} {inline : Inliner}

theorem mapM_eq_of_forall₂ {f : α → RenderM β} {as bs : List α}
    (each : List.Forall₂ (fun a b => f a = f b) as bs) : as.mapM f = bs.mapM f := by
  induction each with
  | nil => rfl
  | cons first _ ih => rw [List.mapM_cons, List.mapM_cons, first, ih]

abbrev SameText (inline : Inliner) (i j : Id) : Prop :=
  inline i = inline j

theorem inlineContainer_eq {c d : Container} (same : List.Forall₂ (SameText inline) c d) :
    inlineContainer inline c = inlineContainer inline d := by
  rw [inlineContainer, inlineContainer, mapM_eq_of_forall₂ same]

theorem memberText_eq {p q : Property} (like : Property.Like (SameText inline) p q) :
    memberText inline p = memberText inline q := by
  obtain ⟨made, same⟩ := like
  rw [made, memberText, memberText, inlineContainer_eq same]

theorem inlineSet_eq {set other : List Property}
    (each : List.Forall₂ (Property.Like (SameText inline)) set other) :
    inlineSet inline set = inlineSet inline other := by
  have members : set.mapM (memberText inline) = other.mapM (memberText inline) :=
    mapM_eq_of_forall₂ (each.imp fun _ _ => memberText_eq)
  cases each with
  | nil => rfl
  | cons first rest =>
    unfold inlineSet
    rw [members]
    rfl

theorem inlineObject_eq {sets others : List (List Property)} (closed : Bool)
    (each : List.Forall₂ (List.Forall₂ (Property.Like (SameText inline))) sets others) :
    inlineObject inline sets closed = inlineObject inline others closed := by
  rw [inlineObject, inlineObject, mapM_eq_of_forall₂ (each.imp fun _ _ => inlineSet_eq)]

theorem inlineArray_eq {items others : List Container}
    (each : List.Forall₂ (List.Forall₂ (SameText inline)) items others) :
    inlineArray inline items = inlineArray inline others := by
  have texts : (items.mapM fun c => do return "Array<" ++ (← inlineContainer inline c) ++ ">") =
      others.mapM fun c => do return "Array<" ++ (← inlineContainer inline c) ++ ">" :=
    mapM_eq_of_forall₂ (each.imp fun _ _ same => by rw [inlineContainer_eq same])
  cases each with
  | nil => rfl
  | cons first rest =>
    unfold inlineArray
    rw [texts]
    rfl

theorem inlineGeneric_eq {cases others : List (String × Container)}
    (each : List.Forall₂ (fun x y => x.1 = y.1 ∧ List.Forall₂ (SameText inline) x.2 y.2) cases others) :
    inlineGeneric inline cases = inlineGeneric inline others := by
  have texts : (cases.mapM fun kc => inlineContainer inline kc.2) =
      others.mapM fun kc => inlineContainer inline kc.2 :=
    mapM_eq_of_forall₂ (each.imp fun _ _ same => inlineContainer_eq same.2)
  rw [inlineGeneric, inlineGeneric, texts]

end texts

section twins

variable {cfg : Setting} {u : Store} {i j : Id}

theorem Property.Like.mono {R S : Id → Id → Prop} (implies : ∀ i j, R i j → S i j) {p q : Property}
    (like : Property.Like R p q) : Property.Like S p q :=
  ⟨like.1, like.2.imp implies⟩

theorem branchTexts_eq {branches others : List Container}
    (each : List.Forall₂ (List.Forall₂ (Twins cfg u)) branches others) (depth : Nat)
    (c : Fragment.Combinator) (own : String) (seen : List String) :
    branchTexts u (inlineDepth cfg u depth) c own seen branches =
      branchTexts u (inlineDepth cfg u depth) c own seen others := by
  induction each generalizing seen with
  | nil => rfl
  | @cons branch other _ _ first _ ih =>
    have text := inlineContainer_eq (first.imp fun _ _ twins => twins.text depth)
    have described : branchDescription u branch = branchDescription u other := by
      cases first with
      | nil => rfl
      | cons head _ => simp only [branchDescription, head.fragment]
    simp only [branchTexts, text, described, first.length_eq, ih]

/-- Descriptors without names are written alike if their shapes are alike; so are enums that are
written out whether they have names or not. -/
theorem inlineWith_eq {d e : Descriptor} (found : u.get? i = some d) (other : u.get? j = some e)
    (unnamed : (∀ members, d.shape ≠ .enum members) → d.name = "" ∧ e.name = "")
    (spelled : ∀ members, d.shape = .enum members → (cfg.inlineStringEnums && allStrings members) = true)
    (fragment : d.fragment = e.fragment) (like : Shape.Like (Twins cfg u) d.shape e.shape) (depth : Nat) :
    inlineWith cfg u (inlineDepth cfg u depth) i = inlineWith cfg u (inlineDepth cfg u depth) j := by
  have same : ∀ i j, Twins cfg u i j → SameText (inlineDepth cfg u depth) i j :=
    fun _ _ twins => twins.text depth
  have sames : ∀ cs ds, List.Forall₂ (List.Forall₂ (Twins cfg u)) cs ds →
      List.Forall₂ (List.Forall₂ (SameText (inlineDepth cfg u depth))) cs ds :=
    fun _ _ each => each.imp fun _ _ inner => inner.imp same
  simp only [inlineWith, fetch, found, other, pure_bind]
  generalize d.shape = a at like unnamed spelled
  generalize e.shape = b at like
  cases like with
  | external name => rfl
  | enum members => simp only [spelled members rfl, if_true]
  | value token =>
    obtain ⟨own, others⟩ := unnamed nofun
    simp only [own, others, ne_eq, not_true_eq_false, if_false]
  | array each =>
    obtain ⟨own, others⟩ := unnamed nofun
    simp only [own, others, ne_eq, not_true_eq_false, if_false, inlineArray_eq (sames _ _ each)]
  | someOf c each =>
    obtain ⟨own, others⟩ := unnamed nofun
    simp only [own, others, ne_eq, not_true_eq_false, if_false, inlineSomeOf, fragment, branchTexts_eq each]
  | generic parameter each =>
    obtain ⟨own, others⟩ := unnamed nofun
    have cases := each.imp fun _ _ both => And.intro both.1 (both.2.imp same)
    simp only [own, others, ne_eq, not_true_eq_false, if_false, inlineGeneric_eq cases]
  | object closed each =>
    obtain ⟨own, others⟩ := unnamed nofun
    have members := each.imp fun _ _ set => set.imp fun _ _ like => Property.Like.mono same like
    simp only [own, others, ne_eq, not_true_eq_false, if_false, inlineObject_eq closed members]

theorem Twins.of_like {d e : Descriptor} (found : u.get? i = some d) (other : u.get? j = some e)
    (unnamed : (∀ members, d.shape ≠ .enum members) → d.name = "" ∧ e.name = "")
    (spelled : ∀ members, d.shape = .enum members → (cfg.inlineStringEnums && allStrings members) = true)
    (fragment : d.fragment = e.fragment) (like : Shape.Like (Twins cfg u) d.shape e.shape) :
    Twins cfg u i j := by
  constructor
  · intro depth
    cases depth with
    | zero => rfl
    | succ depth => exact inlineWith_eq found other unnamed spelled fragment like depth
  · rw [found, other]
    exact fragment

theorem Twins.of_value {d : Descriptor} {token : String} (found : u.get? i = some d)
    (other : u.get? j = some d) (unnamed : d.name = "") (value : d.shape = .value token) :
    Twins cfg u i j := by
  refine .of_like found other (fun _ => ⟨unnamed, unnamed⟩) ?_ rfl ?_
  · intro members enum
    rw [value] at enum
    cases enum
  · rw [value]
    exact .value token

theorem Twins.refl (i : Id) : Twins cfg u i i :=
  ⟨fun _ => rfl, rfl⟩

theorem Nameless.twins {kind : Kind} {f : Fragment} {cs ds : List Container}
    (first : Nameless cfg u kind f cs i) (second : Nameless cfg u kind f ds j)
    (each : List.Forall₂ (List.Forall₂ (Twins cfg u)) cs ds) : Twins cfg u i j := by
  obtain ⟨⟨d, any, found, unnamed, fragment, shape, open_⟩, inline⟩ := first
  obtain ⟨⟨e, any', found', unnamed', fragment', shape', open_'⟩, _⟩ := second
  have like : Shape.Like (Twins cfg u) d.shape e.shape := by
    rw [shape, shape']
    refine shapeOf_like kind f each fun record anything => ?_
    exact .of_value (open_ record anything) (open_' record anything) rfl rfl
  refine .of_like found found' ?_ ?_ (fragment.trans fragment'.symm) like
  · intro other
    have other : kind ≠ .enum := by
      rintro rfl
      exact other _ shape
    exact ⟨unnamed other, unnamed' other⟩
  · intro members enum
    rw [shape] at enum
    obtain ⟨rfl, rfl⟩ := shapeOf_enum enum
    exact inline rfl

theorem Trails.twins {nullable : Bool} {rest others : Container} (first : Trails u nullable rest)
    (second : Trails u nullable others) : List.Forall₂ (Twins cfg u) rest others := by
  unfold Trails at first second
  split at first
  · rename_i kept
    rw [if_pos kept] at second
    obtain ⟨i, rfl, found⟩ := first
    obtain ⟨j, rfl, other⟩ := second
    exact .cons (.of_value found other rfl rfl) .nil
  · rename_i kept
    rw [if_neg kept] at second
    subst first second
    exact .nil

theorem forall₂_of_zip {α β γ : Type} {P : α → γ → Prop} {S : β → γ → Prop} {as : List α} {bs : List β}
    {gs : List γ} (length : bs.length = as.length) (length' : gs.length = as.length)
    (each : ∀ x ∈ as.zip bs, ∀ g, P x.1 g → S x.2 g) (others : ∀ x ∈ as.zip gs, P x.1 x.2) :
    List.Forall₂ S bs gs := by
  induction as generalizing bs gs with
  | nil =>
    cases List.eq_nil_of_length_eq_zero length
    cases List.eq_nil_of_length_eq_zero length'
    exact .nil
  | cons a as ih =>
    obtain ⟨b, bs, rfl⟩ := List.exists_cons_of_length_eq_add_one length
    obtain ⟨g, gs, rfl⟩ := List.exists_cons_of_length_eq_add_one length'
    refine .cons (each (a, b) List.mem_cons_self g (others (a, g) List.mem_cons_self)) ?_
    exact ih (Nat.succ.inj length) (Nat.succ.inj length')
      (fun x inside => each x (List.mem_cons_of_mem _ inside))
      fun x inside => others x (List.mem_cons_of_mem _ inside)

/-- Whatever a fragment comes to in place, it reads the same. -/
theorem InPlace.twins {base : String} {f : Fragment} {c d : Container} (first : InPlace cfg u base f c)
    (second : InPlace cfg u base f d) : List.Forall₂ (Twins cfg u) c d := by
  induction first generalizing d with
  | ref isRef found =>
    cases second with
    | ref _ found' =>
      rw [found] at found'
      cases found'
      exact List.forall₂_same.mpr fun i _ => .refl i
    | types other => exact absurd isRef (by simp [other])
    | node other => exact absurd isRef (by simp [other])
  | types isRef multi length each null ih =>
    cases second with
    | ref other => exact absurd other (by simp [isRef])
    | types _ _ length' each' null' =>
      refine List.rel_append (List.rel_flatten ?_) (null.twins null')
      exact forall₂_of_zip length length' (fun x inside d => ih x inside) each'
    | node _ single => exact absurd multi (by simp [single])
  | node isRef single written inner length each nameless null ih =>
    cases second with
    | ref other => exact absurd other (by simp [isRef])
    | types _ multi => exact absurd multi (by simp [single])
    | node _ _ written' inner' length' each' nameless' null' =>
      rw [written] at written'
      cases written'
      cases inner.unique inner'
      refine .cons (nameless.twins nameless' ?_) (null.twins null')
      exact forall₂_of_zip length length' (fun x inside d => ih x inside) each'

end twins

end Typesmith.Model
