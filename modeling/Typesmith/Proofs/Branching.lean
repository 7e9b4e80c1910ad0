import Typesmith.Proofs.Fields
import Typesmith.Proofs.Grounding
import Typesmith.Proofs.Nullability
import Typesmith.Proofs.Ordering
import Typesmith.Proofs.Placing

namespace Typesmith.Text

theorem pairwise_idxOf (p : String → Bool) (l : List String) :
    (l.filter p).eraseDups.Pairwise fun a b => l.idxOf a < l.idxOf b := by
  -- behind a text that is kept, what is kept of the rest is filtered once more
  induction l generalizing p with
  | nil => exact .nil
  | cons a l ih =>
    cases kept : p a with
    | false =>
      rw [List.filter_cons_of_neg (by simp [kept])]
      refine (ih p).imp_of_mem fun {b c} first second less => ?_
      have other : ∀ b ∈ (l.filter p).eraseDups, b ≠ a := by
        rintro _ inside rfl
        simp [kept] at inside
      rw [List.idxOf_cons_ne l (other b first).symm, List.idxOf_cons_ne l (other c second).symm]
      exact Nat.succ_lt_succ less
    | true =>
      rw [List.filter_cons_of_pos kept, List.eraseDups_cons, List.filter_filter]
      have other : ∀ b ∈ (l.filter fun b => (!b == a) && p b).eraseDups, b ≠ a := by
        intro b inside
        simp only [List.mem_eraseDups, List.mem_filter, Bool.and_eq_true, Bool.not_eq_eq_eq_not, Bool.not_true,
          beq_eq_false_iff_ne] at inside
        exact inside.2.1
      refine List.pairwise_cons.mpr ⟨fun b inside => ?_, (ih _).imp_of_mem fun {b c} first second less => ?_⟩
      · rw [List.idxOf_cons_ne l (other b inside).symm, List.idxOf_cons_self]
        exact Nat.succ_pos _
      · rw [List.idxOf_cons_ne l (other b first).symm, List.idxOf_cons_ne l (other c second).symm]
        exact Nat.succ_lt_succ less

end Typesmith.Text

namespace Typesmith.Model

open Fragment
open Json (keys)
open Text (sort join)

section keys

def listedKeys (order : Json) : List String :=
  (order.arr?.getD []).filterMap Json.str?

/-- One key comes before another one: it is listed before it, it alone is listed, or neither is and it is
the smaller one. -/
def Precedes (listed : List String) (a b : String) : Prop :=
  a ∈ listed ∧ (b ∈ listed → listed.idxOf a < listed.idxOf b) ∨ a ∉ listed ∧ b ∉ listed ∧ a < b

structure Arranged (order : Json) (cases : List (String × Json)) (l : List String) : Prop where
  perm : l.Perm (keys cases)
  nodup : l.Nodup
  arranged : l.Pairwise (Precedes (listedKeys order))

theorem caseOrder_arranged (order : Json) {cases : List (String × Json)} (distinct : (keys cases).Nodup) :
    Arranged order cases (caseOrder order cases) := by
  have unfolded : caseOrder order cases =
      ((listedKeys order).filter (keys cases).contains).eraseDups ++
        (sort (keys cases)).filter fun key =>
          !((listedKeys order).filter (keys cases).contains).eraseDups.contains key := rfl
  have mem_first : ∀ key, key ∈ ((listedKeys order).filter (keys cases).contains).eraseDups ↔
      key ∈ listedKeys order ∧ key ∈ keys cases := by simp
  have mem_rest : ∀ key, (key ∈ (sort (keys cases)).filter fun key =>
      !((listedKeys order).filter (keys cases).contains).eraseDups.contains key) ↔
        key ∈ keys cases ∧ key ∉ listedKeys order := by
    intro key
    rw [List.mem_filter, (Text.sort_perm _).mem_iff, List.contains_eq_mem, Bool.not_eq_true',
      decide_eq_false_iff_not, mem_first]
    tauto
  have nodup : (caseOrder order cases).Nodup := by
    rw [unfolded]
    refine (Text.nodup_eraseDups _).append ((Text.sort_perm _).nodup_iff.mpr distinct |>.filter _) ?_
    intro key first rest
    exact ((mem_rest key).mp rest).2 ((mem_first key).mp first).1
  refine ⟨(List.perm_ext_iff_of_nodup nodup distinct).mpr fun key => ?_, nodup, ?_⟩
  · rw [unfolded, List.mem_append, mem_first, mem_rest]
    tauto
  · rw [unfolded]
    refine List.pairwise_append.mpr ⟨?_, ?_, fun a first b rest => ?_⟩
    · refine (Text.pairwise_idxOf _ _).imp_of_mem fun first _ less => ?_
      exact .inl ⟨((mem_first _).mp first).1, fun _ => less⟩
    · refine ((Text.ascending_sort distinct).filter _).imp_of_mem fun first second less => ?_
      exact .inr ⟨((mem_rest _).mp first).2, ((mem_rest _).mp second).2, less⟩
    · exact .inl ⟨((mem_first a).mp first).1, fun listed => absurd listed ((mem_rest b).mp rest).2⟩

theorem Arranged.unique {order : Json} {cases : List (String × Json)} {l l' : List String}
    (one : Arranged order cases l) (other : Arranged order cases l') : l = l' := by
  refine List.Perm.eq_of_pairwise (fun a b _ _ first second => ?_) one.arranged other.arranged
    (one.perm.trans other.perm.symm)
  rcases first with ⟨listed, before⟩ | ⟨_, unlisted, less⟩ <;>
    rcases second with ⟨listed', before'⟩ | ⟨unlisted', _, less'⟩
  · exact absurd (before listed') (Nat.lt_asymm (before' listed))
  · contradiction
  · contradiction
  · exact absurd less (String.lt_asymm less')

end keys

section cases

variable {cfg : Setting} {f : Fragment} {o : Options} {s t u : Store} {c : Container} {id : Id}

def Chooses (cfg : Setting) (f : Fragment) : Prop :=
  f.isRef = false ∧ isMultiType (stripped f) = false ∧
    ∃ raw, (stripped f).toJson? = some raw ∧ kindOf cfg raw = .generic

theorem genericJson_stripped (f : Fragment) : genericJson (stripped f) = genericJson f := by
  unfold stripped
  split <;> rfl

theorem caseKeys_arranged (distinct : (keys ((genericJson f).fieldsAt "cases")).Nodup) :
    Arranged ((genericJson f).getD "order") ((genericJson f).fieldsAt "cases") (caseKeys f) :=
  caseOrder_arranged _ distinct

theorem casesSoFar_all {cs : List Container} (all : cs.length = (caseKeys f).length) :
    casesSoFar f cs = (caseKeys f).zip cs := by
  simp [casesSoFar, all]

theorem forall₂_comp {α β γ : Type} {R : α → β → Prop} {S : β → γ → Prop} {as : List α} {bs : List β}
    {cs : List γ} (first : List.Forall₂ R as bs) (second : List.Forall₂ S bs cs) :
    List.Forall₂ (fun a c => ∃ b, R a b ∧ S b c) as cs := by
  induction first generalizing cs with
  | nil =>
    cases second
    exact .nil
  | cons one _ ih =>
    cases second with
    | cons other others => exact .cons ⟨_, one, other⟩ (ih others)

theorem Each.forall₂ {R : Converts} {base : String} {note : List Container → Store → Store}
    {gs : List Fragment} {cs out : List Container} (each : Each R base note gs cs s out t) :
    ∃ ds, out = cs ++ ds ∧
      List.Forall₂ (fun g c => ∃ hint m n, R g { suggested := hint, base } m c n) gs ds := by
  induction each with
  | done => exact ⟨[], by simp, .nil⟩
  | part first _ ih =>
    obtain ⟨ds, rfl, others⟩ := ih
    exact ⟨_ :: ds, by simp, .cons ⟨_, _, _, first⟩ others⟩

def CaseOf (cfg : Setting) (f : Fragment) (base key : String) (types : Container) : Prop :=
  ∃ g hint depth m n, Fragment.decode? (caseJson f key) = some g ∧
    Returns (convertDepth cfg depth g { suggested := hint, base }) m types n

/-- A type chosen by a key stands at a place, with these cases. -/
def Chosen (f : Fragment) (name : String) (cases : List (String × Container)) (id : Id) (s : Store) : Prop :=
  ∃ d, s.get? id = some d ∧ d.name = name ∧ d.shape = .generic (parameterName (genericJson f)) cases

theorem Chosen.noted {name : String} {cs : List Container} {cases : List (String × Container)}
    (chosen : Chosen f name cases id s) :
    Chosen f name (casesSoFar f cs) id (Model.noted .generic f id cs s) := by
  obtain ⟨d, found, same, _⟩ := chosen
  refine ⟨{ d with shape := .generic (parameterName (genericJson f)) (casesSoFar f cs) }, ?_, same, rfl⟩
  simp only [Model.noted, Store.get?_setShape, found, if_true, Option.map_some]

theorem Chosen.grows {name : String} {cases : List (String × Container)} (chosen : Chosen f name cases id s)
    (grows : Grows s t) : Chosen f name cases id t := by
  obtain ⟨d, found, shape⟩ := chosen
  exact ⟨d, by rw [grows.kept id (Store.get?_lt found), found], shape⟩

theorem Built.chosen {depth : Nat} {nullable : Bool}
    (built : Built cfg (fun f o s c t => Returns (convertDepth cfg depth f o) s c t)
      .generic f o nullable s c t)
    (filled : Filled s) :
    ∃ rest cases, c = s.descriptors.size :: rest ∧ Chosen f o.name cases s.descriptors.size t ∧
      keys cases = caseKeys f ∧ ∀ kc ∈ cases, kc.2 ≠ [] ∧ CaseOf cfg f o.base kc.1 kc.2 := by
  obtain @⟨name, gs, cs, start, t, titled, quiet, inner, each⟩ := built
  have same : name = o.name := by
    cases titled with
    | own => rfl
    | new enum => cases enum
  have decoded := inner.of_generic
  have opened : Chosen f o.name (casesSoFar f []) start.descriptors.size
      (claimed (opening .generic f { o with name }) nullable start) :=
    ⟨_, get?_claimed _ _ _, same, rfl⟩
  -- the descriptor is told of each case in turn, and its list of keys is complete from the start
  obtain ⟨_, parts, chosen⟩ := each.collects
    (fun cs t => Filled t ∧ (∀ c ∈ cs, c ≠ []) ∧ Chosen f o.name (casesSoFar f cs) start.descriptors.size t)
    (by
      rintro g hint cs m c u inside ⟨filled, parts, chosen⟩
      obtain ⟨grows, finishes⟩ := convertDepth_finishes inside
      obtain ⟨after, some, _⟩ := finishes filled
      have touches := noted_touches .generic f start.descriptors.size (cs ++ [c]) u
      refine ⟨after.of_index touches.index, ?_, (chosen.grows grows).noted⟩
      exact fun part listed => (List.mem_append.mp listed).elim (parts part)
        fun own => List.mem_singleton.mp own ▸ some)
    ⟨(filled.of_index quiet.index).claimed _ nullable, by simp, opened⟩
  obtain ⟨ds, rfl, pairs⟩ := each.forall₂
  have each := forall₂_comp (forall₂_of_mapM_some decoded) pairs
  rw [casesSoFar_all each.length_eq.symm] at chosen
  rw [claimedContainer_eq_cons, ← quiet.descriptors]
  refine ⟨_, _, rfl, chosen, List.map_fst_zip each.length_eq.le, fun kc listed => ?_⟩
  obtain ⟨g, decoded, hint, m, n, converted⟩ := List.forall₂_zip each listed
  exact ⟨parts _ (List.of_mem_zip listed).2, g, hint, depth, m, n, decoded, converted⟩

theorem convertDepth_chosen {depth : Nat} (run : Returns (convertDepth cfg depth f o) s c t)
    (chooses : Chooses cfg f) (filled : Filled s) :
    ∃ rest cases, c = s.descriptors.size :: rest ∧ Chosen f o.name cases s.descriptors.size t ∧
      keys cases = caseKeys f ∧ ∀ kc ∈ cases, kc.2 ≠ [] ∧ CaseOf cfg f o.base kc.1 kc.2 := by
  obtain ⟨direct, lone, raw, written, generic⟩ := chooses
  cases depth with
  | zero => exact absurd run not_returns_throw
  | succ depth =>
    rw [convertDepth_succ] at run
    have step : Step cfg (fun f o s c t => Returns (convertDepth cfg depth f o) s c t) f o s c t :=
      convertWith_step (fun _ _ _ _ _ inside => inside) run
    cases step with
    | ref isRef => simp [direct] at isRef
    | union _ multi => simp [lone] at multi
    | types _ multi => simp [lone] at multi
    | node _ _ found built =>
      cases written.symm.trans found
      rw [generic] at built
      obtain ⟨rest, cases, whole, ⟨d, stored, name, shape⟩, same, each⟩ := built.chosen filled
      simp only [caseKeys, CaseOf, caseJson, genericJson_stripped] at shape same each
      exact ⟨rest, cases, whole, ⟨d, stored, name, shape⟩, same, each⟩

end cases

section lines

variable {cfg : Setting} {u : Store} {d : Descriptor} {id : Id}

theorem mapM_lines {α : Type} {step : α → RenderM String} (line : α → String → String) {l : List α}
    (each : ∀ x ∈ l, Completes (step x)) (deps : List Id) :
    ∃ texts later,
      List.Forall₂ (fun x text => ∃ before after, (step x).run before = .ok (text, after)) l texts ∧
        (l.mapM fun x => do return line x (← step x)).run deps = .ok (List.zipWith line l texts, later) := by
  induction l generalizing deps with
  | nil => exact ⟨[], deps, .nil, rfl⟩
  | cons x l ih =>
    obtain ⟨⟨text, middle⟩, first⟩ := each x List.mem_cons_self deps
    obtain ⟨texts, later, others, rest⟩ := ih (fun y inside => each y (List.mem_cons_of_mem x inside)) middle
    refine ⟨text :: texts, later, .cons ⟨deps, middle, first⟩ others, ?_⟩
    rw [List.mapM_cons, StateT.run_bind]
    refine except_bind_ok.mpr ⟨(line x text, middle), ?_, ?_⟩
    · rw [StateT.run_bind]
      exact except_bind_ok.mpr ⟨_, first, rfl⟩
    · rw [StateT.run_bind]
      exact except_bind_ok.mpr ⟨_, rest, rfl⟩

def WrittenAs (cfg : Setting) (u : Store) (types : Container) (text : String) : Prop :=
  ∃ before after, (inlineContainer (inlineText cfg u) types).run before = .ok (text, after)

def conditionLine (parameter : String) (kc : String × Container) (text : String) : String :=
  "\n  " ++ parameter ++ " extends " ++ (Json.str kc.1).compact ++ " ? " ++ text ++ " :"

/-- The declaration of a type chosen by a key: a parameter that is the first key by default, and the lines. -/
def conditionalText (d : Descriptor) (parameter first : String) (lines : List String) : String :=
  d.comments ++ "export type " ++ d.name ++ "<" ++ parameter ++ " extends string = "
    ++ (Json.str first).compact ++ "> =" ++ join "" lines ++ "\n  any;"

theorem Attained.declares_conditions (attained : Attained cfg u) (found : u.get? id = some d)
    (named : d.name ≠ "") {parameter first : String} {types : Container} {others : List (String × Container)}
    (shape : d.shape = .generic parameter ((first, types) :: others)) (deps : List Id) :
    ∃ texts later,
      List.Forall₂ (fun kc text => WrittenAs cfg u kc.2 text) ((first, types) :: others) texts ∧
        (declarationText cfg u id).run deps = .ok (conditionalText d parameter first
          (List.zipWith (conditionLine parameter) ((first, types) :: others) texts), later) := by
  have each : ∀ kc ∈ (first, types) :: others, Completes (inlineContainer (inlineText cfg u) kc.2) := by
    intro kc listed
    refine completes_composes.container fun i inside => attained.completes ?_
    refine (attained.grounded.unfolds id d found i ?_).lt
    rw [shape]
    exact List.mem_flatMap.mpr ⟨kc, listed, inside⟩
  obtain ⟨texts, later, parts, lines⟩ := mapM_lines (conditionLine parameter) each deps
  refine ⟨texts, later, parts, ?_⟩
  unfold declarationText fetch
  rw [found]
  dsimp only
  rw [pure_bind, if_neg named, shape]
  dsimp only [declareGeneric]
  rw [StateT.run_bind]
  exact except_bind_ok.mpr ⟨_, lines, rfl⟩

end lines

/-- A fragment with a type chosen by a key that was converted, seen from any later store. Its descriptor has
the keys of the table, each of them once, first those that are listed and then the others in their order;
each has a container with something in it, which comes from the fragment under the key; and if it has a name
and a key, the declaration has one condition for each key in this order, and the first key as default. -/
theorem chosen_keys_ordered {cfg : Setting} {depth : Nat} {f : Fragment} {o : Options} {s t u : Store}
    {c : Container} (run : Returns (convertDepth cfg depth f o) s c t) (chooses : Chooses cfg f)
    (distinct : (keys ((genericJson f).fieldsAt "cases")).Nodup) (attained : Attained cfg u)
    (log : t.index <:+ u.index) (later : KeepsFrom s.descriptors.size t u) :
    ∃ id rest d cases, c = id :: rest ∧ u.get? id = some d ∧ d.name = o.name ∧
      d.shape = .generic (parameterName (genericJson f)) cases ∧
      Arranged ((genericJson f).getD "order") ((genericJson f).fieldsAt "cases") (keys cases) ∧
      (∀ kc ∈ cases, kc.2 ≠ [] ∧ CaseOf cfg f o.base kc.1 kc.2) ∧
      ∀ first others, o.name ≠ "" → keys cases = first :: others → ∀ deps, ∃ texts last,
        List.Forall₂ (fun kc text => WrittenAs cfg u kc.2 text) cases texts ∧
        (declarationText cfg u id).run deps = .ok (conditionalText d (parameterName (genericJson f)) first
          (List.zipWith (conditionLine (parameterName (genericJson f))) cases texts), last) := by
  have filled : Filled s := fun entry listed =>
    attained.filled entry (((convertDepth_grows run).log.trans log).subset listed)
  obtain ⟨rest, cases, whole, ⟨d, stored, name, shape⟩, same, each⟩ := convertDepth_chosen run chooses filled
  have found := later.get? (Nat.le_refl _) stored
  refine ⟨_, rest, d, cases, whole, found, name, shape, ?_, each, ?_⟩
  · rw [same]
    exact caseKeys_arranged distinct
  · intro first others named start deps
    obtain ⟨⟨_, types⟩, others, rfl, rfl, rfl⟩ := List.map_eq_cons_iff.mp start
    rw [← name] at named
    exact attained.declares_conditions found named shape deps

def parcelCases : Fragment where
  keywords :=
    { extensions := [(genericKeyword, .obj
        [("cases", .obj [("lost", .obj [("type", .str "null")]), ("sent", .obj [("type", .str "string")]),
          ("due", .obj [("type", .str "number")]), ("kept", .obj [("type", .str "boolean")])]),
         ("order", .arr [.str "sent", .null, .str "due", .str "sent", .str "gone"]),
         ("parameter", .str "State")])] }

theorem caseKeys_parcelCases : caseKeys parcelCases = ["sent", "due", "kept", "lost"] := by
  refine (caseKeys_arranged (by decide)).unique ⟨by decide, by decide, ?_⟩
  unfold Precedes
  decide

def parcelled : Store :=
  (exec (convertDepth blankPage firstDepth parcelCases { name := "Parcel" }) {}).2

theorem kind_parcelCases : (stripped parcelCases).toJson?.map (kindOf blankPage) = some .generic := by
  decide +kernel

theorem exec_parcelCases :
    (exec (convertDepth blankPage firstDepth parcelCases { name := "Parcel" }) {}).1 = .ok [0] := by
  have read : (stripped parcelCases).toJson?.map
      (fun raw => (exec (classifyRaw blankPage raw "") {}).1) = some (.ok .generic) := by decide +kernel
  obtain ⟨raw, written, first⟩ := Option.map_eq_some_iff.mp read
  have classified : exec (classifyRaw blankPage raw "") {} =
      (.ok .generic, (exec (classifyRaw blankPage raw "") {}).2) := Prod.ext first rfl
  have order := caseKeys_parcelCases
  rw [caseKeys, genericJson] at order
  rw [firstDepth, convertDepth_succ, convertWith_eq, if_neg (by decide), if_neg (by decide), written]
  dsimp only
  rw [exec_bind, classified]
  change (exec (convertGeneric _ parcelCases _ _) _).1 = _
  -- the keys are put in order before the rest is evaluated
  rw [convertGeneric, order]
  obtain rfl : raw = ((stripped parcelCases).toJson?).getD .null := by rw [written]; rfl
  decide +kernel

theorem chosen_keys_ordered_parcel :
    ∃ depth d cases,
      Returns (convertDepth blankPage depth parcelCases { name := "Parcel" }) {} [0] parcelled ∧
      parcelled.get? 0 = some d ∧ d.shape = .generic "State" cases ∧
      keys cases = ["sent", "due", "kept", "lost"] ∧
      (∀ kc ∈ cases, kc.2 ≠ [] ∧ CaseOf blankPage parcelCases "" kc.1 kc.2) ∧
      ∃ texts last, List.Forall₂ (fun kc text => WrittenAs blankPage parcelled kc.2 text) cases texts ∧
        (declarationText blankPage parcelled 0).run [] =
          .ok (conditionalText d "State" "sent" (List.zipWith (conditionLine "State") cases texts), last) := by
  have converted : Returns (convert blankPage parcelCases { name := "Parcel" }) {} [0] parcelled :=
    returns_deepening_first _ exec_parcelCases
  have chooses : Chooses blankPage parcelCases := ⟨rfl, rfl, Option.map_eq_some_iff.mp kind_parcelCases⟩
  have run := converted
  rw [Returns, exec_convert_fresh _ (.inl rfl), Options.normal_unowned rfl] at run
  obtain ⟨depth, run⟩ := returns_deepening run
  have attained : Attained blankPage parcelled :=
    .converted .fresh (fun owned => absurd rfl owned) converted (by intro cut; cases cut)
  obtain ⟨id, rest, d, cases, whole, found, name, shape, arranged, each, declared⟩ :=
    chosen_keys_ordered run chooses (by decide) attained List.suffix_rfl (.refl _ _)
  cases whole
  have same : keys cases = ["sent", "due", "kept", "lost"] :=
    (arranged.unique (caseKeys_arranged (by decide))).trans caseKeys_parcelCases
  exact ⟨depth, d, cases, run, found, shape, same, each, declared _ _ (by decide) same []⟩

end Typesmith.Model
