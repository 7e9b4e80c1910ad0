import Typesmith.Proofs.Bracketing
import Typesmith.Proofs.Heading

namespace Typesmith.Model

open Text

/-- What a descriptor contributes to texts by itself is closed, types declared elsewhere apart: these have
no declaration. A record has one set of properties at most. -/
def Descriptor.Regular (d : Descriptor) : Prop :=
  match d.shape with
  | .value token => Text.Closed token.toList
  | .external _ => d.name = ""
  | .object sets _ => sets.length ≤ 1 ∧
      ∀ set ∈ sets, ∀ p ∈ set, p.isIndex = true → Text.Closed p.name.toList
  | _ => True

def AllRegular (s : Store) : Prop :=
  ∀ i d, s.get? i = some d → d.Regular

section regular

variable {cfg : Setting} {s t : Store}

theorem regular_value {d : Descriptor} {token : String} (shape : d.shape = .value token)
    (among : token ∈ ["Blob", "string", "number", "boolean", "null", "any"]) : d.Regular := by
  have quiet : ["Blob", "string", "number", "boolean", "null", "any"].all
      (fun token => token.toList.all isQuiet) = true := by decide
  rw [Descriptor.Regular, shape]
  exact closed_literal (List.all_eq_true.mp quiet token among)

theorem valueToken_mem (kind : Kind) (f : Fragment) :
    valueToken kind f ∈ ["Blob", "string", "number", "boolean", "null", "any"] := by
  unfold valueToken
  split
  · split <;> simp
  all_goals simp

theorem regular_external (f : Fragment) (o : Options) (name : String) :
    (externalDescriptor f o name).Regular :=
  rfl

theorem regular_opening (kind : Kind) (f : Fragment) (o : Options) : (opening kind f o).Regular := by
  cases kind
  case object => exact ⟨Nat.zero_le 1, fun _ inside => nomatch inside⟩
  case external => exact regular_external f o _
  case array | enum | someOf | generic => trivial
  all_goals exact regular_value rfl (valueToken_mem _ f)

theorem allRegular_fresh : AllRegular {} := by
  intro i d found
  cases i <;> cases found

theorem AllRegular.of_quiet (all : AllRegular s) (quiet : Quiet s t) : AllRegular t := by
  intro i d found
  rw [Store.get?, quiet.descriptors] at found
  exact all i d found

theorem AllRegular.push (all : AllRegular s) {d : Descriptor} (own : d.Regular) : AllRegular (s.push d).2 := by
  intro i e found
  rw [Store.get?_push] at found
  split at found
  · cases found
    exact own
  · exact all i e found

theorem AllRegular.register (all : AllRegular s) (ref : String) (c : Container) :
    AllRegular (s.register ref c) := by
  intro i d found
  rw [get?_register] at found
  exact all i d found

theorem AllRegular.setShape (all : AllRegular s) {shape : Shape}
    (own : ∀ d : Descriptor, { d with shape }.Regular) {id : Id} : AllRegular (s.setShape id shape) := by
  intro i d found
  rw [Store.get?_setShape] at found
  split at found
  · obtain ⟨e, _, rfl⟩ := Option.map_eq_some_iff.mp found
    exact own e
  · exact all i d found

theorem AllRegular.claimed (all : AllRegular s) {d : Descriptor} (own : d.Regular) (nullable : Bool) :
    AllRegular (claimed d nullable s) := by
  have marked : { d with nullable : Descriptor }.Regular := own
  unfold Model.claimed
  refine AllRegular.register ?_ _ _
  split
  · exact (all.push marked).push (regular_value rfl (by decide))
  · exact all.push marked

theorem AllRegular.noted (all : AllRegular s) (kind : Kind) (f : Fragment) (id : Id) (cs : List Container) :
    AllRegular (noted kind f id cs s) := by
  unfold Model.noted
  split
  · exact all.setShape fun _ => by trivial
  · exact all.setShape fun _ => by trivial
  · exact all.setShape fun _ => by trivial
  · exact all

theorem regular_record {set : List Property} {closed : Bool}
    (index : ∀ p ∈ set, p.isIndex = true → p.name = "key") (d : Descriptor) :
    { d with shape := .object [set] closed }.Regular := by
  refine ⟨Nat.le_refl 1, fun other single p listed own => ?_⟩
  rw [List.mem_singleton.mp single] at listed
  rw [index p listed own]
  exact fun _ => rfl

theorem not_isIndex_propertySet {f : Fragment} {cs : List Container} :
    ∀ p ∈ propertySet f cs, p.isIndex = true → p.name = "key" := by
  intro p listed index
  obtain ⟨_, _, rfl⟩ := List.mem_map.mp listed
  cases index

theorem AllRegular.finished (all : AllRegular s) (kind : Kind) (f : Fragment) (id : Id)
    (cs : List Container) : AllRegular (finished kind f id cs s) := by
  have key (types : Container) : ∀ p ∈ [indexProperty types], p.isIndex = true → p.name = "key" := by
    intro p listed _
    rw [List.mem_singleton.mp listed]
    rfl
  unfold Model.finished
  split
  · split
    · refine all.setShape (regular_record fun p listed => ?_)
      exact (List.mem_append.mp listed).elim (not_isIndex_propertySet p) (key _ p)
    · exact all.setShape (regular_record not_isIndex_propertySet)
    · split
      · exact (all.push (regular_value rfl (by decide))).setShape (regular_record (key _))
      · exact all.setShape (regular_record not_isIndex_propertySet)
  · exact all

def KeepsRegular : Converts := fun _ _ s _ t =>
  AllRegular s → AllRegular t

theorem KeepsRegular.finds {ref : String} {c : Container} (finds : Finds cfg KeepsRegular ref s c t)
    (all : AllRegular s) : AllRegular t := by
  cases finds with
  | known => exact all
  | @replaced f _ other _ _ _ given _ =>
    have before := all.of_quiet (quiet_claim given)
    exact before.claimed (regular_external f { ref := Reference.normalize ref } other) false
  | converted _ _ given _ inside => exact inside (all.of_quiet (quiet_claim given))

theorem keepsRegular_step {f : Fragment} {o : Options} {c : Container}
    (step : Step cfg KeepsRegular f o s c t) : KeepsRegular f o s c t := by
  intro all
  cases step with
  | ref _ found => exact (KeepsRegular.finds found all).register _ _
  | union _ _ _ inside => exact inside all
  | types _ _ _ each =>
    have inside := each.keeps AllRegular (fun _ _ _ _ _ one => one) (fun _ _ => id) all
    refine AllRegular.register ?_ _ _
    unfold sideBySide
    split
    · exact inside.push (regular_value rfl (by decide))
    · exact inside
  | node _ _ _ built =>
    obtain ⟨_, quiet, _, each⟩ := built
    have inside := each.keeps AllRegular (fun _ _ _ _ _ one => one)
      (fun cs _ before => before.noted _ _ _ cs)
      ((all.of_quiet quiet).claimed (regular_opening _ _ _) _)
    exact inside.finished _ _ _ _

theorem Requests.regular (requests : Requests cfg {} s) : AllRegular s := by
  induction requests with
  | none => exact allRegular_fresh
  | more _ last ih =>
    exact KeepsRegular.finds (findOrCreate_keeps (fun _ _ _ _ _ => keepsRegular_step) last) ih

/-- Names of types declared elsewhere come from the document as they are. Where they are closed, all texts
are. -/
theorem Requests.bracketed (requests : Requests cfg {} s)
    (elsewhere : ∀ i d name, s.get? i = some d → d.shape = .external name → Text.Closed name.toList) :
    Bracketed s := by
  have tidy := requests.unfold.1
  refine ⟨fun i d found => ?_, fun i d found => ?_⟩
  · by_cases named : d.name = ""
    · rw [named]
      exact closed_nil
    · exact Naming.closed_identifier (tidy.legal _ (tidy.held i d found named)).identifier
  · have regular := requests.regular i d found
    unfold Descriptor.Regular at regular
    cases shape : d.shape <;> rw [shape] at regular
    case value => exact regular
    case external name => exact elsewhere i d name found shape
    case object => exact regular.2
    all_goals trivial

end regular

/-- The declaration gives the name of the descriptor to a type expression that is a union with `null` at
the top. -/
def AdmitsNull (d : Descriptor) (text : String) : Prop :=
  ∃ expr, text = d.comments ++ "export type " ++ d.name ++ " = " ++ expr ++ ";" ∧
    "null" ∈ unionMembers expr

/-- The shapes of which the declaration does not look at whether `null` is taken too: records, enums of
their own, types with cases, and what comes to one record. -/
inductive Unmarked (cfg : Setting) (s : Store) : Shape → Prop
  | record (sets : List (List Property)) (closed : Bool) : Unmarked cfg s (.object sets closed)
  | enum {members : List Member} (style : cfg.enumStyle = .enum)
      (uniform : (allStrings members || allNumbers members) = true) : Unmarked cfg s (.enum members)
  | chosen {parameter : String} {cases : List (String × Container)} (some : cases ≠ []) :
      Unmarked cfg s (.generic parameter cases)
  | collapsed {c : Fragment.Combinator} {branches : List Container} {sets : List (List Property)}
      {closed : Bool} (single : singleObject? s branches = some (sets, closed)) :
      Unmarked cfg s (.someOf c branches)

section declarations

variable {d : Descriptor} {expr text : String}

theorem admitsNull_alias_iff :
    AdmitsNull d (d.comments ++ "export type " ++ d.name ++ " = " ++ expr ++ ";") ↔
      "null" ∈ unionMembers expr := by
  refine ⟨fun ⟨other, same, inside⟩ => ?_, fun inside => ⟨expr, rfl, inside⟩⟩
  have letters := congrArg String.toList same
  simp only [String.toList_append, List.append_assoc, List.append_cancel_left_eq,
    List.append_cancel_right_eq] at letters
  rwa [String.toList_inj.mp letters]

theorem admitsNull_alias (marked : d.nullable = true) (closed : Text.Closed expr.toList) :
    AdmitsNull d (d.alias expr) := by
  refine ⟨expr ++ " | null", ?_, null_mem_unionMembers closed⟩
  simp only [Descriptor.alias, marked, if_true, String.append_assoc]

theorem not_admitsNull_other (keyword : Char) (rest : String) (other : keyword ≠ 't') :
    ¬ AdmitsNull d (d.comments ++ ("export " ++ String.singleton keyword) ++ rest) := by
  rintro ⟨expr, same, _⟩
  have split : "export type ".toList = "export ".toList ++ ('t' :: "ype ".toList) := rfl
  have letters := congrArg String.toList same
  simp only [String.toList_append, List.append_assoc, List.append_cancel_left_eq, split,
    String.toList_singleton, List.cons_append, List.cons.injEq] at letters
  exact other letters.1

theorem not_admitsNull_parameter {rest : String} :
    ¬ AdmitsNull d (d.comments ++ "export type " ++ d.name ++ "<" ++ rest) := by
  rintro ⟨expr, same, _⟩
  have letters := congrArg String.toList same
  simp only [String.toList_append, List.append_assoc, List.append_cancel_left_eq] at letters
  cases letters

theorem yields_any {α : Type} (x : RenderM α) : Yields (fun _ => True) x :=
  fun _ _ _ _ => trivial

theorem record_not_admitsNull (inline : Inliner) {sets : List (List Property)} (closed : Bool)
    (short : sets.length ≤ 1) :
    Yields (fun text => ¬ AdmitsNull d text) (declareObject inline d.name d.comments sets closed) := by
  have hollow (expr : String) (apart : "null" ∉ unionMembers expr) :
      ¬ AdmitsNull d (d.comments ++ "export type " ++ d.name ++ " = " ++ expr ++ ";") :=
    mt admitsNull_alias_iff.mp apart
  unfold declareObject
  split
  · refine (yields_any _).map fun block _ => ?_
    have interface : "export interface " = "export " ++ String.singleton 'i' ++ "nterface " := rfl
    rw [interface]
    simpa only [String.append_assoc] using
      not_admitsNull_other 'i' ("nterface " ++ d.name ++ " \x7b\n" ++ block ++ "\x7d") (by decide)
  · rename_i several
    unfold inlineObject
    cases closed with
    | true => exact yields_pure (hollow "Record<string, never>" (by decide))
    | false =>
      match sets, short with
      | [], _ => exact yields_pure (hollow "" (by decide))
      | [set], _ => exact absurd rfl (several set rfl)

theorem alias_admitsNull {x : RenderM String} (marked : d.nullable = true) (closed : YieldsClosed x) :
    Yields (fun text => AdmitsNull d text) (do return d.alias (← x)) :=
  closed.map fun _ => admitsNull_alias marked

end declarations

section shapes

variable {cfg : Setting} {s : Store} {d : Descriptor} {members : List Member}

/-- A declaration of the shape takes `null` unless shapes of the sort are declared without the mark. -/
def HeedsMark (cfg : Setting) (s : Store) (d : Descriptor) (shape : Shape) (text : String) : Prop :=
  AdmitsNull d text ↔ ¬ Unmarked cfg s shape

theorem Yields.heeds {shape : Shape} {x : RenderM String} (takes : Yields (fun text => AdmitsNull d text) x)
    (marked : ¬ Unmarked cfg s shape) : Yields (HeedsMark cfg s d shape) x :=
  fun deps text later run => iff_of_true (takes deps text later run) marked

theorem Yields.ignores {shape : Shape} {x : RenderM String}
    (leaves : Yields (fun text => ¬ AdmitsNull d text) x) (unmarked : Unmarked cfg s shape) :
    Yields (HeedsMark cfg s d shape) x :=
  fun deps text later run => iff_of_false (leaves deps text later run) (not_not_intro unmarked)

theorem enum_heeds (marked : d.nullable = true) :
    HeedsMark cfg s d (.enum members) (declareEnum cfg d members) := by
  unfold declareEnum
  split
  · rename_i union
    refine iff_of_true (admitsNull_alias marked (closed_enumUnion members)) ?_
    rintro ⟨⟩
    simp_all
  · rename_i native
    rw [Bool.or_eq_true, decide_eq_true_eq, not_or, Bool.not_eq_true', Bool.not_eq_false] at native
    have style : cfg.enumStyle = .enum := by
      cases style : cfg.enumStyle
      · rfl
      · exact absurd style native.1
    refine iff_of_false ?_ (not_not_intro (.enum style native.2))
    have enum : "export enum " = "export " ++ String.singleton 'e' ++ "num " := rfl
    rw [enum]
    simpa only [String.append_assoc] using not_admitsNull_other 'e' _ (by decide)

theorem generic_heeds {inline : Inliner} (marked : d.nullable = true) (parameter : String)
    (cases : List (String × Container)) :
    Yields (HeedsMark cfg s d (.generic parameter cases)) (declareGeneric inline d parameter cases) := by
  unfold declareGeneric
  cases cases with
  | nil =>
    refine (yields_pure (admitsNull_alias marked fun _ => rfl)).heeds ?_
    rintro ⟨⟩
    contradiction
  | cons first rest =>
    refine Yields.ignores ?_ (.chosen (List.cons_ne_nil _ _))
    refine (yields_any _).map fun lines _ => ?_
    simpa only [String.append_assoc] using not_admitsNull_parameter

theorem declaration_heeds {i : Id} (bracketed : Bracketed s) (regular : AllRegular s)
    (found : s.get? i = some d) (named : d.name ≠ "") (marked : d.nullable = true) :
    Yields (HeedsMark cfg s d d.shape) (declarationText cfg s i) := by
  have inside : ∀ j, YieldsClosed (inlineText cfg s j) := bracketed.closed_inlineDepth cfg _
  have own := regular i d found
  have written := bracketed.shapes i d found
  have single {j : Id} {e : Descriptor} {sets : List (List Property)} {closed : Bool}
      (stored : s.get? j = some e) (shape : e.shape = .object sets closed) : sets.length ≤ 1 := by
    have own := regular j e stored
    rw [Descriptor.Regular, shape] at own
    exact own.1
  unfold declarationText fetch
  rw [found]
  dsimp only
  rw [pure_bind, if_neg named]
  unfold Descriptor.Regular at own
  -- a shape either gets an alias of a closed text, which has the mark, or is declared in another way
  cases shape : d.shape <;> rw [shape] at own written <;> dsimp only
  case value token => exact (yields_pure (admitsNull_alias marked written)).heeds nofun
  case external => exact absurd own named
  case enum members => exact yields_pure (enum_heeds marked)
  case array items => exact (alias_admitsNull marked (closed_array inside)).heeds nofun
  case generic parameter cases => exact generic_heeds marked parameter cases
  case object sets closed => exact (record_not_admitsNull _ closed (single found shape)).ignores (.record _ _)
  case someOf c branches =>
    split
    · rename_i sets closed collapsed
      obtain ⟨j, e, _, stored, _, shape⟩ := singleObject?_some collapsed
      exact (record_not_admitsNull _ closed (single stored shape)).ignores (.collapsed collapsed)
    · rename_i apart
      refine (alias_admitsNull marked (closed_someOf s d inside)).heeds ?_
      rintro ⟨⟩
      simp_all

end shapes

section

variable {cfg : Setting} {s t : Store} {c : Container} {f : Fragment} {ref : String}

/-- Whatever was asked for before: where a reference leads to a fragment that allows `null` and more, the
descriptor that the request answers with first has a declaration if it has a name, and the declaration
takes `null` unless the shape is one that is declared without the mark. -/
theorem nullable_admits_null_iff (before : Requests cfg {} s) (request : Returns (findOrCreate cfg ref) s c t)
    (leads : cfg.resolver.fragment (Reference.normalize ref) = .ok f) (isRef : f.isRef = false)
    (nullable : f.isNullable = true) (mixed : onlyNull f = false)
    (elsewhere : ∀ i d name, t.get? i = some d → d.shape = .external name → Text.Closed name.toList) :
    ∃ id rest d, c = id :: rest ∧ t.get? id = some d ∧
      (d.name ≠ "" → ∃ text deps, (renderText cfg t true id).run [] = .ok (text, deps) ∧
        (AdmitsNull d text ↔ ¬ Unmarked cfg t d.shape)) := by
  have after : Requests cfg {} t := .more before request
  obtain ⟨_, g, resolved, headed⟩ := (portrays_null cfg).findOrCreate request before.unfold.1.named
    ((portrays_null cfg).requests before)
  cases resolved.symm.trans leads
  obtain ⟨id, rest, rfl, d, found, marks⟩ := headed isRef
  refine ⟨id, rest, d, rfl, found, fun named => ?_⟩
  have marked : d.nullable = true := by
    rw [marks named, keepsNull, nullable, mixed]
    rfl
  obtain ⟨_, _, _, declared⟩ := requested_texts_end after
  obtain ⟨⟨text, deps⟩, run⟩ := (declared id d found []).1 named
  exact ⟨text, deps, run,
    declaration_heeds (after.bracketed elsewhere) after.regular found named marked [] text deps run⟩

end

def notebook : Setting where
  resolver := { root := .obj [
    ("Note", .obj [
      ("nullable", .bool true),
      ("properties", .obj [("x", .obj [("type", .str "string")])]),
      ("type", .str "object")]),
    ("Tags", .obj [
      ("items", .obj [("type", .str "string")]),
      ("nullable", .bool true),
      ("type", .str "array")])] }

theorem notebook_nullable : ∀ ref ∈ ["#/Note", "#/Tags"], ∃ f,
    notebook.resolver.fragment ref = .ok f ∧ f.isRef = false ∧ f.isNullable = true ∧ onlyNull f = false := by
  have all : ∀ ref ∈ ["#/Note", "#/Tags"], (notebook.resolver.fragment ref).toOption.map
      (fun f => (f.isRef, f.isNullable, onlyNull f)) = some (false, true, false) := by
    decide +kernel
  intro ref listed
  obtain ⟨f, resolved, flags⟩ := Option.map_eq_some_iff.mp (all ref listed)
  simp only [Prod.mk.injEq] at flags
  exact ⟨f, eq_ok_of_toOption resolved, flags⟩

theorem nullable_admits_null_iff_tags :
    ∃ t d text deps, Returns (findOrCreate notebook "#/Tags") {} [0, 1] t ∧ t.get? 0 = some d ∧
      d.name = "Tags" ∧ (renderText notebook t true 0).run [] = .ok (text, deps) ∧ AdmitsNull d text := by
  have request : Returns (findOrCreate notebook "#/Tags") {} [0, 1] _ :=
    returns_deepening_first _ (by decide +kernel)
  obtain ⟨t, made⟩ :
      ∃ t, t = (exec (findOrCreateWith notebook (convertDepth notebook firstDepth) "#/Tags") {}).2 :=
    ⟨_, rfl⟩
  rw [← made] at request
  have stored : (t.get? 0).map (fun d => (d.name, d.shape matches .array _)) = some ("Tags", true) ∧
      t.descriptors.toList.all (fun d => !(d.shape matches .external _)) = true := by
    rw [made]
    decide +kernel
  obtain ⟨d, found, own⟩ := Option.map_eq_some_iff.mp stored.1
  obtain ⟨name, array⟩ := Prod.mk.inj own
  have elsewhere : ∀ i e name, t.get? i = some e → e.shape = .external name → Text.Closed name.toList := by
    intro i e name found shape
    have listed := List.all_eq_true.mp stored.2 e (Array.mem_toList_iff.mpr (Array.mem_of_getElem? found))
    rw [shape] at listed
    cases listed
  obtain ⟨f, leads, isRef, nullable, mixed⟩ := notebook_nullable "#/Tags" (by simp)
  obtain ⟨id, rest, e, first, again, admits⟩ :=
    nullable_admits_null_iff .none request leads isRef nullable mixed elsewhere
  cases first
  cases found.symm.trans again
  obtain ⟨text, deps, run, iff⟩ := admits (by simp [name])
  refine ⟨t, d, text, deps, request, found, name, run, iff.mpr fun unmarked => ?_⟩
  cases shape : d.shape <;> rw [shape] at array unmarked <;> cases array
  cases unmarked

theorem note_leaves_null :
    ∃ f t d text deps, notebook.resolver.fragment "#/Note" = .ok f ∧ f.isRef = false ∧
      f.isNullable = true ∧ onlyNull f = false ∧
      Returns (findOrCreate notebook "#/Note") {} [0, 1] t ∧ t.get? 0 = some d ∧ d.name = "Note" ∧
      (renderText notebook t true 0).run [] = .ok (text, deps) ∧
      text = "export interface Note \x7b\n  x?: string;\n\x7d" ∧ ¬ AdmitsNull d text := by
  have request : Returns (findOrCreate notebook "#/Note") {} [0, 1] _ :=
    returns_deepening_first _ (by decide +kernel)
  obtain ⟨t, made⟩ :
      ∃ t, t = (exec (findOrCreateWith notebook (convertDepth notebook firstDepth) "#/Note") {}).2 :=
    ⟨_, rfl⟩
  rw [← made] at request
  have stored : (t.get? 0).map (fun d => (d.name, d.comments)) = some ("Note", "") ∧
      ((renderText notebook t true 0).run []).toOption.map (·.1) =
        some "export interface Note \x7b\n  x?: string;\n\x7d" := by
    rw [made]
    decide +kernel
  obtain ⟨d, found, own⟩ := Option.map_eq_some_iff.mp stored.1
  obtain ⟨⟨text, deps⟩, run, shown⟩ := Option.map_eq_some_iff.mp stored.2
  obtain ⟨name, comments⟩ := Prod.mk.inj own
  obtain ⟨f, leads, isRef, nullable, mixed⟩ := notebook_nullable "#/Note" (by simp)
  have apart : ¬ AdmitsNull d text := by
    have interface : text = d.comments ++ ("export " ++ String.singleton 'i') ++
        "nterface Note \x7b\n  x?: string;\n\x7d" := by
      rw [comments]
      exact shown
    rw [interface]
    exact not_admitsNull_other 'i' _ (by decide)
  exact ⟨f, t, d, text, deps, leads, isRef, nullable, mixed, request, found, name, eq_ok_of_toOption run,
    shown, apart⟩

end Typesmith.Model
