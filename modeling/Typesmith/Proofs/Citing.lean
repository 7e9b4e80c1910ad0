import Typesmith.Declaration.Layout
import Typesmith.Proofs.Unfolding

namespace Typesmith.Model

open Declaration Text

/-- The descriptors that are written out in a shape. A closed record shows nothing. -/
def Shape.shown : Shape → List Id
  | .object _ true => []
  | shape => shape.inside

def Descriptor.ByName (cfg : Setting) (d : Descriptor) : Prop :=
  d.name ≠ "" ∧
    match d.shape with
    | .external _ => False
    | .enum members => (cfg.inlineStringEnums && allStrings members) = false
    | _ => True

/-- Where the first descriptor is used, the second is written by its name. -/
inductive Cites (cfg : Setting) (s : Store) : Id → Id → Prop
  | own {i : Id} {d : Descriptor} (found : s.get? i = some d) (named : d.ByName cfg) : Cites cfg s i i
  | inside {i j k : Id} {d : Descriptor} (found : s.get? i = some d) (unnamed : d.name = "")
      (shown : j ∈ d.shape.shown) (cites : Cites cfg s j k) : Cites cfg s i k

def Quotes (cfg : Setting) (s : Store) (i k : Id) : Prop :=
  ∃ d, s.get? i = some d ∧ ∃ j ∈ d.shape.shown, Cites cfg s j k

def Occurs (name text : String) : Prop :=
  name.toList <:+: text.toList

/-- What is noted while texts are written: what was noted before, and the cited descriptors, each of
which has its name in one of the texts. -/
structure Noted (s : Store) (cited : Id → Prop) (texts : List String) (deps later : List Id) : Prop where
  kept : deps ⊆ later
  added : ∀ k, cited k → k ∈ later
  only : ∀ k ∈ later, k ∈ deps ∨ cited k
  once : deps.Nodup → later.Nodup
  shown : ∀ k, cited k → ∃ text ∈ texts, Occurs (nameOf s k) text

/-- Every run of the step notes what is cited. `view` reads the texts off its result. -/
def Tells {α : Type} (s : Store) (view : α → List String) (cited : Id → Prop) (x : RenderM α) : Prop :=
  ∀ deps a later, x.run deps = .ok (a, later) → Noted s cited (view a) deps later

section occurs

variable {name text : String}

theorem occurs_self (name : String) : Occurs name name :=
  List.infix_rfl

theorem Occurs.before (occurs : Occurs name text) (after : String) : Occurs name (text ++ after) := by
  rw [Occurs, String.toList_append]
  exact occurs.trans (List.prefix_append _ _).isInfix

theorem Occurs.behind (occurs : Occurs name text) (before : String) : Occurs name (before ++ text) := by
  rw [Occurs, String.toList_append]
  exact occurs.trans (List.suffix_append _ _).isInfix

theorem Occurs.join (occurs : Occurs name text) (sep : String) {texts : List String}
    (inside : text ∈ texts) : Occurs name (join sep texts) := by
  induction texts with
  | nil => cases inside
  | cons first rest ih =>
    cases rest with
    | nil =>
      rw [List.mem_singleton.mp inside] at occurs
      exact occurs
    | cons next rest =>
      change Occurs name (first ++ sep ++ Text.join sep (next :: rest))
      rcases List.mem_cons.mp inside with rfl | later
      · exact (occurs.before sep).before _
      · exact (ih later).behind _

theorem Occurs.union (occurs : Occurs name text) {texts : List String} (inside : text ∈ texts) :
    Occurs name (unionText texts) := by
  have some : texts.isEmpty = false := by
    cases texts with
    | nil => cases inside
    | cons _ _ => rfl
  rw [unionText, some]
  exact occurs.join _ (List.mem_eraseDups.mpr inside)

end occurs

section tells

variable {α β : Type} {s : Store} {view : α → List String} {cited : Id → Prop}

theorem tells_pure (a : α) : Tells s view (fun _ => False) (pure a) := by
  intro deps b later run
  cases run
  exact ⟨List.Subset.refl _, fun _ => False.elim, fun _ => .inl, id, fun _ => False.elim⟩

theorem tells_throw (e : Failure) : Tells s view cited (throw e : RenderM α) := by
  intro deps a later run
  cases run

theorem Tells.congr {other : Id → Prop} {x : RenderM α} (tells : Tells s view cited x)
    (same : ∀ k, cited k ↔ other k) : Tells s view other x := by
  obtain rfl : cited = other := funext fun k => propext (same k)
  exact tells

theorem Tells.map {x : RenderM α} (tells : Tells s view cited x) {view' : β → List String} (f : α → β)
    (shows : ∀ a name, (∃ text ∈ view a, Occurs name text) → ∃ text ∈ view' (f a), Occurs name text) :
    Tells s view' cited (do return f (← x)) := by
  intro deps b later run
  rw [StateT.run_bind] at run
  obtain ⟨⟨a, middle⟩, one, two⟩ := except_bind_ok.mp run
  cases two
  have noted := tells deps a _ one
  exact { noted with shown := fun k quoted => shows a _ (noted.shown k quoted) }

theorem Noted.append {first second : Id → Prop} {texts more : List String} {deps middle later : List Id}
    (one : Noted s first texts deps middle) (two : Noted s second more middle later) :
    Noted s (fun k => first k ∨ second k) (texts ++ more) deps later := by
  constructor
  · exact List.Subset.trans one.kept two.kept
  · rintro k (before | after)
    · exact two.kept (one.added k before)
    · exact two.added k after
  · intro k inside
    rcases two.only k inside with older | new
    · exact (one.only k older).imp_right .inl
    · exact .inr (.inr new)
  · exact fun once => two.once (one.once once)
  · rintro k (before | after)
    · obtain ⟨text, inside, occurs⟩ := one.shown k before
      exact ⟨text, List.mem_append_left _ inside, occurs⟩
    · obtain ⟨text, inside, occurs⟩ := two.shown k after
      exact ⟨text, List.mem_append_right _ inside, occurs⟩

theorem Noted.congr {other : Id → Prop} {texts : List String} {deps later : List Id}
    (noted : Noted s cited texts deps later) (same : ∀ k, cited k ↔ other k) :
    Noted s other texts deps later := by
  obtain rfl : cited = other := funext fun k => propext (same k)
  exact noted

theorem tells_mapM {f : α → RenderM String} {cited : α → Id → Prop} {l : List α}
    (each : ∀ x ∈ l, Tells s (fun text => [text]) (cited x) (f x)) :
    Tells s (fun texts => texts) (fun k => ∃ x ∈ l, cited x k) (l.mapM f) := by
  induction l with
  | nil => exact (tells_pure []).congr fun k => by simp
  | cons x l ih =>
    intro deps texts later run
    rw [List.mapM_cons, StateT.run_bind] at run
    obtain ⟨⟨text, middle⟩, one, run⟩ := except_bind_ok.mp run
    rw [StateT.run_bind] at run
    obtain ⟨⟨rest, last⟩, two, made⟩ := except_bind_ok.mp run
    cases made
    have first := each x List.mem_cons_self deps text middle one
    have others := ih (fun y inside => each y (List.mem_cons_of_mem _ inside)) middle rest _ two
    exact (first.append others).congr fun k => by simp

theorem tells_reference {i : Id} {d : Descriptor} (found : s.get? i = some d) :
    Tells s (fun text => [text]) (fun k => d.name ≠ "" ∧ k = i) (reference i d) := by
  intro deps text later run
  cases run
  have name : nameOf s i = d.name := by simp [nameOf, found]
  have shown : ∀ k, d.name ≠ "" ∧ k = i → ∃ text ∈ [d.name], Occurs (nameOf s k) text := by
    rintro k ⟨_, rfl⟩
    exact ⟨_, List.mem_singleton_self _, name ▸ occurs_self _⟩
  dsimp only
  split
  · rename_i known
    simp only [Bool.or_eq_true, decide_eq_true_eq, List.contains_iff_mem] at known
    refine ⟨List.Subset.refl _, ?_, fun _ => .inl, id, shown⟩
    rintro k ⟨named, rfl⟩
    exact known.resolve_left named
  · rename_i new
    simp only [Bool.or_eq_true, decide_eq_true_eq, List.contains_iff_mem, not_or] at new
    refine ⟨List.subset_append_left _ _, ?_, ?_, ?_, shown⟩
    · rintro k ⟨_, rfl⟩
      exact List.mem_append_right _ (List.mem_singleton_self _)
    · intro k inside
      rcases List.mem_append.mp inside with older | own
      · exact .inl older
      · exact .inr ⟨new.1, List.mem_singleton.mp own⟩
    · intro once
      exact List.nodup_append_comm.mp (List.nodup_cons.mpr ⟨new.2, once⟩)

end tells

abbrev TellsText (s : Store) (cited : Id → Prop) (x : RenderM String) : Prop :=
  Tells s (fun text => [text]) cited x

section texts

variable {s : Store} {cited : Id → Prop}

theorem Tells.within {x : RenderM String} (tells : TellsText s cited x) (f : String → String)
    (shows : ∀ text name, Occurs name text → Occurs name (f text)) :
    TellsText s cited (do return f (← x)) :=
  tells.map f fun text name shown => by simpa using shows text name (by simpa using shown)

theorem Tells.together {x : RenderM (List String)} (tells : Tells s (fun texts => texts) cited x)
    (f : List String → String) (shows : ∀ texts text name, text ∈ texts → Occurs name text →
      Occurs name (f texts)) : TellsText s cited (do return f (← x)) :=
  tells.map f fun texts name ⟨text, inside, occurs⟩ => by simpa using shows texts text name inside occurs

variable {inline : Inliner} {cites : Id → Id → Prop}

theorem tells_container {c : Container} (each : ∀ i ∈ c, TellsText s (cites i) (inline i)) :
    TellsText s (fun k => ∃ i ∈ c, cites i k) (inlineContainer inline c) :=
  (tells_mapM each).together unionText fun _ _ _ inside occurs => occurs.union inside

theorem tells_member {p : Property} (each : ∀ i ∈ p.types, TellsText s (cites i) (inline i)) :
    TellsText s (fun k => ∃ i ∈ p.types, cites i k) (memberText inline p) := by
  unfold memberText
  cases p.isIndex with
  | true => exact (tells_container each).within _ fun _ _ occurs => (occurs.behind _).before _
  | false => exact (tells_container each).within _ fun _ _ occurs => (occurs.behind _).before _

theorem tells_members {set : List Property}
    (each : ∀ p ∈ set, ∀ i ∈ p.types, TellsText s (cites i) (inline i)) :
    Tells s (fun texts => texts) (fun k => ∃ p ∈ set, ∃ i ∈ p.types, cites i k)
      (set.mapM (memberText inline)) :=
  tells_mapM fun p listed => tells_member (each p listed)

theorem tells_set {set : List Property}
    (each : ∀ p ∈ set, ∀ i ∈ p.types, TellsText s (cites i) (inline i)) :
    TellsText s (fun k => ∃ p ∈ set, ∃ i ∈ p.types, cites i k) (inlineSet inline set) := by
  unfold inlineSet
  cases set with
  | nil => exact (tells_pure _).congr fun k => by simp
  | cons p rest =>
    exact (tells_members each).together _ fun _ _ _ inside occurs =>
      ((occurs.join " " inside).behind _).before _

theorem tells_object {sets : List (List Property)} {closed : Bool}
    (each : ∀ i ∈ (Shape.object sets closed).shown, TellsText s (cites i) (inline i)) :
    TellsText s (fun k => ∃ i ∈ (Shape.object sets closed).shown, cites i k)
      (inlineObject inline sets closed) := by
  unfold inlineObject
  cases closed with
  | true => exact (tells_pure _).congr fun k => by simp [Shape.shown]
  | false =>
    have sets' : Tells s (fun texts => texts) (fun k => ∃ set ∈ sets, ∃ p ∈ set, ∃ i ∈ p.types, cites i k)
        (sets.mapM (inlineSet inline)) := by
      refine tells_mapM fun set listed => tells_set fun p named i inside => each i ?_
      exact List.mem_flatMap.mpr ⟨p, List.mem_flatten.mpr ⟨set, listed, named⟩, inside⟩
    refine (sets'.together _ fun _ _ _ inside occurs => occurs.join " | " inside).congr ?_
    intro k
    simp only [Shape.shown, Shape.inside, List.mem_flatMap, List.mem_flatten]
    constructor
    · rintro ⟨set, listed, p, named, i, inside, quoted⟩
      exact ⟨i, ⟨p, ⟨set, listed, named⟩, inside⟩, quoted⟩
    · rintro ⟨i, ⟨p, ⟨set, listed, named⟩, inside⟩, quoted⟩
      exact ⟨set, listed, p, named, i, inside, quoted⟩

theorem tells_array {items : List Container}
    (each : ∀ i ∈ (Shape.array items).shown, TellsText s (cites i) (inline i)) :
    TellsText s (fun k => ∃ i ∈ (Shape.array items).shown, cites i k) (inlineArray inline items) := by
  unfold inlineArray
  split
  · rename_i hollow
    exact (tells_pure _).congr fun k => by simp [Shape.shown, Shape.inside, List.isEmpty_iff.mp hollow]
  · have texts : Tells s (fun texts => texts) (fun k => ∃ c ∈ items, ∃ i ∈ c, cites i k)
        (items.mapM fun c => do return "Array<" ++ (← inlineContainer inline c) ++ ">") := by
      refine tells_mapM fun c listed => (tells_container fun i inside => each i ?_).within _ fun _ _ occurs =>
        (occurs.behind _).before _
      exact List.mem_flatten.mpr ⟨c, listed, inside⟩
    refine (texts.together _ fun _ _ _ inside occurs => occurs.join " | " (List.mem_eraseDups.mpr inside)).congr ?_
    intro k
    simp only [Shape.shown, Shape.inside, List.mem_flatten]
    constructor
    · rintro ⟨c, listed, i, inside, quoted⟩
      exact ⟨i, ⟨c, listed, inside⟩, quoted⟩
    · rintro ⟨i, ⟨c, listed, inside⟩, quoted⟩
      exact ⟨c, listed, i, inside, quoted⟩

theorem Noted.view {texts more : List String} {deps later : List Id}
    (noted : Noted s cited texts deps later)
    (shows : ∀ name text, text ∈ texts → Occurs name text → ∃ other ∈ more, Occurs name other) :
    Noted s cited more deps later :=
  { noted with
    shown := fun k quoted => by
      obtain ⟨text, inside, occurs⟩ := noted.shown k quoted
      exact shows _ text inside occurs }

/-- A text that was seen before is left out, but what it names is noted: its first copy stands. -/
theorem tells_branches (c : Fragment.Combinator) (own : String) {branches : List Container}
    (each : ∀ i ∈ branches.flatten, TellsText s (cites i) (inline i)) (seen : List String) :
    Tells s (· ++ seen) (fun k => ∃ i ∈ branches.flatten, cites i k)
      (branchTexts s inline c own seen branches) := by
  induction branches generalizing seen with
  | nil => exact (tells_pure []).congr fun k => by simp
  | cons branch rest ih =>
    have first := tells_container (c := branch) fun i inside => each i (List.mem_append_left _ inside)
    have later := ih fun i inside => each i (List.mem_append_right _ inside)
    have both : ∀ k, ((∃ i ∈ branch, cites i k) ∨ ∃ i ∈ rest.flatten, cites i k) ↔
        ∃ i ∈ (branch :: rest).flatten, cites i k := by
      intro k
      simp only [List.flatten_cons, List.mem_append, or_and_right, exists_or]
    intro deps texts last run
    rw [branchTexts, StateT.run_bind] at run
    obtain ⟨⟨text, middle⟩, one, run⟩ := except_bind_ok.mp run
    have noted := first deps text middle one
    split at run
    · -- left out: the copy that was seen before has the names of this one
      rename_i known
      have others := later seen middle texts last run
      refine ((noted.append others).congr both).view ?_
      intro name other inside occurs
      rcases List.mem_cons.mp inside with rfl | listed
      · exact ⟨other, List.mem_append_right _ (by simpa using known), occurs⟩
      · exact ⟨other, listed, occurs⟩
    · rw [StateT.run_bind] at run
      obtain ⟨⟨more, _⟩, two, made⟩ := except_bind_ok.mp run
      cases made
      have others := later (text :: seen) middle more _ two
      refine ((noted.append others).congr both).view ?_
      have framed (name remark : String) (occurs : Occurs name text) : Occurs name
          ((if c = .allOf && 1 < branch.length then "(" ++ text ++ ")" else text) ++ remark) := by
        split
        · exact ((occurs.behind _).before _).before _
        · exact occurs.before _
      intro name other inside occurs
      simp only [List.cons_append, List.nil_append, List.mem_cons, List.mem_append] at inside
      rcases inside with rfl | listed | rfl | older
      · exact ⟨_, List.mem_cons_self, framed name _ occurs⟩
      · exact ⟨other, List.mem_cons_of_mem _ (List.mem_append_left _ listed), occurs⟩
      · exact ⟨_, List.mem_cons_self, framed name _ occurs⟩
      · exact ⟨other, List.mem_cons_of_mem _ (List.mem_append_right _ older), occurs⟩

theorem tells_someOf (d : Descriptor) {c : Fragment.Combinator} {branches : List Container}
    (each : ∀ i ∈ (Shape.someOf c branches).shown, TellsText s (cites i) (inline i)) :
    TellsText s (fun k => ∃ i ∈ (Shape.someOf c branches).shown, cites i k)
      (inlineSomeOf s inline d c branches) := by
  have texts := tells_branches c (trim ((d.fragment.map (·.keywords.description)).getD "")) each []
  intro deps text later run
  unfold inlineSomeOf at run
  rw [StateT.run_bind] at run
  obtain ⟨⟨parts, _⟩, one, made⟩ := except_bind_ok.mp run
  have noted := texts deps parts _ one
  dsimp only at noted
  rw [List.append_nil] at noted
  split at made
  · cases made
    rename_i hollow
    have nothing : parts = [] := List.isEmpty_iff.mp hollow
    subst nothing
    exact noted.view fun _ _ inside => (List.not_mem_nil inside).elim
  · cases made
    exact noted.view fun _ _ inside occurs => ⟨_, List.mem_singleton_self _, occurs.join _ inside⟩

theorem tells_cases {cases : List (String × Container)} {parameter : String}
    (each : ∀ i ∈ (Shape.generic parameter cases).shown, TellsText s (cites i) (inline i))
    (write : String × Container → String → String)
    (writes : ∀ kc text name, Occurs name text → Occurs name (write kc text)) :
    Tells s (fun texts => texts) (fun k => ∃ i ∈ (Shape.generic parameter cases).shown, cites i k)
      (cases.mapM fun kc => do return write kc (← inlineContainer inline kc.2)) := by
  have texts : Tells s (fun texts => texts) (fun k => ∃ kc ∈ cases, ∃ i ∈ kc.2, cites i k)
      (cases.mapM fun kc => do return write kc (← inlineContainer inline kc.2)) := by
    refine tells_mapM fun kc listed => (tells_container fun i inside => each i ?_).within _ (writes kc)
    exact List.mem_flatMap.mpr ⟨kc, listed, inside⟩
  refine texts.congr fun k => ?_
  simp only [Shape.shown, Shape.inside, List.mem_flatMap]
  constructor
  · rintro ⟨kc, listed, i, inside, quoted⟩
    exact ⟨i, ⟨kc, listed, inside⟩, quoted⟩
  · rintro ⟨i, ⟨kc, listed, inside⟩, quoted⟩
    exact ⟨kc, listed, i, inside, quoted⟩

theorem tells_generic {cases : List (String × Container)} {parameter : String}
    (each : ∀ i ∈ (Shape.generic parameter cases).shown, TellsText s (cites i) (inline i)) :
    TellsText s (fun k => ∃ i ∈ (Shape.generic parameter cases).shown, cites i k)
      (inlineGeneric inline cases) := by
  have texts := tells_cases each (fun _ text => text) fun _ _ _ occurs => occurs
  simp only [bind_pure] at texts
  exact texts.together unionText fun _ _ _ inside occurs => occurs.union inside

theorem tells_declareObject {name comments : String} {sets : List (List Property)} {closed : Bool}
    (each : ∀ i ∈ (Shape.object sets closed).shown, TellsText s (cites i) (inline i)) :
    TellsText s (fun k => ∃ i ∈ (Shape.object sets closed).shown, cites i k)
      (declareObject inline name comments sets closed) := by
  unfold declareObject
  split
  · rename_i set
    have members : ∀ p ∈ set, ∀ i ∈ p.types, TellsText s (cites i) (inline i) := by
      intro p listed i inside
      exact each i (List.mem_flatMap.mpr ⟨p, by simpa using listed, inside⟩)
    have lines : Tells s (fun texts => texts) (fun k => ∃ p ∈ set, ∃ i ∈ p.types, cites i k)
        (set.mapM fun p => do
          let line ← memberText inline p
          return docComment p.fragment "  " ++ "  " ++ line ++ "\n") :=
      tells_mapM fun p listed => (tells_member (members p listed)).within _ fun _ _ occurs =>
        (occurs.behind _).before _
    have block : TellsText s (fun k => ∃ p ∈ set, ∃ i ∈ p.types, cites i k) (blockSet inline set) :=
      lines.together _ fun _ _ _ inside occurs => occurs.join "" inside
    refine (block.within _ fun _ _ occurs => (occurs.behind _).before _).congr fun k => ?_
    simp only [Shape.shown, Shape.inside, List.flatten_cons, List.flatten_nil, List.append_nil,
      List.mem_flatMap]
    constructor
    · rintro ⟨p, listed, i, inside, quoted⟩
      exact ⟨i, ⟨p, listed, inside⟩, quoted⟩
    · rintro ⟨i, ⟨p, listed, inside⟩, quoted⟩
      exact ⟨p, listed, i, inside, quoted⟩
  · exact (tells_object each).within _ fun _ _ occurs => (occurs.behind _).before _

theorem tells_declareGeneric (d : Descriptor) {cases : List (String × Container)} {parameter : String}
    (each : ∀ i ∈ (Shape.generic parameter cases).shown, TellsText s (cites i) (inline i)) :
    TellsText s (fun k => ∃ i ∈ (Shape.generic parameter cases).shown, cites i k)
      (declareGeneric inline d parameter cases) := by
  unfold declareGeneric
  split
  · exact (tells_pure _).congr fun k => by simp [Shape.shown, Shape.inside]
  · have lines := tells_cases each (fun kc text => "\n  " ++ parameter ++ " extends " ++
        (Json.str kc.1).compact ++ " ? " ++ text ++ " :") fun _ _ _ occurs => (occurs.behind _).before _
    exact lines.together _ fun _ _ _ inside occurs => ((occurs.join "" inside).behind _).before _

end texts

section store

variable {cfg : Setting} {s : Store}

theorem tells_fetch {α : Type} {view : α → List String} {cited : Id → Prop} {i : Id}
    {f : Descriptor → RenderM α} (each : ∀ d, s.get? i = some d → Tells s view cited (f d)) :
    Tells s view cited (fetch s i >>= f) := by
  intro deps a later run
  unfold fetch at run
  cases found : s.get? i with
  | none =>
    rw [found] at run
    cases run
  | some d =>
    rw [found] at run
    exact each d found deps a later run

theorem cites_iff {i k : Id} {d : Descriptor} (found : s.get? i = some d) :
    Cites cfg s i k ↔
      d.ByName cfg ∧ k = i ∨ d.name = "" ∧ ∃ j ∈ d.shape.shown, Cites cfg s j k := by
  constructor
  · intro cites
    cases cites with
    | own again named =>
      rw [found] at again
      cases again
      exact .inl ⟨named, rfl⟩
    | inside again unnamed shown cites =>
      rw [found] at again
      cases again
      exact .inr ⟨unnamed, _, shown, cites⟩
  · rintro (⟨named, rfl⟩ | ⟨unnamed, j, shown, cites⟩)
    · exact .own found named
    · exact .inside found unnamed shown cites

theorem cites_unnamed {i k : Id} {d : Descriptor} (found : s.get? i = some d) (unnamed : d.name = "") :
    Cites cfg s i k ↔ ∃ j ∈ d.shape.shown, Cites cfg s j k := by
  simp [cites_iff found, Descriptor.ByName, unnamed]

theorem cites_named {i k : Id} {d : Descriptor} (found : s.get? i = some d) (named : d.name ≠ "") :
    Cites cfg s i k ↔ d.ByName cfg ∧ k = i := by
  simp [cites_iff found, named]

theorem tells_inlineDepth (depth : Nat) (i : Id) :
    TellsText s (Cites cfg s i) (inlineDepth cfg s depth i) := by
  induction depth generalizing i with
  | zero => exact tells_throw _
  | succ depth ih =>
    refine tells_fetch fun d found => ?_
    have inside : ∀ j ∈ d.shape.shown, TellsText s (Cites cfg s j) (inlineDepth cfg s depth j) :=
      fun j _ => ih j
    -- without a name a shape is written out and cites what is shown in it; only an enum, and what is
    -- declared elsewhere, is written alike with a name and without
    by_cases unnamed : d.name = ""
    · have cited (k : Id) : (∃ j ∈ d.shape.shown, Cites cfg s j k) ↔ Cites cfg s i k :=
        (cites_unnamed found unnamed).symm
      refine Tells.congr ?_ cited
      cases shape : d.shape <;> rw [shape] at inside <;>
        simp only [unnamed, ne_eq, not_true_eq_false, if_false]
      case array => exact tells_array inside
      case someOf => exact tells_someOf d inside
      case generic => exact tells_generic inside
      case object => exact tells_object inside
      case value => exact (tells_pure _).congr fun k => by simp [Shape.shown, Shape.inside]
      case external => exact (tells_pure _).congr fun k => by simp [Shape.shown, Shape.inside]
      case enum =>
        split
        · exact (tells_pure _).congr fun k => by simp [Shape.shown, Shape.inside]
        · exact (tells_reference found).congr fun k => by simp [Shape.shown, Shape.inside, unnamed]
    · have cited (k : Id) : d.ByName cfg ∧ k = i ↔ Cites cfg s i k := (cites_named found unnamed).symm
      refine Tells.congr ?_ cited
      cases shape : d.shape <;> simp only [unnamed, ne_eq, not_false_eq_true, if_true]
      case external => exact (tells_pure _).congr fun k => by simp [Descriptor.ByName, shape]
      case enum =>
        split
        · rename_i inlined
          exact (tells_pure _).congr fun k => by simp [Descriptor.ByName, shape, inlined]
        · rename_i apart
          exact (tells_reference found).congr fun k => by simp [Descriptor.ByName, shape, apart, unnamed]
      all_goals exact (tells_reference found).congr fun k => by simp [Descriptor.ByName, shape, unnamed]

theorem occurs_alias {name text : String} (d : Descriptor) (occurs : Occurs name text) :
    Occurs name (d.alias text) :=
  ((occurs.behind _).before _).before _

theorem tells_declaration {i : Id} : TellsText s (Quotes cfg s i) (declarationText cfg s i) := by
  refine tells_fetch fun d found => ?_
  have quoted (k : Id) : (∃ j ∈ d.shape.shown, Cites cfg s j k) ↔ Quotes cfg s i k := by
    simp [Quotes, found]
  refine Tells.congr ?_ quoted
  have inside : ∀ j ∈ d.shape.shown, TellsText s (Cites cfg s j) (inlineText cfg s j) :=
    fun j _ => tells_inlineDepth _ j
  split
  · exact tells_throw _
  · cases shape : d.shape <;> rw [shape] at inside
    case value => exact (tells_pure _).congr fun k => by simp [Shape.shown, Shape.inside]
    case external => exact (tells_pure _).congr fun k => by simp [Shape.shown, Shape.inside]
    case enum => exact (tells_pure _).congr fun k => by simp [Shape.shown, Shape.inside]
    case array => exact (tells_array inside).within _ fun _ _ => occurs_alias d
    case generic => exact tells_declareGeneric d inside
    case object => exact tells_declareObject inside
    case someOf c branches =>
      dsimp only
      split
      · rename_i sets closed single
        obtain ⟨j, e, rfl, stored, unnamed, record⟩ := singleObject?_some single
        -- the record is written in place of the branch, which cites what is in it
        have branch (k : Id) : (∃ i ∈ (Shape.object sets closed).shown, Cites cfg s i k) ↔
            ∃ i ∈ (Shape.someOf c [[j]]).shown, Cites cfg s i k := by
          rw [← record, ← cites_unnamed stored unnamed]
          simp [Shape.shown, Shape.inside]
        exact (tells_declareObject fun i _ => tells_inlineDepth _ i).congr branch
      · exact (tells_someOf d inside).within _ fun _ _ => occurs_alias d

end store

theorem Cites.hasName {cfg : Setting} {s : Store} {i k : Id} (cites : Cites cfg s i k) : HasName s k := by
  induction cites with
  | own found named => exact ⟨_, found, named.1⟩
  | inside _ _ _ _ ih => exact ih

end Typesmith.Model

namespace Typesmith.Declaration

open Model Text

def importLine (name : String) : String :=
  "import type \x7b " ++ name ++ " \x7d from \"./" ++ name ++ "\";\n"

theorem moduleText_eq {m : Declaration} (other : m.name ∉ m.dependencies) :
    moduleText m = (if m.dependencies = [] then "" else join "" (m.dependencies.map importLine) ++ "\n")
      ++ m.text ++ "\n" := by
  have all : m.dependencies.filter (· ≠ m.name) = m.dependencies := by
    refine List.filter_eq_self.mpr fun n inside => ?_
    have apart : n ≠ m.name := by
      rintro rfl
      exact other inside
    simpa using apart
  have lines : moduleText m = (if join "" (m.dependencies.map importLine) = "" then "" else
      join "" (m.dependencies.map importLine) ++ "\n") ++ m.text ++ "\n" := by
    rw [moduleText, all]
    rfl
  rw [lines]
  cases dependencies : m.dependencies with
  | nil => rfl
  | cons n rest =>
    have filled : join "" ((n :: rest).map importLine) ≠ "" := by
      intro empty
      have line : Occurs "\";\n" (importLine n) := (occurs_self _).behind _
      have whole := line.join "" (List.mem_map_of_mem (List.mem_cons_self (l := rest)))
      rw [empty] at whole
      exact absurd (List.infix_nil.mp whole) (by decide)
    rw [if_neg filled, if_neg (by simp)]

/-- A declared model and what its module imports: each other model that its declaration names by a line
of its own, and nothing else. -/
structure ImportsQuoted (cfg : Setting) (s : Store) (ds : List Declaration) (m : Declaration)
    (i : Id) : Prop where
  named : nameOf s i = m.name
  rendered : ∃ deps, (renderText cfg s true i).run [] = .ok (m.text, deps)
  once : m.dependencies.Nodup
  quoted : ∀ n, n ∈ m.dependencies ↔ ∃ k, Quotes cfg s i k ∧ k ≠ i ∧ nameOf s k = n
  declared : ∀ n ∈ m.dependencies, n ≠ m.name ∧ n ∈ ds.map (·.name)
  shown : ∀ n ∈ m.dependencies, Occurs n m.text
  module : moduleText m = (if m.dependencies = [] then "" else
    join "" (m.dependencies.map importLine) ++ "\n") ++ m.text ++ "\n"

section

variable {cfg : Setting} {s : Store}

theorem mem_deps_iff {i k : Id} {text : String} {deps : List Id}
    (run : (declarationText cfg s i).run [] = .ok (text, deps)) : k ∈ deps ↔ Quotes cfg s i k := by
  have noted := tells_declaration [] text deps run
  exact ⟨fun inside => (noted.only k inside).resolve_left List.not_mem_nil, noted.added k⟩

theorem quotes_hasName {i k : Id} (quotes : Quotes cfg s i k) : HasName s k := by
  obtain ⟨_, _, _, _, cites⟩ := quotes
  exact cites.hasName

theorem collect_imports (tidy : Tidy s) {roots : List Container} {ds : List Declaration}
    (collected : collect cfg s roots = .ok ds) {m : Declaration} (member : m ∈ ds) :
    ∃ i, ImportsQuoted cfg s ds m i := by
  obtain ⟨vs, walked, perm⟩ := collect_walked collected
  obtain ⟨⟨i, text, deps⟩, visited, rfl⟩ := List.mem_map.mp (perm.mem_iff.mp member)
  have shown := walked.shown _ visited
  obtain ⟨⟨_, _⟩, run, made⟩ := except_bind_ok.mp shown
  cases made
  have noted := tells_declaration [] text deps run
  have quotes (k : Id) : k ∈ deps ↔ Quotes cfg s i k := mem_deps_iff run
  have listed (n : String) : n ∈ (ofVisit s ⟨i, text, deps⟩).dependencies ↔
      ∃ k, Quotes cfg s i k ∧ k ≠ i ∧ nameOf s k = n := by
    simp only [ofVisit, Text.sort, List.mem_mergeSort, List.mem_map, List.mem_filter, quotes,
      decide_eq_true_eq, and_assoc]
  have other : (ofVisit s ⟨i, text, deps⟩).name ∉ (ofVisit s ⟨i, text, deps⟩).dependencies := by
    intro inside
    obtain ⟨k, quoted, apart, same⟩ := (listed _).mp inside
    rw [ofVisit_name] at same
    exact apart (tidy.nameOf_inj (quotes_hasName quoted) same)
  refine ⟨i, (ofVisit_name s ⟨i, text, deps⟩).symm, ⟨deps, run⟩, ?_, listed, ?_, ?_, moduleText_eq other⟩
  · refine (List.mergeSort_perm _ _).nodup_iff.mpr (List.Nodup.map_on ?_ ((noted.once .nil).filter _))
    intro j inside k _ same
    exact tidy.nameOf_inj (quotes_hasName ((quotes j).mp (List.mem_filter.mp inside).1)) same
  · intro n inside
    refine ⟨?_, collect_closed collected member inside⟩
    rintro rfl
    exact other inside
  · intro n inside
    obtain ⟨k, quoted, _, rfl⟩ := (listed n).mp inside
    obtain ⟨other, single, occurs⟩ := noted.shown k quoted
    rwa [List.mem_singleton.mp single] at occurs

/-- Whatever was asked for, the declaration of a descriptor with a name notes just the descriptors that
it writes by their names, each once, and their names stand in its text; one without a name has no
declaration. Each module of what is collected imports the other models that its text names, and nothing
else. -/
theorem modules_import_quoted (requests : Requests cfg {} s) :
    (∀ i d, s.get? i = some d →
      (d.name ≠ "" → ∃ text deps, (renderText cfg s true i).run [] = .ok (text, deps) ∧ deps.Nodup ∧
        (∀ k, k ∈ deps ↔ Quotes cfg s i k) ∧ ∀ k ∈ deps, HasName s k ∧ Occurs (nameOf s k) text) ∧
      (d.name = "" → ∃ e, (renderText cfg s true i).run [] = .error e)) ∧
    ∀ roots ds, collect cfg s roots = .ok ds → ∀ m ∈ ds, ∃ i, ImportsQuoted cfg s ds m i := by
  obtain ⟨_, _, _, declared⟩ := requested_texts_end requests
  refine ⟨fun i d found => ⟨?_, fun unnamed => ⟨_, (declared i d found []).2 unnamed⟩⟩, ?_⟩
  · intro named
    obtain ⟨⟨text, deps⟩, run⟩ := (declared i d found []).1 named
    have noted := tells_declaration [] text deps run
    refine ⟨text, deps, run, noted.once .nil, fun k => mem_deps_iff run, ?_⟩
    intro k inside
    have quoted := (mem_deps_iff run).mp inside
    obtain ⟨other, single, occurs⟩ := noted.shown k quoted
    rw [List.mem_singleton.mp single] at occurs
    exact ⟨quotes_hasName quoted, occurs⟩
  · intro roots ds collected m member
    exact collect_imports requests.unfold.1 collected member

end

def shelf : Setting where
  resolver := { root := .obj [
    ("Book", .obj [("type", .str "string")]),
    ("Shelf", .obj [("anyOf", .arr [
      .obj [("$ref", .str "#/Book")],
      .obj [("items", .obj [("$ref", .str "#/Book")]), ("type", .str "array")],
      .obj [("items", .obj [("$ref", .str "#/Shelf")]), ("type", .str "array")]])])] }

theorem modules_import_quoted_shelf :
    ∃ s, Requests shelf {} s ∧
      (∃ text deps, (renderText shelf s true 0).run [] = .ok (text, deps) ∧ deps.Nodup ∧
        Quotes shelf s 0 1 ∧ 1 ∈ deps) ∧
      ∃ ds, collect shelf s [[0]] = .ok ds ∧
        ∃ m ∈ ds, (m.name, m.dependencies) = ("Shelf", ["Book"]) ∧ ∃ i, ImportsQuoted shelf s ds m i := by
  have request : Returns (findOrCreate shelf "#/Shelf") {} [0] _ :=
    returns_deepening_first _ (by decide +kernel)
  obtain ⟨s, made⟩ : ∃ s, s = (exec (findOrCreateWith shelf (convertDepth shelf firstDepth) "#/Shelf") {}).2 :=
    ⟨_, rfl⟩
  have requests : Requests shelf {} s := made ▸ .more .none request
  have evaluated : (visitsWithin 5 shelf s [[0]]).map (·.map fun v => (v.id, v.deps)) =
        some [(0, [1, 0]), (1, [])] ∧
      (s.get? 0).map (·.name) = some "Shelf" ∧ (s.get? 1).map (·.name) = some "Book" := by
    rw [made]
    decide +kernel
  obtain ⟨visits, shelfName, bookName⟩ := evaluated
  obtain ⟨vs, visited, listed⟩ := Option.map_eq_some_iff.mp visits
  obtain ⟨v, rest, rfl, first, _⟩ := List.map_eq_cons_iff.mp listed
  obtain ⟨id, deps⟩ := Prod.mk.inj first
  have shown := (walk_walked (fun _ _ => visit_id) (walk_of_walkWithin visited)).shown v List.mem_cons_self
  rw [id] at shown
  obtain ⟨declared, imports⟩ := modules_import_quoted requests
  obtain ⟨d, found, name⟩ := Option.map_eq_some_iff.mp shelfName
  obtain ⟨e, other, title⟩ := Option.map_eq_some_iff.mp bookName
  obtain ⟨text, noted, run, once, quoted, _⟩ := (declared 0 d found).1 (by simp [name])
  obtain ⟨⟨_, _⟩, again, made⟩ := except_bind_ok.mp shown
  cases made
  cases run.symm.trans again
  have inside : 1 ∈ noted := by
    rw [show noted = [1, 0] from deps]
    simp
  have collected := collect_of_visitsWithin visited
  refine ⟨s, requests, ⟨text, noted, run, once, (quoted 1).mp inside, inside⟩, _, collected,
    ofVisit s ⟨0, text, noted⟩, by simp [sortByName], ?_, imports _ _ collected _ (by simp [sortByName])⟩
  simp [ofVisit, found, name, show noted = [1, 0] from deps, nameOf, other, title, Text.sort]

end Typesmith.Declaration
