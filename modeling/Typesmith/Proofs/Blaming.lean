import Typesmith.Proofs.Candor
import Typesmith.Proofs.Rendering
import Typesmith.Proofs.Titling

namespace Typesmith

/-- The faults that only the program itself could be blamed for: a declaration without a name and a union
without alternatives. -/
def Fault.Internal (f : Fault) : Prop :=
  f.code = .unnamedRoot ∨ ∃ ref fragment, f = Fault.ofCombinator ref fragment

/-- The faults of references and of files that were not read yet. -/
def Fault.Outer (f : Fault) : Prop :=
  f.code = .reference ∨ f.code = .unread

theorem Fault.Outer.not_internal {f : Fault} (outer : f.Outer) : ¬ f.Internal := by
  rintro (unnamed | ⟨ref, fragment, rfl⟩)
  · rcases outer with code | code <;> rw [unnamed] at code <;> cases code
  · rcases outer with code | code <;> cases code

def FailsOnly {ε α : Type} (P : ε → Prop) (x : Except ε α) : Prop :=
  ∀ e, x = .error e → P e

def StopsOnly {ε σ α : Type} (P : ε → Prop) (x : ExceptT ε (StateM σ) α) : Prop :=
  ∀ s, FailsOnly P (x.run s).1

section

variable {ε σ α β : Type} {P : ε → Prop}

theorem failsOnly_ok (a : α) : FailsOnly P (.ok a) := by
  intro e failed
  cases failed

theorem failsOnly_error {e : ε} (holds : P e) : FailsOnly P (.error e : Except ε α) := by
  intro e failed
  cases failed
  exact holds

theorem FailsOnly.bind {x : Except ε α} {f : α → Except ε β} (first : FailsOnly P x)
    (rest : ∀ a, FailsOnly P (f a)) : FailsOnly P (x >>= f) := by
  cases x with
  | error e => exact failsOnly_error (first e rfl)
  | ok a => exact rest a

theorem FailsOnly.mapM {f : α → Except ε β} (each : ∀ a, FailsOnly P (f a)) (l : List α) :
    FailsOnly P (l.mapM f) := by
  induction l with
  | nil => exact failsOnly_ok _
  | cons a l ih =>
    rw [List.mapM_cons]
    exact (each a).bind fun _ => ih.bind fun _ => failsOnly_ok _

theorem FailsOnly.foldlM {f : β → α → Except ε β} (each : ∀ b a, FailsOnly P (f b a)) (l : List α)
    (b : β) : FailsOnly P (l.foldlM f b) := by
  induction l generalizing b with
  | nil => exact failsOnly_ok b
  | cons a l ih => exact (each b a).bind ih

theorem stopsOnly_pure (a : α) : StopsOnly P (pure a : ExceptT ε (StateM σ) α) :=
  fun _ => failsOnly_ok a

theorem stopsOnly_throw {e : ε} (holds : P e) : StopsOnly P (throw e : ExceptT ε (StateM σ) α) :=
  fun _ => failsOnly_error holds

theorem stopsOnly_lift {x : Except ε α} (only : FailsOnly P x) :
    StopsOnly P (liftM x : ExceptT ε (StateM σ) α) :=
  fun _ => only

theorem StopsOnly.bind {x : ExceptT ε (StateM σ) α} {f : α → ExceptT ε (StateM σ) β}
    (first : StopsOnly P x) (rest : ∀ a, StopsOnly P (f a)) : StopsOnly P (x >>= f) := by
  intro s
  rw [Model.run_bind]
  have begun := first s
  rcases ran : x.run s with ⟨e | a, t⟩
  · exact failsOnly_error (begun e (by rw [ran]))
  · exact rest a t

theorem stopsOnly_ite {c : Prop} [Decidable c] {x y : ExceptT ε (StateM σ) α} (yes : StopsOnly P x)
    (no : StopsOnly P y) : StopsOnly P (if c then x else y) := by
  split
  · exact yes
  · exact no

theorem StopsOnly.mapM {f : α → ExceptT ε (StateM σ) β} (each : ∀ a, StopsOnly P (f a)) (l : List α) :
    StopsOnly P (l.mapM f) := by
  induction l with
  | nil => exact stopsOnly_pure _
  | cons a l ih =>
    rw [List.mapM_cons]
    exact (each a).bind fun _ => ih.bind fun _ => stopsOnly_pure _

theorem StopsOnly.foldlM {f : β → α → ExceptT ε (StateM σ) β} (each : ∀ b a, StopsOnly P (f b a))
    (l : List α) (b : β) : StopsOnly P (l.foldlM f b) := by
  induction l generalizing b with
  | nil => exact stopsOnly_pure b
  | cons a l ih => exact (each b a).bind ih

end

namespace Resolver

variable (r : Resolver) (ref : String)

theorem document_failsOnly : FailsOnly Fault.Outer (r.document ref) := by
  unfold document
  dsimp only
  split
  · exact failsOnly_ok _
  · split
    · exact failsOnly_error (.inl rfl)
    · split
      · exact failsOnly_ok _
      · exact failsOnly_error (.inr rfl)
      · exact failsOnly_error (.inl rfl)

theorem lookup_failsOnly : FailsOnly Fault.Outer (r.lookup ref) := by
  refine (r.document_failsOnly ref).bind fun found => ?_
  obtain ⟨doc, pointer⟩ := found
  dsimp only
  split
  · exact failsOnly_error (.inl rfl)
  · exact failsOnly_error (.inl rfl)
  · exact failsOnly_ok _

theorem fragment_failsOnly : FailsOnly Fault.Outer (r.fragment ref) := by
  refine (r.lookup_failsOnly ref).bind fun value => ?_
  split
  · exact failsOnly_ok _
  · split
    · exact failsOnly_ok _
    · exact failsOnly_error (.inl rfl)
  · exact failsOnly_error (.inl rfl)

end Resolver

namespace Model

def Failure.Outward : Failure → Prop
  | .fault f => ¬ f.Internal
  | _ => True

section

variable (cfg : Setting)

theorem resolve_failsOnly (ref : String) : FailsOnly Failure.Outward (resolve cfg ref) := by
  intro e failed
  unfold resolve at failed
  cases found : cfg.resolver.fragment ref with
  | error f =>
    rw [found] at failed
    cases failed
    exact (cfg.resolver.fragment_failsOnly ref f found).not_internal
  | ok g =>
    rw [found] at failed
    cases failed

theorem orFail_failsOnly {α : Type} (a : Option α) : FailsOnly Failure.Outward (orFail .unwritable a) := by
  cases a with
  | none => exact failsOnly_error trivial
  | some a => exact failsOnly_ok a

theorem qualifyRefs_failsOnly (f : Fragment) (source target : String) :
    FailsOnly Failure.Outward (qualifyRefs f source target) := by
  unfold qualifyRefs
  split
  · exact failsOnly_ok f
  · exact orFail_failsOnly _

theorem resolveMember_failsOnly (member : Fragment) (base : String) :
    FailsOnly Failure.Outward (resolveMember cfg member base) := by
  unfold resolveMember
  split
  · exact (resolve_failsOnly cfg _).bind fun target => qualifyRefs_failsOnly target _ base
  · exact failsOnly_ok member

theorem alternative_failsOnly (common member : Fragment) (base : String) :
    FailsOnly Failure.Outward (alternative cfg common member base) := by
  unfold alternative
  split
  · refine (resolveMember_failsOnly cfg member base).bind fun target => ?_
    dsimp only
    split
    · refine (orFail_failsOnly _).bind fun covered => ?_
      split
      · exact failsOnly_ok member
      · exact orFail_failsOnly _
    · exact orFail_failsOnly _
  · exact failsOnly_ok member

theorem followRef_failsOnly (member : Fragment) (base : String) (p : Pieces) :
    FailsOnly Failure.Outward (followRef cfg member base p) := by
  unfold followRef
  split
  · dsimp only
    split
    · exact failsOnly_ok _
    · exact (resolve_failsOnly cfg _).bind fun _ => failsOnly_ok _
  · exact failsOnly_ok _

theorem flatten_failsOnly (target : String) (depth : Nat) (member : Fragment) (base : String)
    (p : Pieces) : FailsOnly Failure.Outward (flatten cfg target depth member base p) := by
  induction depth generalizing member base p with
  | zero => exact failsOnly_error trivial
  | succ depth ih =>
    refine (followRef_failsOnly cfg member base p).bind fun followed => ?_
    split
    · exact failsOnly_ok _
    · refine (FailsOnly.foldlM (fun p inner => ih inner _ p) _ _).bind fun p => ?_
      exact (qualifyRefs_failsOnly _ _ target).bind fun _ => failsOnly_ok _

theorem gather_failsOnly (depth : Nat) (members : List Fragment) (base : String) :
    FailsOnly Failure.Outward (gather cfg depth members base) :=
  FailsOnly.foldlM (fun p member => flatten_failsOnly cfg base depth member base p) _ _

end

section

variable {cfg : Setting} {f : Fragment} {o : Options} {s t : Store} {e : Failure}

theorem Unprepared.outward {kind : Kind} (unprepared : Unprepared cfg f o kind e) : e.Outward := by
  cases unprepared with
  | gathering combined stopped => exact gather_failsOnly cfg _ _ _ e stopped
  | merging combined =>
    rintro (unnamed | ⟨ref, fragment, same⟩)
    · cases unnamed
    · have message : "merging allOf members" = "fragment has none of oneOf, anyOf or allOf" :=
        congrArg Fault.message same
      exact absurd message (by decide)
  | choosing combined separate stopped =>
    exact FailsOnly.mapM (fun member => alternative_failsOnly cfg _ member _) _ e stopped
  | case listed => exact Fault.Outer.not_internal (.inl rfl)

/-- Whatever stops the conversion of a fragment that says what it is, is not internal. -/
theorem StepStops.outward {R : Converts} (rules : cfg.rules = Rule.defaults) (candid : Candid f)
    (stops : StepStops cfg R (fun f _ _ e _ => Candid f → e.Outward) f o s e t) : e.Outward := by
  cases stops with
  | ref isRef found =>
    cases found with
    | unresolved absent unresolved => exact resolve_failsOnly cfg _ e unresolved
    | converted absent resolved given kept inside => exact inside (fragment_candid resolved)
  | union isRef multi named inside => exact inside (candid.stripped.union _)
  | types isRef multi unnamed each listed last => exact last (candid.stripped.branch listed)
  | unwritten isRef single unwritten => exact Fault.Outer.not_internal (.inl rfl)
  | node isRef single written quiet built =>
    cases built with
    | hollow someOf hollow =>
      -- the rules go by the written form, which has a combinator only where the fragment has one
      exact absurd hollow (combinator?_ne_none rules candid.stripped.own written someOf)
    | unprepared quiet fewer each own => exact own.outward
    | inside quiet fewer each nested last => exact last (candid.stripped.nested nested)

theorem findOrCreate_stopsOnly (rules : cfg.rules = Rule.defaults) (ref : String) :
    StopsOnly Failure.Outward (findOrCreate cfg ref) := by
  intro s e failed
  -- a conversion without an end is no fault, and any other failure came up at some depth
  by_cases deep : e = .tooDeep
  · rw [deep]
    trivial
  have stopped : Throws (findOrCreate cfg ref) s e ((findOrCreate cfg ref).run s).2 := Prod.ext failed rfl
  have found : FindsStops cfg (fun f _ _ e _ => Candid f → e.Outward) ref s e _ :=
    findOrCreate_stops (R := fun _ _ _ _ _ => True) (fun _ _ _ _ _ _ _ => trivial)
      (fun _ _ _ _ => trivial) (fun f o s e t stops candid => stops.outward rules candid) stopped deep
  generalize ((findOrCreate cfg ref).run s).2 = t at found
  cases found with
  | unresolved absent unresolved => exact resolve_failsOnly cfg _ e unresolved
  | converted absent resolved given kept inside => exact inside (fragment_candid resolved)

theorem failsOnly_composes {P : Failure → Prop} :
    Composes fun _ x => ∀ deps, FailsOnly P (x.run deps) := by
  constructor
  · exact fun a deps => failsOnly_ok _
  · intro α β x f first rest deps
    rw [StateT.run_bind]
    exact (first deps).bind fun found => rest found.1 found.2

theorem inlineDepth_failsOnly (s : Store) (depth : Nat) (id : Id) (deps : List Id) :
    FailsOnly (· = .tooDeep) ((inlineDepth cfg s depth id).run deps) := by
  induction depth generalizing id deps with
  | zero => exact failsOnly_error rfl
  | succ depth ih =>
    cases found : s.get? id with
    | none =>
      rw [inlineDepth, inlineWith, fetch, found]
      exact failsOnly_error rfl
    | some d =>
      exact failsOnly_composes.inlineWith found (fun _ => failsOnly_ok _) (fun _ i _ => ih i) deps

end

end Model

namespace EntryPoint

variable (cfg : Setting)

theorem followFrom_failsOnly {lookup : String → Except Fault Json}
    (each : ∀ ref, FailsOnly Fault.Outer (lookup ref)) (start : String) (hops : Nat) (current : String) :
    FailsOnly Fault.Outer (followFrom lookup start hops current) := by
  induction hops generalizing current with
  | zero => exact failsOnly_error (.inl rfl)
  | succ hops ih =>
    unfold followFrom
    split
    · exact failsOnly_error (each current _ ‹_›)
    · split
      · exact ih _
      · exact failsOnly_ok _
    · exact failsOnly_error (.inl rfl)

theorem follow_stopsOnly (ref : String) : StopsOnly Fault.Outer (follow cfg ref) := by
  unfold follow
  split
  · exact stopsOnly_pure _
  · rename_i failed
    exact stopsOnly_throw (followFrom_failsOnly cfg.resolver.lookup_failsOnly ref _ _ _ failed)

theorem note_stopsOnly (line : String) : StopsOnly Fault.Outer (note line) :=
  fun _ => failsOnly_ok _

theorem notes_stopsOnly (lines : List String) : StopsOnly Fault.Outer (lines.forM note) := by
  induction lines with
  | nil => exact stopsOnly_pure _
  | cons line lines ih => exact (note_stopsOnly line).bind fun _ => ih

theorem parameters_stopsOnly (op : Operation) (onPath onOperation : Nat) :
    StopsOnly Fault.Outer (parameters cfg op onPath onOperation) := by
  have reading : ∀ ref count l, StopsOnly Fault.Outer (readParameters cfg ref count l) := by
    intro ref count l
    exact StopsOnly.foldlM (fun l i => (follow_stopsOnly cfg _).bind fun _ => stopsOnly_pure _) _ _
  refine (reading _ _ _).bind fun l => (reading _ _ _).bind fun l => ?_
  split
  · exact stopsOnly_pure _
  · exact (notes_stopsOnly _).bind fun _ => stopsOnly_pure _

theorem requests_stopsOnly (op : Operation) : StopsOnly Fault.Outer (requests cfg op) := by
  refine (follow_stopsOnly cfg _).bind fun found => ?_
  obtain ⟨body, base⟩ := found
  exact stopsOnly_ite ((note_stopsOnly _).bind fun _ => stopsOnly_pure _) (stopsOnly_pure _)

theorem responses_stopsOnly (op : Operation) (statuses : List String) :
    StopsOnly Fault.Outer (responses cfg op statuses) := by
  unfold responses
  dsimp only
  split
  · exact stopsOnly_pure _
  · refine (StopsOnly.mapM (fun status => ?_) _).bind fun _ => stopsOnly_pure _
    exact (follow_stopsOnly cfg _).bind fun _ => stopsOnly_pure _

theorem ofMethod_stopsOnly (path method : String) (item operation : Json) :
    StopsOnly Fault.Outer (ofMethod cfg path method item operation) := by
  refine StopsOnly.bind (fun _ => failsOnly_ok _) fun name => (note_stopsOnly _).bind fun _ => ?_
  refine (parameters_stopsOnly cfg _ _ _).bind fun params => ?_
  refine stopsOnly_ite ((requests_stopsOnly cfg _).bind ?finish) ((stopsOnly_pure _).bind ?finish)
  refine fun reqs => (responses_stopsOnly cfg _ _).bind fun resps => ?_
  split
  · exact stopsOnly_pure _
  · exact stopsOnly_pure _

theorem located_stopsOnly {label : String} {step : SynthM (List EntryPoint)}
    (only : StopsOnly Fault.Outer step) :
    StopsOnly (fun e : String × Fault => e.2.Outer) (located label step) := by
  intro p e failed
  change (attempt (located label step) p).1 = _ at failed
  rw [attempt_located] at failed
  rcases ran : attempt step p with ⟨f | es, q⟩ <;> rw [ran] at failed <;> cases failed
  exact only p f (congrArg Prod.fst ran)

/-- Where no entry points can be made for an operation, a reference leads nowhere or a file is needed. -/
theorem synthesize_stopsOnly (doc : Document) :
    StopsOnly (fun e : String × Fault => e.2.Outer) (synthesize cfg doc) := by
  refine (StopsOnly.mapM (fun operation => ?_) _).bind fun _ => stopsOnly_pure _
  exact located_stopsOnly (ofMethod_stopsOnly cfg _ _ _ _)

end EntryPoint

end Typesmith
