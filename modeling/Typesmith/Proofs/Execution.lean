import Mathlib.Data.List.Forall2
import Typesmith.Model.Convert

namespace Typesmith.Model

variable {α β : Type}

theorem run_bind {ε σ : Type} (x : ExceptT ε (StateM σ) α) (f : α → ExceptT ε (StateM σ) β) (s : σ) :
    (x >>= f).run s = match x.run s with
      | (.ok a, t) => (f a).run t
      | (.error e, t) => (.error e, t) := by
  change (match x.run s with | (r, t) => (ExceptT.bindCont f r) t) = _
  rcases x.run s with ⟨_ | _, _⟩ <;> rfl

theorem run_bind_ok_iff {ε σ : Type} {x : ExceptT ε (StateM σ) α} {f : α → ExceptT ε (StateM σ) β}
    {s t : σ} {b : β} :
    (x >>= f).run s = (.ok b, t) ↔ ∃ a m, x.run s = (.ok a, m) ∧ (f a).run m = (.ok b, t) := by
  rw [run_bind]
  rcases x.run s with ⟨_ | a, m⟩
  · exact ⟨nofun, fun ⟨_, _, first, _⟩ => nomatch first⟩
  · constructor
    · intro done
      exact ⟨a, m, rfl, done⟩
    · rintro ⟨_, _, first, rest⟩
      cases first
      exact rest

def exec (x : ConvertM α) (s : Store) : Except Failure α × Store := x.run s

def Returns (x : ConvertM α) (s : Store) (a : α) (t : Store) : Prop :=
  exec x s = (.ok a, t)

theorem exec_bind (x : ConvertM α) (f : α → ConvertM β) (s : Store) :
    exec (x >>= f) s = match exec x s with
      | (.ok a, t) => exec (f a) t
      | (.error e, t) => (.error e, t) := by
  change (match exec x s with | (r, t) => (ExceptT.bindCont f r) t) = _
  rcases exec x s with ⟨_ | _, _⟩ <;> rfl

@[simp] theorem exec_pure (a : α) (s : Store) : exec (pure a) s = (.ok a, s) := rfl

@[simp] theorem exec_throw (e : Failure) (s : Store) :
    exec (throw e : ConvertM α) s = (.error e, s) := rfl

@[simp] theorem exec_fail (e : Fault) (s : Store) :
    exec (fail e : ConvertM α) s = (.error (.fault e), s) := rfl

@[simp] theorem exec_get (s : Store) : exec get s = (.ok s, s) := rfl

@[simp] theorem exec_modify (f : Store → Store) (s : Store) :
    exec (modify f) s = (.ok ⟨⟩, f s) := rfl

@[simp] theorem exec_modifyGet (f : Store → α × Store) (s : Store) :
    exec (modifyGet f) s = (.ok (f s).1, (f s).2) := rfl

@[simp] theorem exec_lift (e : Except Failure α) (s : Store) :
    exec (liftM e) s = (e, s) := rfl

@[simp] theorem exec_create (d : Descriptor) (s : Store) :
    exec (create d) s = (.ok s.descriptors.size, (s.push d).2) := rfl

@[simp] theorem exec_register (ref : String) (c : Container) (s : Store) :
    exec (register ref c) s = (.ok ⟨⟩, s.register ref c) := rfl

@[simp] theorem exec_setShape (id : Id) (shape : Shape) (s : Store) :
    exec (setShape id shape) s = (.ok ⟨⟩, s.setShape id shape) := rfl

@[simp] theorem exec_warn (code : Warning.Code) (ref message : String) (s : Store) :
    exec (warn code ref message) s = (.ok ⟨⟩, s.warn code ref message) := rfl

@[simp] theorem returns_pure {a b : α} {s t : Store} :
    Returns (pure a) s b t ↔ a = b ∧ s = t := by
  simp [Returns]

@[simp] theorem returns_lift {e : Except Failure α} {a : α} {s t : Store} :
    Returns (liftM e) s a t ↔ e = .ok a ∧ s = t := by
  simp [Returns]

@[simp] theorem returns_get {s t u : Store} : Returns get s t u ↔ s = t ∧ s = u := by
  simp [Returns]

theorem returns_of_ok {x : ConvertM α} {s : Store} {a : α} (ok : (exec x s).1 = .ok a) :
    Returns x s a (exec x s).2 :=
  Prod.ext ok rfl

theorem returns_modifyGet {f : Store → α × Store} {a : α} {s t : Store} :
    Returns (modifyGet f) s a t ↔ f s = (a, t) := by
  simp only [Returns, exec_modifyGet, Except.ok.injEq, Prod.ext_iff]

@[simp] theorem not_returns_fail {e : Fault} {a : α} {s t : Store} : ¬ Returns (fail e) s a t := by
  simp [Returns]

@[simp] theorem not_returns_throw {e : Failure} {a : α} {s t : Store} :
    ¬ Returns (throw e) s a t := by
  simp [Returns]

theorem returns_bind {x : ConvertM α} {f : α → ConvertM β} {s t : Store} {b : β} :
    Returns (x >>= f) s b t ↔ ∃ a m, Returns x s a m ∧ Returns (f a) m b t :=
  run_bind_ok_iff

theorem except_bind_ok {ε α β : Type} {x : Except ε α} {f : α → Except ε β} {b : β} :
    (x >>= f) = .ok b ↔ ∃ a, x = .ok a ∧ f a = .ok b := by
  cases x with
  | error e => simp [bind, Except.bind]
  | ok a => simp [bind, Except.bind]

theorem exists_of_forall₂ {α β : Type} {R : α → β → Prop} {l : List α} {r : List β} {y : β}
    (pairs : List.Forall₂ R l r) (inside : y ∈ r) : ∃ x ∈ l, R x y := by
  induction pairs with
  | nil => cases inside
  | cons first _ ih =>
    rcases List.mem_cons.mp inside with rfl | later
    · exact ⟨_, List.mem_cons_self, first⟩
    · obtain ⟨x, member, pair⟩ := ih later
      exact ⟨x, List.mem_cons_of_mem _ member, pair⟩

theorem mapM_ok_iff {ε α β : Type} {one : α → Except ε β} {l : List α} {out : List β} :
    l.mapM one = .ok out ↔ List.Forall₂ (fun x y => one x = .ok y) l out := by
  constructor
  · intro run
    induction l generalizing out with
    | nil =>
      cases run
      exact .nil
    | cons x rest ih =>
      rw [List.mapM_cons] at run
      obtain ⟨y, first, run⟩ := except_bind_ok.mp run
      obtain ⟨ys, others, run⟩ := except_bind_ok.mp run
      cases run
      exact .cons first (ih others)
  · intro each
    induction each with
    | nil => rfl
    | cons first _ ih =>
      rw [List.mapM_cons]
      exact except_bind_ok.mpr ⟨_, first, except_bind_ok.mpr ⟨_, ih, rfl⟩⟩

theorem exists_mapM_ok_iff {ε α β : Type} {one : α → Except ε β} {l : List α} :
    (∃ out, l.mapM one = .ok out) ↔ ∀ x ∈ l, ∃ y, one x = .ok y := by
  induction l with
  | nil => simp [pure, Except.pure]
  | cons x rest ih =>
    simp only [List.mapM_cons, List.forall_mem_cons, ← ih, except_bind_ok]
    constructor
    · rintro ⟨_, y, first, ys, others, _⟩
      exact ⟨⟨y, first⟩, ys, others⟩
    · rintro ⟨⟨y, first⟩, ys, others⟩
      exact ⟨_, y, first, ys, others, rfl⟩

theorem eq_ok_of_toOption {ε α : Type} {x : Except ε α} {a : α} (done : x.toOption = some a) : x = .ok a := by
  cases x with
  | error e => cases done
  | ok b =>
    cases done
    rfl

theorem fragment_of_resolve {cfg : Setting} {ref : String} {f : Fragment} (run : resolve cfg ref = .ok f) :
    cfg.resolver.fragment ref = .ok f := by
  unfold resolve at run
  cases found : cfg.resolver.fragment ref with
  | ok g =>
    rw [found] at run
    cases run
    rfl
  | error e =>
    rw [found] at run
    cases run

/-- A relation that every round of a loop satisfies, taken round after round. -/
inductive Rounds (one : β → α → Store → β → Store → Prop) :
    β → List α → Store → β → Store → Prop
  | done {b s} : Rounds one b [] s b s
  | round {b c r : β} {x : α} {l : List α} {s m t : Store} :
      one b x s c m → Rounds one c l m r t → Rounds one b (x :: l) s r t

theorem returns_foldlM {f : β → α → ConvertM β} {l : List α} {b r : β} {s t : Store}
    (run : Returns (l.foldlM f b) s r t) :
    Rounds (fun b x s c t => Returns (f b x) s c t) b l s r t := by
  induction l generalizing b s with
  | nil =>
    obtain ⟨rfl, rfl⟩ := returns_pure.mp run
    exact .done
  | cons x l ih =>
    obtain ⟨c, m, first, rest⟩ := returns_bind.mp run
    exact .round first (ih rest)

theorem returns_mapM_cons {f : α → ConvertM β} {x : α} {l : List α} {r : List β} {s t : Store} :
    Returns ((x :: l).mapM f) s r t ↔
      ∃ y m ys, Returns (f x) s y m ∧ Returns (l.mapM f) m ys t ∧ r = y :: ys := by
  rw [List.mapM_cons, returns_bind]
  simp only [returns_bind, returns_pure]
  constructor
  · rintro ⟨y, m, first, ys, _, rest, rfl, rfl⟩
    exact ⟨y, m, ys, first, rest, rfl⟩
  · rintro ⟨y, m, ys, first, rest, rfl⟩
    exact ⟨y, m, first, ys, t, rest, rfl, rfl⟩

/-- An answer found by trying deeper and deeper is the answer at one of the depths, and it was not
cut off there. -/
theorem firstEnding_some {run : Nat → Except Failure α × Store} {depth : Nat}
    {r : Except Failure α × Store} (found : firstEnding run depth = some r) :
    ∃ enough, run enough = r ∧ r.1 ≠ .error .tooDeep := by
  refine firstEnding.partial_correctness run
    (fun _ r => ∃ enough, run enough = r ∧ r.1 ≠ .error .tooDeep) ?_ depth r found
  intro next ih depth r one
  split at one
  · exact ih _ _ one
  · rename_i ending
    cases one
    refine ⟨depth, rfl, ?_⟩
    intro cut
    exact ending (run depth).2 (by rw [← cut])

/-- The search for a depth ends when all depths from some point on are enough. -/
theorem firstEnding_isSome {run : Nat → Except Failure α × Store} {bound : Nat}
    (enough : ∀ depth, bound ≤ depth → (run depth).1 ≠ .error .tooDeep) {depth : Nat}
    (positive : 0 < depth) : (firstEnding run depth).isSome = true := by
  -- the depth doubles, so what is missing to the bound shrinks
  induction gap : bound - depth using Nat.strongRecOn generalizing depth with
  | _ missing ih =>
    rw [firstEnding]
    split
    · rename_i cut
      by_cases deep : bound ≤ depth
      · exact absurd (by rw [cut]) (enough depth deep)
      · exact ih (bound - 2 * depth) (by omega) (by omega) rfl
    · rfl

theorem returns_deepening {run : Nat → ConvertM α} {s t : Store} {a : α}
    (found : Returns (deepening run) s a t) : ∃ depth, Returns (run depth) s a t := by
  change (firstEnding (fun depth => exec (run depth) s) firstDepth).getD _ = _ at found
  cases ending : firstEnding (fun depth => exec (run depth) s) firstDepth with
  | none =>
    rw [ending] at found
    cases found
  | some r =>
    rw [ending] at found
    obtain ⟨depth, same, _⟩ := firstEnding_some ending
    exact ⟨depth, same.trans found⟩

theorem returns_deepening_first (run : Nat → ConvertM α) {s : Store} {a : α}
    (done : (exec (run firstDepth) s).1 = .ok a) :
    Returns (deepening run) s a (exec (run firstDepth) s).2 := by
  rcases ended : exec (run firstDepth) s with ⟨r, t⟩
  rw [ended] at done
  cases done
  have first : firstEnding (fun depth => exec (run depth) s) firstDepth = some (.ok a, t) := by
    rw [firstEnding, ended]
  change (firstEnding (fun depth => exec (run depth) s) firstDepth).getD _ = _
  rw [first]
  rfl

/-- The search for a depth with its first try written out, so that what ends there can be computed. -/
theorem deepening_eq (run : Nat → ConvertM α) : deepening run = ExceptT.mk fun s =>
    match (run firstDepth).run s with
    | (.error .tooDeep, _) =>
      (firstEnding (fun depth => (run depth).run s) (2 * firstDepth)).getD (.error .tooDeep, s)
    | r => r := by
  funext s
  simp only [deepening, ExceptT.mk]
  rw [firstEnding]
  rcases (run firstDepth).run s with ⟨_ | _, t⟩
  · rename_i e
    cases e <;> rfl
  · rfl

def Ends (x : ConvertM α) (s : Store) : Prop :=
  (exec x s).1 ≠ .error .tooDeep

theorem ends_deepening {run : Nat → ConvertM α} {s : Store} {bound : Nat}
    (enough : ∀ depth, bound ≤ depth → Ends (run depth) s) : Ends (deepening run) s := by
  have some : (firstEnding (fun depth => exec (run depth) s) firstDepth).isSome = true :=
    firstEnding_isSome enough (by decide)
  obtain ⟨r, found⟩ := Option.isSome_iff_exists.mp some
  obtain ⟨_, _, ends⟩ := firstEnding_some found
  have same : exec (deepening run) s = r := by
    change (firstEnding (fun depth => exec (run depth) s) firstDepth).getD _ = _
    rw [found]
    rfl
  rw [Ends, same]
  exact ends

theorem not_ends_deepening {run : Nat → ConvertM α} {s : Store}
    (endless : ∀ depth, ¬ Ends (run depth) s) : ¬ Ends (deepening run) s := by
  have none : firstEnding (fun depth => exec (run depth) s) firstDepth = none := by
    rw [Option.eq_none_iff_forall_ne_some]
    intro r found
    obtain ⟨depth, same, ends⟩ := firstEnding_some found
    exact endless depth (by rw [Ends, same]; exact ends)
  have same : exec (deepening run) s = (.error .tooDeep, s) := by
    change (firstEnding (fun depth => exec (run depth) s) firstDepth).getD _ = _
    rw [none]
    rfl
  simp [Ends, same]

end Typesmith.Model
