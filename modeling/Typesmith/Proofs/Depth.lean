import Mathlib.Logic.Relation
import Typesmith.Proofs.Gathering
import Typesmith.Walk

namespace Typesmith.Model

variable {α β : Type}

/-- From some depth on the step has one answer, and it is not cut off. -/
def Steady (run : Nat → ConvertM α) (s : Store) : Prop :=
  ∃ bound r, r.1 ≠ .error .tooDeep ∧ ∀ depth, bound ≤ depth → exec (run depth) s = r

theorem Steady.ends {run : Nat → ConvertM α} {s : Store} (steady : Steady run s) :
    Ends (deepening run) s := by
  obtain ⟨bound, r, ends, same⟩ := steady
  have enough : ∀ depth, bound ≤ depth → Ends (run depth) s := by
    intro depth more
    rw [Ends, same depth more]
    exact ends
  exact ends_deepening enough

theorem steady_of_ends {x : ConvertM α} {s : Store} (ends : Ends x s) : Steady (fun _ => x) s :=
  ⟨0, exec x s, ends, fun _ _ => rfl⟩

theorem ends_pure (a : α) (s : Store) : Ends (pure a) s := by
  intro cut
  cases cut

theorem ends_bind {x : ConvertM α} {f : α → ConvertM β} {s : Store} (first : Ends x s)
    (rest : ∀ a t, Returns x s a t → Ends (f a) t) : Ends (x >>= f) s := by
  rw [Ends, exec_bind]
  split
  · exact rest _ _ ‹_›
  · rename_i failed
    rw [Ends, failed] at first
    exact fun cut => first (by cases cut; rfl)

theorem steady_pure (a : α) (s : Store) : Steady (fun _ => pure a) s :=
  steady_of_ends (ends_pure a s)

theorem Steady.bind {x : Nat → ConvertM α} {f : Nat → α → ConvertM β} {s : Store}
    (first : Steady x s)
    (rest : ∀ depth a t, Returns (x depth) s a t → Steady (fun depth => f depth a) t) :
    Steady (fun depth => x depth >>= f depth) s := by
  obtain ⟨bound, ⟨r, t⟩, ends, same⟩ := first
  cases r with
  | error e =>
    refine ⟨bound, (.error e, t), fun cut => ends (by cases cut; rfl), ?_⟩
    intro depth enough
    rw [exec_bind, same depth enough]
  | ok a =>
    obtain ⟨more, r, ends, next⟩ := rest bound a t (same bound (Nat.le_refl _))
    refine ⟨max bound more, r, ends, ?_⟩
    intro depth enough
    rw [exec_bind, same depth (Nat.le_trans (Nat.le_max_left _ _) enough)]
    exact next depth (Nat.le_trans (Nat.le_max_right _ _) enough)

theorem steady_bind_const {x : ConvertM α} {f : Nat → α → ConvertM β} {s : Store} (ends : Ends x s)
    (rest : ∀ a t, Returns x s a t → Steady (fun depth => f depth a) t) :
    Steady (fun depth => x >>= f depth) s :=
  (steady_of_ends ends).bind fun _ a t run => rest a t run

theorem Steady.shift {run : Nat → ConvertM α} {s : Store}
    (steady : Steady (fun depth => run (depth + 1)) s) : Steady run s := by
  obtain ⟨bound, r, ends, same⟩ := steady
  refine ⟨bound + 1, r, ends, ?_⟩
  intro depth enough
  obtain ⟨less, rfl⟩ : ∃ less, depth = less + 1 := ⟨depth - 1, by omega⟩
  exact same less (by omega)

section loops

variable {ι : Type} (later : Store → Prop)

theorem mapM_keeps {one : ι → ConvertM β} {l : List ι}
    (keeps : ∀ i ∈ l, ∀ s b t, Returns (one i) s b t → later s → later t) {s t : Store} {r : List β}
    (run : Returns (l.mapM one) s r t) (start : later s) : later t := by
  induction l generalizing s r with
  | nil =>
    obtain ⟨_, rfl⟩ := returns_pure.mp run
    exact start
  | cons i rest ih =>
    obtain ⟨b, m, others, first, last, rfl⟩ := returns_mapM_cons.mp run
    exact ih (fun j inside => keeps j (List.mem_cons_of_mem _ inside)) last
      (keeps i List.mem_cons_self s b m first start)

theorem steady_mapM {one : Nat → ι → ConvertM β} {l : List ι}
    (each : ∀ i ∈ l, ∀ s, later s → Steady (fun depth => one depth i) s)
    (keeps : ∀ i ∈ l, ∀ depth s b t, Returns (one depth i) s b t → later s → later t) {s : Store}
    (start : later s) : Steady (fun depth => l.mapM (one depth)) s := by
  induction l generalizing s with
  | nil => exact steady_pure _ s
  | cons i rest ih =>
    simp only [List.mapM_cons]
    refine (each i List.mem_cons_self s start).bind ?_
    intro depth b t run
    have after := keeps i List.mem_cons_self depth s b t run start
    refine (ih (fun j inside => each j (List.mem_cons_of_mem _ inside))
      (fun j inside => keeps j (List.mem_cons_of_mem _ inside)) after).bind ?_
    intro _ _ t _
    exact steady_pure _ t

theorem steady_foldlM {one : Nat → β → ι → ConvertM β} {l : List ι}
    (each : ∀ i ∈ l, ∀ b s, later s → Steady (fun depth => one depth b i) s)
    (keeps : ∀ i ∈ l, ∀ depth b s c t, Returns (one depth b i) s c t → later s → later t) {b : β}
    {s : Store} (start : later s) : Steady (fun depth => l.foldlM (one depth) b) s := by
  induction l generalizing b s with
  | nil => exact steady_pure _ s
  | cons i rest ih =>
    simp only [List.foldlM_cons]
    refine (each i List.mem_cons_self b s start).bind ?_
    intro depth c t run
    exact ih (fun j inside => each j (List.mem_cons_of_mem _ inside))
      (fun j inside => keeps j (List.mem_cons_of_mem _ inside))
      (keeps i List.mem_cons_self depth b s c t run start)

end loops

def Whole (e : Except Failure α) : Prop :=
  e ≠ .error .tooDeep

theorem Whole.bind {e : Except Failure α} {f : α → Except Failure β} (first : Whole e)
    (rest : ∀ a, e = .ok a → Whole (f a)) : Whole (e >>= f) := by
  cases e with
  | error failure => exact fun cut => first (by cases cut; rfl)
  | ok a => exact rest a rfl

theorem whole_ok (a : α) : Whole (.ok a) := by simp [Whole]

theorem whole_mapM {f : α → Except Failure β} (each : ∀ a, Whole (f a)) (l : List α) :
    Whole (l.mapM f) := by
  induction l with
  | nil => exact whole_ok _
  | cons a rest ih =>
    rw [List.mapM_cons]
    exact (each a).bind fun _ _ => ih.bind fun _ _ => whole_ok _

theorem whole_orFail {e : Failure} (other : e ≠ .tooDeep) (x : Option α) : Whole (orFail e x) := by
  cases x with
  | none => exact fun cut => other (by cases cut; rfl)
  | some a => exact whole_ok a

theorem whole_resolve (cfg : Setting) (ref : String) : Whole (resolve cfg ref) := by
  unfold resolve
  cases cfg.resolver.fragment ref with
  | error e =>
    intro cut
    cases cut
  | ok f => exact whole_ok f

theorem whole_qualifyRefs (f : Fragment) (source target : String) :
    Whole (qualifyRefs f source target) := by
  unfold qualifyRefs
  split
  · exact whole_ok f
  · exact whole_orFail (by decide) _

theorem whole_alternative (cfg : Setting) (common member : Fragment) (base : String) :
    Whole (alternative cfg common member base) := by
  unfold alternative resolveMember
  split
  · refine Whole.bind ?_ ?_
    · split
      · exact (whole_resolve _ _).bind fun _ _ => whole_qualifyRefs _ _ _
      · exact whole_ok _
    · intro target _
      have choose : ∀ covered : Bool, Whole (if covered then pure member
          else orFail .unwritable (Fragment.merge? [constraints common, target])) := by
        intro covered
        split
        · exact whole_ok _
        · exact whole_orFail (by decide) _
      dsimp only
      split
      · exact (whole_orFail (by decide) _).bind fun covered _ => choose covered
      · exact choose false
  · exact whole_ok _

section collecting

variable {cfg : Setting} {target : String}

theorem Whole.of_bind {e : Except Failure α} {f : α → Except Failure β} (whole : Whole (e >>= f)) :
    Whole e := by
  rintro rfl
  exact whole rfl

/-- A loop that is not cut off does not change when its rounds are given more depth. -/
theorem foldlM_deeper {ι : Type} {one more : β → ι → Except Failure β}
    (same : ∀ b i, Whole (one b i) → more b i = one b i) {l : List ι} {b : β}
    (whole : Whole (l.foldlM one b)) : l.foldlM more b = l.foldlM one b := by
  induction l generalizing b with
  | nil => rfl
  | cons i rest ih =>
    rw [List.foldlM_cons] at whole
    rw [List.foldlM_cons, List.foldlM_cons, same b i whole.of_bind]
    cases head : one b i with
    | error e => rfl
    | ok c =>
      rw [head] at whole
      exact ih whole

theorem flatten_deeper {depth : Nat} {member : Fragment} {base : String} {p : Pieces}
    (whole : Whole (flatten cfg target depth member base p)) :
    flatten cfg target (depth + 1) member base p = flatten cfg target depth member base p := by
  induction depth generalizing member base p with
  | zero => exact absurd rfl whole
  | succ depth ih =>
    rw [flatten_succ] at whole
    rw [flatten_succ, flatten_succ]
    generalize followRef cfg member base p = followed at whole ⊢
    rcases followed with e | ⟨_ | ⟨member, base⟩, p⟩
    · rfl
    · rfl
    · change Whole (openWith (flatten cfg target depth) target (some (member, base), p)) at whole
      change openWith (flatten cfg target (depth + 1)) target (some (member, base), p) =
        openWith (flatten cfg target depth) target (some (member, base), p)
      simp only [openWith] at whole ⊢
      rw [foldlM_deeper (fun (p : Pieces) (inner : Fragment) => ih) whole.of_bind]

theorem flatten_deep {depth deeper : Nat} (more : depth ≤ deeper) {member : Fragment} {base : String}
    {p : Pieces} (whole : Whole (flatten cfg target depth member base p)) :
    flatten cfg target deeper member base p = flatten cfg target depth member base p := by
  induction more with
  | refl => rfl
  | step _ ih =>
    rw [← ih]
    exact flatten_deeper (by rw [ih]; exact whole)

theorem gather_deep {depth deeper : Nat} (more : depth ≤ deeper) {members : List Fragment}
    {base : String} (whole : Whole (gather cfg depth members base)) :
    gather cfg deeper members base = gather cfg depth members base :=
  foldlM_deeper (fun _ _ whole => flatten_deep more whole) whole

/-- What a member asks for next while an `allOf` is collected: the `allOf` of the fragment that a
reference names, or its own. -/
def AsksFor (cfg : Setting) (x y : Fragment × String) : Prop :=
  (x.1.isRef = true ∧ ∃ f, cfg.resolver.fragment (Reference.qualify x.1.ref x.2) = .ok f ∧
    y.1 ∈ f.allOf ∧ y.2 = Reference.qualify x.1.ref x.2) ∨
  (x.1.isRef = false ∧ y.1 ∈ x.1.allOf ∧ y.2 = x.2)

def FollowsOnly (cfg : Setting) (refs : List String) (x : Fragment × String) : Prop :=
  ∀ y, Relation.ReflTransGen (AsksFor cfg) x y → y.1.isRef = true → Reference.qualify y.1.ref y.2 ∈ refs

theorem FollowsOnly.next {refs : List String} {x y : Fragment × String}
    (only : FollowsOnly cfg refs x) (next : AsksFor cfg x y) : FollowsOnly cfg refs y :=
  fun z path => only z (.head next path)

theorem foldlM_whole {base : String} {l : List Fragment} {p : Pieces}
    (each : ∀ inner ∈ l, ∀ q : Pieces, p.Within q →
      ∃ depth, Whole (flatten cfg target depth inner base q)) :
    ∃ depth, Whole (l.foldlM (fun p inner => flatten cfg target depth inner base p) p) := by
  induction l generalizing p with
  | nil => exact ⟨0, whole_ok p⟩
  | cons head rest ih =>
    obtain ⟨depth, whole⟩ := each head List.mem_cons_self p (.refl p)
    cases first : flatten cfg target depth head base p with
    | error e =>
      refine ⟨depth, ?_⟩
      rw [List.foldlM_cons, first]
      rw [first] at whole
      exact fun cut => whole (by cases cut; rfl)
    | ok q =>
      have within := (flatten_collects first).1.within
      obtain ⟨other, wholeRest⟩ := ih fun inner inside r more =>
        each inner (List.mem_cons_of_mem _ inside) r (within.trans more)
      refine ⟨max depth other, ?_⟩
      rw [List.foldlM_cons, flatten_deep (Nat.le_max_left _ _) whole, first]
      change Whole (rest.foldlM _ q)
      rw [foldlM_deeper (fun _ _ whole => flatten_deep (Nat.le_max_right _ _) whole) wholeRest]
      exact wholeRest

theorem remaining_mono {refs seen more : List String} (within : ∀ ref ∈ seen, ref ∈ more) :
    Walk.remaining id refs more ≤ Walk.remaining id refs seen := by
  refine List.countP_mono_left ?_
  intro ref _ fresh
  simp only [id_eq, List.contains_eq_mem, Bool.not_eq_eq_eq_not, Bool.not_true,
    decide_eq_false_iff_not] at fresh ⊢
  exact fun member => fresh (within ref member)

theorem remaining_lt {refs seen : List String} {ref : String} (inside : ref ∈ refs)
    (fresh : ref ∉ seen) : Walk.remaining id refs (ref :: seen) < Walk.remaining id refs seen :=
  Walk.remaining_cons_lt (β := String) inside (by simpa using fresh)

theorem sizeOf_allOf {g inner : Fragment} (inside : inner ∈ g.allOf) : sizeOf inner < sizeOf g := by
  obtain ⟨k, items, allOf, oneOf, anyOf, negated, properties, additionalProperties,
    patternProperties, dependencies, additionalItems, definitions⟩ := g
  have smaller : sizeOf inner < sizeOf allOf := List.sizeOf_lt_of_mem inside
  simp only [Fragment.mk.sizeOf_spec]
  omega

theorem openWith_whole {f : Fragment} {base : String} {p : Pieces}
    (each : ∀ g ∈ f.allOf, ∀ q : Pieces, p.Within q →
      ∃ depth, Whole (flatten cfg target depth g base q)) :
    ∃ depth, Whole (openWith (flatten cfg target depth) target (some (f, base), p)) := by
  obtain ⟨depth, whole⟩ := foldlM_whole each
  exact ⟨depth, whole.bind fun _ _ => (whole_qualifyRefs _ _ _).bind fun _ _ => whole_ok _⟩

/-- Collecting ends when only finitely many references can be followed: each is followed once, and
between two of them only nested `allOf` is opened. -/
theorem flatten_whole {refs : List String} {g : Fragment} {place : String} (p : Pieces)
    (only : FollowsOnly cfg refs (g, place)) :
    ∃ depth, Whole (flatten cfg target depth g place p) := by
  -- the outer induction is on how many references are left to follow, the inner one on the fragment
  induction left : Walk.remaining id refs p.visited using Nat.strongRecOn generalizing g place p with
  | _ n outer =>
    induction size : sizeOf g using Nat.strongRecOn generalizing g p with
    | _ m inner =>
      by_cases isRef : g.isRef = true
      · have member := only _ .refl isRef
        have asked : ∀ f h, cfg.resolver.fragment (Reference.qualify g.ref place) = .ok f →
            h ∈ f.allOf → FollowsOnly cfg refs (h, Reference.qualify g.ref place) :=
          fun f h resolved inside => only.next (.inl ⟨isRef, f, resolved, inside, rfl⟩)
        by_cases seen : Reference.qualify g.ref place ∈ p.visited
        · exact ⟨1, by rw [flatten_seen isRef seen]; exact whole_ok p⟩
        · have opened := flatten_followed cfg target isRef seen
          dsimp only at member
          generalize Reference.qualify g.ref place = ref at member asked seen opened
          cases resolved : resolve cfg ref with
          | error e =>
            have whole := whole_resolve cfg ref
            refine ⟨1, ?_⟩
            rw [resolved] at whole
            rw [opened 0, resolved]
            exact fun cut => whole (by cases cut; rfl)
          | ok f =>
            have fewer : Walk.remaining id refs (ref :: p.visited) < n := by
              rw [← left]
              exact remaining_lt member seen
            have each : ∀ h ∈ f.allOf, ∀ r : Pieces,
                Pieces.Within { p with visited := ref :: p.visited } r →
                  ∃ depth, Whole (flatten cfg target depth h ref r) := by
              intro h inside r within
              exact outer _ (Nat.lt_of_le_of_lt (remaining_mono within.visited) fewer) r
                (asked f h (fragment_of_resolve resolved) inside) rfl
            obtain ⟨depth, whole⟩ := openWith_whole each
            exact ⟨depth + 1, by rw [opened depth, resolved]; exact whole⟩
      · have isRef : g.isRef = false := by simpa using isRef
        have each : ∀ h ∈ g.allOf, ∀ r : Pieces, p.Within r →
            ∃ depth, Whole (flatten cfg target depth h place r) := by
          intro h inside r within
          have next : FollowsOnly cfg refs (h, place) := only.next (.inr ⟨isRef, inside, rfl⟩)
          have fewer : _ ≤ Walk.remaining id refs p.visited := remaining_mono within.visited
          rw [left] at fewer
          rcases Nat.lt_or_eq_of_le fewer with less | same
          · exact outer _ less r next rfl
          · exact inner _ (by rw [← size]; exact sizeOf_allOf inside) r next same rfl
        obtain ⟨depth, whole⟩ := openWith_whole each
        exact ⟨depth + 1, by rw [flatten_plain isRef]; exact whole⟩

theorem gather_whole {refs : List String} {members : List Fragment} {base : String}
    (only : ∀ member ∈ members, FollowsOnly cfg refs (member, base)) :
    ∃ depth, Whole (gather cfg depth members base) :=
  foldlM_whole fun member inside q _ => flatten_whole q (only member inside)

end collecting

end Typesmith.Model
