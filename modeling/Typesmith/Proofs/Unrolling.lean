import Typesmith.Proofs.Reaching

namespace Typesmith.Model

open Fragment

def named? (x : Fragment × String) : Option String :=
  if x.1.isRef then some (Reference.qualify x.1.ref x.2) else none

/-- What a member stands for: itself, or the fragment that its reference names, at the place of that
reference. -/
def standsFor? (cfg : Setting) (x : Fragment × String) : Option (Fragment × String) :=
  match named? x with
  | none => some x
  | some ref => (cfg.resolver.fragment ref).toOption.map fun f => (f, ref)

/-- The member at an address: the first number counts the members, and each further one the `allOf` of the
fragment that the member before it stands for. -/
def memberAt? (cfg : Setting) : List Fragment → String → List Nat → Option (Fragment × String)
  | _, _, [] => none
  | members, base, [i] => members[i]?.map fun member => (member, base)
  | members, base, i :: j :: path =>
    (members[i]?).bind fun member =>
      (standsFor? cfg (member, base)).bind fun x => memberAt? cfg x.1.allOf x.2 (j :: path)

def namedAt? (cfg : Setting) (members : List Fragment) (base : String) (path : List Nat) : Option String :=
  (memberAt? cfg members base path).bind named?

/-- What is inside a fragment comes before the fragment, and what is left of it before both. -/
def Postorder : List Nat → List Nat → Prop
  | [], _ => False
  | _ :: _, [] => True
  | i :: a, j :: b => i < j ∨ i = j ∧ Postorder a b

/-- A member is entered when the one around it is, unless it is a reference followed before: one of those
`seen`, or one that is entered on the way to it or to the left. -/
def Enters (cfg : Setting) (members : List Fragment) (base : String) (seen : List String)
    (entered : List (List Nat)) (path : List Nat) : Prop :=
  (memberAt? cfg members base path).isSome = true ∧
    (path.dropLast = [] ∨ path.dropLast ∈ entered) ∧
    ∀ ref, namedAt? cfg members base path = some ref →
      ref ∉ seen ∧ ∀ earlier ∈ entered, earlier < path → namedAt? cfg members base earlier ≠ some ref

/-- The piece that a member leaves: what remains of the fragment it stands for, with its references
qualified. -/
def Leaves (cfg : Setting) (members : List Fragment) (base target : String) (path : List Nat)
    (piece : Fragment) : Prop :=
  ∃ x, (memberAt? cfg members base path).bind (standsFor? cfg) = some x ∧
    qualifyRefs (remainder x.1) x.2 target = .ok piece

structure Unrolled (cfg : Setting) (members : List Fragment) (base target : String) (p q : Pieces)
    (entered : List (List Nat)) : Prop where
  sorted : entered.Pairwise Postorder
  complete : ∀ path, path ∈ entered ↔ Enters cfg members base p.visited entered path
  followed : ∀ ref, ref ∈ q.visited ↔
    ref ∈ p.visited ∨ ∃ path ∈ entered, namedAt? cfg members base path = some ref
  found : ∃ pieces, q.found = p.found ++ pieces ∧
    List.Forall₂ (Leaves cfg members base target) entered pieces

variable {cfg : Setting} {members rest : List Fragment} {member : Fragment} {base target : String}
  {x : Fragment × String} {path : List Nat}

section addresses

theorem memberAt?_none (base : String) (path : List Nat) : memberAt? cfg [] base path = none := by
  rcases path with _ | ⟨i, _ | ⟨j, path⟩⟩ <;> simp [memberAt?]

theorem memberAt?_first (path : List Nat) :
    memberAt? cfg (member :: rest) base (0 :: path) = memberAt? cfg [member] base (0 :: path) := by
  cases path <;> simp [memberAt?]

theorem memberAt?_later (i : Nat) (path : List Nat) :
    memberAt? cfg (member :: rest) base ((i + 1) :: path) = memberAt? cfg rest base (i :: path) := by
  cases path <;> simp [memberAt?]

theorem memberAt?_beyond (i : Nat) (path : List Nat) :
    memberAt? cfg [member] base ((i + 1) :: path) = none := by
  rw [memberAt?_later, memberAt?_none]

theorem memberAt?_inside (stands : standsFor? cfg (member, base) = some x) (j : Nat) (path : List Nat) :
    memberAt? cfg [member] base (0 :: j :: path) = memberAt? cfg x.1.allOf x.2 (j :: path) := by
  simp [memberAt?, stands]

theorem namedAt?_own : namedAt? cfg [member] base [0] = named? (member, base) := by
  simp [namedAt?, memberAt?]

theorem namedAt?_first (path : List Nat) :
    namedAt? cfg (member :: rest) base (0 :: path) = namedAt? cfg [member] base (0 :: path) := by
  rw [namedAt?, memberAt?_first, namedAt?]

theorem namedAt?_later (i : Nat) (path : List Nat) :
    namedAt? cfg (member :: rest) base ((i + 1) :: path) = namedAt? cfg rest base (i :: path) := by
  rw [namedAt?, memberAt?_later, namedAt?]

theorem namedAt?_inside (stands : standsFor? cfg (member, base) = some x) (j : Nat) (path : List Nat) :
    namedAt? cfg [member] base (0 :: j :: path) = namedAt? cfg x.1.allOf x.2 (j :: path) := by
  rw [namedAt?, memberAt?_inside stands, namedAt?]

end addresses

section one

variable {p q r : Pieces} {inner : List (List Nat)} {piece : Fragment}

theorem Unrolled.ne_nil (unrolled : Unrolled cfg members base target p q inner) : [] ∉ inner := by
  intro inside
  have known := ((unrolled.complete []).mp inside).1
  simp [memberAt?] at known

/-- The addresses that are entered when a member is opened: those inside it, and then its own. -/
def wrapped (inner : List (List Nat)) : List (List Nat) :=
  inner.map (0 :: ·) ++ [[0]]

theorem mem_wrapped (filled : [] ∉ inner) :
    path ∈ wrapped inner ↔ path = [0] ∨ ∃ j a, j :: a ∈ inner ∧ path = 0 :: j :: a := by
  rw [wrapped, List.mem_append, List.mem_map, List.mem_singleton, or_comm]
  refine or_congr_right ⟨?_, ?_⟩
  · rintro ⟨_ | ⟨j, a⟩, inside, rfl⟩
    · exact absurd inside filled
    · exact ⟨j, a, inside, rfl⟩
  · rintro ⟨j, a, inside, rfl⟩
    exact ⟨j :: a, inside, rfl⟩

theorem sorted_wrapped (filled : [] ∉ inner) (sorted : inner.Pairwise Postorder) :
    (wrapped inner).Pairwise Postorder := by
  refine List.pairwise_append.mpr ⟨?_, List.pairwise_singleton _ _, ?_⟩
  · exact List.pairwise_map.mpr (sorted.imp fun before => .inr ⟨rfl, before⟩)
  · intro path inside last own
    obtain rfl := List.mem_singleton.mp own
    obtain ⟨_ | ⟨j, a⟩, deeper, rfl⟩ := List.mem_map.mp inside
    · exact absurd deeper filled
    · exact .inr ⟨rfl, trivial⟩

section opening

variable (stands : standsFor? cfg (member, base) = some x)
  (begun : ∀ ref, ref ∈ q.visited ↔ ref ∈ p.visited ∨ named? (member, base) = some ref)
  (filled : [] ∉ inner)
include stands begun filled

theorem enters_inside (j : Nat) (path : List Nat) :
    Enters cfg [member] base p.visited (wrapped inner) (0 :: j :: path) ↔
      Enters cfg x.1.allOf x.2 q.visited inner (j :: path) := by
  rw [Enters, Enters, memberAt?_inside stands, namedAt?_inside stands]
  refine and_congr_right fun _ => and_congr ?_ (forall_congr' fun ref => imp_congr_right fun _ => ?_)
  · rw [List.dropLast_cons_of_ne_nil (List.cons_ne_nil j path), mem_wrapped filled]
    cases (j :: path).dropLast <;> simp
  · rw [begun, not_or, and_assoc]
    refine and_congr_right fun _ => ?_
    constructor
    · intro none
      -- its own address stands for the reference that was followed on the way in
      have own := none [0] ((mem_wrapped filled).mpr (.inl rfl)) (by simp)
      refine ⟨by rwa [namedAt?_own] at own, fun earlier inside before => ?_⟩
      cases earlier with
      | nil => exact absurd inside filled
      | cons k a =>
        have outer := none (0 :: k :: a) ((mem_wrapped filled).mpr (.inr ⟨k, a, inside, rfl⟩))
          (List.cons_lt_cons_iff.mpr (.inr ⟨rfl, before⟩))
        rwa [namedAt?_inside stands] at outer
    · rintro ⟨other, none⟩ earlier inside before
      rcases (mem_wrapped filled).mp inside with rfl | ⟨k, a, deeper, rfl⟩
      · rwa [namedAt?_own]
      · rw [namedAt?_inside stands]
        refine none _ deeper ?_
        simpa [List.cons_lt_cons_iff] using before

theorem complete_wrapped (fresh : ∀ ref, named? (member, base) = some ref → ref ∉ p.visited)
    (complete : ∀ path, path ∈ inner ↔ Enters cfg x.1.allOf x.2 q.visited inner path) :
    path ∈ wrapped inner ↔ Enters cfg [member] base p.visited (wrapped inner) path := by
  rcases path with _ | ⟨_ | i, _ | ⟨j, path⟩⟩
  · simp [Enters, memberAt?, mem_wrapped filled]
  · refine iff_of_true ((mem_wrapped filled).mpr (.inl rfl))
      ⟨by simp [memberAt?], .inl rfl, fun ref name => ?_⟩
    refine ⟨fresh ref (namedAt?_own.symm.trans name), fun earlier inside before => ?_⟩
    rcases (mem_wrapped filled).mp inside with rfl | ⟨k, a, _, rfl⟩
    · exact absurd before (List.lt_irrefl _)
    · simp at before
  · rw [enters_inside stands begun filled, ← complete, mem_wrapped filled]
    simp
  · simp [Enters, memberAt?_beyond, mem_wrapped filled]
  · simp [Enters, memberAt?_beyond, mem_wrapped filled]

theorem followed_wrapped {ref : String} (followed : ref ∈ r.visited ↔
      ref ∈ q.visited ∨ ∃ path ∈ inner, namedAt? cfg x.1.allOf x.2 path = some ref) :
    ref ∈ r.visited ↔
      ref ∈ p.visited ∨ ∃ path ∈ wrapped inner, namedAt? cfg [member] base path = some ref := by
  rw [followed, begun, or_assoc]
  refine or_congr_right ⟨?_, ?_⟩
  · rintro (name | ⟨_ | ⟨j, a⟩, inside, name⟩)
    · exact ⟨[0], (mem_wrapped filled).mpr (.inl rfl), namedAt?_own.trans name⟩
    · exact absurd inside filled
    · exact ⟨0 :: j :: a, (mem_wrapped filled).mpr (.inr ⟨j, a, inside, rfl⟩),
        by rwa [namedAt?_inside stands]⟩
  · rintro ⟨path, inside, name⟩
    rcases (mem_wrapped filled).mp inside with rfl | ⟨j, a, deeper, rfl⟩
    · exact .inl (namedAt?_own.symm.trans name)
    · exact .inr ⟨j :: a, deeper, by rwa [namedAt?_inside stands] at name⟩

end opening

theorem leaves_inside (stands : standsFor? cfg (member, base) = some x)
    (leaves : Leaves cfg x.1.allOf x.2 target path piece) :
    Leaves cfg [member] base target (0 :: path) piece := by
  obtain ⟨y, known, remains⟩ := leaves
  cases path with
  | nil => simp [memberAt?] at known
  | cons j a => exact ⟨y, by rwa [memberAt?_inside stands], remains⟩

theorem Unrolled.opened (stands : standsFor? cfg (member, base) = some x)
    (fresh : ∀ ref, named? (member, base) = some ref → ref ∉ p.visited)
    (begun : ∀ ref, ref ∈ q.visited ↔ ref ∈ p.visited ∨ named? (member, base) = some ref)
    (same : q.found = p.found) (unrolled : Unrolled cfg x.1.allOf x.2 target q r inner)
    (qualified : qualifyRefs (remainder x.1) x.2 target = .ok piece) :
    Unrolled cfg [member] base target p { r with found := r.found ++ [piece] } (wrapped inner) where
  sorted := sorted_wrapped unrolled.ne_nil unrolled.sorted
  complete _ := complete_wrapped stands begun unrolled.ne_nil fresh unrolled.complete
  followed ref := followed_wrapped stands begun unrolled.ne_nil (unrolled.followed ref)
  found := by
    obtain ⟨pieces, added, each⟩ := unrolled.found
    refine ⟨pieces ++ [piece], by simp [added, same], ?_⟩
    have own : Leaves cfg [member] base target [0] piece := ⟨x, by simp [memberAt?, stands], qualified⟩
    refine List.rel_append (List.forall₂_map_left_iff.mpr ?_) (.cons own .nil)
    exact each.imp fun a out leaves => leaves_inside stands leaves

end one

def behind : List Nat → List Nat
  | [] => []
  | i :: path => (i + 1) :: path

def joined (first others : List (List Nat)) : List (List Nat) :=
  first ++ others.map behind

def Single (first : List (List Nat)) : Prop :=
  ∀ path ∈ first, ∃ a, path = 0 :: a

section more

variable {p q r : Pieces} {first others : List (List Nat)} {piece : Fragment}

theorem Unrolled.single (unrolled : Unrolled cfg [member] base target p q first) : Single first := by
  intro path inside
  have known := ((unrolled.complete path).mp inside).1
  rcases path with _ | ⟨_ | i, a⟩
  · simp [memberAt?] at known
  · exact ⟨a, rfl⟩
  · simp [memberAt?_beyond] at known

theorem leaves_first (leaves : Leaves cfg [member] base target path piece) :
    Leaves cfg (member :: rest) base target path piece := by
  obtain ⟨y, known, remains⟩ := leaves
  rcases path with _ | ⟨_ | i, a⟩
  · simp [memberAt?] at known
  · exact ⟨y, by rwa [memberAt?_first], remains⟩
  · simp [memberAt?_beyond] at known

theorem leaves_behind (leaves : Leaves cfg rest base target path piece) :
    Leaves cfg (member :: rest) base target (behind path) piece := by
  obtain ⟨y, known, remains⟩ := leaves
  cases path with
  | nil => simp [memberAt?] at known
  | cons i a => exact ⟨y, by rwa [behind, memberAt?_later], remains⟩

variable (single : Single first) (filled : [] ∉ others)
include single filled

theorem mem_joined : path ∈ joined first others ↔
    (∃ a, 0 :: a ∈ first ∧ path = 0 :: a) ∨ ∃ i a, i :: a ∈ others ∧ path = (i + 1) :: a := by
  rw [joined, List.mem_append, List.mem_map]
  refine or_congr ⟨?_, ?_⟩ ⟨?_, ?_⟩
  · intro inside
    obtain ⟨a, rfl⟩ := single path inside
    exact ⟨a, inside, rfl⟩
  · rintro ⟨a, inside, rfl⟩
    exact inside
  · rintro ⟨_ | ⟨i, a⟩, inside, rfl⟩
    · exact absurd inside filled
    · exact ⟨i, a, inside, rfl⟩
  · rintro ⟨i, a, inside, rfl⟩
    exact ⟨i :: a, inside, rfl⟩

theorem sorted_joined (before : first.Pairwise Postorder) (after : others.Pairwise Postorder) :
    (joined first others).Pairwise Postorder := by
  refine List.pairwise_append.mpr ⟨before, List.pairwise_map.mpr ?_, ?_⟩
  · refine after.imp_of_mem fun {a b} left right order => ?_
    cases a with
    | nil => exact absurd left filled
    | cons i a =>
      cases b with
      | nil => exact absurd right filled
      | cons j b => exact order.imp Nat.succ_lt_succ fun ⟨same, inner⟩ => ⟨congrArg _ same, inner⟩
  · intro path inside other later
    obtain ⟨a, rfl⟩ := single path inside
    obtain ⟨_ | ⟨i, b⟩, deeper, rfl⟩ := List.mem_map.mp later
    · exact absurd deeper filled
    · exact .inl (Nat.succ_pos i)

theorem enters_first (seen : List String) (path : List Nat) :
    Enters cfg (member :: rest) base seen (joined first others) (0 :: path) ↔
      Enters cfg [member] base seen first (0 :: path) := by
  rw [Enters, Enters, memberAt?_first, namedAt?_first]
  refine and_congr_right fun _ => and_congr ?_ (forall_congr' fun ref => imp_congr_right fun _ => ?_)
  · cases path with
    | nil => simp
    | cons j a =>
      rw [List.dropLast_cons_of_ne_nil (List.cons_ne_nil j a), mem_joined single filled]
      simp
  · refine and_congr_right fun _ => ⟨?_, ?_⟩
    · intro none earlier inside before
      obtain ⟨a, rfl⟩ := single earlier inside
      rw [← namedAt?_first]
      exact none _ ((mem_joined single filled).mpr (.inl ⟨a, inside, rfl⟩)) before
    · intro none earlier inside before
      rcases (mem_joined single filled).mp inside with ⟨a, left, rfl⟩ | ⟨i, a, _, rfl⟩
      · rw [namedAt?_first]
        exact none _ left before
      · simp [List.cons_lt_cons_iff] at before

theorem enters_behind {seen later : List String} (followed : ∀ ref, ref ∈ later ↔
      ref ∈ seen ∨ ∃ path ∈ first, namedAt? cfg [member] base path = some ref) (i : Nat) (path : List Nat) :
    Enters cfg (member :: rest) base seen (joined first others) ((i + 1) :: path) ↔
      Enters cfg rest base later others (i :: path) := by
  rw [Enters, Enters, memberAt?_later, namedAt?_later]
  refine and_congr_right fun _ => and_congr ?_ (forall_congr' fun ref => imp_congr_right fun _ => ?_)
  · cases path with
    | nil => simp
    | cons j a =>
      rw [List.dropLast_cons_of_ne_nil (List.cons_ne_nil j a),
        List.dropLast_cons_of_ne_nil (List.cons_ne_nil j a), mem_joined single filled]
      simp
  · rw [followed, not_or, and_assoc]
    refine and_congr_right fun _ => ⟨fun none => ⟨?_, fun earlier inside before => ?_⟩, ?_⟩
    · rintro ⟨earlier, inside, name⟩
      obtain ⟨a, rfl⟩ := single earlier inside
      refine none _ ((mem_joined single filled).mpr (.inl ⟨a, inside, rfl⟩)) ?_ (by rwa [namedAt?_first])
      exact List.cons_lt_cons_iff.mpr (.inl (Nat.succ_pos i))
    · cases earlier with
      | nil => exact absurd inside filled
      | cons j a =>
        rw [← namedAt?_later]
        refine none _ ((mem_joined single filled).mpr (.inr ⟨j, a, inside, rfl⟩)) ?_
        simpa [List.cons_lt_cons_iff] using before
    · rintro ⟨unnamed, none⟩ earlier inside before
      rcases (mem_joined single filled).mp inside with ⟨a, left, rfl⟩ | ⟨j, a, right, rfl⟩
      · rw [namedAt?_first]
        exact fun name => unnamed ⟨_, left, name⟩
      · rw [namedAt?_later]
        refine none _ right ?_
        simpa [List.cons_lt_cons_iff] using before

omit single filled

theorem Unrolled.append (one : Unrolled cfg [member] base target p q first)
    (more : Unrolled cfg rest base target q r others) :
    Unrolled cfg (member :: rest) base target p r (joined first others) where
  sorted := sorted_joined one.single more.ne_nil one.sorted more.sorted
  complete path := by
    rcases path with _ | ⟨_ | i, path⟩
    · simp [Enters, memberAt?, mem_joined one.single more.ne_nil]
    · rw [enters_first one.single more.ne_nil, ← one.complete, mem_joined one.single more.ne_nil]
      simp
    · rw [enters_behind one.single more.ne_nil one.followed, ← more.complete,
        mem_joined one.single more.ne_nil]
      simp
  followed ref := by
    rw [more.followed, one.followed, or_assoc]
    refine or_congr_right ⟨?_, ?_⟩
    · rintro (⟨path, inside, name⟩ | ⟨_ | ⟨i, path⟩, inside, name⟩)
      · obtain ⟨a, rfl⟩ := one.single path inside
        exact ⟨0 :: a, (mem_joined one.single more.ne_nil).mpr (.inl ⟨a, inside, rfl⟩),
          by rwa [namedAt?_first]⟩
      · exact absurd inside more.ne_nil
      · exact ⟨(i + 1) :: path, (mem_joined one.single more.ne_nil).mpr (.inr ⟨i, path, inside, rfl⟩),
          by rwa [namedAt?_later]⟩
    · rintro ⟨path, inside, name⟩
      rcases (mem_joined one.single more.ne_nil).mp inside with ⟨a, left, rfl⟩ | ⟨i, a, right, rfl⟩
      · exact .inl ⟨0 :: a, left, by rwa [namedAt?_first] at name⟩
      · exact .inr ⟨i :: a, right, by rwa [namedAt?_later] at name⟩
  found := by
    obtain ⟨pieces, added, each⟩ := one.found
    obtain ⟨pieces', added', each'⟩ := more.found
    refine ⟨pieces ++ pieces', by rw [added', added, List.append_assoc], ?_⟩
    refine List.rel_append (each.imp fun _ _ => leaves_first) (List.forall₂_map_left_iff.mpr ?_)
    exact each'.imp fun _ _ => leaves_behind

end more

section runs

variable {depth : Nat} {p q : Pieces}

end runs

section lookups

variable {m : Type → Type} [Monad m] [MonadLiftT (Except Failure) m]

end lookups

abbrev Recording :=
  ExceptT Failure (StateM (List String))

def recorded (cfg : Setting) (ref : String) : Recording Fragment := do
  modify fun record => ref :: record
  liftM (resolve cfg ref)

/-- A run with a record gives what the run without it gives. No reference is recorded twice, and in the end
those are recorded that `visited` tells. -/
def Records {α : Type} (visited : α → List String) (x : Recording α) (e : Except Failure α)
    (before : List String) : Prop :=
  ∃ record, x.run.run before = (e, record) ∧ record.Nodup ∧ ∀ a, e = .ok a → record = visited a

section records

variable {α β : Type} {visited : α → List String} {visited' : β → List String} {before : List String}
  {p : Pieces} {depth : Nat}

theorem Records.bind {x : Recording α} {e : Except Failure α} {f : α → Recording β}
    {g : α → Except Failure β} (first : Records visited x e before)
    (rest : ∀ a, e = .ok a → (visited a).Nodup → Records visited' (f a) (g a) (visited a)) :
    Records visited' (x >>= f) (e >>= g) before := by
  obtain ⟨record, run, distinct, told⟩ := first
  cases e with
  | error failure =>
    refine ⟨record, ?_, distinct, fun a cut => by cases cut⟩
    rw [ExceptT.run_bind, StateT.run_bind, run]
    rfl
  | ok a =>
    -- what is on record is what the value tells, so the rest goes on from there
    obtain rfl := told a rfl
    obtain ⟨record, later, distinct, told⟩ := rest a rfl distinct
    refine ⟨record, ?_, distinct, told⟩
    rw [ExceptT.run_bind, StateT.run_bind, run]
    exact later

end records

end Typesmith.Model
