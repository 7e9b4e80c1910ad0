import Mathlib.Data.List.Induction
import Typesmith.Proofs.Paths

namespace Typesmith.Path

open Text

/-- The steps that a path comes to, last one first. -/
def trail (p : String) : List String :=
  (split '/' p).foldl (step (isAbsolute p)) []

def spellOut (rooted : Bool) (l : List String) : String :=
  if rooted then "/" ++ join "/" l.reverse else spell l.reverse

/-- Steps as a cleaned path has them, last one first: names, and before them steps up where the path
is relative. -/
def Walked (rooted : Bool) (l : List String) : Prop :=
  ∃ up names, l = names ++ List.replicate up ".." ∧ (∀ s ∈ names, IsName s) ∧ (rooted = true → up = 0)

def climb (rooted : Bool) (k : Nat) (l : List String) : List String :=
  (List.replicate k "..").foldl (step rooted) l

theorem clean_eq_spellOut (p : String) : clean p = spellOut (isAbsolute p) (trail p) := by
  unfold clean spellOut spell trail
  simp only [List.isEmpty_reverse]

section

variable {rooted : Bool} {l : List String}

theorem walked_nil : Walked rooted [] :=
  ⟨0, [], rfl, by simp, fun _ => rfl⟩

theorem Walked.cons (walked : Walked rooted l) {s : String} (name : IsName s) : Walked rooted (s :: l) := by
  obtain ⟨up, names, rfl, named, level⟩ := walked
  refine ⟨up, s :: names, rfl, ?_, level⟩
  intro t inside
  rcases List.mem_cons.mp inside with rfl | later
  · exact name
  · exact named t later

theorem Walked.append (walked : Walked rooted l) {names : List String} (named : ∀ s ∈ names, IsName s) :
    Walked rooted (names ++ l) := by
  induction names with
  | nil => exact walked
  | cons s names ih =>
    have rest := ih fun t inside => named t (List.mem_cons_of_mem _ inside)
    exact rest.cons (named s List.mem_cons_self)

theorem Walked.up (walked : Walked rooted l) : Walked rooted (step rooted l "..") := by
  obtain ⟨up, names, rfl, named, level⟩ := walked
  cases names with
  | nil =>
    cases rooted with
    | true =>
      rw [level rfl]
      exact walked_nil
    | false =>
      exact ⟨up + 1, [], step_up up, by simp, by simp⟩
  | cons s names =>
    refine ⟨up, names, ?_, fun t inside => named t (List.mem_cons_of_mem _ inside), level⟩
    exact step_back (named s List.mem_cons_self) _

theorem Walked.step (walked : Walked rooted l) {s : String} (free : '/' ∉ s.toList) :
    Walked rooted (step rooted l s) := by
  rcases piece_cases free with skipped | rfl | name
  · rwa [step_skipped skipped]
  · exact walked.up
  · rw [step_name name]
    exact walked.cons name

theorem Walked.foldl (walked : Walked rooted l) {pieces : List String}
    (free : ∀ s ∈ pieces, '/' ∉ s.toList) : Walked rooted (pieces.foldl (Path.step rooted) l) := by
  induction pieces generalizing l with
  | nil => exact walked
  | cons s rest ih =>
    exact ih (walked.step (free s List.mem_cons_self)) fun t inside => free t (List.mem_cons_of_mem _ inside)

theorem walked_trail (p : String) : Walked (isAbsolute p) (trail p) :=
  walked_nil.foldl fun _ => not_mem_split

theorem Walked.tidy (walked : Walked rooted l) : ∃ up names, Tidy l.reverse up names := by
  obtain ⟨up, names, rfl, named, _⟩ := walked
  refine ⟨up, names.reverse, by simp, ?_⟩
  exact fun s inside => named s (List.mem_reverse.mp inside)

theorem Walked.isAbsolute_spellOut (walked : Walked rooted l) : isAbsolute (spellOut rooted l) = rooted := by
  unfold spellOut
  cases rooted with
  | true => exact isAbsolute_append (by decide) _
  | false =>
    obtain ⟨up, names, tidy⟩ := walked.tidy
    exact tidy.relative

theorem Walked.trail_spellOut (walked : Walked rooted l) : trail (spellOut rooted l) = l := by
  have start := walked.isAbsolute_spellOut
  obtain ⟨k, others, tidy⟩ := walked.tidy
  unfold trail
  rw [start]
  cases rooted with
  | false =>
    have spelled := tidy.steps_spell
    rw [steps, List.reverse_inj] at spelled
    exact spelled
  | true =>
    obtain ⟨up, names, rfl, named, level⟩ := walked
    rw [level rfl, List.replicate_zero, List.append_nil] at tidy ⊢
    have named : ∀ s ∈ names.reverse, IsName s := fun s inside => named s (List.mem_reverse.mp inside)
    have pieces : split '/' (spellOut true names) = "" :: split '/' (join "/" names.reverse) := by
      have text : spellOut true names = "" ++ "/" ++ join "/" names.reverse := by simp [spellOut]
      rw [text, split_append toList_slash]
      rfl
    rw [pieces, List.foldl_cons]
    have skipped : Path.step true [] "" = [] := rfl
    rw [skipped]
    by_cases empty : names.reverse = []
    · rw [empty]
      have none : names = [] := List.reverse_eq_nil_iff.mp empty
      rw [none]
      decide
    · rw [split_join empty tidy.free, foldl_step_names named]
      simp

theorem Walked.spellOut_inj {other : Bool} {m : List String} (first : Walked rooted l)
    (second : Walked other m) : spellOut rooted l = spellOut other m ↔ rooted = other ∧ l = m := by
  constructor
  · intro same
    have start := first.isAbsolute_spellOut
    have walked := first.trail_spellOut
    rw [same, second.isAbsolute_spellOut] at start
    rw [same, second.trail_spellOut] at walked
    exact ⟨start.symm, walked.symm⟩
  · rintro ⟨rfl, rfl⟩
    rfl

end

theorem clean_eq_clean_iff (p q : String) :
    clean p = clean q ↔ isAbsolute p = isAbsolute q ∧ trail p = trail q := by
  rw [clean_eq_spellOut, clean_eq_spellOut]
  exact (walked_trail p).spellOut_inj (walked_trail q)

theorem trail_clean (p : String) : trail (clean p) = trail p := by
  rw [clean_eq_spellOut]
  exact (walked_trail p).trail_spellOut

theorem clean_clean (p : String) : clean (clean p) = clean p := by
  rw [clean_eq_clean_iff]
  exact ⟨isAbsolute_clean p, trail_clean p⟩

theorem foldl_step_steps (rooted : Bool) (l : List String) (p : String) :
    (split '/' p).foldl (step rooted) l = (steps p).foldl (step rooted) l := by
  have free : ∀ s ∈ split '/' p, '/' ∉ s.toList := fun _ => not_mem_split
  unfold steps
  generalize split '/' p = pieces at free
  induction pieces using List.reverseRecOn with
  | nil => rfl
  | append_singleton pieces s ih =>
    have ih := ih fun t inside => free t (List.mem_append_left _ inside)
    have walked : Walked false (pieces.foldl (step false) []) :=
      walked_nil.foldl fun t inside => free t (List.mem_append_left _ inside)
    rw [List.foldl_append, List.foldl_append, ih]
    generalize pieces.foldl (step false) [] = m at walked
    change step rooted _ s = (step false m s).reverse.foldl (step rooted) l
    rcases piece_cases (free s (by simp)) with skipped | rfl | name
    · rw [step_skipped skipped, step_skipped skipped]
    · obtain ⟨up, names, rfl, named, _⟩ := walked
      cases names with
      | nil =>
        -- nothing to take back: the step up is walked later
        rw [List.nil_append, step_up, List.replicate_succ, List.reverse_cons, List.foldl_append]
        rfl
      | cons n names =>
        have name := named n List.mem_cons_self
        rw [List.cons_append, step_back name, List.reverse_cons, List.foldl_append]
        change step rooted (step rooted _ n) ".." = _
        rw [step_name name, step_back name]
    · have down : step false m s = s :: m := step_name name m
      rw [down, List.reverse_cons, List.foldl_append]
      rfl

theorem Tidy.foldl_climb {m names : List String} {k : Nat} (tidy : Tidy m k names) (rooted : Bool)
    (l : List String) : m.foldl (step rooted) l = names.reverse ++ climb rooted k l := by
  rw [tidy.eq, List.foldl_append, foldl_step_names tidy.named]
  rfl

theorem ups_eq {p : String} {k : Nat} {names : List String} (tidy : Tidy (steps p) k names) :
    ups p = k := by
  have level := tidy.ups_spell
  rwa [ups, tidy.steps_spell] at level

theorem climb_name {s : String} (name : IsName s) (rooted : Bool) (k : Nat) (l : List String) :
    climb rooted (k + 1) (s :: l) = climb rooted k l := by
  unfold climb
  rw [List.replicate_succ, List.foldl_cons, step_back name]

theorem walked_climb {rooted : Bool} {l : List String} (walked : Walked rooted l) (k : Nat) :
    Walked rooted (climb rooted k l) := by
  apply walked.foldl
  intro s inside
  rw [List.eq_of_mem_replicate inside]
  decide

theorem joinAll_below {d f : String} (first : d ≠ "") (second : f ≠ "") :
    joinAll [d, f] = spellOut (isAbsolute d) ((steps f).foldl (step (isAbsolute d)) (trail d)) := by
  have whole : isAbsolute (d ++ "/" ++ f) = isAbsolute d := by
    rw [String.append_assoc, isAbsolute_append first]
  rw [joinAll_pair first second, clean_eq_spellOut, whole]
  congr 1
  rw [trail, whole, split_append toList_slash, List.foldl_append, foldl_step_steps]
  rfl

end Typesmith.Path
