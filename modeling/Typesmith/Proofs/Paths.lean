import Mathlib.Data.List.Basic
import Typesmith.Path

namespace Typesmith

namespace Text

theorem splitChars_ne_nil (sep : Char) (s : List Char) : splitChars sep s ≠ [] := by
  cases s with
  | nil => simp [splitChars]
  | cons c rest =>
    unfold splitChars
    split
    · simp
    · split <;> simp

theorem not_mem_splitChars {sep : Char} {s piece : List Char} (member : piece ∈ splitChars sep s) :
    sep ∉ piece := by
  induction s generalizing piece with
  | nil => simp_all [splitChars]
  | cons c rest ih =>
    unfold splitChars at member
    split at member
    · rcases List.mem_cons.mp member with rfl | later
      · simp
      · exact ih later
    · rename_i other
      cases pieces : splitChars sep rest with
      | nil => exact absurd pieces (splitChars_ne_nil sep rest)
      | cons first others =>
        rw [pieces] at member ih
        rcases List.mem_cons.mp member with rfl | later
        · have free := ih List.mem_cons_self
          simp [free, Ne.symm other]
        · exact ih (List.mem_cons_of_mem _ later)

theorem splitChars_append (sep : Char) (a b : List Char) :
    splitChars sep (a ++ sep :: b) = splitChars sep a ++ splitChars sep b := by
  induction a with
  | nil => simp [splitChars]
  | cons c rest ih =>
    rw [List.cons_append, splitChars, splitChars, ih]
    cases pieces : splitChars sep rest with
    | nil => exact absurd pieces (splitChars_ne_nil sep rest)
    | cons first others => split <;> simp

theorem splitChars_eq_singleton {sep : Char} {s : List Char} (free : sep ∉ s) :
    splitChars sep s = [s] := by
  induction s with
  | nil => rfl
  | cons c rest ih =>
    have other : c ≠ sep := fun same => free (same ▸ List.mem_cons_self)
    rw [splitChars, if_neg other, ih fun inside => free (List.mem_cons_of_mem _ inside)]

theorem not_mem_split {sep : Char} {s piece : String} (member : piece ∈ split sep s) :
    sep ∉ piece.toList := by
  obtain ⟨letters, inside, rfl⟩ := List.mem_map.mp member
  simpa using not_mem_splitChars inside

theorem split_eq_singleton {sep : Char} {s : String} (free : sep ∉ s.toList) : split sep s = [s] := by
  rw [split, splitChars_eq_singleton free, List.map_singleton, String.ofList_toList]

theorem flatMap_split_eq_self {sep : Char} {l : List String} (free : ∀ s ∈ l, sep ∉ s.toList) :
    l.flatMap (split sep) = l := by
  have alone : l.flatMap (split sep) = l.flatMap fun s => [s] := by
    refine List.flatMap_congr fun s inside => split_eq_singleton (free s inside)
  rw [alone, List.flatMap_singleton']

section

variable {sep : Char} {between : String}

theorem split_append (one : between.toList = [sep]) (a b : String) :
    split sep (a ++ between ++ b) = split sep a ++ split sep b := by
  have letters : (a ++ between ++ b).toList = a.toList ++ sep :: b.toList := by simp [one]
  rw [split, letters, splitChars_append, List.map_append]
  rfl

theorem split_join_flatMap (one : between.toList = [sep]) {l : List String} (filled : l ≠ []) :
    split sep (join between l) = l.flatMap (split sep) := by
  induction l with
  | nil => exact absurd rfl filled
  | cons s rest ih =>
    cases rest with
    | nil => simp [join]
    | cons t others =>
      rw [join, split_append one, ih (List.cons_ne_nil _ _)]
      simp only [List.flatMap_cons]
      exact List.cons_ne_nil _ _

end

theorem toList_slash : "/".toList = ['/'] := rfl

theorem split_join {l : List String} (filled : l ≠ []) (free : ∀ s ∈ l, '/' ∉ s.toList) :
    split '/' (join "/" l) = l := by
  rw [split_join_flatMap toList_slash filled, flatMap_split_eq_self free]

theorem mem_join {c : Char} {sep : String} {words : List String} (inside : c ∈ (join sep words).toList) :
    c ∈ sep.toList ∨ ∃ word ∈ words, c ∈ word.toList := by
  induction words with
  | nil => cases inside
  | cons first rest ih =>
    cases rest with
    | nil => exact .inr ⟨first, List.mem_cons_self, inside⟩
    | cons second rest =>
      simp only [join, String.toList_append, List.mem_append] at inside
      rcases inside with (own | between) | later
      · exact .inr ⟨first, List.mem_cons_self, own⟩
      · exact .inl between
      · rcases ih later with between | ⟨word, listed, own⟩
        · exact .inl between
        · exact .inr ⟨word, List.mem_cons_of_mem _ listed, own⟩

end Text

namespace Path

open Text

def steps (p : String) : List String :=
  ((split '/' p).foldl (step false) []).reverse

def spell (l : List String) : String :=
  if l.isEmpty then "." else join "/" l

def ups (p : String) : Nat :=
  (steps p).count ".."

def downs (p : String) : Nat :=
  (steps p).countP (· ≠ "..")

def IsName (s : String) : Prop :=
  s ≠ "" ∧ s ≠ "." ∧ s ≠ ".." ∧ '/' ∉ s.toList

theorem piece_cases {s : String} (free : '/' ∉ s.toList) : (s = "" ∨ s = ".") ∨ s = ".." ∨ IsName s := by
  by_cases skipped : s = "" ∨ s = "."
  · exact .inl skipped
  · rw [not_or] at skipped
    by_cases isUp : s = ".."
    · exact .inr (.inl isUp)
    · exact .inr (.inr ⟨skipped.1, skipped.2, isUp, free⟩)

theorem clean_relative {p : String} (relative : isAbsolute p = false) : clean p = spell (steps p) := by
  simp [clean, relative, steps, spell]

section walking

variable {names : List String} {rooted : Bool} {s : String}

theorem step_skipped (skipped : s = "" ∨ s = ".") (walked : List String) :
    step rooted walked s = walked := by
  simp [step, skipped]

theorem step_name (name : IsName s) (walked : List String) : step rooted walked s = s :: walked := by
  obtain ⟨filled, dot, up, _⟩ := name
  simp [step, filled, dot, up]

theorem step_back (name : IsName s) (walked : List String) : step rooted (s :: walked) ".." = walked := by
  have other := name.2.2.1
  simp [step, other]

theorem step_up (up : Nat) :
    step false (List.replicate up "..") ".." = List.replicate (up + 1) ".." := by
  cases up <;> simp [step, List.replicate_succ]

theorem foldl_step_names (named : ∀ s ∈ names, IsName s) (walked : List String) :
    names.foldl (step rooted) walked = names.reverse ++ walked := by
  induction names generalizing walked with
  | nil => rfl
  | cons s rest ih =>
    rw [List.foldl_cons, step_name (named s List.mem_cons_self),
      ih fun t inside => named t (List.mem_cons_of_mem _ inside)]
    simp

/-- Steps up take names back as long as there are any, and stay after that. -/
theorem foldl_step_ups (named : ∀ s ∈ names, IsName s) (up k : Nat) :
    (List.replicate k "..").foldl (step false) (names ++ List.replicate up "..") =
      names.drop k ++ List.replicate (up + (k - names.length)) ".." := by
  induction k generalizing names up with
  | zero => simp
  | succ k ih =>
    rw [List.replicate_succ, List.foldl_cons]
    cases names with
    | nil =>
      rw [List.nil_append, step_up, ← List.nil_append (List.replicate (up + 1) ".."), ih (by simp)]
      simp only [List.drop_nil, List.length_nil, Nat.sub_zero, List.nil_append]
      congr 1
      omega
    | cons s rest =>
      rw [List.cons_append, step_back (named s List.mem_cons_self),
        ih fun t inside => named t (List.mem_cons_of_mem _ inside)]
      simp

end walking

/-- Steps in the order of a cleaned path. -/
structure Tidy (l : List String) (up : Nat) (names : List String) : Prop where
  eq : l = List.replicate up ".." ++ names
  named : ∀ s ∈ names, IsName s

theorem tidy_name {s : String} (name : IsName s) : Tidy [s] 0 [s] :=
  ⟨rfl, by simpa using name⟩

theorem tidy_nil : Tidy [] 0 [] :=
  ⟨rfl, by simp⟩

namespace Tidy

variable {l names : List String} {up : Nat}

theorem free (tidy : Tidy l up names) : ∀ s ∈ l, '/' ∉ s.toList := by
  intro s inside
  rw [tidy.eq] at inside
  rcases List.mem_append.mp inside with isUp | named
  · rw [List.eq_of_mem_replicate isUp]
    decide
  · exact (tidy.named s named).2.2.2

theorem foldl_step (tidy : Tidy l up names) {m others : List String} {k : Nat} (second : Tidy m k others) :
    (m.foldl (step false) l.reverse).reverse =
      List.replicate (up + (k - names.length)) ".." ++ (names.take (names.length - k) ++ others) := by
  have named : ∀ s ∈ names.reverse, IsName s := fun s inside => tidy.named s (List.mem_reverse.mp inside)
  rw [tidy.eq, second.eq, List.reverse_append, List.reverse_replicate, List.foldl_append,
    foldl_step_ups named, foldl_step_names second.named]
  simp [List.drop_reverse]

theorem steps_spell (tidy : Tidy l up names) : steps (spell l) = l := by
  by_cases empty : l = []
  · subst empty
    decide
  · rw [spell, if_neg (by simpa using empty), steps, split_join empty tidy.free]
    have walked := tidy_nil.foldl_step tidy
    simp only [List.reverse_nil, List.length_nil, Nat.sub_zero, List.take_nil, List.nil_append,
      Nat.zero_add] at walked
    rw [walked, tidy.eq]

theorem filled (tidy : Tidy l up names) : ∀ s ∈ l, s ≠ "" := by
  intro s inside
  rw [tidy.eq] at inside
  rcases List.mem_append.mp inside with isUp | named
  · rw [List.eq_of_mem_replicate isUp]
    decide
  · exact (tidy.named s named).1

theorem walk (tidy : Tidy l up names) {m others : List String} {k : Nat} (second : Tidy m k others) :
    ∃ up' names', Tidy (m.foldl (step false) l.reverse).reverse up' names' := by
  refine ⟨_, _, tidy.foldl_step second, ?_⟩
  intro s inside
  rcases List.mem_append.mp inside with first | last
  · exact tidy.named s (List.mem_of_mem_take first)
  · exact second.named s last

theorem ups_spell (tidy : Tidy l up names) : ups (spell l) = up := by
  have none : names.count ".." = 0 :=
    List.count_eq_zero.mpr fun inside => (tidy.named _ inside).2.2.1 rfl
  rw [ups, tidy.steps_spell, tidy.eq, List.count_append, none, List.count_replicate_self, Nat.add_zero]

theorem downs_spell (tidy : Tidy l up names) : downs (spell l) = names.length := by
  have all : names.countP (· ≠ "..") = names.length := by
    rw [List.countP_eq_length]
    exact fun s inside => by simpa using (tidy.named s inside).2.2.1
  have none : (List.replicate up "..").countP (· ≠ "..") = 0 := by simp
  rw [downs, tidy.steps_spell, tidy.eq, List.countP_append, none, all, Nat.zero_add]

end Tidy

theorem tidy_step {l names : List String} {up : Nat} (tidy : Tidy l up names) {s : String}
    (free : '/' ∉ s.toList) : ∃ up' names', Tidy (step false l.reverse s).reverse up' names' := by
  rcases piece_cases free with skipped | rfl | name
  · rw [step_skipped skipped, List.reverse_reverse]
    exact ⟨up, names, tidy⟩
  · have up : Tidy [".."] 1 [] := ⟨rfl, by simp⟩
    exact tidy.walk up
  · exact tidy.walk (tidy_name name)

theorem tidy_foldl {pieces : List String} (free : ∀ s ∈ pieces, '/' ∉ s.toList) {l names : List String}
    {up : Nat} (tidy : Tidy l up names) :
    ∃ up' names', Tidy (pieces.foldl (step false) l.reverse).reverse up' names' := by
  induction pieces generalizing l names up with
  | nil => exact ⟨up, names, by simpa using tidy⟩
  | cons s rest ih =>
    obtain ⟨up', names', stepped⟩ := tidy_step tidy (free s List.mem_cons_self)
    have later := ih (fun t inside => free t (List.mem_cons_of_mem _ inside)) stepped
    rwa [List.reverse_reverse] at later

theorem tidy_steps (p : String) : ∃ up names, Tidy (steps p) up names :=
  tidy_foldl (fun _ => not_mem_split) tidy_nil

theorem isAbsolute_append {a : String} (filled : a ≠ "") (b : String) :
    isAbsolute (a ++ b) = isAbsolute a := by
  rw [isAbsolute, isAbsolute, startsWith, startsWith, String.toList_append]
  cases letters : a.toList with
  | nil => exact absurd (String.toList_eq_nil_iff.mp letters) filled
  | cons c rest => simp [List.isPrefixOf]

theorem Tidy.relative {l names : List String} {up : Nat} (tidy : Tidy l up names) :
    isAbsolute (spell l) = false := by
  cases l with
  | nil => decide
  | cons s rest =>
    have filled := tidy.filled s List.mem_cons_self
    have own : isAbsolute s = false := by
      have free := tidy.free s List.mem_cons_self
      rw [isAbsolute, startsWith]
      cases letters : s.toList with
      | nil => rfl
      | cons c cs =>
        rw [letters] at free
        have other : '/' ≠ c := fun same => free (same ▸ List.mem_cons_self)
        simp [List.isPrefixOf, other]
    cases rest with
    | nil => exact own
    | cons t others =>
      have text : spell (s :: t :: others) = s ++ ("/" ++ join "/" (t :: others)) := by
        simp [spell, join, String.append_assoc]
      rw [text, isAbsolute_append filled, own]

theorem isAbsolute_clean (p : String) : isAbsolute (clean p) = isAbsolute p := by
  cases rooted : isAbsolute p with
  | false =>
    obtain ⟨up, names, tidy⟩ := tidy_steps p
    rw [clean_relative rooted, tidy.relative]
  | true =>
    rw [clean]
    simp only [rooted, if_true]
    exact isAbsolute_append (by decide) _

theorem clean_ne_empty (p : String) : clean p ≠ "" := by
  intro empty
  have rooted := isAbsolute_clean p
  rw [empty] at rooted
  obtain ⟨up, names, tidy⟩ := tidy_steps p
  rw [clean_relative rooted.symm] at empty
  have none := tidy.steps_spell
  rw [empty] at none
  rw [← none] at empty
  exact absurd empty (by decide)

theorem clean_clean_relative {p : String} (relative : isAbsolute p = false) :
    clean (clean p) = clean p := by
  obtain ⟨up, names, tidy⟩ := tidy_steps p
  rw [clean_relative relative, clean_relative tidy.relative, tidy.steps_spell]

theorem joinAll_pair {d l : String} (first : d ≠ "") (second : l ≠ "") :
    joinAll [d, l] = clean (d ++ "/" ++ l) := by
  simp [joinAll, first, second, join]

theorem foldl_step_spell {l names : List String} {up : Nat} (tidy : Tidy l up names)
    (walked : List String) :
    (split '/' (spell l)).foldl (step false) walked = l.foldl (step false) walked := by
  by_cases empty : l = []
  · subst empty
    have alone : split '/' (spell []) = ["."] := by decide
    rw [alone]
    rfl
  · rw [spell, if_neg (by simpa using empty), split_join empty tidy.free]

/-- Where a cleaned path leads from a directory. -/
theorem steps_below {d names m others : List String} {up k : Nat} (tidy : Tidy d up names)
    (second : Tidy m k others) :
    steps (spell d ++ "/" ++ spell m) =
      List.replicate (up + (k - names.length)) ".." ++ (names.take (names.length - k) ++ others) := by
  have base : (split '/' (spell d)).foldl (step false) [] = d.reverse := by
    rw [← List.reverse_eq_iff]
    exact tidy.steps_spell
  rw [steps, split_append toList_slash, List.foldl_append, base, foldl_step_spell second, tidy.foldl_step second]

theorem steps_below_eq_iff {d names m others : List String} {up k : Nat} (tidy : Tidy d up names)
    (second : Tidy m k others) :
    steps (spell d ++ "/" ++ spell m) = m ↔ up = names.length ∧ names.length ≤ k := by
  rw [steps_below tidy second, second.eq, ← List.append_assoc, List.append_cancel_right_eq]
  constructor
  · intro same
    -- a name that is left over would be a step up
    have none : names.take (names.length - k) = [] := by
      refine List.eq_nil_iff_forall_not_mem.mpr fun s inside => ?_
      have isUp : s ∈ List.replicate k ".." := by
        rw [← same]
        exact List.mem_append_right _ inside
      exact (tidy.named s (List.mem_of_mem_take inside)).2.2.1 (List.eq_of_mem_replicate isUp)
    have length := congrArg List.length same
    have dropped := congrArg List.length none
    simp only [List.length_append, List.length_replicate, List.length_take, List.length_nil] at length dropped
    omega
  · rintro ⟨level, within⟩
    have none : names.length - k = 0 := by omega
    have sum : up + (k - names.length) = k := by omega
    rw [none, sum]
    simp

theorem clean_below_eq_iff {d names m others : List String} {up k : Nat} (tidy : Tidy d up names)
    (second : Tidy m k others) :
    clean (spell d ++ "/" ++ spell m) = spell m ↔ up = names.length ∧ names.length ≤ k := by
  have filled : spell d ≠ "" := by
    rw [← tidy.steps_spell, ← clean_relative tidy.relative]
    exact clean_ne_empty _
  have whole : isAbsolute (spell d ++ "/" ++ spell m) = false := by
    rw [String.append_assoc, isAbsolute_append filled, tidy.relative]
  rw [clean_relative whole, ← steps_below_eq_iff tidy second]
  constructor
  · intro same
    obtain ⟨up', names', cleaned⟩ := tidy_steps (spell d ++ "/" ++ spell m)
    rw [← cleaned.steps_spell, same, second.steps_spell]
  · exact congrArg spell

/-- A path leads to itself from a directory that goes up as often as it goes down, as long as the
path starts with as many steps up. -/
theorem joinAll_eq_self_iff (p : String) {l : String} (filled : l ≠ "")
    (relative : isAbsolute l = false) :
    joinAll [dir p, l] = l ↔ clean l = l ∧ isAbsolute (dir p) = false ∧
      ups (dir p) = downs (dir p) ∧ downs (dir p) ≤ ups l := by
  have inside : dir p ≠ "" := clean_ne_empty _
  have whole : isAbsolute (dir p ++ "/" ++ l) = isAbsolute (dir p) := by
    rw [String.append_assoc, isAbsolute_append inside]
  rw [joinAll_pair inside filled]
  cases rooted : isAbsolute (dir p) with
  | true =>
    -- what is found from an absolute directory is absolute
    refine ⟨fun same => ?_, fun ⟨_, impossible, _⟩ => by cases impossible⟩
    have cleaned := isAbsolute_clean (dir p ++ "/" ++ l)
    rw [same, whole, rooted, relative] at cleaned
    cases cleaned
  | false =>
    rw [rooted] at whole
    obtain ⟨up, names, tidy⟩ := tidy_steps (String.ofList (splitLast p).1)
    have source : isAbsolute (String.ofList (splitLast p).1) = false := by
      rw [← isAbsolute_clean]
      exact rooted
    have spelled : dir p = spell (steps (String.ofList (splitLast p).1)) := clean_relative source
    by_cases cleaned : clean l = l
    · obtain ⟨k, others, second⟩ := tidy_steps l
      have text : l = spell (steps l) := by rw [← clean_relative relative, cleaned]
      have core := clean_below_eq_iff tidy second
      have level := second.ups_spell
      rw [← spelled, ← text] at core
      rw [← text] at level
      rw [core, spelled, tidy.ups_spell, tidy.downs_spell, level]
      simp [cleaned]
    · refine ⟨fun same => absurd ?_ cleaned, fun ⟨same, _⟩ => absurd same cleaned⟩
      rw [← same]
      exact clean_clean_relative whole

end Path

end Typesmith
