import Typesmith.Proofs.Casing
import Typesmith.Proofs.Fields
import Typesmith.Proofs.Growth

namespace Typesmith.Naming

open Text Registry

theorem mem_titleWord {word : List Char} {c : Char} (inside : c ∈ titleWord word) (mark : IsMark c) :
    c ∈ word := by
  unfold titleWord at inside
  split at inside
  · exact inside
  · split at inside
    · exact mem_capitalize inside mark
    · exact inside

theorem underscore_not_mem_camelCase (s : String) : '_' ∉ (camelCase s).toList := by
  intro inside
  have mark : IsMark '_' := by decide
  have free : ∀ word ∈ wordsFrom [] s.toList, '_' ∉ lowercase word := by
    intro word listed lowered
    have letter := (mem_of_mem_words listed (mem_lowercase lowered mark)).2
    exact absurd letter (by decide)
  unfold camelCase at inside
  split at inside
  · simp at inside
  · rename_i first rest split
    rw [String.toList_ofList] at inside
    rw [split] at free
    rcases List.mem_append.mp inside with front | later
    · exact free first List.mem_cons_self front
    · obtain ⟨word, listed, titled⟩ := List.mem_flatMap.mp later
      exact free word (List.mem_cons_of_mem _ listed) (mem_titleWord titled mark)

/-- There is no underscore in a name but in front. Any other one comes from a number, so no value has
a numbered name of its own. -/
structure Compact (name : String) : Prop where
  named : name ≠ ""
  tail : '_' ∉ name.toList.tail

theorem memberName_compact (value : String) : Compact (memberName value) := by
  have free := underscore_not_mem_camelCase (spellSign value)
  unfold memberName
  dsimp only
  split
  · exact ⟨by decide, by decide⟩
  · rename_i c rest letters
    rw [letters] at free
    split
    · refine ⟨?_, ?_⟩
      · intro empty
        simpa using congrArg String.toList empty
      · rw [String.toList_append, letters]
        exact free
    · refine ⟨?_, ?_⟩
      · intro empty
        rw [empty] at letters
        cases letters
      · rw [letters]
        exact fun inside => free (List.mem_cons_of_mem _ inside)

theorem not_compact_numbered {base : String} (named : base ≠ "") (n : Nat) :
    ¬ Compact (numbered base n) := by
  intro compact
  have tail := compact.tail
  rw [toList_numbered] at tail
  cases letters : base.toList with
  | nil => exact named (String.toList_eq_nil_iff.mp letters)
  | cons c rest =>
    rw [letters] at tail
    exact tail (by simp)

end Typesmith.Naming

namespace Typesmith.Model

open Naming Registry

/-- A name that can still be given out when the names so far are recorded: one that no value had, or
one that a value had, with a number that is not reached yet. -/
def Available (used : List (String × Nat)) (name : String) : Prop :=
  (Compact name ∧ used.lookup name = none) ∨
    ∃ base n, Compact base ∧ name = numbered base n ∧ ∀ last, used.lookup base = some last → last < n

theorem Available.ne_empty {used : List (String × Nat)} {name : String} (available : Available used name) :
    name ≠ "" := by
  rcases available with ⟨compact, _⟩ | ⟨base, n, _, rfl, _⟩
  · exact compact.named
  · exact numbered_ne_empty base n

theorem Available.of_cons {used : List (String × Nat)} {base name : String} {count : Nat}
    (available : Available ((base, count) :: used) name)
    (above : ∀ last, used.lookup base = some last → last ≤ count) : Available used name := by
  rcases available with ⟨compact, fresh⟩ | ⟨other, n, compact, rfl, beyond⟩
  · refine .inl ⟨compact, ?_⟩
    rw [List.lookup_cons] at fresh
    split at fresh
    · cases fresh
    · exact fresh
  · refine .inr ⟨other, n, compact, rfl, fun last found => ?_⟩
    by_cases same : other = base
    · subst same
      have reached := beyond count List.lookup_cons_self
      have lower := above last found
      omega
    · exact beyond last (by rwa [Json.lookup_cons_ne same])

theorem not_available_base {used : List (String × Nat)} {base : String} {count : Nat} (compact : Compact base) :
    ¬ Available ((base, count) :: used) base := by
  rintro (⟨_, fresh⟩ | ⟨other, n, named, same, _⟩)
  · rw [List.lookup_cons_self] at fresh
    cases fresh
  · rw [same] at compact
    exact not_compact_numbered named.named n compact

theorem not_available_numbered {used : List (String × Nat)} {base : String} {count : Nat}
    (compact : Compact base) : ¬ Available ((base, count) :: used) (numbered base count) := by
  rintro (⟨plain, _⟩ | ⟨other, n, _, same, beyond⟩)
  · exact not_compact_numbered compact.named count plain
  · obtain ⟨rfl, rfl⟩ := numbered_injective same
    exact Nat.lt_irrefl _ (beyond _ List.lookup_cons_self)

/-- One round: the name given out was available, and is not afterwards. -/
theorem nameMembers_cons (used : List (String × Nat)) (value : Json) (rest : List Json) :
    ∃ name later, nameMembers used (value :: rest) = ⟨name, value⟩ :: nameMembers later rest ∧
      Available used name ∧ ¬ Available later name ∧ ∀ other, Available later other → Available used other := by
  have compact := memberName_compact (literalKey value)
  rw [nameMembers]
  split
  · rename_i last found
    refine ⟨_, _, rfl, .inr ⟨_, _, compact, rfl, ?_⟩, not_available_numbered compact, ?_⟩
    · intro count known
      rw [found] at known
      cases known
      exact Nat.lt_succ_self _
    · refine fun other available => available.of_cons fun count known => ?_
      rw [found] at known
      cases known
      exact Nat.le_succ _
  · rename_i fresh
    refine ⟨_, _, rfl, .inl ⟨compact, fresh⟩, not_available_base compact, ?_⟩
    refine fun other available => available.of_cons fun count known => ?_
    rw [fresh] at known
    cases known

theorem nameMembers_available (used : List (String × Nat)) (values : List Json) :
    ∀ m ∈ nameMembers used values, Available used m.name := by
  induction values generalizing used with
  | nil => intro m inside; cases inside
  | cons value rest ih =>
    obtain ⟨name, later, spelled, given, _, before⟩ := nameMembers_cons used value rest
    rw [spelled]
    intro m inside
    rcases List.mem_cons.mp inside with rfl | inside
    · exact given
    · exact before _ (ih later m inside)

theorem nameMembers_nodup (used : List (String × Nat)) (values : List Json) :
    ((nameMembers used values).map (·.name)).Nodup := by
  induction values generalizing used with
  | nil => exact List.nodup_nil
  | cons value rest ih =>
    obtain ⟨name, later, spelled, _, beyond, _⟩ := nameMembers_cons used value rest
    rw [spelled, List.map_cons, List.nodup_cons]
    refine ⟨fun again => ?_, ih later⟩
    obtain ⟨m, inside, same⟩ := List.mem_map.mp again
    dsimp only at same
    exact beyond (same ▸ nameMembers_available later rest m inside)

theorem nameMembers_values (used : List (String × Nat)) (values : List Json) :
    (nameMembers used values).map (·.value) = values := by
  induction values generalizing used with
  | nil => rfl
  | cons value rest ih =>
    obtain ⟨name, later, spelled, _⟩ := nameMembers_cons used value rest
    rw [spelled, List.map_cons, ih]

theorem returns_convertEnum (cfg : Setting) (f : Fragment) (o : Options) (nullable : Bool) (s : Store) :
    ∃ t name, Returns (convertEnum cfg f o nullable) s (claimedContainer nullable s) t ∧
      t.get? s.descriptors.size =
        some { blank .enum f { o with name } (.enum (enumMembers f)) with nullable } := by
  have ending (name : String) (m : Store) (same : m.descriptors = s.descriptors) :
      ∃ t, Returns (do
          let made ← claim (blank .enum f { o with name } (.enum (enumMembers f))) nullable
          return made.2) m (claimedContainer nullable s) t ∧
        t.get? s.descriptors.size =
          some { blank .enum f { o with name } (.enum (enumMembers f)) with nullable } := by
    have place : claimedContainer nullable s = claimedContainer nullable m := by
      rw [claimedContainer, claimedContainer, same]
    refine ⟨_, returns_bind.mpr ⟨_, _, returns_claim.mpr ⟨rfl, rfl⟩, returns_pure.mpr ⟨place.symm, rfl⟩⟩, ?_⟩
    rw [← same]
    exact get?_claimed _ nullable m
  unfold convertEnum
  dsimp only
  split
  · obtain ⟨t, done, shaped⟩ := ending _ { s with names := (s.names.reserve _).2 } rfl
    exact ⟨t, _, returns_bind.mpr ⟨_, _, rfl, done⟩, shaped⟩
  · obtain ⟨t, done, shaped⟩ := ending o.name s rfl
    exact ⟨t, _, returns_bind.mpr ⟨_, _, rfl, done⟩, shaped⟩

/-- The members of an enum have the values of the fragment but `null`, in order, and their names are
distinct and not empty. Converting the fragment as an enum always succeeds, with just these members. -/
theorem enumMembers_distinct (f : Fragment) :
    (enumMembers f).map (·.value) = (f.keywords.enum.filter fun v => !v.isNull) ∧
    ((enumMembers f).map (·.name)).Nodup ∧ (∀ m ∈ enumMembers f, m.name ≠ "") ∧
    ∀ cfg o nullable s, ∃ t name,
      Returns (convertEnum cfg f o nullable) s (claimedContainer nullable s) t ∧
      t.get? s.descriptors.size =
        some { blank .enum f { o with name } (.enum (enumMembers f)) with nullable } :=
  ⟨nameMembers_values _ _, nameMembers_nodup _ _, fun m inside => (nameMembers_available _ _ m inside).ne_empty,
    fun cfg o nullable s => returns_convertEnum cfg f o nullable s⟩

end Typesmith.Model
