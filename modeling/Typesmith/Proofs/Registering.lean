import Typesmith.Proofs.Fields
import Typesmith.Proofs.Names

namespace Typesmith.Registry

inductive Call where
  | claim (owner base : String)
  | reserve (base : String)

def Call.owner : Call → String
  | claim owner _ => owner
  | reserve _ => ""

def Call.base : Call → String
  | claim _ base => base
  | reserve base => base

def answer (r : Registry) : Call → String × Registry
  | .claim owner base => r.claim owner base
  | .reserve base => r.reserve base

def answers (r : Registry) : List Call → List String × Registry
  | [] => ([], r)
  | call :: rest =>
    let (names, last) := (r.answer call).2.answers rest
    ((r.answer call).1 :: names, last)

/-- Counting up from `n`, the first number whose name is free is `m`. -/
inductive Counts (r : Registry) (base : String) : Nat → Nat → Prop
  | free {n : Nat} (free : numbered base n ∉ r.issued.map (·.1)) : Counts r base n n
  | taken {n m : Nat} (taken : numbered base n ∈ r.issued.map (·.1)) (onward : Counts r base (n + 1) m) :
      Counts r base n m

def lastTried (r : Registry) (base : String) : Nat :=
  (r.counters.lookup base).getD 0

/-- How a request is answered: with the name that the owner has, or with a new one, which is the base
or, when that is taken, the base with the next free number. -/
inductive Answers (r : Registry) (call : Call) : Prop
  | held (held : r.lookup? call.owner = some (r.answer call).1) (same : (r.answer call).2 = r)
  | own (fresh : r.lookup? call.owner = none) (free : call.base ∉ r.issued.map (·.1))
      (name : (r.answer call).1 = call.base)
  | numbered (n : Nat) (fresh : r.lookup? call.owner = none) (taken : call.base ∈ r.issued.map (·.1))
      (positive : 1 ≤ n) (counts : Counts r call.base (r.lastTried call.base + 1) n)
      (free : Registry.numbered call.base n ∉ r.issued.map (·.1))
      (name : (r.answer call).1 = Registry.numbered call.base n)

/-- What every request keeps: no name was given out twice, and no owner got two of them. -/
structure Sound (r : Registry) : Prop where
  distinct : r.Distinct
  single : ∀ first second owner, owner ≠ "" → (first, owner) ∈ r.issued → (second, owner) ∈ r.issued →
    first = second

theorem sound_empty : Sound {} := by
  constructor
  · exact List.nodup_nil
  · intro first second owner _ member
    cases member

section

variable {r : Registry} {call : Call}

theorem answer_eq (r : Registry) (call : Call) : r.answer call = r.claim call.owner call.base := by
  cases call <;> rfl

theorem counts_freeNumber {base : String} {n tries : Nat}
    (free : r.isTaken (numbered base (r.freeNumber base n tries)) = false) :
    Counts r base n (r.freeNumber base n tries) := by
  have absent : ∀ n, r.isTaken (numbered base n) = false → numbered base n ∉ r.issued.map (·.1) := by
    intro n free taken
    rw [isTaken_iff.mpr taken] at free
    cases free
  induction tries generalizing n with
  | zero => exact .free (absent n free)
  | succ tries ih =>
    unfold freeNumber at free ⊢
    split
    · rename_i taken
      rw [if_pos taken] at free
      exact .taken (isTaken_iff.mp taken) (ih free)
    · rename_i first
      exact .free (absent n (by simpa using first))

theorem Counts.le {base : String} {n m : Nat} (counts : Counts r base n m) : n ≤ m := by
  induction counts with
  | free => exact Nat.le_refl _
  | taken _ _ ih => exact Nat.le_of_succ_le ih

theorem Counts.end_free {base : String} {n m : Nat} (counts : Counts r base n m) :
    numbered base m ∉ r.issued.map (·.1) := by
  induction counts with
  | free free => exact free
  | taken _ _ ih => exact ih

theorem answered (r : Registry) (call : Call) : Answers r call := by
  cases held : r.lookup? call.owner with
  | some name =>
    have same := claim_held call.base held
    rw [← answer_eq] at same
    exact .held (by rw [held, same]) (by rw [same])
  | none =>
    have name : (r.answer call).1 = (r.next call.base).1 := by
      rw [answer_eq]
      exact (claim_new call.base held).2
    unfold next at name
    split at name
    · rename_i taken
      have counts : Counts r call.base (r.lastTried call.base + 1) _ :=
        counts_freeNumber (freeNumber_free r call.base _)
      exact .numbered _ held (isTaken_iff.mp taken) (Nat.le_trans (Nat.le_add_left 1 _) counts.le) counts
        counts.end_free name
    · rename_i free
      exact .own held (fun taken => free (isTaken_iff.mpr taken)) name

theorem answer_new (fresh : r.lookup? call.owner = none) :
    (r.answer call).1 ∉ r.issued.map (·.1) ∧
      (r.answer call).2.issued = ((r.answer call).1, call.owner) :: r.issued := by
  obtain ⟨issued, name⟩ := claim_new call.base fresh
  rw [answer_eq]
  refine ⟨?_, issued⟩
  rw [name]
  exact next_free r call.base

theorem answer_issued (r : Registry) (call : Call) :
    ((r.answer call).1, call.owner) ∈ (r.answer call).2.issued ∧
      r.issued <:+ (r.answer call).2.issued := by
  cases held : r.lookup? call.owner with
  | some name =>
    rw [answer_eq, claim_held call.base held]
    exact ⟨mem_issued_of_lookup? held, List.suffix_rfl⟩
  | none =>
    rw [(answer_new held).2]
    exact ⟨List.mem_cons_self, List.suffix_cons _ _⟩

theorem Sound.answer (sound : r.Sound) (call : Call) : (r.answer call).2.Sound := by
  cases held : r.lookup? call.owner with
  | some name =>
    rw [answer_eq, claim_held call.base held]
    exact sound
  | none =>
    obtain ⟨free, issued⟩ := answer_new held
    constructor
    · rw [Distinct, issued, List.map_cons, List.nodup_cons]
      exact ⟨free, sound.distinct⟩
    · intro first second owner owned one other
      rw [issued] at one other
      have older : ∀ name, (name, owner) ∈ r.issued → owner ≠ call.owner := by
        rintro name member rfl
        exact not_mem_issued_of_lookup? held owned name member
      rcases List.mem_cons.mp one with same | one
      · cases same
        rcases List.mem_cons.mp other with same | other
        · cases same
          rfl
        · exact absurd rfl (older _ other)
      · rcases List.mem_cons.mp other with same | other
        · cases same
          exact absurd rfl (older _ one)
        · exact sound.single first second owner owned one other

theorem Sound.answers (sound : r.Sound) (calls : List Call) : (r.answers calls).2.Sound := by
  induction calls generalizing r with
  | nil => exact sound
  | cons call rest ih => exact ih (sound.answer call)

theorem answers_suffix (r : Registry) (calls : List Call) : r.issued <:+ (r.answers calls).2.issued := by
  induction calls generalizing r with
  | nil => exact List.suffix_rfl
  | cons call rest ih => exact (answer_issued r call).2.trans (ih _)

theorem length_answers (r : Registry) (calls : List Call) : (r.answers calls).1.length = calls.length := by
  induction calls generalizing r with
  | nil => rfl
  | cons call rest ih => exact congrArg (· + 1) (ih _)

theorem answers_issued {calls : List Call} {i : Nat} {name : String} (asked : calls[i]? = some call)
    (given : (r.answers calls).1[i]? = some name) : (name, call.owner) ∈ (r.answers calls).2.issued := by
  induction calls generalizing r i with
  | nil => cases asked
  | cons first rest ih =>
    cases i with
    | zero =>
      cases asked
      cases given
      exact (answers_suffix _ rest).subset (answer_issued r call).1
    | succ i => exact ih asked given

theorem answers_nobody {calls : List Call} {i : Nat} {name : String} (asked : calls[i]? = some call)
    (nobody : call.owner = "") (given : (r.answers calls).1[i]? = some name) :
    name ∉ r.issued.map (·.1) := by
  induction calls generalizing r i with
  | nil => cases asked
  | cons first rest ih =>
    cases i with
    | zero =>
      cases asked
      cases given
      have fresh : r.lookup? call.owner = none := by simp [lookup?, nobody]
      exact (answer_new fresh).1
    | succ i =>
      intro taken
      have older := (answer_issued r first).2.subset
      exact ih asked given (List.map_subset _ older taken)

theorem answers_apart {calls : List Call} {i j : Nat} {other : Call} {name : String} (before : i < j)
    (first : calls[i]? = some other) (second : calls[j]? = some call) (nobody : call.owner = "")
    (one : (r.answers calls).1[i]? = some name) : (r.answers calls).1[j]? ≠ some name := by
  induction calls generalizing r i j with
  | nil => cases first
  | cons head rest ih =>
    cases j with
    | zero => exact absurd before (Nat.not_lt_zero i)
    | succ j =>
      cases i with
      | zero =>
        cases first
        cases one
        intro two
        have known := (answer_issued r other).1
        have later : ((r.answer other).2.answers rest).1[j]? = some (r.answer other).1 := two
        have asked : rest[j]? = some call := second
        exact answers_nobody asked nobody later (List.mem_map_of_mem known)
      | succ i => exact ih (Nat.lt_of_succ_lt_succ before) first second one

theorem Sound.lookup?_iff (sound : r.Sound) {owner name : String} (owned : owner ≠ "") :
    r.lookup? owner = some name ↔ r.owner? name = some owner := by
  have listed : r.owner? name = some owner ↔ (name, owner) ∈ r.issued :=
    (Json.mem_iff_lookup sound.distinct).symm
  rw [listed]
  constructor
  · exact mem_issued_of_lookup?
  · intro member
    cases held : r.lookup? owner with
    | none => exact absurd member (not_mem_issued_of_lookup? held owned name)
    | some other => rw [sound.single other name owner owned (mem_issued_of_lookup? held) member]

end

/-- Requests made to an empty registry are all answered, each with the name of its owner or a new one.
Two of them get the same name exactly if one owner made both, and afterwards names and owners lead to
each other. -/
theorem requests_answered (calls : List Call) :
    (answers {} calls).1.length = calls.length ∧
    (∀ call : Call, Answers (answers {} calls).2 call) ∧
    (∀ (i j : Nat) (first second : Call), calls[i]? = some first → calls[j]? = some second →
      ((answers {} calls).1[i]? = (answers {} calls).1[j]? ↔
        i = j ∨ (first.owner = second.owner ∧ first.owner ≠ ""))) ∧
    ∀ owner name : String, owner ≠ "" →
      ((answers {} calls).2.lookup? owner = some name ↔ (answers {} calls).2.owner? name = some owner) := by
  have sound : (answers {} calls).2.Sound := sound_empty.answers calls
  have length := length_answers {} calls
  refine ⟨length, answered _, ?_, fun owner name => sound.lookup?_iff⟩
  intro i j first second one two
  have small : ∀ (k : Nat) (call : Call), calls[k]? = some call →
      ∃ name, (answers {} calls).1[k]? = some name := by
    intro k call asked
    have inside : k < calls.length := (List.getElem?_eq_some_iff.mp asked).1
    exact ⟨_, List.getElem?_eq_getElem (length ▸ inside)⟩
  obtain ⟨name, named⟩ := small i first one
  obtain ⟨other, named'⟩ := small j second two
  have issued := answers_issued one named
  have issued' := answers_issued two named'
  rw [named, named', Option.some.injEq]
  constructor
  · rintro rfl
    have owner := sound.distinct.owner_unique issued issued'
    -- a name given to nobody is never given again, so the two are one request
    by_cases nobody : first.owner = ""
    · rcases Nat.lt_trichotomy i j with before | same | after
      · exact absurd named' (answers_apart before one two (owner ▸ nobody) named)
      · exact .inl same
      · exact absurd named (answers_apart after two one nobody named')
    · exact .inr ⟨owner, nobody⟩
  · rintro (rfl | ⟨owner, owned⟩)
    · rw [named, Option.some.injEq] at named'
      exact named'
    · exact sound.single name other first.owner owned issued (owner ▸ issued')

example :
    (answers {} [.claim "#/a" "Hero_1", .reserve "Hero", .reserve "Hero", .claim "#/a" "Hero"]).1 =
      ["Hero_1", "Hero", "Hero_2", "Hero_1"] := by
  decide +kernel

end Typesmith.Registry
