import Mathlib.Data.List.Nodup
import Mathlib.Data.List.Perm.Subperm
import Typesmith.Proofs.Spelling
import Typesmith.Reference
import Typesmith.Registry

namespace Typesmith

namespace Text

theorem cons_last_eq {p : Char → Bool} {u v z : List Char} {c d : Char} (same : c :: u = z ++ d :: v)
    (marked : p d = true) (none : ∀ a ∈ u, p a = false) : z = [] ∧ c = d ∧ u = v := by
  cases z with
  | nil => simpa using same
  | cons a z =>
    obtain ⟨_, inside⟩ := List.cons.inj same
    have absent := none d (by simp [inside])
    rw [marked] at absent
    cases absent

theorem append_last_unique (p : Char → Bool) {x y u v : List Char} {c d : Char}
    (same : x ++ c :: u = y ++ d :: v) (first : p c = true) (second : p d = true)
    (none : ∀ a ∈ u, p a = false) (none' : ∀ a ∈ v, p a = false) : x = y ∧ c = d ∧ u = v := by
  rcases List.append_eq_append_iff.mp same with ⟨z, rfl, rest⟩ | ⟨z, rfl, rest⟩
  · obtain ⟨rfl, letter, behind⟩ := cons_last_eq rest second none
    exact ⟨(List.append_nil x).symm, letter, behind⟩
  · obtain ⟨rfl, letter, behind⟩ := cons_last_eq rest first none'
    exact ⟨List.append_nil y, letter.symm, behind.symm⟩

end Text

namespace Naming

open Text

theorem sanitize_ne_empty (name : String) : sanitize name ≠ "" := by
  intro empty
  have letters := congrArg String.toList empty
  unfold sanitize at letters
  split at letters
  · simp at letters
  · dsimp only at letters
    split at letters <;> simp at letters

theorem modelName_ne_empty (s : String) : modelName s ≠ "" :=
  sanitize_ne_empty _

structure Legal (name : String) : Prop where
  identifier : isIdentifier name = true
  unreserved : isReserved name = false

theorem Legal.ne_empty {name : String} (legal : Legal name) : name ≠ "" := by
  rintro rfl
  exact absurd legal.identifier (by decide)

theorem isIdentPart_of_isIdentifier {name : String} (identifier : isIdentifier name = true) {c : Char}
    (inside : c ∈ name.toList) : isIdentPart c = true := by
  unfold isIdentifier at identifier
  split at identifier
  · cases identifier
  · rename_i first rest letters
    rw [letters] at inside
    simp only [Bool.and_eq_true, List.all_eq_true] at identifier
    rcases List.mem_cons.mp inside with rfl | later
    · simp [Naming.isIdentPart, identifier.1]
    · exact identifier.2 c later

theorem Legal.isIdentPart {name : String} (legal : Legal name) {c : Char} (inside : c ∈ name.toList) :
    isIdentPart c = true :=
  isIdentPart_of_isIdentifier legal.identifier inside

theorem isReserved_of_underscore {name : String} (inside : '_' ∈ name.toList) :
    isReserved name = false := by
  have free : ∀ word ∈ reservedWords, '_' ∉ word.toList := by decide
  rw [isReserved, List.contains_eq_mem, decide_eq_false_iff_not]
  exact fun reserved => free name reserved inside

theorem sanitize_legal (name : String) : Legal (sanitize name) := by
  have parts : (name.toList.filter Naming.isIdentPart).all Naming.isIdentPart = true := by simp
  unfold sanitize
  split
  · exact ⟨by decide, by decide⟩
  · rename_i c rest kept
    rw [kept, List.all_cons, Bool.and_eq_true] at parts
    dsimp only
    split
    · have letters : ("_" ++ String.ofList (c :: rest)).toList = '_' :: c :: rest := by simp
      constructor
      · rw [isIdentifier, letters]
        simp only [List.all_cons, parts.1, parts.2, Bool.and_true]
        decide
      · apply isReserved_of_underscore
        rw [letters]
        exact List.mem_cons_self
    · rename_i plain
      simp only [Bool.or_eq_true, not_or, Bool.not_eq_true] at plain
      have start : isIdentStart c = true := by simpa [Naming.isIdentPart, plain.1] using parts.1
      refine ⟨?_, plain.2⟩
      rw [isIdentifier, String.toList_ofList]
      simp only [start, parts.2, Bool.and_true]

theorem modelName_legal (s : String) : Legal (modelName s) :=
  sanitize_legal _

end Naming

namespace Registry

def Named (r : Registry) : Prop :=
  ∀ entry ∈ r.issued, entry.1 ≠ ""

def Distinct (r : Registry) : Prop :=
  (r.issued.map (·.1)).Nodup

def Legal (r : Registry) : Prop :=
  ∀ entry ∈ r.issued, Naming.Legal entry.1

def baseName (owner : String) : String :=
  Naming.modelName (Reference.parse owner).lastSegment

/-- A reference has the name it asks for, or that name with a number because another one has it. -/
def Earned (r : Registry) : Prop :=
  ∀ name owner, (name, owner) ∈ r.issued → owner ≠ "" → name = baseName owner ∨
    ∃ n other, name = numbered (baseName owner) n ∧ other ≠ owner ∧ (baseName owner, other) ∈ r.issued

/-- Every owner of the first registry has the same name in the second, which may have more. -/
structure Extends (r t : Registry) : Prop where
  kept : ∀ owner name, r.lookup? owner = some name → t.lookup? owner = some name
  named : r.Named → t.Named
  issued : r.issued <:+ t.issued
  distinct : r.Distinct → t.Distinct
  earned : r.Earned → t.Earned
  legal : r.Legal → t.Legal

theorem Extends.refl (r : Registry) : r.Extends r :=
  ⟨fun _ _ held => held, fun named => named, List.suffix_rfl, fun distinct => distinct,
    fun earned => earned, fun legal => legal⟩

theorem Extends.trans {r t u : Registry} (first : r.Extends t) (second : t.Extends u) :
    r.Extends u :=
  ⟨fun owner name held => second.kept owner name (first.kept owner name held),
    fun named => second.named (first.named named), first.issued.trans second.issued,
    fun distinct => second.distinct (first.distinct distinct),
    fun earned => second.earned (first.earned earned),
    fun legal => second.legal (first.legal legal)⟩

theorem toList_numbered (base : String) (n : Nat) :
    (numbered base n).toList = base.toList ++ '_' :: Text.decimal n := by
  simp [numbered]

theorem numbered_ne_empty (base : String) (n : Nat) : numbered base n ≠ "" := by
  intro empty
  have letters := congrArg String.toList empty
  simp [numbered] at letters

theorem numbered_legal {base : String} (legal : Naming.Legal base) (n : Nat) :
    Naming.Legal (numbered base n) := by
  have digits : ∀ c ∈ Text.decimal n, Naming.isIdentPart c = true := fun c inside =>
    (Text.plainChar (Text.isPlain_of_isDigit
      (Nat.isDigit_of_mem_toDigits (by decide) (by decide) inside))).identifier
  have letters := toList_numbered base n
  constructor
  · have identifier := legal.identifier
    rw [Naming.isIdentifier] at identifier ⊢
    rw [letters]
    cases front : base.toList with
    | nil => simp [front] at identifier
    | cons c rest =>
      rw [front, Bool.and_eq_true] at identifier
      simp only [List.cons_append, List.all_append, List.all_cons, identifier, Bool.true_and,
        Bool.and_eq_true, List.all_eq_true]
      exact ⟨by decide, digits⟩
  · apply Naming.isReserved_of_underscore
    rw [letters]
    simp

theorem underscore_not_mem_decimal (n : Nat) : '_' ∉ Text.decimal n := by
  intro inside
  have digit := Nat.isDigit_of_mem_toDigits (by decide) (by decide) inside
  exact absurd digit (by decide)

theorem numbered_injective {base other : String} {i j : Nat} (same : numbered base i = numbered other j) :
    base = other ∧ i = j := by
  have letters := congrArg String.toList same
  rw [toList_numbered, toList_numbered] at letters
  have free : ∀ n, ∀ c ∈ Text.decimal n, (c == '_') = false := by
    intro n c inside
    rw [beq_eq_false_iff_ne]
    rintro rfl
    exact underscore_not_mem_decimal n inside
  obtain ⟨front, -, back⟩ := Text.append_last_unique (· == '_') letters rfl rfl (free i) (free j)
  have digits := congrArg (fun ds => Nat.ofDigitChars 10 ds 0) back
  exact ⟨String.toList_injective front, by simpa [Text.decimal] using digits⟩

theorem isTaken_iff {r : Registry} {name : String} :
    r.isTaken name = true ↔ name ∈ r.issued.map (·.1) := by
  simp [isTaken]

theorem taken_of_freeNumber {r : Registry} {base : String} {n tries : Nat}
    (taken : r.isTaken (numbered base (r.freeNumber base n tries)) = true) {i : Nat} (near : i ≤ tries) :
    r.isTaken (numbered base (n + i)) = true := by
  induction tries generalizing n i with
  | zero =>
    obtain rfl : i = 0 := by omega
    exact taken
  | succ tries ih =>
    unfold freeNumber at taken
    split at taken
    · cases i with
      | zero => assumption
      | succ i =>
        have next := ih taken (i := i) (by omega)
        rwa [Nat.add_assoc, Nat.add_comm 1 i] at next
    · contradiction

/-- More numbers are tried than there are names, so one of them is free. -/
theorem freeNumber_free (r : Registry) (base : String) (n : Nat) :
    r.isTaken (numbered base (r.freeNumber base n r.issued.length)) = false := by
  by_contra taken
  rw [Bool.not_eq_false] at taken
  let tried := (List.range (r.issued.length + 1)).map fun i => numbered base (n + i)
  have distinct : tried.Nodup := by
    refine List.Nodup.map ?_ List.nodup_range
    intro i j same
    have equal := (numbered_injective same).2
    omega
  have inside : tried ⊆ r.issued.map (·.1) := by
    intro name member
    obtain ⟨i, range, rfl⟩ := List.mem_map.mp member
    have near : i ≤ r.issued.length := by
      have := List.mem_range.mp range
      omega
    exact isTaken_iff.mp (taken_of_freeNumber taken near)
  have fewer := (List.subperm_of_subset distinct inside).length_le
  simp only [tried, List.length_map, List.length_range] at fewer
  omega

theorem next_free (r : Registry) (base : String) : (r.next base).1 ∉ r.issued.map (·.1) := by
  rw [← isTaken_iff, Bool.not_eq_true]
  unfold next
  split
  · exact freeNumber_free r base _
  · rename_i free
    simpa using free

theorem next_issued (r : Registry) (base : String) : (r.next base).2.issued = r.issued := by
  unfold next
  split <;> rfl

theorem next_cases (r : Registry) (base : String) :
    (r.next base).1 = base ∨ ∃ n, (r.next base).1 = numbered base n ∧ base ∈ r.issued.map (·.1) := by
  unfold next
  split
  · rename_i taken
    exact .inr ⟨_, rfl, isTaken_iff.mp taken⟩
  · exact .inl rfl

theorem next_ne_empty (r : Registry) {base : String} (named : base ≠ "") :
    (r.next base).1 ≠ "" := by
  unfold next
  split
  · exact numbered_ne_empty _ _
  · exact named

def Derived (base name : String) : Prop :=
  name = base ∨ ∃ n, name = numbered base n

theorem next_derived (r : Registry) (base : String) : Derived base (r.next base).1 :=
  (r.next_cases base).imp_right fun ⟨n, given, _⟩ => ⟨n, given⟩

theorem Derived.legal {base name : String} (derived : Derived base name) (legal : Naming.Legal base) :
    Naming.Legal name := by
  rcases derived with rfl | ⟨n, rfl⟩
  · exact legal
  · exact numbered_legal legal n

theorem next_legal (r : Registry) {base : String} (legal : Naming.Legal base) :
    Naming.Legal (r.next base).1 :=
  (r.next_derived base).legal legal

theorem claim_new {r : Registry} {owner : String} (base : String) (fresh : r.lookup? owner = none) :
    (r.claim owner base).2.issued = ((r.claim owner base).1, owner) :: r.issued ∧
      (r.claim owner base).1 = (r.next base).1 := by
  simp only [claim, fresh, next_issued, and_self]

theorem claim_held {r : Registry} {owner name : String} (base : String)
    (held : r.lookup? owner = some name) : r.claim owner base = (name, r) := by
  simp only [claim, held]

theorem lookup?_of_issued {r t : Registry} {name owner other : String}
    (issued : t.issued = (name, owner) :: r.issued) (different : other ≠ owner) :
    t.lookup? other = r.lookup? other := by
  have unequal : (owner == other) = false := by simpa using different.symm
  simp only [lookup?, issued, List.find?_cons, unequal]

theorem not_mem_issued_of_lookup? {r : Registry} {owner : String} (fresh : r.lookup? owner = none)
    (owned : owner ≠ "") (name : String) : (name, owner) ∉ r.issued := by
  simp only [lookup?, if_neg owned, Option.map_eq_none_iff, List.find?_eq_none] at fresh
  intro member
  exact fresh _ member (beq_self_eq_true owner)

theorem Earned.cons {r t : Registry} (earned : r.Earned) {owner base : String}
    (fresh : r.lookup? owner = none) (asked : owner ≠ "" → base = baseName owner)
    (issued : t.issued = ((r.next base).1, owner) :: r.issued) : t.Earned := by
  intro name other member owned
  rw [issued] at member ⊢
  rcases List.mem_cons.mp member with same | older
  · obtain ⟨rfl, rfl⟩ := Prod.mk.inj same
    have base := asked owned
    rw [base]
    rcases r.next_cases (baseName other) with own | ⟨n, given, taken⟩
    · exact .inl own
    · obtain ⟨⟨name, holder⟩, held, same⟩ := List.mem_map.mp taken
      dsimp only at same
      rw [same] at held
      refine .inr ⟨n, holder, given, ?_, List.mem_cons_of_mem _ held⟩
      rintro rfl
      exact not_mem_issued_of_lookup? fresh owned _ held
  · rcases earned name other older owned with own | ⟨n, holder, given, different, held⟩
    · exact .inl own
    · exact .inr ⟨n, holder, given, different, List.mem_cons_of_mem _ held⟩

theorem claim_extends (r : Registry) {owner base : String} (legal : Naming.Legal base)
    (asked : owner ≠ "" → base = baseName owner) : r.Extends (r.claim owner base).2 := by
  cases held : r.lookup? owner with
  | some name =>
    rw [claim_held base held]
    exact .refl r
  | none =>
    obtain ⟨issued, name⟩ := claim_new base held
    refine ⟨?_, ?_, issued ▸ List.suffix_cons _ _, ?_, ?_, ?_⟩
    · intro other kept found
      have different : other ≠ owner := by
        rintro rfl
        rw [held] at found
        cases found
      rw [lookup?_of_issued issued different]
      exact found
    · intro all entry member
      rw [issued] at member
      rcases List.mem_cons.mp member with rfl | older
      · rw [name]
        exact next_ne_empty r legal.ne_empty
      · exact all entry older
    · intro distinct
      rw [Distinct, issued, List.map_cons, List.nodup_cons, name]
      exact ⟨next_free r base, distinct⟩
    · intro earned
      exact earned.cons held asked (name ▸ issued)
    · intro all entry member
      rw [issued] at member
      rcases List.mem_cons.mp member with rfl | older
      · rw [name]
        exact next_legal r legal
      · exact all entry older

theorem mem_issued_of_lookup? {r : Registry} {owner name : String} (held : r.lookup? owner = some name) :
    (name, owner) ∈ r.issued := by
  unfold lookup? at held
  split at held
  · cases held
  · obtain ⟨entry, found, rfl⟩ := Option.map_eq_some_iff.mp held
    have same := List.find?_some found
    rw [← beq_iff_eq.mp same]
    exact List.mem_of_find?_eq_some found

theorem Distinct.owner_unique {r : Registry} (distinct : r.Distinct) {name first second : String}
    (one : (name, first) ∈ r.issued) (other : (name, second) ∈ r.issued) : first = second := by
  have same := List.inj_on_of_nodup_map distinct one other rfl
  exact congrArg Prod.snd same

theorem lookup?_claim (r : Registry) {owner : String} (base : String) (owned : owner ≠ "") :
    (r.claim owner base).2.lookup? owner = some (r.claim owner base).1 := by
  cases held : r.lookup? owner with
  | some name =>
    rw [claim_held base held]
    exact held
  | none =>
    obtain ⟨issued, _⟩ := claim_new base held
    simp only [lookup?, if_neg owned, issued, List.find?_cons, beq_self_eq_true, Option.map_some]

theorem claim_ne_empty {r : Registry} (all : r.Named) (owner : String) {base : String}
    (named : base ≠ "") : (r.claim owner base).1 ≠ "" := by
  cases held : r.lookup? owner with
  | some name =>
    rw [claim_held base held]
    unfold lookup? at held
    split at held
    · cases held
    · obtain ⟨entry, found, rfl⟩ := Option.map_eq_some_iff.mp held
      exact all entry (List.mem_of_find?_eq_some found)
  | none =>
    rw [(claim_new base held).2]
    exact next_ne_empty r named

end Registry

end Typesmith
