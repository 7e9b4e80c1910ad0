import Typesmith.Fragment.Link
import Typesmith.Proofs.Referring

namespace Typesmith

namespace Text

theorem toBytes_ascii {s : List Char} (ascii : ∀ c ∈ s, c.toNat < 0x80) : toBytes s = s := by
  induction s with
  | nil => rfl
  | cons c rest ih =>
    have first := ascii c List.mem_cons_self
    rw [toBytes, List.flatMap_cons, charBytes, if_pos first]
    exact congrArg (c :: ·) (ih fun d inside => ascii d (List.mem_cons_of_mem _ inside))

theorem ofBytes_ascii {s : List Char} (ascii : ∀ c ∈ s, c.toNat < 0x80) : ofBytes s = s := by
  induction s with
  | nil => rfl
  | cons c rest ih =>
    have first := ascii c List.mem_cons_self
    have alone : sequenceAt c rest = some (0, c) := by simp [sequenceAt, first]
    rw [ofBytes, ofBytesFrom, alone]
    exact congrArg (c :: ·) (ih fun d inside => ascii d (List.mem_cons_of_mem _ inside))

end Text

namespace Link

open Text

def Spells (s : String) (r : Reference) : Prop :=
  ∃ n, normalize? s = some n ∧ Reference.parse (target n) = r

/-- The characters that stand for themselves everywhere, and the slash. -/
def plainLetters : List Char :=
  "ABCDEFGHIJKLMNOPQRSTUVWXYZabcdefghijklmnopqrstuvwxyz0123456789-._~/".toList

def Plain (s : List Char) : Prop :=
  ∀ c ∈ s, c ∈ plainLetters

instance (s : List Char) : Decidable (Plain s) :=
  List.decidableBAll (· ∈ plainLetters) s

theorem plainLetters_all {p : Char → Prop} [DecidablePred p] (all : plainLetters.all (p ·) = true) :
    ∀ c ∈ plainLetters, p c :=
  fun c inside => of_decide_eq_true (List.all_eq_true.mp all c inside)

theorem plainLetters_ascii : ∀ c ∈ plainLetters, c.toNat < 0x80 ∧ 32 ≤ c.toNat ∧ c.toNat ≠ 127 :=
  plainLetters_all (by decide +kernel)

theorem plainLetters_unescaped :
    ∀ c ∈ plainLetters, needsEscape .path c = false ∧ needsEscape .fragment c = false :=
  plainLetters_all (by decide +kernel)

variable {s : List Char}

theorem Plain.not_mem (plain : Plain s) {c : Char} (other : c ∉ plainLetters) : c ∉ s :=
  fun inside => other (plain c inside)

theorem Plain.ascii (plain : Plain s) : ∀ c ∈ s, c.toNat < 0x80 :=
  fun c inside => (plainLetters_ascii c (plain c inside)).1

theorem unescape?_cons {part : Part} (other : part ≠ .host) {c : Char} (plain : c ≠ '%') (rest : List Char) :
    unescape? part (c :: rest) = (unescape? part rest).map (c :: ·) := by
  have notHost : (part == Part.host) = false := by simpa using other
  rw [unescape?.eq_def]
  split
  · rename_i equal
    cases equal
  · rename_i equal
    cases equal
    exact absurd rfl plain
  · rename_i equal
    cases equal
    exact absurd rfl plain
  · rename_i equal
    cases equal
    rw [notHost]
    cases unescape? part rest <;> rfl

theorem unescape?_eq {part : Part} (other : part ≠ .host) (free : '%' ∉ s) : unescape? part s = some s := by
  induction s with
  | nil => rfl
  | cons c rest ih =>
    have first : c ≠ '%' := fun same => free (same ▸ List.mem_cons_self)
    rw [unescape?_cons other first, ih fun inside => free (List.mem_cons_of_mem _ inside)]
    rfl

theorem escape_eq {part : Part} (unescaped : ∀ c ∈ s, needsEscape part c = false) : escape part s = s := by
  induction s with
  | nil => rfl
  | cons c rest ih =>
    have first := unescaped c List.mem_cons_self
    rw [escape, List.flatMap_cons, first]
    exact congrArg (c :: ·) (ih fun d inside => unescaped d (List.mem_cons_of_mem _ inside))

theorem cutScheme?_eq (free : ':' ∉ s) : cutScheme? s = some ([], s) := by
  have absent : ∀ p : Char → Bool, ∀ rest, s.dropWhile p ≠ ':' :: rest := by
    intro p rest same
    have inside : ':' ∈ s.dropWhile p := by rw [same]; exact List.mem_cons_self
    exact free ((List.dropWhile_sublist p).subset inside)
  unfold cutScheme?
  dsimp only
  split
  · rename_i equal
    exact absurd equal (absent _ _)
  · rfl
  · rename_i equal
    exact absurd equal (absent _ _)
  · rfl

theorem length_collapseSlashes_le (s : List Char) : (collapseSlashes s).length ≤ s.length := by
  fun_induction collapseSlashes s with
  | case1 rest ih => exact Nat.le_trans ih (by simp)
  | case2 c rest _ ih => simpa using ih
  | case3 => exact Nat.le_refl _

theorem readBody?_plain (plain : Plain s) (single : collapseSlashes s = s) :
    readBody? s = some { path := s, pathText := s } := by
  have printable : (s.any fun c => c.toNat < 32 || c.toNat == 127) = false := by
    rw [List.any_eq_false]
    intro c inside
    obtain ⟨_, low, delete⟩ := plainLetters_ascii c (plain c inside)
    simp only [Bool.or_eq_true, decide_eq_true_eq, beq_iff_eq, not_or]
    omega
  have noStar : s ≠ ['*'] := by
    rintro rfl
    exact absurd (plain '*' List.mem_cons_self) (by decide)
  have noColon : ':' ∉ s := plain.not_mem (by decide)
  have noQuery : cutQuery s = (s, none) := by
    rw [cutQuery, cut_eq_none (plain.not_mem (by decide))]
  have unescaped : unescape? .path s = some s := unescape?_eq (by decide) (plain.not_mem (by decide))
  unfold readBody?
  rw [printable, cutScheme?_eq noColon]
  simp only [Bool.false_eq_true, if_false, if_neg noStar, Option.bind_eq_bind, Option.bind_some, noQuery]
  split
  · -- two slashes at the start would be one
    rename_i more
    have shorter := length_collapseSlashes_le ('/' :: more)
    rw [collapseSlashes] at single
    rw [single] at shorter
    exact absurd shorter (by simp)
  · simp [unescaped]
  · have absent : ':' ∉ s.takeWhile (· ≠ '/') :=
      fun inside => noColon ((List.takeWhile_sublist _).subset inside)
    simpa [unescaped] using absent

theorem write_normal_plain (plain : Plain s) (single : collapseSlashes s = s) {fragment text : List Char}
    (letters : Plain fragment) :
    (normal { path := s, pathText := s, fragment, fragmentText := text }).write =
      s ++ if fragment.isEmpty then [] else '#' :: fragment := by
  have noStar : (s == ['*']) = false := by
    rw [beq_eq_false_iff_ne]
    rintro rfl
    exact absurd (plain '*' List.mem_cons_self) (by decide)
  have noColon : ':' ∉ s.takeWhile (· ≠ '/') :=
    fun inside => plain.not_mem (by decide) ((List.takeWhile_sublist _).subset inside)
  have path : escape .path s = s := escape_eq fun c inside => (plainLetters_unescaped c (plain c inside)).1
  have place : escape .fragment fragment = fragment :=
    escape_eq fun c inside => (plainLetters_unescaped c (letters c inside)).2
  have host : dropPort [] ((toBytes (ofBytes [])).map Char.toLower) = [] := by decide
  simpa [normal, write, writeFront, writePath, spell, single, noStar, path, place, host] using noColon

theorem target_plain {s : List Char} (ascii : ∀ c ∈ s, c.toNat < 0x80) (free : '%' ∉ s) :
    target (String.ofList s) = String.ofList s := by
  have same : unescape? .segment s = some s := unescape?_eq (by decide) free
  simp [target, toBytes_ascii ascii, same, ofBytes_ascii ascii]

/-- The canonical text of a reference, without the mark of an empty pointer. -/
def brief (r : Reference) : List Char :=
  r.locator.toList ++ if r.pointer.toList.isEmpty then [] else '#' :: r.pointer.toList

theorem parse_brief {r : Reference} (normal : r.Normal) : Reference.parse (String.ofList (brief r)) = r := by
  by_cases empty : r.pointer = ""
  · have text : brief r = r.locator.toList := by simp [brief, empty]
    rw [text, Reference.parse, String.toList_ofList, cut_eq_none normal.whole]
    obtain ⟨locator, pointer⟩ := r
    dsimp only at empty
    subst empty
    simpa [Reference.rooted, Reference.slashes] using congrArg String.ofList normal.trimmed
  · have text : String.ofList (brief r) = r.canonical := by
      simp [brief, empty, Reference.canonical, ← String.toList_inj]
    rw [text, Reference.parse_canonical normal]

theorem spells_canonical {r : Reference} (normal : r.Normal) (plain : Plain r.locator.toList)
    (single : collapseSlashes r.locator.toList = r.locator.toList) (letters : Plain r.pointer.toList) :
    Spells r.canonical r := by
  have text : r.canonical.toList = r.locator.toList ++ '#' :: r.pointer.toList := by
    simp [Reference.canonical]
  have all : ∀ c ∈ r.canonical.toList, c.toNat < 0x80 ∧ c ≠ '%' := by
    intro c inside
    rw [text] at inside
    rcases List.mem_append.mp inside with first | last
    · exact ⟨plain.ascii c first, fun same => plain.not_mem (by decide) (same ▸ first)⟩
    · rcases List.mem_cons.mp last with rfl | later
      · exact ⟨by decide, by decide⟩
      · exact ⟨letters.ascii c later, fun same => letters.not_mem (by decide) (same ▸ later)⟩
  have among : ∀ c ∈ brief r, c ∈ r.canonical.toList := by
    intro c inside
    rw [text]
    rcases List.mem_append.mp inside with first | last
    · exact List.mem_append_left _ first
    · split at last
      · cases last
      · exact List.mem_append_right _ last
  have place : unescape? .fragment r.pointer.toList = some r.pointer.toList :=
    unescape?_eq (by decide) (letters.not_mem (by decide))
  have read : read? r.canonical.toList = some
      { path := r.locator.toList, pathText := r.locator.toList, fragment := r.pointer.toList,
        fragmentText := r.pointer.toList } := by
    simp [text, read?, cut_append normal.whole, readBody?_plain plain single, place]
  have normalized : normalize? r.canonical = some (String.ofList (brief r)) := by
    rw [normalize?, toBytes_ascii fun c inside => (all c inside).1, read, Option.map_some,
      write_normal_plain plain single letters]
    exact congrArg (some ∘ String.ofList) (ofBytes_ascii fun c inside => (all c (among c inside)).1)
  refine ⟨_, normalized, ?_⟩
  rw [target_plain (fun c inside => (all c (among c inside)).1)
    fun inside => (all _ (among _ inside)).2 rfl]
  exact parse_brief normal

theorem spells_parse {s : String} (canonical : Reference.normalize s = s)
    (plain : Plain (Reference.parse s).locator.toList)
    (single : collapseSlashes (Reference.parse s).locator.toList = (Reference.parse s).locator.toList)
    (letters : Plain (Reference.parse s).pointer.toList) : Spells s (Reference.parse s) := by
  have spells := spells_canonical (Reference.parse_normal s) plain single letters
  rwa [← Reference.normalize, canonical] at spells

end Link

end Typesmith
