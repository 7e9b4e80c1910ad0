import Typesmith.Naming

namespace Typesmith.Text

def isSmall (c : Char) : Bool :=
  97 ≤ c.toNat && c.toNat ≤ 122

def isCapital (c : Char) : Bool :=
  65 ≤ c.toNat && c.toNat ≤ 90

def isPlain (c : Char) : Bool :=
  isSmall c || isCapital c || c.isDigit

theorem toNat_lt_of_isPlain {c : Char} (plain : isPlain c = true) : c.toNat < 128 := by
  simp only [isPlain, isSmall, isCapital, Char.isDigit, Bool.or_eq_true, Bool.and_eq_true,
    decide_eq_true_eq, ge_iff_le, UInt32.le_iff_toNat_le, Char.toNat_val] at plain
  have last : '9'.toNat = 57 := rfl
  omega

theorem isPlain_of_isCapital {c : Char} (capital : isCapital c = true) : isPlain c = true := by
  simp [isPlain, capital]

theorem isPlain_of_isDigit {c : Char} (digit : c.isDigit = true) : isPlain c = true := by
  simp [isPlain, digit]

structure PlainChar (c : Char) : Prop where
  word : Naming.isWordChar c = true
  identifier : Naming.isIdentPart c = true
  inWord : isMidWord c = false ∧ isWordBreak c = false
  digit : c.isDigit = true → isCased c = false ∧ isLetter c = false
  small : isSmall c = true → isLetter c = true ∧ isCased c = true ∧ titleForm c = [c.toUpper] ∧
    isCapital c.toUpper = true
  upper : isUpper c = true → isCapital c = true
  capital : isCapital c = true → isLetter c = true ∧ isDigit c = false ∧ isCased c = true ∧
    titleForm c = [c]

theorem plainChar {c : Char} (plain : isPlain c = true) : PlainChar c := by
  obtain ⟨n, small, rfl⟩ : ∃ n, n < 128 ∧ Char.ofNat n = c :=
    ⟨c.toNat, toNat_lt_of_isPlain plain, Char.ofNat_toNat c⟩
  -- the tables of letters have no shape to induct on, but plain characters are few
  constructor
  all_goals
    revert n
    decide +kernel

theorem not_small_of_isCapital {c : Char} (capital : isCapital c = true) : isSmall c = false := by
  simp only [isCapital, isSmall, Bool.and_eq_true, decide_eq_true_eq, Bool.and_eq_false_iff,
    decide_eq_false_iff_not] at capital ⊢
  omega

theorem capital_or_digit {c : Char} (plain : isPlain c = true) (large : isSmall c = false) :
    isCapital c = true ∨ c.isDigit = true := by
  simpa [isPlain, large] using plain

end Typesmith.Text

namespace Typesmith.Naming

open Text

theorem wordsFrom_flatten (cur s : List Char) :
    (wordsFrom cur s).flatten = cur.reverse ++ s.filter isWordChar := by
  induction s generalizing cur with
  | nil =>
    cases cur <;> simp [wordsFrom]
  | cons c rest ih =>
    unfold wordsFrom
    by_cases word : isWordChar c = true
    · rw [if_pos word, List.filter_cons_of_pos word]
      cases cur with
      | nil => simp [ih]
      | cons prev cur =>
        dsimp only
        split <;> simp [ih]
    · rw [if_neg word, List.filter_cons_of_neg word]
      cases cur <;> simp [ih]

theorem mem_of_mem_words {s word : List Char} (listed : word ∈ wordsFrom [] s) {c : Char}
    (letter : c ∈ word) : c ∈ s ∧ isWordChar c = true := by
  have kept : c ∈ (wordsFrom [] s).flatten := List.mem_flatten_of_mem listed letter
  rw [wordsFrom_flatten, List.reverse_nil, List.nil_append] at kept
  exact List.mem_filter.mp kept

def digitCount (s : List Char) : Nat :=
  s.countP Char.isDigit

theorem digitCount_append (s t : List Char) : digitCount (s ++ t) = digitCount s + digitCount t :=
  List.countP_append

theorem digitCount_cons_of_cased {c : Char} (cased : isCased c = true) (rest : List Char) :
    digitCount (c :: rest) = digitCount rest := by
  cases digit : c.isDigit with
  | false => simp [digitCount, digit]
  | true =>
    rw [((plainChar (isPlain_of_isDigit digit)).digit digit).1] at cased
    cases cased

theorem digitCount_capitalizeFrom (inWord afterMid : Bool) (s : List Char) :
    digitCount s ≤ digitCount (capitalizeFrom inWord afterMid s) := by
  induction s generalizing inWord afterMid with
  | nil => exact Nat.le_refl _
  | cons c rest ih =>
    unfold capitalizeFrom
    dsimp only
    split
    · rename_i cased
      rw [digitCount_cons_of_cased cased, digitCount_append]
      exact Nat.le_add_left_of_le (ih _ _)
    · rw [digitCount, digitCount, List.countP_cons, List.countP_cons]
      exact Nat.add_le_add_right (ih _ _) _

theorem digitCount_titleWord (w : List Char) : digitCount w ≤ digitCount (titleWord w) := by
  unfold titleWord
  split
  · exact Nat.le_refl _
  · split
    · exact digitCount_capitalizeFrom false false _
    · exact Nat.le_refl _

theorem sanitize_toList (name : String) : ∃ front, (front = [] ∨ front = ['_']) ∧
    (sanitize name).toList = front ++ name.toList.filter isIdentPart := by
  have underscore : "_".toList = ['_'] := rfl
  unfold sanitize
  split
  · rename_i empty
    exact ⟨['_'], .inr rfl, by rw [empty, underscore, List.append_nil]⟩
  · rename_i c rest kept
    rw [kept]
    dsimp only
    split
    · refine ⟨['_'], .inr rfl, ?_⟩
      rw [String.toList_append, underscore]
      exact congrArg _ (String.toList_ofList)
    · exact ⟨[], .inl rfl, String.toList_ofList⟩

/-- Digits are word characters, no word loses one, and identifiers may hold them. -/
theorem digitCount_modelName (s : String) :
    digitCount s.toList ≤ digitCount (modelName s).toList := by
  have words : digitCount s.toList = digitCount (wordsFrom [] s.toList).flatten := by
    rw [wordsFrom_flatten, List.reverse_nil, List.nil_append, digitCount, digitCount, List.countP_filter]
    refine (List.countP_congr fun c _ => ?_)
    cases digit : c.isDigit with
    | false => simp
    | true => simp [(plainChar (isPlain_of_isDigit digit)).word]
  have titled : digitCount (wordsFrom [] s.toList).flatten ≤ digitCount (pascalCase s).toList := by
    rw [pascalCase, String.toList_ofList]
    generalize wordsFrom [] s.toList = ws
    induction ws with
    | nil => exact Nat.le_refl _
    | cons w ws ih =>
      rw [List.flatten_cons, List.flatMap_cons, digitCount_append, digitCount_append]
      exact Nat.add_le_add (digitCount_titleWord w) ih
  have kept : digitCount (pascalCase s).toList =
      digitCount ((pascalCase s).toList.filter isIdentPart) := by
    rw [digitCount, digitCount, List.countP_filter]
    refine List.countP_congr fun c _ => ?_
    cases digit : c.isDigit with
    | false => simp
    | true => simp [(plainChar (isPlain_of_isDigit digit)).identifier]
  obtain ⟨front, _, spelled⟩ := sanitize_toList (pascalCase s)
  rw [modelName, spelled, digitCount_append]
  omega

theorem isIdentPart_of_mem_modelName {s : String} {c : Char} (inside : c ∈ (modelName s).toList) :
    isIdentPart c = true := by
  obtain ⟨front, short, spelled⟩ := sanitize_toList (pascalCase s)
  rw [modelName, spelled] at inside
  rcases List.mem_append.mp inside with added | kept
  · rcases short with rfl | rfl
    · cases added
    · rw [List.mem_singleton.mp added]
      decide
  · exact (List.mem_filter.mp kept).2

def Plain (s : List Char) : Prop :=
  ∃ c rest, s = c :: rest ∧ isCapital c = true ∧ ∀ a ∈ rest, isPlain a = true

theorem capitalizeFrom_plain {s : List Char} (plain : ∀ a ∈ s, isPlain a = true) :
    capitalizeFrom true false s = s := by
  induction s with
  | nil => rfl
  | cons c rest ih =>
    have here := (plainChar (plain c List.mem_cons_self)).inWord
    have later := ih fun a inside => plain a (List.mem_cons_of_mem _ inside)
    simp [capitalizeFrom, here.1, here.2, later]

def Titled (s : List Char) : Prop :=
  ∃ c rest, s = c :: rest ∧ isPlain c = true ∧ isSmall c = false ∧ ∀ a ∈ rest, isPlain a = true

theorem Plain.titled {s : List Char} (plain : Plain s) : Titled s := by
  obtain ⟨c, rest, rfl, upper, others⟩ := plain
  exact ⟨c, rest, rfl, isPlain_of_isCapital upper, not_small_of_isCapital upper, others⟩

theorem Titled.plain {s : List Char} (titled : Titled s) : ∀ a ∈ s, isPlain a = true := by
  obtain ⟨c, rest, rfl, plain, _, others⟩ := titled
  exact List.forall_mem_cons.mpr ⟨plain, others⟩

theorem titleWord_titled {w : List Char} (titled : Titled w) : titleWord w = w := by
  obtain ⟨c, rest, rfl, plain, large, others⟩ := titled
  have here := plainChar plain
  rcases capital_or_digit plain large with upper | digit
  · obtain ⟨letter, _, cased, title⟩ := here.capital upper
    simp [titleWord, letter, capitalize, capitalizeFrom, cased, title, here.inWord.1,
      capitalizeFrom_plain others]
  · simp [titleWord, (here.digit digit).2]

/-- A word starts where the text starts or at a capital. -/
theorem wordsFrom_titled {cur s : List Char} (started : Titled cur.reverse)
    (plain : ∀ a ∈ s, isPlain a = true) : ∀ w ∈ wordsFrom cur s, Titled w := by
  induction s generalizing cur with
  | nil =>
    have filled : cur ≠ [] := by
      rintro rfl
      obtain ⟨_, _, whole, _⟩ := started
      cases whole
    unfold wordsFrom
    simpa [filled] using started
  | cons a s ih =>
    have others : ∀ a ∈ s, isPlain a = true := fun b inside => plain b (List.mem_cons_of_mem _ inside)
    have letter := plain a List.mem_cons_self
    have here := plainChar letter
    unfold wordsFrom
    rw [if_pos here.word]
    split
    · obtain ⟨_, _, whole, _⟩ := started
      cases whole
    · split
      · rename_i starts
        simp only [startsWord, Bool.and_eq_true] at starts
        have large := not_small_of_isCapital (here.upper starts.1)
        exact List.forall_mem_cons.mpr ⟨started, ih ⟨a, [], rfl, letter, large, by simp⟩ others⟩
      · -- the letter joins the word, whose first one stays in front
        refine ih ?_ others
        obtain ⟨c, rest, whole, first, large, before⟩ := started
        refine ⟨c, rest ++ [a], by rw [List.reverse_cons, whole, List.cons_append], first, large, ?_⟩
        exact List.forall_mem_append.mpr ⟨before, List.forall_mem_singleton.mpr letter⟩

theorem pascalCase_titled {s : String} (titled : Titled s.toList) : pascalCase s = s := by
  have plain := titled.plain
  obtain ⟨c, rest, whole, first, large, others⟩ := titled
  have words : ∀ w ∈ wordsFrom [] s.toList, Titled w := by
    rw [whole, wordsFrom, if_pos (plainChar first).word]
    exact wordsFrom_titled ⟨c, [], rfl, first, large, by simp⟩ others
  have kept : (wordsFrom [] s.toList).map titleWord = wordsFrom [] s.toList :=
    (List.map_congr_left fun w inside => titleWord_titled (words w inside)).trans (List.map_id _)
  rw [pascalCase, List.flatMap_def, kept, wordsFrom_flatten, List.reverse_nil, List.nil_append,
    List.filter_eq_self.mpr fun a inside => (plainChar (plain a inside)).word, String.ofList_toList]

theorem modelName_plain {s : String} (plain : Plain s.toList) : modelName s = s := by
  have cased := pascalCase_titled plain.titled
  have identifier := fun a inside => (plainChar (plain.titled.plain a inside)).identifier
  obtain ⟨c, rest, whole, upper, others⟩ := plain
  have here := plainChar (isPlain_of_isCapital upper)
  have kept : s.toList.filter isIdentPart = c :: rest := by
    rw [List.filter_eq_self.mpr identifier, whole]
  have other : isReserved s = false := by
    have small : ∀ word ∈ reservedWords, (word.toList.head?.any isCapital) = false := by decide
    rw [isReserved, List.contains_eq_mem, decide_eq_false_iff_not]
    intro inside
    have first := small s inside
    rw [whole, List.head?_cons, Option.any_some, upper] at first
    cases first
  have same : String.ofList (c :: rest) = s := by rw [← whole, String.ofList_toList]
  rw [modelName, cased, sanitize, kept]
  simp only [same, other, (here.capital upper).2.1, Bool.or_self, Bool.false_eq_true, if_false]

end Typesmith.Naming
