import Typesmith.Proofs.Spelling

namespace Typesmith.Text

theorem isPlain_of_isWordChar {c : Char} (ascii : c.toNat < 128) (word : Naming.isWordChar c = true) :
    isPlain c = true := by
  obtain ⟨n, small, rfl⟩ : ∃ n, n < 128 ∧ Char.ofNat n = c := ⟨c.toNat, ascii, Char.ofNat_toNat c⟩
  revert n
  decide +kernel

end Typesmith.Text

namespace Typesmith.Naming

open Text

def Ascii (s : String) : Prop :=
  ∀ c ∈ s.toList, c.toNat < 128

instance (s : String) : Decidable (Ascii s) :=
  List.decidableBAll (fun c : Char => c.toNat < 128) s.toList

variable {s : String} {w : List Char}

theorem wordsFrom_filled (cur s : List Char) : [] ∉ wordsFrom cur s := by
  induction s generalizing cur with
  | nil => cases cur <;> simp [wordsFrom]
  | cons c rest ih =>
    unfold wordsFrom
    cases cur with
    | nil => split <;> exact ih _
    | cons prev cur =>
      have started : [] ≠ (prev :: cur).reverse := by simp
      split
      · dsimp only
        split
        · exact List.not_mem_cons_of_ne_of_not_mem started (ih _)
        · exact ih _
      · exact List.not_mem_cons_of_ne_of_not_mem started (ih _)

theorem isPlain_of_mem_words (ascii : Ascii s) (listed : w ∈ wordsFrom [] s.toList) :
    ∀ c ∈ w, isPlain c = true := by
  intro c inside
  obtain ⟨own, word⟩ := mem_of_mem_words listed inside
  exact isPlain_of_isWordChar (ascii c own) word

theorem titled_titleWord (plain : ∀ c ∈ w, isPlain c = true) (filled : w ≠ []) : Titled (titleWord w) := by
  obtain ⟨c, rest, rfl⟩ := List.exists_cons_of_ne_nil filled
  obtain ⟨first, others⟩ := List.forall_mem_cons.mp plain
  cases small : isSmall c with
  | false =>
    have titled : Titled (c :: rest) := ⟨c, rest, rfl, first, small, others⟩
    rwa [titleWord_titled titled]
  | true =>
    have here := plainChar first
    obtain ⟨letter, cased, title, capital⟩ := here.small small
    refine ⟨c.toUpper, rest, ?_, isPlain_of_isCapital capital, not_small_of_isCapital capital, others⟩
    simp [titleWord, letter, capitalize, capitalizeFrom, cased, title, here.inWord.1,
      capitalizeFrom_plain others]

theorem titled_flatMap {ws : List (List Char)} (titled : ∀ w ∈ ws, Titled (titleWord w)) :
    ws.flatMap titleWord = [] ∨ Titled (ws.flatMap titleWord) := by
  cases ws with
  | nil => exact .inl rfl
  | cons w ws =>
    obtain ⟨c, rest, whole, first, large, others⟩ := titled w List.mem_cons_self
    refine .inr ⟨c, rest ++ ws.flatMap titleWord, ?_, first, large, ?_⟩
    · rw [List.flatMap_cons, whole, List.cons_append]
    · refine List.forall_mem_append.mpr ⟨others, fun a inside => ?_⟩
      obtain ⟨v, listed, letter⟩ := List.mem_flatMap.mp inside
      exact (titled v (List.mem_cons_of_mem _ listed)).plain a letter

theorem pascalCase_ascii (ascii : Ascii s) : pascalCase s = "" ∨ Titled (pascalCase s).toList := by
  have titled : ∀ w ∈ wordsFrom [] s.toList, Titled (titleWord w) := by
    intro w listed
    refine titled_titleWord (isPlain_of_mem_words ascii listed) ?_
    rintro rfl
    exact wordsFrom_filled [] s.toList listed
  rw [pascalCase, String.toList_ofList, String.ofList_eq_empty_iff]
  exact titled_flatMap titled

theorem pascalCase_pascalCase (ascii : Ascii s) : pascalCase (pascalCase s) = pascalCase s := by
  rcases pascalCase_ascii ascii with empty | titled
  · rw [empty]
    decide
  · exact pascalCase_titled titled

/-- The underscore that a model name may have in front belongs to no word. -/
theorem pascalCase_modelName (ascii : Ascii s) : pascalCase (modelName s) = pascalCase s := by
  have identifier : (pascalCase s).toList.filter isIdentPart = (pascalCase s).toList := by
    refine List.filter_eq_self.mpr fun c inside => ?_
    rcases pascalCase_ascii ascii with empty | titled
    · rw [empty] at inside
      cases inside
    · exact (plainChar (titled.plain c inside)).identifier
  obtain ⟨front, short, spelled⟩ := sanitize_toList (pascalCase s)
  have same : wordsFrom [] (modelName s).toList = wordsFrom [] (pascalCase s).toList := by
    rw [modelName, spelled, identifier]
    rcases short with rfl | rfl
    · rw [List.nil_append]
    · have underscore : ¬ isWordChar '_' = true := by decide
      rw [List.singleton_append, wordsFrom, if_neg underscore, if_pos List.isEmpty_nil]
  rw [pascalCase, same, ← pascalCase, pascalCase_pascalCase ascii]

/-- Words are not empty and are, one after another, the letters and digits of the text. A name in capitals
that is made of an ASCII text stays what it is when it is made again, and so does its model name. -/
theorem names_stable (s : String) :
    (∀ w ∈ words s, w ≠ "") ∧
      (words s).flatMap String.toList = s.toList.filter (fun c => isLetter c || isDigit c) ∧
      (Ascii s → pascalCase (pascalCase s) = pascalCase s ∧ modelName (modelName s) = modelName s) := by
  refine ⟨fun w listed empty => ?_, ?_, fun ascii => ⟨pascalCase_pascalCase ascii, ?_⟩⟩
  · obtain ⟨letters, inside, rfl⟩ := List.mem_map.mp listed
    rw [String.ofList_eq_empty_iff] at empty
    exact wordsFrom_filled [] s.toList (empty ▸ inside)
  · have letters : (words s).flatMap String.toList = (wordsFrom [] s.toList).flatten := by
      simp [words, List.flatMap_map, List.flatMap_id']
    rw [letters, wordsFrom_flatten]
    rfl
  · rw [modelName, pascalCase_modelName ascii, ← modelName]

theorem names_stable_response :
    Ascii "200 response_forAUser/x/y" ∧
      words "200 response_forAUser/x/y" = ["200", "response", "for", "A", "User", "x", "y"] ∧
      words (pascalCase "200 response_forAUser/x/y") = ["200", "Response", "For", "A", "User", "XY"] ∧
      pascalCase (pascalCase "200 response_forAUser/x/y") = "200ResponseForAUserXY" ∧
      modelName (modelName "200 response_forAUser/x/y") = "_200ResponseForAUserXY" := by
  have ascii : Ascii "200 response_forAUser/x/y" := by decide +kernel
  obtain ⟨_, _, stable⟩ := names_stable "200 response_forAUser/x/y"
  obtain ⟨cased, named⟩ := stable ascii
  refine ⟨ascii, by decide +kernel, by decide +kernel, cased.trans ?_, named.trans ?_⟩
  · decide +kernel
  · decide +kernel

end Typesmith.Naming
