import Mathlib.Data.List.Infix
import Typesmith.Model.Comment
import Typesmith.Proofs.Paths

namespace Typesmith.Text

def Unended (s : List Char) : Prop :=
  ¬ ['*', '/'] <:+: s

instance (s : List Char) : Decidable (Unended s) :=
  inferInstanceAs (Decidable (¬ _))

variable {s t : List Char}

theorem unended_iff : Unended s ↔ ∀ a b, s ≠ a ++ '*' :: '/' :: b := by
  constructor
  · intro unended a b same
    exact unended ⟨a, b, by simp [same]⟩
  · rintro none ⟨a, b, same⟩
    exact none a b (by simp [← same])

/-- Where a star and a slash are after each other in two texts: in one of them, or where they meet. -/
theorem end_cases {a b : List Char} (same : s ++ t = a ++ '*' :: '/' :: b) :
    (∃ z, t = z ++ '*' :: '/' :: b) ∨ (s = a ++ ['*'] ∧ t = '/' :: b) ∨ ∃ z, s = a ++ '*' :: '/' :: z := by
  rcases List.append_eq_append_iff.mp same with ⟨z, -, rest⟩ | ⟨z, rfl, rest⟩
  · exact .inl ⟨z, rest⟩
  · cases z with
    | nil => exact .inl ⟨[], rest.symm⟩
    | cons c z =>
      simp only [List.cons_append, List.cons.injEq] at rest
      obtain ⟨rfl, rest⟩ := rest
      cases z with
      | nil => exact .inr (.inl ⟨rfl, rest.symm⟩)
      | cons d z =>
        simp only [List.cons_append, List.cons.injEq] at rest
        obtain ⟨rfl, -⟩ := rest
        exact .inr (.inr ⟨z, rfl⟩)

theorem Unended.append (first : Unended s) (second : Unended t)
    (seam : s.getLast? = some '*' → t.head? ≠ some '/') : Unended (s ++ t) := by
  rw [unended_iff] at *
  intro a b same
  rcases end_cases same with ⟨z, later⟩ | ⟨rfl, rfl⟩ | ⟨z, earlier⟩
  · exact second z b later
  · exact seam (by simp) rfl
  · exact first a z earlier

/-- A text without an end of a comment to which any text may be added. -/
structure Sealed (s : List Char) : Prop where
  unended : Unended s
  last : s.getLast? ≠ some '*'

instance (s : List Char) : Decidable (Sealed s) :=
  decidable_of_iff (Unended s ∧ s.getLast? ≠ some '*') ⟨fun h => ⟨h.1, h.2⟩, fun h => ⟨h.1, h.2⟩⟩

theorem sealed_nil : Sealed [] := by decide

theorem Sealed.append (first : Sealed s) (second : Sealed t) : Sealed (s ++ t) := by
  refine ⟨first.unended.append second.unended fun star => absurd star first.last, ?_⟩
  rw [List.getLast?_append]
  cases last : t.getLast? with
  | none => simpa using first.last
  | some c => simpa [last] using second.last

theorem sealed_flatMap {α : Type} {write : α → List Char} {l : List α} (each : ∀ x ∈ l, Sealed (write x)) :
    Sealed (l.flatMap write) := by
  induction l with
  | nil => exact sealed_nil
  | cons x l ih =>
    rw [List.flatMap_cons]
    exact (each x List.mem_cons_self).append (ih fun y inside => each y (List.mem_cons_of_mem _ inside))

theorem sealed_of_not_mem (free : '*' ∉ s) : Sealed s := by
  refine ⟨fun inside => free (inside.subset (by simp)), fun last => free ?_⟩
  exact List.mem_of_getLast? last

/-- The text starts like a comment, and the only end of a comment in it is the one before `behind`. -/
structure Encloses (opening behind text : List Char) : Prop where
  opens : opening <+: text
  closes : '*' :: '/' :: behind <:+ text
  once : ∀ a b, text = a ++ '*' :: '/' :: b → b = behind

theorem Sealed.encloses {opening body behind : List Char} (inside : Sealed body) (opens : opening <+: body)
    (free : '*' ∉ behind) : Encloses opening behind (body ++ '*' :: '/' :: behind) := by
  refine ⟨opens.trans (List.prefix_append _ _), List.suffix_append _ _, fun a b same => ?_⟩
  rcases end_cases same with ⟨z, later⟩ | ⟨-, meets⟩ | ⟨z, earlier⟩
  · -- an end behind the body can only be the one that stands there first
    cases z with
    | nil => simpa using later.symm
    | cons c z =>
      simp only [List.cons_append, List.cons.injEq] at later
      obtain ⟨-, later⟩ := later
      cases z with
      | nil => simp at later
      | cons d z =>
        simp only [List.cons_append, List.cons.injEq] at later
        exact absurd (by simp [later.2]) free
  · simp at meets
  · exact absurd earlier (unended_iff.mp inside.unended a z)

def isLineBreak (c : Char) : Bool :=
  c ∈ ['\n', '\r', '\x0b', '\x0c', '\u0085', '\u2028', '\u2029']

theorem isSpace_of_isLineBreak {c : Char} (breaks : isLineBreak c = true) : isSpace c = true := by
  have all : ['\n', '\r', '\x0b', '\x0c', '\u0085', '\u2028', '\u2029'].all isSpace = true := by decide
  exact List.all_eq_true.mp all c (of_decide_eq_true breaks)

theorem mem_fieldsBy {p : Char → Bool} {s cur word : List Char} (start : ∀ c ∈ cur, p c = false)
    (listed : word ∈ fieldsBy p s cur) : word ≠ [] ∧ ∀ c ∈ word, p c = false := by
  have closing : ∀ {word}, cur ≠ [] → word = cur.reverse → word ≠ [] ∧ ∀ c ∈ word, p c = false := by
    rintro _ filled rfl
    exact ⟨by simpa using filled, fun c inside => start c (List.mem_reverse.mp inside)⟩
  have none : ∀ c ∈ ([] : List Char), p c = false := fun _ inside => nomatch inside
  induction s generalizing cur with
  | nil =>
    unfold fieldsBy at listed
    split at listed
    · cases listed
    · rename_i filled
      exact closing (by simpa using filled) (List.mem_singleton.mp listed)
  | cons c rest ih =>
    unfold fieldsBy at listed
    split at listed
    · split at listed
      · exact ih none listed (fun filled => absurd rfl filled)
      · rename_i filled
        rcases List.mem_cons.mp listed with own | later
        · exact closing (by simpa using filled) own
        · exact ih none later (fun filled => absurd rfl filled)
    · rename_i other
      have longer : ∀ d ∈ c :: cur, p d = false := List.forall_mem_cons.mpr ⟨by simpa using other, start⟩
      refine ih longer listed ?_
      rintro _ filled rfl
      exact ⟨by simp, fun d inside => longer d (List.mem_reverse.mp inside)⟩

theorem mem_fields {s word : String} (listed : word ∈ fields s) :
    word ≠ "" ∧ ∀ c ∈ word.toList, isSpace c = false := by
  obtain ⟨chars, found, rfl⟩ := List.mem_map.mp listed
  have none : ∀ c ∈ ([] : List Char), isSpace c = false := by simp
  obtain ⟨filled, plain⟩ := mem_fieldsBy none found
  exact ⟨by simpa using filled, by simpa using plain⟩

theorem fieldsBy_eq_nil_iff {p : Char → Bool} {s cur : List Char} :
    fieldsBy p s cur = [] ↔ cur = [] ∧ ∀ c ∈ s, p c = true := by
  induction s generalizing cur with
  | nil => cases cur <;> simp [fieldsBy]
  | cons c rest ih =>
    unfold fieldsBy
    cases space : p c <;> cases cur <;> simp [ih, space]

theorem fields_eq_nil_iff (s : String) : fields s = [] ↔ ∀ c ∈ s.toList, isSpace c = true := by
  simp [fields, fieldsBy_eq_nil_iff]

theorem join_eq_empty_iff {sep : String} {words : List String} (filled : "" ∉ words) :
    join sep words = "" ↔ words = [] := by
  match words with
  | [] => simp [join]
  | [word] => simpa [join, eq_comm] using filled
  | first :: second :: rest =>
    have first : first ≠ "" := fun empty => filled (by simp [empty])
    simp [join, first]

end Typesmith.Text

namespace Typesmith.Model

open Text

theorem head?_escapeComment (s : List Char) : (escapeComment s).head? = s.head? := by
  induction s using escapeComment.induct with
  | case1 rest => rfl
  | case2 c rest apart =>
    rw [escapeComment]
    · rfl
    · exact apart
  | case3 => rfl

theorem unended_escapeComment (s : List Char) : Unended (escapeComment s) := by
  induction s using escapeComment.induct with
  | case1 rest ih =>
    have front : Sealed ['*', '\\', '/'] := by decide
    exact front.unended.append ih (by simp)
  | case2 c rest apart ih =>
    rw [escapeComment]
    · refine Unended.append (s := [c]) ?_ ih ?_
      · intro inside
        have short := inside.length_le
        simp at short
      · intro star slash
        rw [head?_escapeComment] at slash
        obtain ⟨rest, rfl⟩ := List.head?_eq_some_iff.mp slash
        exact apart rest (by simpa using star) rfl
    · exact apart
  | case3 => decide

theorem mem_escapeComment {c : Char} {s : List Char} (inside : c ∈ escapeComment s) : c ∈ s ∨ c = '\\' := by
  induction s using escapeComment.induct with
  | case1 rest ih =>
    simp only [escapeComment, List.mem_cons] at inside ⊢
    tauto
  | case2 d rest apart ih =>
    rw [escapeComment] at inside
    · rcases List.mem_cons.mp inside with rfl | later
      · exact .inl List.mem_cons_self
      · exact (ih later).imp_left (List.mem_cons_of_mem _)
    · exact apart
  | case3 => cases inside

theorem sealed_escaped (s : List Char) {c : Char} (star : c ≠ '*') (slash : c ≠ '/') :
    Sealed (escapeComment s ++ [c]) := by
  have single : Sealed [c] := sealed_of_not_mem (by simpa using star.symm)
  exact ⟨(unended_escapeComment s).append single.unended (by simp [slash]), by simp [star]⟩

theorem sealed_docLine {indent : List Char} (free : '*' ∉ indent) (line : List Char) :
    Sealed (docLine indent line) := by
  have start : Sealed indent := sealed_of_not_mem free
  unfold docLine
  split
  · exact start.append (by decide)
  · have mark : Sealed " * ".toList := by decide
    rw [List.append_assoc]
    exact (start.append mark).append (sealed_escaped line (by decide) (by decide))

theorem docBlock_encloses {indent : List Char} (free : '*' ∉ indent) {lines : List (List Char)}
    (some : lines ≠ []) : Encloses (indent ++ "/**".toList) ['\n'] (docBlock indent lines) := by
  have start : Sealed indent := sealed_of_not_mem free
  have behind : '*' ∉ ['\n'] := by decide
  match lines with
  | [line] =>
    have body : Sealed (indent ++ "/** ".toList ++ (escapeComment line ++ [' '])) :=
      (start.append (by decide)).append (sealed_escaped line (by decide) (by decide))
    have whole : docBlock indent [line] =
        indent ++ "/** ".toList ++ (escapeComment line ++ [' ']) ++ '*' :: '/' :: ['\n'] := by
      simp [docBlock]
    rw [whole]
    exact body.encloses ⟨' ' :: (escapeComment line ++ [' ']), by simp⟩ behind
  | first :: second :: rest =>
    have inside : Sealed ((first :: second :: rest).flatMap (docLine indent)) :=
      sealed_flatMap fun line _ => sealed_docLine free line
    have body : Sealed (indent ++ "/**\n".toList ++ (first :: second :: rest).flatMap (docLine indent) ++
        (indent ++ [' '])) :=
      ((start.append (by decide)).append inside).append (start.append (by decide))
    have whole : docBlock indent (first :: second :: rest) =
        indent ++ "/**\n".toList ++ (first :: second :: rest).flatMap (docLine indent) ++
          (indent ++ [' ']) ++ '*' :: '/' :: ['\n'] := by
      simp [docBlock]
    rw [whole]
    exact body.encloses ⟨'\n' :: ((first :: second :: rest).flatMap (docLine indent) ++ (indent ++ [' '])),
      by simp⟩ behind

def Silent (f : Fragment) : Prop :=
  trim f.keywords.title = "" ∧ trim f.keywords.description = "" ∧ f.isDeprecated = false ∧
    f.keywords.exampleValue = none

theorem docLines_eq_nil_iff (f : Fragment) : docLines f = [] ↔ Silent f := by
  have lines (s : List Char) : commentLines s ≠ [] := by
    simpa [commentLines] using splitChars_ne_nil '\n' (joinLineEnds s)
  have blank (s : String) : trim s = "" ↔ trimBy isSpace s.toList = [] := by
    rw [trim, String.ofList_eq_empty_iff]
  unfold Silent docLines
  simp only [blank]
  cases trimBy isSpace f.keywords.title.toList <;> cases trimBy isSpace f.keywords.description.toList <;>
    cases f.isDeprecated <;> cases f.keywords.exampleValue <;> simp [lines]

theorem trailingComment_eq (description : String) : (trailingComment description).toList =
    if fields description = [] then []
    else " /* ".toList ++ (escapeComment (join " " (fields description)).toList ++ [' ']) ++ ['*', '/'] := by
  have filled : "" ∉ fields description := fun empty => (mem_fields empty).1 rfl
  unfold trailingComment
  simp only [join_eq_empty_iff filled]
  split
  · rfl
  · simp

theorem mem_trailingComment {description : String} {c : Char}
    (inside : c ∈ (trailingComment description).toList) : c = ' ' ∨ isSpace c = false := by
  have mark : ∀ c ∈ " /* ".toList ++ [' ', '*', '/', '\\'], c = ' ' ∨ isSpace c = false := by
    have all : (" /* ".toList ++ [' ', '*', '/', '\\']).all (fun c => c = ' ' ∨ isSpace c = false) := by
      decide
    exact fun c listed => of_decide_eq_true (List.all_eq_true.mp all c listed)
  rw [trailingComment_eq] at inside
  split at inside
  · cases inside
  · simp only [List.mem_append] at inside
    rcases inside with (opening | own | blank) | closing
    · exact mark c (List.mem_append_left _ opening)
    · rcases mem_escapeComment own with own | rfl
      · rcases mem_join own with blank | ⟨word, listed, own⟩
        · exact .inl (List.mem_singleton.mp blank)
        · exact .inr ((mem_fields listed).2 c own)
      · exact mark _ (by simp)
    · exact .inl (List.mem_singleton.mp blank)
    · exact mark c (List.mem_append_right _ (List.mem_cons_of_mem _ (List.mem_append_left ['\\'] closing)))

/-- A comment is there if there is something to say, and then it is one comment on lines of its own; a
description behind a type is one comment in its line. Whatever the texts and the example hold, they do not
end it. -/
theorem comments_enclose :
    (∀ (f : Option Fragment) (n : Nat),
      let indent := String.ofList (List.replicate n ' ')
      (docComment f indent = "" ↔ ∀ g ∈ f, Silent g) ∧ (docComment f indent = "" ∨
        Encloses (indent ++ "/**").toList ['\n'] (docComment f indent).toList)) ∧
    ∀ description,
      (trailingComment description = "" ↔ ∀ c ∈ description.toList, isSpace c = true) ∧
      (trailingComment description = "" ∨
        Encloses " /* ".toList [] (trailingComment description).toList) ∧
      ∀ c ∈ (trailingComment description).toList, isLineBreak c = false := by
  refine ⟨fun f n => ?_, fun description => ?_⟩
  · have free : '*' ∉ (String.ofList (List.replicate n ' ')).toList := by simp
    cases f with
    | none => simp [docComment]
    | some f =>
      have silent := docLines_eq_nil_iff f
      by_cases none : docLines f = []
      · simp [docComment, none, docBlock, silent.mp none]
      · have text := docBlock_encloses free none
        have written : docBlock (List.replicate n ' ') (docLines f) ≠ [] := by
          intro empty
          simpa [empty] using text.opens
        simpa [docComment, none, ← silent, written] using text
  · have text := trailingComment_eq description
    refine ⟨?_, ?_, fun c inside => Bool.eq_false_iff.mpr fun breaks => ?_⟩
    · rw [← fields_eq_nil_iff, ← String.toList_eq_nil_iff, text]
      simp
    · rw [← String.toList_eq_nil_iff, text]
      split
      · exact .inl rfl
      · have opening : Sealed " /* ".toList := by decide
        exact .inr ((opening.append (sealed_escaped _ (by decide) (by decide))).encloses
          (List.prefix_append _ _) (by decide))
    · rcases mem_trailingComment inside with rfl | plain
      · revert breaks
        decide
      · rw [isSpace_of_isLineBreak breaks] at plain
        cases plain

/-- A slash after the star of a line, and ends of comments in the texts and in the example. -/
example : docComment (some { keywords := {
      title := "a*/ b*", description := "/ c\n**/", exampleValue := some (.str "*/") } }) " " =
    " /**\n  * a*\\/ b*\n  *\n  * / c\n  * **\\/\n  * @example \"*\\/\"\n  */\n" := by
  decide +kernel

end Typesmith.Model
