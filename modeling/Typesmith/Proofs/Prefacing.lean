import Mathlib.Data.List.TakeWhile
import Typesmith.Project.Manifest
import Typesmith.Proofs.Casing
import Typesmith.Proofs.Commenting

namespace Typesmith.Text

def endsLine (c : Char) : Bool :=
  c ∈ ['\n', '\r', '\u2028', '\u2029']

structure CommentLine (line : List Char) : Prop where
  opens : ['/', '/'] <+: line
  within : ∀ c ∈ line, endsLine c = false

/-- One or two lines of comment, then an empty line, and nothing else. -/
def IsPreface (text : List Char) : Prop :=
  ∃ lines : List (List Char), (lines.length = 1 ∨ lines.length = 2) ∧
    (∀ line ∈ lines, CommentLine line) ∧ text = lines.flatMap (· ++ ['\n']) ++ ['\n']

/-- A text from its first code on: white space and comments after two slashes are passed over. -/
def firstCode (inComment : Bool) : List Char → List Char
  | [] => []
  | c :: rest =>
    if inComment then firstCode (!endsLine c) rest
    else if isSpace c then firstCode false rest
    else if c = '/' ∧ rest.head? = some '/' then firstCode true rest
    else c :: rest

theorem isMark_of_endsLine {c : Char} (ends : endsLine c = true) : IsMark c := by
  have all : ['\n', '\r', '\u2028', '\u2029'].all (fun c => decide (IsMark c)) = true := by decide
  exact of_decide_eq_true (List.all_eq_true.mp all c (of_decide_eq_true ends))

theorem isSpace_of_endsLine {c : Char} (ends : endsLine c = true) : isSpace c = true := by
  have all : ['\n', '\r', '\u2028', '\u2029'].all isSpace = true := by decide
  exact List.all_eq_true.mp all c (of_decide_eq_true ends)

theorem within_of_all {s : List Char} (plain : s.all (!endsLine ·) = true) : ∀ c ∈ s, endsLine c = false := by
  simpa using plain

theorem firstCode_comment {line : List Char} (within : ∀ c ∈ line, endsLine c = false) (rest : List Char) :
    firstCode true (line ++ '\n' :: rest) = firstCode false rest := by
  induction line with
  | nil => rfl
  | cons c line ih =>
    rw [List.cons_append, firstCode, within c List.mem_cons_self]
    exact ih fun d inside => within d (List.mem_cons_of_mem _ inside)

theorem CommentLine.passed {line : List Char} (comment : CommentLine line) (rest : List Char) :
    firstCode false (line ++ '\n' :: rest) = firstCode false rest := by
  obtain ⟨⟨inner, rfl⟩, within⟩ := comment
  exact firstCode_comment (fun c inside => within c (List.mem_cons_of_mem _ inside)) rest

theorem IsPreface.passed {text : List Char} (preface : IsPreface text) (rest : List Char) :
    firstCode false (text ++ rest) = firstCode false rest := by
  obtain ⟨lines, -, comments, rfl⟩ := preface
  induction lines with
  | nil => rfl
  | cons line lines ih =>
    have later := ih fun other inside => comments other (List.mem_cons_of_mem _ inside)
    have first : (line :: lines).flatMap (· ++ ['\n']) ++ ['\n'] ++ rest =
        line ++ '\n' :: (lines.flatMap (· ++ ['\n']) ++ ['\n'] ++ rest) := by
      simp
    rw [first, (comments line List.mem_cons_self).passed, later]

theorem end_of_line_cases {line rest a b : List Char} {c : Char} (within : ∀ c ∈ line, endsLine c = false)
    (ends : endsLine c = true) (same : line ++ '\n' :: rest = a ++ c :: b) :
    rest = b ∨ ∃ z, rest = z ++ c :: b := by
  rcases List.append_eq_append_iff.mp same with ⟨z, -, behind⟩ | ⟨z, rfl, behind⟩
  · cases z with
    | nil => exact .inl (List.cons.inj behind).2
    | cons d z => exact .inr ⟨z, (List.cons.inj behind).2⟩
  · cases z with
    | nil => exact .inl (List.cons.inj behind).2.symm
    | cons d z =>
      obtain ⟨rfl, -⟩ := List.cons.inj behind
      rw [within c (by simp)] at ends
      cases ends

/-- Behind an end of a line there is a comment, or the empty line, or nothing. -/
theorem IsPreface.behind {text a b : List Char} {c : Char} (preface : IsPreface text)
    (split : text = a ++ c :: b) (ends : endsLine c = true) : b = [] ∨ b = ['\n'] ∨ ['/', '/'] <+: b := by
  obtain ⟨lines, -, comments, rfl⟩ := preface
  induction lines generalizing a with
  | nil =>
    have last : b = [] := by
      cases a with
      | nil => exact (List.cons.inj split).2.symm
      | cons d a => simp at split
    exact .inl last
  | cons line lines ih =>
    have others : ∀ other ∈ lines, CommentLine other :=
      fun other inside => comments other (List.mem_cons_of_mem _ inside)
    have first : line ++ '\n' :: (lines.flatMap (· ++ ['\n']) ++ ['\n']) = a ++ c :: b := by
      rw [← split]
      simp
    rcases end_of_line_cases (comments line List.mem_cons_self).within ends first with rfl | ⟨z, later⟩
    · cases lines with
      | nil => exact .inr (.inl rfl)
      | cons next lines =>
        refine .inr (.inr ((others next List.mem_cons_self).opens.trans ?_))
        simp
    · exact ih others later

theorem countP_endsLine_eq_zero {line : List Char} :
    line.countP endsLine = 0 ↔ ∀ c ∈ line, endsLine c = false := by
  simp [List.countP_eq_zero]

theorem IsPreface.countP_le {text : List Char} (preface : IsPreface text) : text.countP endsLine ≤ 3 := by
  obtain ⟨lines, short, comments, rfl⟩ := preface
  have ends : endsLine '\n' = true := by decide
  have each : ∀ lines : List (List Char), (∀ line ∈ lines, CommentLine line) →
      (lines.flatMap (· ++ ['\n'])).countP endsLine = lines.length := by
    intro lines comments
    induction lines with
    | nil => rfl
    | cons line lines ih =>
      have none := countP_endsLine_eq_zero.mpr (comments line List.mem_cons_self).within
      rw [List.flatMap_cons, List.countP_append, List.countP_append, none,
        ih fun other inside => comments other (List.mem_cons_of_mem _ inside)]
      simp [ends, Nat.add_comm]
  rw [List.countP_append, each lines comments, List.countP_singleton, ends, if_pos rfl]
  omega

end Typesmith.Text

namespace Typesmith.Project

open Text

def sourceLine (doc : Document) : String :=
  "// Code generated by core-typegen" ++ (if sourceName doc = "" then "" else " from " ++ sourceName doc)
    ++ ". DO NOT EDIT."

def titleLine (doc : Document) : String :=
  "// " ++ headline doc.title ++ (if doc.version = "" then "" else " " ++ doc.version)

variable {doc : Document}

theorem header_eq (doc : Document) : (header doc).toList = (sourceLine doc).toList ++ '\n' ::
    ((if headline doc.title = "" then [] else (titleLine doc).toList ++ ['\n']) ++ ['\n']) := by
  unfold header sourceLine titleLine
  by_cases untitled : headline doc.title = "" <;> simp [untitled]

theorem headline_eq_empty_iff (title : String) :
    headline title = "" ↔ ∀ c ∈ title.toList, isSpace c = true := by
  have filled : "" ∉ fields title := fun empty => (mem_fields empty).1 rfl
  rw [headline, String.ofList_eq_empty_iff, capitalize_eq_nil_iff, String.toList_eq_nil_iff,
    join_eq_empty_iff filled, fields_eq_nil_iff]

theorem headline_within (title : String) : ∀ c ∈ (headline title).toList, endsLine c = false := by
  intro c inside
  rw [headline, String.toList_ofList] at inside
  by_contra ends
  rw [Bool.not_eq_false] at ends
  have space := isSpace_of_endsLine ends
  rcases mem_join (mem_capitalize inside (isMark_of_endsLine ends)) with blank | ⟨word, listed, own⟩
  · rw [List.mem_singleton.mp blank] at ends
    exact absurd ends (by decide)
  · rw [(mem_fields listed).2 c own] at space
    cases space

def sourceFronts : List String :=
  ["// Code generated by core-typegen", "// Code generated by core-typegen from "]

theorem sourceFronts_plain : ∀ front ∈ sourceFronts,
    front.toList.all (!endsLine ·) = true ∧ ['/', '/'] <+: front.toList := by
  decide +kernel

theorem sourceLine_eq (doc : Document) : ∃ front ∈ sourceFronts,
    sourceLine doc = front ++ sourceName doc ++ ". DO NOT EDIT." := by
  unfold sourceLine
  by_cases empty : sourceName doc = ""
  · refine ⟨"// Code generated by core-typegen", List.mem_cons_self, ?_⟩
    rw [if_pos empty, empty]
  · refine ⟨"// Code generated by core-typegen from ", List.mem_cons_of_mem _ List.mem_cons_self, ?_⟩
    rw [if_neg empty, ← String.append_assoc]
    rfl

theorem sourceLine_comment (within : ∀ c ∈ (sourceName doc).toList, endsLine c = false) :
    CommentLine (sourceLine doc).toList := by
  obtain ⟨front, listed, whole⟩ := sourceLine_eq doc
  obtain ⟨free, opens⟩ := sourceFronts_plain front listed
  have back : ∀ c ∈ ". DO NOT EDIT.".toList, endsLine c = false := within_of_all (by decide)
  rw [whole, String.toList_append, String.toList_append]
  refine ⟨(opens.trans (List.prefix_append _ _)).trans (List.prefix_append _ _), ?_⟩
  simp only [List.forall_mem_append]
  exact ⟨⟨within_of_all free, within⟩, back⟩

theorem titleLine_within : (∀ c ∈ (titleLine doc).toList, endsLine c = false) ↔
    ∀ c ∈ doc.version.toList, endsLine c = false := by
  have front : ∀ c ∈ "// ".toList, endsLine c = false := within_of_all (by decide)
  have blank : ∀ c ∈ " ".toList, endsLine c = false := within_of_all (by decide)
  by_cases empty : doc.version = ""
  · simp only [titleLine, empty, if_pos, String.toList_append, List.forall_mem_append]
    exact ⟨fun all => all.2, fun none => ⟨⟨front, headline_within _⟩, none⟩⟩
  · simp only [titleLine, if_neg empty, String.toList_append, List.forall_mem_append]
    exact ⟨fun all => all.2.2, fun within => ⟨⟨front, headline_within _⟩, blank, within⟩⟩

theorem titleLine_opens (doc : Document) : ['/', '/'] <+: (titleLine doc).toList := by
  refine ⟨' ' :: (headline doc.title ++ (if doc.version = "" then "" else " " ++ doc.version)).toList, ?_⟩
  simp [titleLine]

theorem slash_not_mem_base {path : String} (proper : Path.base path ≠ "/") : '/' ∉ (Path.base path).toList := by
  unfold Path.base at proper ⊢
  split at proper
  · rename_i empty
    rw [if_pos empty]
    decide
  · rename_i filled
    rw [if_neg filled]
    dsimp only at proper ⊢
    split at proper
    · exact absurd rfl proper
    · rename_i some
      rw [if_neg some, String.toList_ofList, List.mem_reverse]
      intro inside
      have other := List.mem_takeWhile_imp inside
      simp at other

/-- An end of a line in the name of the file would leave the rest of the line without its slashes. -/
theorem sourceName_within (preface : IsPreface (header doc).toList) :
    ∀ c ∈ (sourceName doc).toList, endsLine c = false := by
  intro c inside
  by_contra ends
  rw [Bool.not_eq_false] at ends
  have free : '/' ∉ (sourceName doc).toList := by
    unfold sourceName at inside ⊢
    split
    · decide
    · rename_i filled
      rw [if_neg filled] at inside
      refine slash_not_mem_base fun root => ?_
      rw [root] at inside
      rw [List.mem_singleton.mp inside] at ends
      exact absurd ends (by decide)
  obtain ⟨before, after, name⟩ := List.append_of_mem inside
  obtain ⟨front, -, line⟩ := sourceLine_eq doc
  have split := header_eq doc
  rw [line, String.toList_append, String.toList_append, name] at split
  simp only [List.append_assoc, List.cons_append] at split
  rw [← List.append_assoc] at split
  rcases preface.behind split ends with none | single | comment
  · simp at none
  · cases after <;> simp at single
  · cases after with
    | nil =>
      obtain ⟨rest, same⟩ := comment
      simp at same
    | cons d after =>
      obtain ⟨rest, same⟩ := comment
      simp only [List.cons_append, List.cons.injEq] at same
      rw [name, ← same.1] at free
      simp at free

/-- There is no room for an end of a line in the version, as a title takes the second line. -/
theorem version_within (preface : IsPreface (header doc).toList) (titled : headline doc.title ≠ "") :
    ∀ c ∈ doc.version.toList, endsLine c = false := by
  have ends : endsLine '\n' = true := by decide
  have short := preface.countP_le
  rw [header_eq, if_neg titled] at short
  simp only [List.countP_append, List.countP_cons, ends, if_true, List.countP_nil] at short
  rw [← titleLine_within, ← countP_endsLine_eq_zero]
  omega

theorem isPreface_header_iff (doc : Document) : IsPreface (header doc).toList ↔
    (∀ c ∈ (sourceName doc).toList, endsLine c = false) ∧
      (headline doc.title ≠ "" → ∀ c ∈ doc.version.toList, endsLine c = false) := by
  constructor
  · intro preface
    exact ⟨sourceName_within preface, version_within preface⟩
  · rintro ⟨source, version⟩
    have first := sourceLine_comment source
    by_cases untitled : headline doc.title = ""
    · refine ⟨[(sourceLine doc).toList], .inl rfl, by simpa using first, ?_⟩
      rw [header_eq, if_pos untitled]
      simp
    · have second : CommentLine (titleLine doc).toList :=
        ⟨titleLine_opens doc, titleLine_within.mpr (version untitled)⟩
      refine ⟨[(sourceLine doc).toList, (titleLine doc).toList], .inr rfl, ?_, ?_⟩
      · simpa using ⟨first, second⟩
      · rw [header_eq, if_neg untitled]
        simp

/-- The head of a generated file is one or two lines of comment and an empty line if and only if there is
no end of a line in the name of the document's file, and none in its version where there is a title that
it is shown with. What is generated starts as code only behind such a head. -/
theorem header_comments_iff (doc : Document) :
    (IsPreface (header doc).toList ↔ (∀ c ∈ (sourceName doc).toList, endsLine c = false) ∧
      ((∃ c ∈ doc.title.toList, isSpace c = false) → ∀ c ∈ doc.version.toList, endsLine c = false)) ∧
    (IsPreface (header doc).toList → ∀ rest,
      firstCode false ((header doc).toList ++ rest) = firstCode false rest) := by
  have titled : headline doc.title ≠ "" ↔ ∃ c ∈ doc.title.toList, isSpace c = false := by
    rw [ne_eq, headline_eq_empty_iff]
    simp
  refine ⟨?_, fun preface rest => preface.passed rest⟩
  rw [isPreface_header_iff, titled]

def bulletin : Document where
  path := "news.json"
  name := "news"
  root := .obj [("components", .obj [("schemas", .obj [("Item", .obj [("type", .str "string")])])]),
    ("info", .obj [("title", .str "News"), ("version", .str "1\nexport const x = 1;")]),
    ("openapi", .str "3.0.0")]

/-- The second line of a version is code. -/
theorem header_code_bulletin : Document.ofTree "news.json" bulletin.root = .ok bulletin ∧
    header bulletin =
      "// Code generated by core-typegen from news.json. DO NOT EDIT.\n// News 1\nexport const x = 1;\n\n" ∧
    ¬ IsPreface (header bulletin).toList ∧
    firstCode false (header bulletin).toList = "export const x = 1;\n\n".toList := by
  have loaded : Document.ofTree "news.json" bulletin.root = .ok bulletin := by
    have current : (!startsWith (bulletin.root.text "openapi") "3.") = false := by decide +kernel
    have fits : Outline.fitsFields .root (bulletin.root.obj?.getD []) = true := by decide +kernel
    have name : Document.nameOfPath "news.json" = "news" := by decide +kernel
    have opened : Document.ofTree "news.json" bulletin.root =
        if (!startsWith (bulletin.root.text "openapi") "3.") = true then
          .error (.version (bulletin.root.text "openapi"))
        else if Outline.fitsFields .root (bulletin.root.obj?.getD []) = true then
          .ok ⟨"news.json", Document.nameOfPath "news.json", bulletin.root⟩
        else .error .operations := rfl
    rw [opened, current, fits, name]
    rfl
  have written : header bulletin =
      "// Code generated by core-typegen from news.json. DO NOT EDIT.\n// News 1\nexport const x = 1;\n\n" := by
    decide +kernel
  have code : firstCode false (header bulletin).toList = "export const x = 1;\n\n".toList := by
    decide +kernel
  refine ⟨loaded, written, fun preface => ?_, code⟩
  have passed := preface.passed []
  rw [List.append_nil, code] at passed
  exact absurd passed (by decide)

end Typesmith.Project
