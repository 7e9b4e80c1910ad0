import Typesmith.Proofs.Styling

namespace Typesmith.Console

def sequence : Option Style → List Char
  | none => reset
  | some st => escape st.code

/-- What is left of a text without its escapes; `skip` says how many characters of an escape are still to
be passed over. -/
def strippedFrom (skip : Nat) : List Char → List Char
  | [] => []
  | c :: rest =>
    match skip with
    | n + 1 => strippedFrom n rest
    | 0 =>
      match effect? (c :: rest) with
      | some effect => strippedFrom ((sequence effect).length - 1) rest
      | none => c :: strippedFrom 0 rest

def stripped (s : String) : String :=
  String.ofList (strippedFrom 0 s.toList)

/-- The first text is the second one with escapes put in. -/
inductive Colors : List Char → List Char → Prop
  | nil : Colors [] []
  | char (c : Char) {colored plain : List Char} : Colors colored plain →
      Colors (c :: colored) (c :: plain)
  | sequence (effect : Option Style) {colored plain : List Char} : Colors colored plain →
      Colors (sequence effect ++ colored) plain

variable {colored plain : List Char} {stack : List Style} {ts : List Token}

theorem Colors.leaving (colors : Colors colored plain) (outer : List Style) :
    Colors (leaving true outer ++ colored) plain := by
  have begun : ∀ styles : List Style, Colors (styles.flatMap (fun st => escape st.code) ++ colored) plain := by
    intro styles
    induction styles with
    | nil => exact colors
    | cons st styles ih =>
      rw [List.flatMap_cons, List.append_assoc]
      exact ih.sequence (some st)
  rw [Console.leaving, if_pos rfl, List.append_assoc]
  exact (begun outer.reverse).sequence none

theorem colors_write (stack : List Style) (ts : List Token) :
    Colors (write true stack ts) (write false stack ts) := by
  induction ts generalizing stack with
  | nil => exact .nil
  | cons token rest ih =>
    cases token with
    | opening st => exact (ih (st :: stack)).sequence (some st)
    | char c =>
      by_cases closing : c = '\x7d'
      · subst closing
        cases stack with
        | nil => exact (ih []).char '\x7d'
        | cons st outer => exact (ih outer).leaving outer
      · rw [write_char closing, write_char closing]
        exact (ih stack).char c

theorem strippedFrom_skip (front rest : List Char) :
    strippedFrom front.length (front ++ rest) = strippedFrom 0 rest := by
  induction front with
  | nil => rfl
  | cons c front ih => exact ih

theorem effect?_sequence (effect : Option Style) (rest : List Char) :
    effect? (sequence effect ++ rest) = some effect := by
  rcases effect with _ | st
  · rfl
  · cases st <;> rfl

theorem strippedFrom_sequence (effect : Option Style) (rest : List Char) :
    strippedFrom 0 (sequence effect ++ rest) = strippedFrom 0 rest := by
  have found := effect?_sequence effect rest
  cases letters : sequence effect with
  | nil => rfl
  | cons c front =>
    rw [letters, List.cons_append] at found
    rw [List.cons_append, strippedFrom, found]
    dsimp only
    rw [letters, List.length_cons, Nat.add_sub_cancel, strippedFrom_skip]

theorem Colors.strippedFrom (colors : Colors colored plain) (clean : '\x1b' ∉ plain) :
    strippedFrom 0 colored = plain := by
  induction colors with
  | nil => rfl
  | char c colors ih =>
    obtain ⟨first, others⟩ := not_or.mp (List.mem_cons.not.mp clean)
    rw [Console.strippedFrom, effect?_plain (Ne.symm first), ih others]
  | sequence effect colors ih => rw [strippedFrom_sequence, ih clean]

theorem char_mem_of_mem_write {c : Char} (inside : c ∈ write false stack ts) : .char c ∈ ts := by
  induction ts generalizing stack with
  | nil => cases inside
  | cons token rest ih =>
    cases token with
    | opening st => exact List.mem_cons_of_mem _ (@ih (st :: stack) inside)
    | char d =>
      by_cases closing : d = '\x7d'
      · subst closing
        cases stack with
        | nil =>
          rcases List.mem_cons.mp inside with rfl | later
          · exact List.mem_cons_self
          · exact List.mem_cons_of_mem _ (ih later)
        | cons st outer => exact List.mem_cons_of_mem _ (@ih outer inside)
      · rw [write_char closing] at inside
        rcases List.mem_cons.mp inside with rfl | later
        · exact List.mem_cons_self
        · exact List.mem_cons_of_mem _ (ih later)

/-- A text that has no escapes of its own: written in color and without the escapes that begin a style or
end all of them, it is the text written plainly, in which there is no escape. -/
theorem stripped_render {s : String} (clean : '\x1b' ∉ s.toList) :
    stripped (render s true) = render s false ∧ '\x1b' ∉ (render s false).toList := by
  have written : ∀ color, (render s color).toList = write color [] (tokens s) := fun color => by
    rw [render, String.toList_ofList, renderFrom_eq_write, tokens]
  have kept : '\x1b' ∉ write false [] (tokens s) :=
    fun inside => clean (mem_of_char_mem (char_mem_of_mem_write inside))
  rw [stripped, written true, written false, (colors_write [] (tokens s)).strippedFrom kept, ← written false,
    String.ofList_toList]
  exact ⟨rfl, by rwa [written false]⟩

theorem stripped_render_nested :
    '\x1b' ∉ "$Bold\x7ba $Red\x7bb\x7d $Odd\x7bc\x7d d\x7d\x7d".toList ∧
      render "$Bold\x7ba $Red\x7bb\x7d $Odd\x7bc\x7d d\x7d\x7d" true =
        "\x1b[1ma \x1b[31mb\x1b[0m\x1b[1m $Odd\x7bc\x1b[0m d\x7d\x7d" ∧
      stripped (render "$Bold\x7ba $Red\x7bb\x7d $Odd\x7bc\x7d d\x7d\x7d" true) =
        "a b $Odd\x7bc d\x7d\x7d" := by
  have clean : '\x1b' ∉ "$Bold\x7ba $Red\x7bb\x7d $Odd\x7bc\x7d d\x7d\x7d".toList := by decide
  refine ⟨clean, by decide, (stripped_render clean).1.trans ?_⟩
  decide

end Typesmith.Console
