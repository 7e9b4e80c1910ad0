import Mathlib.Data.List.ReduceOption
import Typesmith.Console.Markup

namespace Typesmith.Console

inductive Token where
  | opening (st : Style)
  | char (c : Char)
  deriving DecidableEq, Repr

def Token.text : Token → List Char
  | opening st => '$' :: (st.name ++ ['\x7b'])
  | char c => [c]

def tokensFrom : Nat → List Char → List Token
  | _, [] => []
  | skip + 1, _ :: rest => tokensFrom skip rest
  | 0, c :: rest =>
    match (if c = '$' then styleAt rest else none) with
    | some st => .opening st :: tokensFrom (st.name.length + 1) rest
    | none => .char c :: tokensFrom 0 rest

def tokens (s : String) : List Token :=
  tokensFrom 0 s.toList

theorem styleAt_some {s : List Char} {st : Style} (found : styleAt s = some st) :
    st.name ++ ['\x7b'] <+: s := by
  have opens := List.find?_some found
  exact List.isPrefixOf_iff_prefix.mp opens

theorem tokensFrom_text (skip : Nat) (s : List Char) :
    (tokensFrom skip s).flatMap Token.text = s.drop skip := by
  induction s generalizing skip with
  | nil => simp [tokensFrom]
  | cons c rest ih =>
    cases skip with
    | succ skip => simpa [tokensFrom] using ih skip
    | zero =>
      rw [tokensFrom]
      split
      · rename_i st found
        split at found
        · rename_i dollar
          obtain ⟨after, rfl⟩ := styleAt_some found
          rw [List.flatMap_cons, ih, dollar]
          simp [Token.text]
        · cases found
      · rw [List.flatMap_cons, ih]
        rfl

def entering (color : Bool) (st : Style) : List Char :=
  if color then escape st.code else []

def leaving (color : Bool) (outer : List Style) : List Char :=
  if color then reset ++ outer.reverse.flatMap fun st => escape st.code else []

def write (color : Bool) (stack : List Style) : List Token → List Char
  | [] => []
  | .opening st :: rest => entering color st ++ write color (st :: stack) rest
  | .char c :: rest =>
    match stack with
    | st :: outer =>
      if c = '\x7d' then leaving color outer ++ write color outer rest
      else c :: write color (st :: outer) rest
    | [] => c :: write color [] rest

theorem renderFrom_eq_write (color : Bool) (stack : List Style) (skip : Nat) (s : List Char) :
    renderFrom color stack skip s = write color stack (tokensFrom skip s) := by
  induction s generalizing stack skip with
  | nil => simp [renderFrom, tokensFrom, write]
  | cons c rest ih =>
    cases skip with
    | succ skip => rw [renderFrom, tokensFrom, ih]
    | zero =>
      unfold renderFrom tokensFrom
      cases (if c = '$' then styleAt rest else none) with
      | some st => simp only [write, entering, ih]
      | none =>
        cases stack with
        | nil => simp only [write, ih]
        | cons st outer => simp only [write, leaving, ih]

/-- A brace before the tokens, with `depth` braces opened behind it, is closed by one of them. -/
def closes : Nat → List Token → Bool
  | _, [] => false
  | depth, .opening _ :: rest => closes (depth + 1) rest
  | depth, .char c :: rest =>
    if c = '\x7b' then closes (depth + 1) rest
    else if c = '\x7d' then
      match depth with
      | 0 => true
      | depth + 1 => closes depth rest
    else closes depth rest

/-- What is written when only balanced markup counts. The stack holds the open braces, innermost first;
one that is text has no style. -/
def writeBalanced (color : Bool) (stack : List (Option Style)) : List Token → List Char
  | [] => []
  | .opening st :: rest =>
    if closes 0 rest then entering color st ++ writeBalanced color (some st :: stack) rest
    else (Token.opening st).text ++ writeBalanced color (none :: stack) rest
  | .char c :: rest =>
    if c = '\x7b' then c :: writeBalanced color (none :: stack) rest
    else if c = '\x7d' then
      match stack with
      | some _ :: outer => leaving color outer.reduceOption ++ writeBalanced color outer rest
      | none :: outer => c :: writeBalanced color outer rest
      | [] => c :: writeBalanced color [] rest
    else c :: writeBalanced color stack rest

def balanced (s : String) (color : Bool) : String :=
  String.ofList (writeBalanced color [] (tokens s))

/-- With so many styles open, each style is closed and no other brace is opened inside one. -/
def fits : Nat → List Token → Bool
  | depth, [] => depth = 0
  | depth, .opening _ :: rest => fits (depth + 1) rest
  | depth, .char c :: rest =>
    if c = '\x7d' then fits (depth - 1) rest
    else if c = '\x7b' then depth = 0 && fits depth rest
    else fits depth rest

variable {color : Bool} {ts : List Token} {stack : List Style} {braces : List (Option Style)}

theorem Token.cases_brace (token : Token) : (∃ st, token = .opening st) ∨ token = .char '\x7b' ∨
    token = .char '\x7d' ∨ ∃ c, c ≠ '\x7b' ∧ c ≠ '\x7d' ∧ token = .char c := by
  cases token with
  | opening st => exact .inl ⟨st, rfl⟩
  | char c =>
    by_cases brace : c = '\x7b'
    · exact .inr (.inl (congrArg _ brace))
    · by_cases closing : c = '\x7d'
      · exact .inr (.inr (.inl (congrArg _ closing)))
      · exact .inr (.inr (.inr ⟨c, brace, closing, rfl⟩))

section tokens

variable {c : Char} {depth : Nat}

@[simp] theorem closes_opening (st : Style) : closes depth (.opening st :: ts) = closes (depth + 1) ts := rfl

@[simp] theorem closes_brace : closes depth (.char '\x7b' :: ts) = closes (depth + 1) ts := rfl

@[simp] theorem closes_closing_zero : closes 0 (.char '\x7d' :: ts) = true := rfl

@[simp] theorem closes_closing_succ : closes (depth + 1) (.char '\x7d' :: ts) = closes depth ts := rfl

theorem closes_char (brace : c ≠ '\x7b') (closing : c ≠ '\x7d') :
    closes depth (.char c :: ts) = closes depth ts := by
  conv_lhs => unfold closes
  rw [if_neg brace, if_neg closing]

@[simp] theorem fits_opening (st : Style) : fits depth (.opening st :: ts) = fits (depth + 1) ts := rfl

@[simp] theorem fits_brace : fits depth (.char '\x7b' :: ts) = (depth = 0 && fits depth ts) := rfl

@[simp] theorem fits_closing : fits depth (.char '\x7d' :: ts) = fits (depth - 1) ts := rfl

theorem fits_char (brace : c ≠ '\x7b') (closing : c ≠ '\x7d') :
    fits depth (.char c :: ts) = fits depth ts := by
  rw [fits, if_neg closing, if_neg brace]

@[simp] theorem writeBalanced_brace :
    writeBalanced color braces (.char '\x7b' :: ts) = '\x7b' :: writeBalanced color (none :: braces) ts := rfl

@[simp] theorem writeBalanced_closing_nil :
    writeBalanced color [] (.char '\x7d' :: ts) = '\x7d' :: writeBalanced color [] ts := rfl

@[simp] theorem writeBalanced_closing_none :
    writeBalanced color (none :: braces) (.char '\x7d' :: ts) =
      '\x7d' :: writeBalanced color braces ts := rfl

@[simp] theorem writeBalanced_closing_some (st : Style) :
    writeBalanced color (some st :: braces) (.char '\x7d' :: ts) =
      leaving color braces.reduceOption ++ writeBalanced color braces ts := rfl

theorem writeBalanced_char (brace : c ≠ '\x7b') (closing : c ≠ '\x7d') :
    writeBalanced color braces (.char c :: ts) = c :: writeBalanced color braces ts := by
  conv_lhs => unfold writeBalanced
  rw [if_neg brace, if_neg closing]

@[simp] theorem write_closing (st : Style) :
    write color (st :: stack) (.char '\x7d' :: ts) = leaving color stack ++ write color stack ts := rfl

theorem write_char (other : c ≠ '\x7d') :
    write color stack (.char c :: ts) = c :: write color stack ts := by
  cases stack with
  | nil => rfl
  | cons st outer => exact if_neg other

end tokens

theorem closes_of_fits {depth open_ : Nat} (fit : fits open_ ts = true) (inside : depth < open_) :
    closes depth ts = true := by
  induction ts generalizing depth open_ with
  | nil =>
    simp only [fits, decide_eq_true_eq] at fit
    omega
  | cons token rest ih =>
    obtain ⟨st, rfl⟩ | rfl | rfl | ⟨c, brace, closing, rfl⟩ := token.cases_brace
    · exact ih fit (Nat.succ_lt_succ inside)
    · simp only [fits_brace, Bool.and_eq_true, decide_eq_true_eq] at fit
      omega
    · cases depth with
      | zero => rfl
      | succ depth => exact ih fit (by omega)
    · rw [fits_char brace closing] at fit
      rw [closes_char brace closing]
      exact ih fit inside

def layered (stack : List Style) (below : Nat) : List (Option Style) :=
  stack.map some ++ List.replicate below none

@[simp] theorem layered_cons (st : Style) (stack : List Style) (below : Nat) :
    layered (st :: stack) below = some st :: layered stack below := rfl

@[simp] theorem layered_nil_succ (below : Nat) : layered [] (below + 1) = none :: layered [] below := rfl

@[simp] theorem reduceOption_layered (stack : List Style) (below : Nat) :
    (layered stack below).reduceOption = stack := by
  simp [layered, List.reduceOption, List.filterMap_map]

theorem write_eq_of_fits (below : Nat) (fit : fits stack.length ts = true) :
    write color stack ts = writeBalanced color (layered stack below) ts := by
  -- braces that are text are opened outside all styles only, so they lie below the open styles
  induction ts generalizing stack below with
  | nil => rfl
  | cons token rest ih =>
    obtain ⟨st, rfl⟩ | rfl | rfl | ⟨c, brace, closing, rfl⟩ := token.cases_brace
    · have closed : closes 0 rest = true := closes_of_fits fit (Nat.succ_pos _)
      rw [write, writeBalanced, if_pos closed, @ih (st :: stack) below fit, layered_cons]
    · simp only [fits_brace, Bool.and_eq_true, decide_eq_true_eq, List.length_eq_zero_iff] at fit
      obtain ⟨rfl, fit⟩ := fit
      rw [write_char (by decide), writeBalanced_brace, ih (below + 1) fit, layered_nil_succ]
    · cases stack with
      | nil =>
        cases below with
        | zero => exact congrArg _ (@ih [] 0 fit)
        | succ below => exact congrArg _ (@ih [] below fit)
      | cons st outer => simp [@ih outer below fit]
    · rw [fits_char brace closing] at fit
      rw [write_char closing, writeBalanced_char brace closing, ih below fit]

/-- A brace that is text inside a style is closed before the style is, and there the style is ended. -/
theorem write_ne_of_caught {front below : List (Option Style)} {st : Style} (caught : none ∈ front)
    (closed : closes front.length ts = true) :
    write true (front ++ some st :: below).reduceOption ts ≠
      writeBalanced true (front ++ some st :: below) ts := by
  induction ts generalizing front with
  | nil => cases closed
  | cons token rest ih =>
    obtain ⟨other, rfl⟩ | rfl | rfl | ⟨c, brace, closing, rfl⟩ := token.cases_brace
    · rw [write, writeBalanced]
      split
      · have later := @ih (some other :: front) (List.mem_cons_of_mem _ caught) closed
        exact fun same => later (List.append_cancel_left same)
      · simp [entering, escape, Token.text]
    · have later := @ih (none :: front) List.mem_cons_self closed
      rw [write_char (by decide), writeBalanced_brace]
      exact fun same => later (List.tail_eq_of_cons_eq same)
    · obtain _ | ⟨_ | inner, front⟩ := front
      · cases caught
      · -- the brace is text, but the style around it ends here
        obtain ⟨open_, outer, filled⟩ :
            ∃ open_ outer, (none :: front ++ some st :: below).reduceOption = open_ :: outer := by
          refine List.exists_cons_of_ne_nil fun empty => ?_
          simp [List.reduceOption_append, List.reduceOption_eq_nil_iff] at empty
        rw [filled]
        simp [leaving, reset, escape]
      · have later := @ih front (by simpa using caught) closed
        exact fun same => later (List.append_cancel_left same)
    · rw [closes_char brace closing] at closed
      rw [write_char closing, writeBalanced_char brace closing]
      exact fun same => ih caught closed (List.tail_eq_of_cons_eq same)

theorem fits_of_write_eq {below : Nat} (closed : ∀ depth < stack.length, closes depth ts = true)
    (same : write true stack ts = writeBalanced true (layered stack below) ts) :
    fits stack.length ts = true := by
  -- as long as the two agree, every opening was closed and no brace was opened inside a style
  induction ts generalizing stack below with
  | nil =>
    cases stack with
    | nil => rfl
    | cons st outer => cases closed 0 (Nat.succ_pos _)
  | cons token rest ih =>
    obtain ⟨st, rfl⟩ | rfl | rfl | ⟨c, brace, closing, rfl⟩ := token.cases_brace
    · rw [write, writeBalanced] at same
      split at same
      · rename_i own
        refine @ih (st :: stack) below (fun depth inside => ?_) (List.append_cancel_left same)
        cases depth with
        | zero => exact own
        | succ depth => exact closed depth (Nat.lt_of_succ_lt_succ inside)
      · simp [entering, escape, Token.text] at same
    · rw [write_char (by decide), writeBalanced_brace] at same
      cases stack with
      | nil => exact @ih [] (below + 1) (fun _ inside => nomatch inside) (List.tail_eq_of_cons_eq same)
      | cons st outer =>
        have caught : write true ([none] ++ some st :: layered outer below).reduceOption rest ≠
            writeBalanced true ([none] ++ some st :: layered outer below) rest :=
          write_ne_of_caught (List.mem_singleton_self none) (closed 0 (Nat.succ_pos _))
        exact absurd (List.tail_eq_of_cons_eq same) (by simpa using caught)
    · cases stack with
      | nil =>
        cases below with
        | zero => exact @ih [] 0 (fun _ inside => nomatch inside) (List.tail_eq_of_cons_eq same)
        | succ below => exact @ih [] below (fun _ inside => nomatch inside) (List.tail_eq_of_cons_eq same)
      | cons st outer =>
        refine @ih outer below (fun depth inside => closed (depth + 1) (Nat.succ_lt_succ inside)) ?_
        rw [write_closing, layered_cons, writeBalanced_closing_some, reduceOption_layered] at same
        exact List.append_cancel_left same
    · rw [write_char closing, writeBalanced_char brace closing] at same
      rw [fits_char brace closing]
      refine ih (fun depth inside => ?_) (List.tail_eq_of_cons_eq same)
      rw [← closes_char brace closing]
      exact closed depth inside

def effect? (s : List Char) : Option (Option Style) :=
  if reset.isPrefixOf s then some none
  else (Style.all.find? fun st => (escape st.code).isPrefixOf s).map some

/-- The styles that a terminal shows behind a text, the last one first, when it starts with some. -/
def shownAfter (shown : List Style) : List Char → List Style
  | [] => shown
  | c :: rest =>
    match effect? (c :: rest) with
    | some none => shownAfter [] rest
    | some (some st) => shownAfter (st :: shown) rest
    | none => shownAfter shown rest

theorem effect?_plain {c : Char} (plain : c ≠ '\x1b') (rest : List Char) : effect? (c :: rest) = none := by
  have other : ∀ n, (escape n).isPrefixOf (c :: rest) = false := fun n => by
    simp [escape, List.isPrefixOf, plain.symm]
  simp [effect?, reset, other]

theorem shownAfter_plain {shown : List Style} {part : List Char} (plain : '\x1b' ∉ part) (rest : List Char) :
    shownAfter shown (part ++ rest) = shownAfter shown rest := by
  induction part with
  | nil => rfl
  | cons c part ih =>
    rw [List.mem_cons, not_or] at plain
    rw [List.cons_append, shownAfter, effect?_plain (Ne.symm plain.1), ih plain.2]

theorem shownAfter_escape (shown : List Style) (st : Style) (rest : List Char) :
    shownAfter shown (escape st.code ++ rest) = shownAfter (st :: shown) rest := by
  cases st <;> rfl

theorem shownAfter_reset (shown : List Style) (rest : List Char) :
    shownAfter shown (reset ++ rest) = shownAfter [] rest := rfl

theorem shownAfter_escapes (shown stack : List Style) (rest : List Char) :
    shownAfter shown (stack.flatMap (fun st => escape st.code) ++ rest) =
      shownAfter (stack.reverse ++ shown) rest := by
  induction stack generalizing shown with
  | nil => rfl
  | cons st stack ih => simp [shownAfter_escape, ih]

theorem shownAfter_leaving (shown outer : List Style) (rest : List Char) :
    shownAfter shown (leaving true outer ++ rest) = shownAfter outer rest := by
  rw [leaving, if_pos rfl, List.append_assoc, shownAfter_reset, shownAfter_escapes, List.reverse_reverse,
    List.append_nil]

theorem opening_plain (st : Style) : '\x1b' ∉ (Token.opening st).text := by
  cases st <;> decide

def leftOpen (stack : List Style) : List Token → List Style
  | [] => stack
  | .opening st :: rest => leftOpen (st :: stack) rest
  | .char c :: rest => leftOpen (if c = '\x7d' then stack.tail else stack) rest

theorem shownAfter_char {c : Char} (plain : '\x1b' ≠ c) (shown : List Style) (rest : List Char) :
    shownAfter shown (c :: rest) = shownAfter shown rest := by
  have alone : '\x1b' ∉ [c] := by simpa using plain
  exact shownAfter_plain alone rest

theorem shownAfter_write (plain : .char '\x1b' ∉ ts) :
    shownAfter stack (write true stack ts) = leftOpen stack ts := by
  induction ts generalizing stack with
  | nil => rfl
  | cons token rest ih =>
    obtain ⟨first, others⟩ := not_or.mp (List.mem_cons.not.mp plain)
    have ih := fun stack => @ih stack others
    cases token with
    | opening st => rw [write, entering, if_pos rfl, shownAfter_escape, ih, leftOpen]
    | char c =>
      have first : '\x1b' ≠ c := fun same => first (congrArg Token.char same)
      rw [leftOpen]
      split
      · rename_i closing
        subst closing
        cases stack with
        | nil => exact (shownAfter_char first _ _).trans (ih [])
        | cons st outer => exact (shownAfter_leaving _ _ _).trans (ih outer)
      · rename_i other
        rw [write_char other, shownAfter_char first, ih]

def Enclosed (braces : List (Option Style)) (ts : List Token) : Prop :=
  ∀ front st below, braces = front ++ some st :: below → closes front.length ts = true

theorem Enclosed.reduceOption_eq_nil (enclosed : Enclosed braces []) : braces.reduceOption = [] := by
  by_contra filled
  obtain ⟨st, inside⟩ := List.exists_mem_of_ne_nil _ filled
  obtain ⟨front, below, whole⟩ := List.append_of_mem (List.reduceOption_mem_iff.mp inside)
  cases enclosed front st below whole

theorem Enclosed.push {token : Token} {b : Option Style} (enclosed : Enclosed braces (token :: ts))
    (opens : ∀ depth, closes depth (token :: ts) = closes (depth + 1) ts)
    (own : b ≠ none → closes 0 ts = true) : Enclosed (b :: braces) ts := by
  intro front st below whole
  cases front with
  | nil =>
    cases whole
    exact own (Option.some_ne_none st)
  | cons top front =>
    cases whole
    exact (opens _).symm.trans (enclosed front st below rfl)

theorem Enclosed.pop {b : Option Style} (enclosed : Enclosed (b :: braces) (.char '\x7d' :: ts)) :
    Enclosed braces ts :=
  fun front st below whole => enclosed (b :: front) st below (by rw [whole, List.cons_append])

theorem shownAfter_writeBalanced (plain : .char '\x1b' ∉ ts) (enclosed : Enclosed braces ts) :
    shownAfter braces.reduceOption (writeBalanced true braces ts) = [] := by
  induction ts generalizing braces with
  | nil => exact enclosed.reduceOption_eq_nil
  | cons token rest ih =>
    obtain ⟨first, others⟩ := not_or.mp (List.mem_cons.not.mp plain)
    have ih := fun braces => @ih braces others
    obtain ⟨st, rfl⟩ | rfl | rfl | ⟨c, brace, closing, rfl⟩ := token.cases_brace
    · rw [writeBalanced]
      split
      · rename_i own
        rw [entering, if_pos rfl, shownAfter_escape]
        exact ih (some st :: braces) (enclosed.push (fun _ => rfl) fun _ => own)
      · rw [shownAfter_plain (opening_plain st)]
        exact ih (none :: braces) (enclosed.push (fun _ => rfl) fun text => absurd rfl text)
    · rw [writeBalanced_brace, shownAfter_char (by decide)]
      exact ih (none :: braces) (enclosed.push (fun _ => rfl) fun text => absurd rfl text)
    · obtain _ | ⟨_ | st, outer⟩ := braces
      · exact (shownAfter_char (by decide) _ _).trans (ih [] fun _ _ _ whole => by simp at whole)
      · exact (shownAfter_char (by decide) _ _).trans (ih outer enclosed.pop)
      · exact (shownAfter_leaving _ _ _).trans (ih outer enclosed.pop)
    · have first : '\x1b' ≠ c := fun same => first (congrArg Token.char same)
      rw [writeBalanced_char brace closing, shownAfter_char first]
      refine ih braces fun front st below whole => ?_
      rw [← closes_char brace closing]
      exact enclosed front st below whole

theorem mem_of_char_mem {s : String} {c : Char} (inside : .char c ∈ tokens s) : c ∈ s.toList := by
  have whole := tokensFrom_text 0 s.toList
  rw [List.drop_zero] at whole
  rw [← whole]
  exact List.mem_flatMap.mpr ⟨_, inside, List.mem_singleton_self c⟩

/-- A text is written with escapes as if only balanced markup counted if and only if each of its styles is
closed and no other brace is opened inside one; such a text is written so without escapes, too. Of a text
that brings no escapes of its own, a terminal shows no style at the end if only balanced markup counts; as
the text is written it shows those that were left open. -/
theorem render_eq_balanced_iff (s : String) :
    (render s true = balanced s true ↔ fits 0 (tokens s) = true) ∧
      (fits 0 (tokens s) = true → render s false = balanced s false) ∧
      ('\x1b' ∉ s.toList → shownAfter [] (balanced s true).toList = [] ∧
        shownAfter [] (render s true).toList = leftOpen [] (tokens s)) := by
  have written : ∀ color, (render s color).toList = write color [] (tokens s) := fun color => by
    rw [render, String.toList_ofList, renderFrom_eq_write, tokens]
  have spelled : ∀ color, (balanced s color).toList = writeBalanced color [] (tokens s) := fun color => by
    rw [balanced, String.toList_ofList]
  have same : ∀ color, render s color = balanced s color ↔
      write color [] (tokens s) = writeBalanced color [] (tokens s) := fun color => by
    rw [← String.toList_inj, written, spelled]
  refine ⟨⟨fun equal => ?_, fun fit => ?_⟩, fun fit => ?_, fun plain => ?_⟩
  · exact @fits_of_write_eq _ [] 0 (fun _ inside => nomatch inside) ((same true).mp equal)
  · exact (same true).mpr (@write_eq_of_fits _ _ [] 0 fit)
  · exact (same false).mpr (@write_eq_of_fits _ _ [] 0 fit)
  · have clean : .char '\x1b' ∉ tokens s := fun inside => plain (mem_of_char_mem inside)
    have bare : Enclosed [] (tokens s) := fun front _ _ whole => by cases front <;> cases whole
    rw [written, spelled]
    exact ⟨shownAfter_writeBalanced clean bare, shownAfter_write clean⟩

theorem render_eq_balanced_iff_wrote :
    fits 0 (tokens "$Bold\x7b$Green\x7bwrote\x7d\x7d a.ts") = true ∧
      '\x1b' ∉ "$Bold\x7b$Green\x7bwrote\x7d\x7d a.ts".toList ∧
      render "$Bold\x7b$Green\x7bwrote\x7d\x7d a.ts" false = "wrote a.ts" ∧
      shownAfter [] (render "$Bold\x7b$Green\x7bwrote\x7d\x7d a.ts" true).toList = [] := by
  have fit : fits 0 (tokens "$Bold\x7b$Green\x7bwrote\x7d\x7d a.ts") = true := by decide
  have plain : '\x1b' ∉ "$Bold\x7b$Green\x7bwrote\x7d\x7d a.ts".toList := by decide
  obtain ⟨_, silent, shown⟩ := render_eq_balanced_iff "$Bold\x7b$Green\x7bwrote\x7d\x7d a.ts"
  refine ⟨fit, plain, (silent fit).trans ?_, (shown plain).2.trans ?_⟩
  · decide
  · decide

/-- A style that is not closed is not left as it is, and it colors what is printed next. -/
theorem render_unclosed :
    render "$Red\x7bx" true = "\x1b[31mx" ∧ balanced "$Red\x7bx" true = "$Red\x7bx" ∧
      shownAfter [] (render "$Red\x7bx" true).toList = [.red] ∧
      render "$Red\x7ba\x7bb\x7dc\x7d" false = "a\x7bbc\x7d" ∧
      balanced "$Red\x7ba\x7bb\x7dc\x7d" false = "a\x7bb\x7dc" := by
  decide

end Typesmith.Console
