import Typesmith.Model.Render
import Typesmith.Proofs.Execution
import Typesmith.Proofs.Names

namespace Typesmith.Text

/-- What a place in a type expression is in. -/
inductive Zone where
  | code | slash | quoted | escaped | comment | star
  deriving DecidableEq

/-- A place in a type expression: what it is in, and how many brackets around it are open. -/
structure Place where
  zone : Zone := .code
  depth : Nat := 0
  deriving DecidableEq

def isOpening (c : Char) : Bool :=
  c = '(' || c = '[' || c = '\x7b' || c = '<'

def isClosing (c : Char) : Bool :=
  c = ')' || c = ']' || c = '\x7d' || c = '>'

namespace Place

def inCode (depth : Nat) (c : Char) : Place :=
  if c = '"' then ⟨.quoted, depth⟩
  else if c = '/' then ⟨.slash, depth⟩
  else if isOpening c then ⟨.code, depth + 1⟩
  else if isClosing c then ⟨.code, depth - 1⟩
  else ⟨.code, depth⟩

def next (p : Place) (c : Char) : Place :=
  match p.zone with
  | .code => inCode p.depth c
  | .slash => if c = '*' then ⟨.comment, p.depth⟩ else inCode p.depth c
  | .quoted =>
    if c = '"' then ⟨.code, p.depth⟩ else if c = '\\' then ⟨.escaped, p.depth⟩ else p
  | .escaped => ⟨.quoted, p.depth⟩
  | .comment => if c = '*' then ⟨.star, p.depth⟩ else p
  | .star => if c = '/' then ⟨.code, p.depth⟩ else if c = '*' then p else ⟨.comment, p.depth⟩

def behind (p : Place) (s : List Char) : Place :=
  s.foldl next p

@[simp] theorem behind_nil (p : Place) : p.behind [] = p := rfl

@[simp] theorem behind_cons (p : Place) (c : Char) (s : List Char) :
    p.behind (c :: s) = (p.next c).behind s := rfl

@[simp] theorem behind_append (p : Place) (s t : List Char) : p.behind (s ++ t) = (p.behind s).behind t :=
  List.foldl_append

end Place

/-- The pieces of a text between the bars that are outside of all brackets, strings and comments. -/
def piecesFrom (p : Place) : List Char → List (List Char)
  | [] => [[]]
  | c :: rest =>
    if c = '|' ∧ p = {} then [] :: piecesFrom {} rest
    else match piecesFrom (p.next c) rest with
      | [] => [[c]]
      | piece :: pieces => (c :: piece) :: pieces

def unionMembers (expr : String) : List String :=
  (piecesFrom {} expr.toList).map fun piece => trim (String.ofList piece)

theorem piecesFrom_ne_nil (p : Place) (s : List Char) : piecesFrom p s ≠ [] := by
  cases s with
  | nil => exact List.cons_ne_nil _ _
  | cons c rest =>
    rw [piecesFrom]
    split
    · exact List.cons_ne_nil _ _
    · split <;> exact List.cons_ne_nil _ _

theorem piecesFrom_append {p : Place} {s : List Char} (outside : p.behind s = {}) (rest : List Char) :
    piecesFrom p (s ++ '|' :: rest) = piecesFrom p s ++ piecesFrom {} rest := by
  induction s generalizing p with
  | nil =>
    rw [Place.behind_nil] at outside
    simp [piecesFrom, outside]
  | cons c s ih =>
    rw [List.cons_append, piecesFrom, piecesFrom]
    split
    · rename_i bar
      have bar' : Place.next {} '|' = {} := rfl
      rw [Place.behind_cons, bar.2, bar.1, bar'] at outside
      rw [ih outside, List.cons_append]
    · rw [ih outside]
      cases pieces : piecesFrom (p.next c) s with
      | nil => exact absurd pieces (piecesFrom_ne_nil _ _)
      | cons piece pieces => rfl

/-- A text after which nothing is open that was not open before. -/
def Closed (s : List Char) : Prop :=
  ∀ depth, Place.behind ⟨.code, depth⟩ s = ⟨.code, depth⟩

/-- A character that opens and closes nothing. -/
def isQuiet (c : Char) : Bool :=
  c ≠ '"' && c ≠ '/' && !isOpening c && !isClosing c

section closed

variable {s t : List Char}

theorem closed_nil : Closed [] :=
  fun _ => rfl

theorem Closed.append (first : Closed s) (second : Closed t) : Closed (s ++ t) := fun depth => by
  rw [Place.behind_append, first, second]

theorem closed_quiet (quiet : ∀ c ∈ s, isQuiet c = true) : Closed s := by
  intro depth
  induction s with
  | nil => rfl
  | cons c rest ih =>
    have step : Place.next ⟨.code, depth⟩ c = ⟨.code, depth⟩ := by
      have own := quiet c List.mem_cons_self
      simp only [isQuiet, Bool.and_eq_true, decide_eq_true_eq, Bool.not_eq_true'] at own
      simp [Place.next, Place.inCode, own]
    rw [Place.behind_cons, step, ih fun d inside => quiet d (List.mem_cons_of_mem _ inside)]

theorem closed_literal (quiet : s.all isQuiet = true) : Closed s :=
  closed_quiet (List.all_eq_true.mp quiet)

theorem Closed.between {left right : Char} (closed : Closed s)
    (opens : ∀ depth, Place.inCode depth left = ⟨.code, depth + 1⟩)
    (closes : ∀ depth, Place.inCode (depth + 1) right = ⟨.code, depth⟩) :
    Closed (left :: (s ++ [right])) := by
  intro depth
  rw [Place.behind_cons, Place.next, opens, Place.behind_append, closed, Place.behind_cons, Place.next,
    closes, Place.behind_nil]

theorem Closed.parens (closed : Closed s) : Closed ('(' :: (s ++ [')'])) :=
  closed.between (fun _ => rfl) fun _ => rfl

theorem Closed.square (closed : Closed s) : Closed ('[' :: (s ++ [']'])) :=
  closed.between (fun _ => rfl) fun _ => rfl

theorem Closed.braces (closed : Closed s) : Closed ('\x7b' :: (s ++ ['\x7d'])) :=
  closed.between (fun _ => rfl) fun _ => rfl

theorem closed_join {sep : String} (between : Closed sep.toList) {texts : List String}
    (each : ∀ text ∈ texts, Closed text.toList) : Closed (join sep texts).toList := by
  induction texts with
  | nil => exact closed_nil
  | cons first rest ih =>
    have later := ih fun text inside => each text (List.mem_cons_of_mem _ inside)
    have own := each first List.mem_cons_self
    cases rest with
    | nil => exact own
    | cons second rest =>
      have joined : (join sep (first :: second :: rest)).toList =
          first.toList ++ sep.toList ++ (join sep (second :: rest)).toList := by
        simp [join]
      rw [joined]
      exact (own.append between).append later

theorem null_mem_unionMembers {expr : String} (closed : Closed expr.toList) :
    "null" ∈ unionMembers (expr ++ " | null") := by
  have split : (expr ++ " | null").toList = (expr.toList ++ [' ']) ++ '|' :: " null".toList := by
    rw [String.toList_append, List.append_assoc]
    rfl
  have outside : Place.behind {} (expr.toList ++ [' ']) = {} := by
    rw [Place.behind_append, closed 0]
    rfl
  rw [unionMembers, split, piecesFrom_append outside, List.map_append]
  exact List.mem_append_right _ (by decide)

end closed

section quoted

variable {depth : Nat} {s : List Char}

theorem behind_quoted (plain : ∀ c ∈ s, c ≠ '"' ∧ c ≠ '\\') :
    Place.behind ⟨.quoted, depth⟩ s = ⟨.quoted, depth⟩ := by
  induction s with
  | nil => rfl
  | cons c rest ih =>
    obtain ⟨quote, backslash⟩ := plain c List.mem_cons_self
    rw [Place.behind_cons, Place.next, if_neg quote, if_neg backslash]
    exact ih fun d inside => plain d (List.mem_cons_of_mem _ inside)

theorem behind_escape (c : Char) (plain : ∀ c ∈ s, c ≠ '"' ∧ c ≠ '\\') :
    Place.behind ⟨.quoted, depth⟩ ('\\' :: c :: s) = ⟨.quoted, depth⟩ := by
  change Place.behind ⟨.quoted, depth⟩ s = ⟨.quoted, depth⟩
  exact behind_quoted plain

theorem mem_hexPadded {width n : Nat} {c : Char} (inside : c ∈ hexPadded width n) :
    ∃ d : Fin 16, c = hexDigit d := by
  induction width generalizing n with
  | zero => cases inside
  | succ width ih =>
    rcases List.mem_append.mp inside with front | last
    · exact ih front
    · exact ⟨⟨n % 16, Nat.mod_lt _ (by decide)⟩, List.mem_singleton.mp last⟩

theorem hexPadded_plain (width n : Nat) : ∀ c ∈ hexPadded width n, c ≠ '"' ∧ c ≠ '\\' := by
  have digits : ∀ d : Fin 16, hexDigit d ≠ '"' ∧ hexDigit d ≠ '\\' := by decide
  intro c inside
  obtain ⟨d, rfl⟩ := mem_hexPadded inside
  exact digits d

theorem behind_flatMap {write : Char → List Char}
    (each : ∀ c, Place.behind ⟨.quoted, depth⟩ (write c) = ⟨.quoted, depth⟩) (s : List Char) :
    Place.behind ⟨.quoted, depth⟩ (s.flatMap write) = ⟨.quoted, depth⟩ := by
  induction s with
  | nil => rfl
  | cons c rest ih => rw [List.flatMap_cons, Place.behind_append, each, ih]

theorem closed_quoted {write : Char → List Char}
    (each : ∀ depth c, Place.behind ⟨.quoted, depth⟩ (write c) = ⟨.quoted, depth⟩) (s : List Char) :
    Closed ('"' :: (s.flatMap write ++ ['"'])) := by
  intro depth
  rw [Place.behind_cons, Place.behind_append]
  exact congrArg (Place.behind · ['"']) (behind_flatMap (each depth) s)

theorem closed_quote (s : String) : Closed (quote s).toList := by
  rw [quote, String.toList_ofList]
  refine closed_quoted (fun depth c => ?_) s.toList
  unfold quoteChar
  split
  · rfl
  · split
    · rfl
    · rename_i quote backslash
      split
      · exact behind_quoted (by simp [quote, backslash])
      · split
        all_goals first | rfl | skip
        split
        · exact behind_escape _ (hexPadded_plain _ _)
        · split <;> exact behind_escape _ (hexPadded_plain _ _)

end quoted

end Typesmith.Text

namespace Typesmith.Naming

open Text

theorem quiet_isIdentPart {c : Char} (part : isIdentPart c = true) : isQuiet c = true := by
  have apart : ∀ d ∈ ['"', '/', '(', '[', '\x7b', '<', ')', ']', '\x7d', '>'], c ≠ d := by
    rintro d special rfl
    have none : ['"', '/', '(', '[', '\x7b', '<', ')', ']', '\x7d', '>'].all (!isIdentPart ·) = true := by
      decide
    have own := List.all_eq_true.mp none c special
    rw [part] at own
    cases own
  simp only [List.mem_cons, List.not_mem_nil, or_false, forall_eq_or_imp, forall_eq] at apart
  simp [isQuiet, isOpening, isClosing, apart]

theorem closed_identifier {name : String} (identifier : isIdentifier name = true) :
    Closed name.toList :=
  closed_quiet fun _ inside => quiet_isIdentPart (isIdentPart_of_isIdentifier identifier inside)

theorem closed_propertyKey (name : String) : Closed (propertyKey name).toList := by
  unfold propertyKey
  split
  · exact closed_identifier ‹_›
  · exact closed_quote name

end Typesmith.Naming

namespace Typesmith.Json

open Text

theorem closed_quoteString (s : String) : Closed (quoteString s) := by
  refine closed_quoted (fun depth c => ?_) s.toList
  unfold escapeChar
  repeat' split
  all_goals first | rfl | skip
  · exact behind_escape _ (hexPadded_plain _ _)
  · exact behind_quoted (by simp [*])

theorem quiet_decimal (n : Nat) : ∀ c ∈ decimal n, isQuiet c = true := by
  intro c inside
  have digit := Nat.isDigit_of_mem_toDigits (by decide) (by decide) inside
  exact Naming.quiet_isIdentPart (plainChar (isPlain_of_isDigit digit)).identifier

theorem quiet_exponent (layout : Decimal.Layout) (e : Int) : ∀ c ∈ layout.exponent e, isQuiet c = true := by
  have mark : isQuiet (if e < 0 then '-' else '+') = true := by split <;> rfl
  have digits := quiet_decimal e.natAbs
  unfold Decimal.Layout.exponent
  dsimp only
  split <;> simp only [List.forall_mem_cons]
  · exact ⟨rfl, mark, rfl, digits⟩
  · exact ⟨rfl, mark, digits⟩

theorem quiet_number (layout : Decimal.Layout) (n : Decimal) : ∀ c ∈ layout.write n, isQuiet c = true := by
  have sign : ∀ c ∈ (if n.negative then ['-'] else []), isQuiet c = true := by
    split <;> exact List.all_eq_true.mp rfl
  have zeros : ∀ k, ∀ c ∈ List.replicate k '0', isQuiet c = true := fun k c inside => by
    rw [List.eq_of_mem_replicate inside]
    rfl
  have digits := quiet_decimal n.digits
  unfold Decimal.Layout.write
  dsimp only
  split
  · exact List.forall_mem_append.mpr ⟨sign, List.all_eq_true.mp rfl⟩
  · split
    · split
      · simp only [List.forall_mem_append, List.forall_mem_cons]
        exact ⟨sign, rfl, rfl, zeros _, digits⟩
      · split
        · simp only [List.forall_mem_append]
          exact ⟨⟨sign, digits⟩, zeros _⟩
        · simp only [List.forall_mem_append, List.forall_mem_cons]
          exact ⟨⟨sign, fun c inside => digits c (List.mem_of_mem_take inside)⟩, rfl,
            fun c inside => digits c (List.mem_of_mem_drop inside)⟩
    · split
      · exact sign
      · rename_i only
        rw [only] at digits
        simp only [List.forall_mem_append, List.forall_mem_cons]
        exact ⟨sign, digits _ List.mem_cons_self, quiet_exponent layout _⟩
      · rename_i several
        rw [several, List.forall_mem_cons] at digits
        simp only [List.forall_mem_append, List.forall_mem_cons]
        exact ⟨⟨sign, digits.1, rfl, digits.2⟩, quiet_exponent layout _⟩

mutual

theorem closed_write (layout : Decimal.Layout) : (j : Json) → Closed (write layout j)
  | .null => closed_literal (s := ['n', 'u', 'l', 'l']) rfl
  | .bool true => closed_literal (s := ['t', 'r', 'u', 'e']) rfl
  | .bool false => closed_literal (s := ['f', 'a', 'l', 's', 'e']) rfl
  | .num n => closed_quiet (quiet_number layout n)
  | .str s => closed_quoteString s
  | .arr items => (closed_writeItems layout items).square
  | .obj fields => (closed_writeFields layout fields).braces

theorem closed_writeItems (layout : Decimal.Layout) : (items : List Json) → Closed (writeItems layout items)
  | [] => closed_nil
  | [j] => closed_write layout j
  | j :: k :: rest =>
    (closed_write layout j).append ((closed_literal (s := [',']) rfl).append
      (closed_writeItems layout (k :: rest)))

theorem closed_writeFields (layout : Decimal.Layout) :
    (fields : List (String × Json)) → Closed (writeFields layout fields)
  | [] => closed_nil
  | [(key, j)] =>
    (closed_quoteString key).append ((closed_literal (s := [':']) rfl).append (closed_write layout j))
  | (key, j) :: field :: rest =>
    (closed_quoteString key).append ((closed_literal (s := [':']) rfl).append
      ((closed_write layout j).append ((closed_literal (s := [',']) rfl).append
        (closed_writeFields layout (field :: rest)))))

end

theorem closed_compact (j : Json) : Closed j.compact.toList := by
  rw [compact, String.toList_ofList]
  exact closed_write numbers j

end Typesmith.Json

namespace Typesmith.Model

open Text

/-- What stands in a comment does not end it: a star is never followed by a slash. -/
theorem behind_escapeComment (depth : Nat) (s : List Char) {zone : Zone}
    (inside : zone = .comment ∨ zone = .star ∧ s.head? ≠ some '/') :
    Place.behind ⟨zone, depth⟩ (escapeComment s) = ⟨.comment, depth⟩ ∨
      Place.behind ⟨zone, depth⟩ (escapeComment s) = ⟨.star, depth⟩ := by
  induction s using escapeComment.induct generalizing zone with
  | case1 rest ih =>
    have broken : Place.behind ⟨zone, depth⟩ (escapeComment ('*' :: '/' :: rest)) =
        Place.behind ⟨.comment, depth⟩ (escapeComment rest) := by
      rcases inside with rfl | ⟨rfl, _⟩ <;> rfl
    rw [broken]
    exact ih (.inl rfl)
  | case2 c rest apart ih =>
    have kept : escapeComment (c :: rest) = c :: escapeComment rest := by
      rw [escapeComment]
      exact apart
    rw [kept, Place.behind_cons]
    by_cases star : c = '*'
    · have next : Place.next ⟨zone, depth⟩ c = ⟨.star, depth⟩ := by
        rcases inside with rfl | ⟨rfl, _⟩ <;> rw [star] <;> rfl
      rw [next]
      refine ih (.inr ⟨rfl, fun slash => ?_⟩)
      cases rest with
      | nil => cases slash
      | cons d rest =>
        cases slash
        exact apart rest star rfl
    · have next : Place.next ⟨zone, depth⟩ c = ⟨.comment, depth⟩ := by
        rcases inside with rfl | ⟨rfl, other⟩
        · simp [Place.next, star]
        · have slash : c ≠ '/' := fun same => other (congrArg some same)
          simp [Place.next, slash, star]
      rw [next]
      exact ih (.inl rfl)
  | case3 =>
    rcases inside with rfl | ⟨rfl, _⟩
    · exact .inl rfl
    · exact .inr rfl

theorem closed_trailingComment (description : String) : Closed (trailingComment description).toList := by
  unfold trailingComment
  dsimp only
  split
  · exact closed_nil
  · rw [String.toList_ofList]
    intro depth
    rw [Place.behind_append, Place.behind_append]
    have opened : Place.behind ⟨.code, depth⟩ " /* ".toList = ⟨.comment, depth⟩ := rfl
    rw [opened]
    rcases behind_escapeComment depth _ (.inl rfl) with last | last <;> rw [last] <;> rfl

theorem closed_enumUnion (members : List Member) : Closed (enumUnion members).toList := by
  unfold enumUnion
  split
  · exact fun _ => rfl
  · refine closed_join (fun _ => rfl) fun text inside => ?_
    obtain ⟨m, _, rfl⟩ := List.mem_map.mp inside
    exact Json.closed_compact m.value

theorem closed_unionText {texts : List String} (each : ∀ text ∈ texts, Closed text.toList) :
    Closed (unionText texts).toList := by
  unfold unionText
  split
  · exact fun _ => rfl
  · exact closed_join (fun _ => rfl) fun text inside => each text (List.mem_eraseDups.mp inside)

section yields

variable {α β : Type} {P : α → Prop} {Q : β → Prop}

def Yields (P : α → Prop) (x : RenderM α) : Prop :=
  ∀ deps a later, x.run deps = .ok (a, later) → P a

theorem yields_pure {a : α} (own : P a) : Yields P (pure a) := by
  intro deps b later run
  cases run
  exact own

theorem yields_throw (e : Failure) : Yields P (throw e : RenderM α) := by
  intro deps a later run
  cases run

theorem Yields.bind {x : RenderM α} {f : α → RenderM β} (first : Yields P x)
    (rest : ∀ a, P a → Yields Q (f a)) : Yields Q (x >>= f) := by
  intro deps b later run
  rw [StateT.run_bind] at run
  obtain ⟨⟨a, middle⟩, one, two⟩ := except_bind_ok.mp run
  exact rest a (first deps a middle one) middle b later two

theorem Yields.map {x : RenderM α} (first : Yields P x) {f : α → β} (own : ∀ a, P a → Q (f a)) :
    Yields Q (do return f (← x)) :=
  first.bind fun a holds => yields_pure (own a holds)

theorem yields_mapM {f : α → RenderM β} {l : List α} (each : ∀ a ∈ l, Yields Q (f a)) :
    Yields (fun results => ∀ b ∈ results, Q b) (l.mapM f) := by
  induction l with
  | nil => exact yields_pure fun _ inside => nomatch inside
  | cons a rest ih =>
    rw [List.mapM_cons]
    refine (each a List.mem_cons_self).bind fun b own => ?_
    refine (ih fun c inside => each c (List.mem_cons_of_mem _ inside)).map fun results all => ?_
    exact List.forall_mem_cons.mpr ⟨own, all⟩

end yields

abbrev YieldsClosed (x : RenderM String) : Prop :=
  Yields (fun text => Closed text.toList) x

def Shape.Closed : Shape → Prop
  | .value token => Text.Closed token.toList
  | .external name => Text.Closed name.toList
  | .object sets _ => ∀ set ∈ sets, ∀ p ∈ set, p.isIndex = true → Text.Closed p.name.toList
  | _ => True

section inline

variable {inline : Inliner}

theorem closed_container {c : Container} (each : ∀ i ∈ c, YieldsClosed (inline i)) :
    YieldsClosed (inlineContainer inline c) :=
  (yields_mapM each).map fun _ all => closed_unionText all

theorem closed_member {p : Property} (own : p.isIndex = true → Text.Closed p.name.toList)
    (each : ∀ i, YieldsClosed (inline i)) : YieldsClosed (memberText inline p) := by
  refine (closed_container fun i _ => each i).bind fun types closed => ?_
  split
  · rename_i index
    refine yields_pure fun depth => ?_
    simp only [String.toList_append, Place.behind_append]
    have opened : Place.behind ⟨.code, depth⟩ "[".toList = ⟨.code, depth + 1⟩ := rfl
    have ended : Place.behind ⟨.code, depth + 1⟩ ": string]: ".toList = ⟨.code, depth⟩ := rfl
    rw [opened, own index, ended, closed]
    rfl
  · have readOnly : Text.Closed (if p.readOnly then "readonly " else "").toList := by
      split <;> exact fun _ => rfl
    have optional : Text.Closed (if p.required then "" else "?").toList := by
      split <;> exact fun _ => rfl
    refine yields_pure fun depth => ?_
    have colon : Place.behind ⟨.code, depth⟩ ": ".toList = ⟨.code, depth⟩ := rfl
    simp only [String.toList_append, Place.behind_append]
    rw [readOnly, Naming.closed_propertyKey, optional, colon, closed]
    rfl

theorem closed_set {set : List Property}
    (own : ∀ p ∈ set, p.isIndex = true → Text.Closed p.name.toList) (each : ∀ i, YieldsClosed (inline i)) :
    YieldsClosed (inlineSet inline set) := by
  unfold inlineSet
  split
  · exact yields_pure fun _ => rfl
  · refine (yields_mapM fun p listed => closed_member (own p listed) each).map fun texts all depth => ?_
    simp only [String.toList_append, Place.behind_append]
    have opened : Place.behind ⟨.code, depth⟩ "\x7b ".toList = ⟨.code, depth + 1⟩ := rfl
    rw [opened, closed_join (fun _ => rfl) all]
    rfl

theorem closed_object {sets : List (List Property)} {closed : Bool}
    (own : (Shape.object sets closed).Closed) (each : ∀ i, YieldsClosed (inline i)) :
    YieldsClosed (inlineObject inline sets closed) := by
  unfold inlineObject
  split
  · exact yields_pure fun _ => rfl
  · refine (yields_mapM fun set listed => closed_set (own set listed) each).map fun texts all => ?_
    exact closed_join (fun _ => rfl) all

theorem closed_array {items : List Container} (each : ∀ i, YieldsClosed (inline i)) :
    YieldsClosed (inlineArray inline items) := by
  unfold inlineArray
  split
  · exact yields_pure fun _ => rfl
  · have list : ∀ c ∈ items, YieldsClosed (do return "Array<" ++ (← inlineContainer inline c) ++ ">") := by
      refine fun c _ => (closed_container fun i _ => each i).map fun text closed depth => ?_
      simp only [String.toList_append, Place.behind_append]
      have opened : Place.behind ⟨.code, depth⟩ "Array<".toList = ⟨.code, depth + 1⟩ := rfl
      rw [opened, closed]
      rfl
    refine (yields_mapM list).map fun texts all => ?_
    exact closed_join (fun _ => rfl) fun text inside => all text (List.mem_eraseDups.mp inside)

theorem closed_branches (s : Store) (c : Fragment.Combinator) (own : String) (seen : List String)
    {branches : List Container} (each : ∀ i, YieldsClosed (inline i)) :
    Yields (fun texts => ∀ text ∈ texts, Text.Closed text.toList)
      (branchTexts s inline c own seen branches) := by
  induction branches generalizing seen with
  | nil => exact yields_pure fun _ inside => nomatch inside
  | cons branch rest ih =>
    refine (closed_container fun i _ => each i).bind fun text closed => ?_
    split
    · exact ih seen
    · refine (ih (text :: seen)).map fun texts all => List.forall_mem_cons.mpr ⟨?_, all⟩
      have shown : Text.Closed (if c = .allOf && 1 < branch.length then "(" ++ text ++ ")" else text).toList := by
        split
        · simpa using closed.parens
        · exact closed
      have remark : ∀ description, Text.Closed
          (if description = own then "" else trailingComment description).toList := by
        intro description
        split
        · exact fun _ => rfl
        · exact closed_trailingComment description
      rw [String.toList_append]
      exact shown.append (remark _)

theorem closed_someOf (s : Store) (d : Descriptor) {c : Fragment.Combinator} {branches : List Container}
    (each : ∀ i, YieldsClosed (inline i)) : YieldsClosed (inlineSomeOf s inline d c branches) := by
  refine (closed_branches s c _ [] each).bind fun texts all => ?_
  split
  · exact yields_pure fun _ => rfl
  · refine yields_pure (closed_join ?_ all)
    split <;> exact fun _ => rfl

theorem closed_generic {cases : List (String × Container)} (each : ∀ i, YieldsClosed (inline i)) :
    YieldsClosed (inlineGeneric inline cases) :=
  (yields_mapM fun _ _ => closed_container fun i _ => each i).map fun _ all => closed_unionText all

/-- What is written where a descriptor of the store is used is closed. -/
structure Bracketed (s : Store) : Prop where
  names : ∀ i d, s.get? i = some d → Text.Closed d.name.toList
  shapes : ∀ i d, s.get? i = some d → d.shape.Closed

theorem closed_reference {i : Id} {d : Descriptor} (own : Text.Closed d.name.toList) :
    YieldsClosed (reference i d) := by
  intro deps text later run
  cases run
  exact own

theorem Bracketed.closed_inlineDepth {s : Store} (bracketed : Bracketed s) (cfg : Setting) (depth : Nat) (i : Id) :
    YieldsClosed (inlineDepth cfg s depth i) := by
  induction depth generalizing i with
  | zero => exact yields_throw _
  | succ depth ih =>
    change YieldsClosed (inlineWith cfg s (inlineDepth cfg s depth) i)
    unfold inlineWith fetch
    cases found : s.get? i with
    | none => exact yields_throw _
    | some d =>
      have named := closed_reference (i := i) (bracketed.names i d found)
      have own := bracketed.shapes i d found
      dsimp only
      rw [pure_bind]
      cases shape : d.shape <;> rw [shape] at own <;> dsimp only
      case external => exact yields_pure own
      case enum members =>
        split
        · exact yields_pure (closed_enumUnion members)
        · exact named
      all_goals split
      all_goals first | exact named | skip
      case value.isFalse => exact yields_pure own
      case array.isFalse => exact closed_array ih
      case someOf.isFalse => exact closed_someOf s d ih
      case generic.isFalse => exact closed_generic ih
      case object.isFalse => exact closed_object own ih

end inline

end Typesmith.Model
