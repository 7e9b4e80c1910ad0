import Typesmith.Yaml.Token

namespace Typesmith.Yaml

inductive Piece where
  | char (c : Char)
  | blank (c : Char)
  | lineEnd (c : Char)
  | join
  deriving DecidableEq, Repr

/-- What is held back while blanks and line ends are read. -/
inductive Held where
  | nothing
  | blanks (cs : List Char)
  /-- A first line end, if it counts, and the later ones, last first. -/
  | breaks (first : Option Char) (later : List Char)
  deriving Repr

def Held.text : Held → List Char
  | nothing => []
  | blanks cs => cs.reverse
  | breaks (some '\n') [] => [' ']
  | breaks (some '\n') later => later.reverse
  | breaks (some c) later => c :: later.reverse
  | breaks none later => later.reverse

def Held.blank (c : Char) : Held → Held
  | nothing => blanks [c]
  | blanks cs => blanks (c :: cs)
  | breaks first later => breaks first later

def Held.lineEnd (c : Char) : Held → Held
  | breaks first later => breaks first (c :: later)
  | _ => breaks (some c) []

/-- The text of some pieces; `whole` says whether what is held back at the end belongs to it. -/
def foldPieces (whole : Bool) : Held → List Piece → List Char
  | held, [] => if whole then held.text else []
  | held, .char c :: rest => held.text ++ c :: foldPieces whole .nothing rest
  | held, .blank c :: rest => foldPieces whole (held.blank c) rest
  | held, .lineEnd c :: rest => foldPieces whole (held.lineEnd c) rest
  | held, .join :: rest => held.text ++ foldPieces whole (.breaks none []) rest

def gapPiece (c : Char) : Piece :=
  if isBreak c then .lineEnd c else .blank c

def after (c : Char) (column : Nat) : Nat :=
  if isBreak c then 0 else column + 1

def singleQuoted (acc : List Piece) (column : Nat) : List Char → Option (List Piece × List Char)
  | [] => none
  | '\'' :: '\'' :: rest => singleQuoted (.char '\'' :: acc) (column + 2) rest
  | '\'' :: rest => some (acc.reverse, rest)
  | c :: rest =>
    if column = 0 && isBoundary (c :: rest) then none
    else
      let piece := if isBlank c || isBreak c then gapPiece c else .char c
      singleQuoted (piece :: acc) (after c column) rest

def escape? (c : Char) : Option Char :=
  match c with
  | '0' => some '\x00'
  | 'a' => some '\x07'
  | 'b' => some '\x08'
  | 't' => some '\t'
  | '\t' => some '\t'
  | 'n' => some '\n'
  | 'v' => some '\x0b'
  | 'f' => some '\x0c'
  | 'r' => some '\r'
  | 'e' => some '\x1b'
  | ' ' => some ' '
  | '"' => some '"'
  | '\'' => some '\''
  | '\\' => some '\\'
  | 'N' => some '\u0085'
  | '_' => some '\u00a0'
  | 'L' => some '\u2028'
  | 'P' => some '\u2029'
  | _ => none

def hexChar? (digits : List Char) : Option Char := do
  let values ← digits.mapM Text.hexValue?
  let n := values.foldl (fun n d => 16 * n + d) 0
  if (0xD800 ≤ n ∧ n < 0xE000) ∨ 0x10FFFF < n then none else some (Char.ofNat n)

def doubleQuoted (acc : List Piece) (column : Nat) : List Char → Option (List Piece × List Char)
  | [] => none
  | '"' :: rest => some (acc.reverse, rest)
  | '\\' :: 'x' :: a :: b :: rest => do
    let c ← hexChar? [a, b]
    doubleQuoted (.char c :: acc) (column + 4) rest
  | '\\' :: 'u' :: a :: b :: c :: d :: rest => do
    let c ← hexChar? [a, b, c, d]
    doubleQuoted (.char c :: acc) (column + 6) rest
  | '\\' :: 'U' :: a :: b :: c :: d :: e :: f :: g :: h :: rest => do
    let c ← hexChar? [a, b, c, d, e, f, g, h]
    doubleQuoted (.char c :: acc) (column + 10) rest
  | '\\' :: c :: rest =>
    if isBreak c then doubleQuoted (.join :: acc) 0 rest
    else do
      let e ← escape? c
      doubleQuoted (.char e :: acc) (column + 2) rest
  | c :: rest =>
    if column = 0 && isBoundary (c :: rest) then none
    else
      let piece := if isBlank c || isBreak c then gapPiece c else .char c
      doubleQuoted (piece :: acc) (after c column) rest

def isFlowMark (c : Char) : Bool :=
  [',', '?', '[', ']', '\x7b', '\x7d'].contains c

def plainStops (inFlow : Bool) (c : Char) (rest : List Char) : Bool :=
  (c == ':' && atGap rest) || (inFlow && isFlowMark c)

/-- Reads a text without quotes; `indent` is the least column of its lines. `gap` and `newLine` say
whether blanks, and among them a line end, were read last. The answer has the pieces, whether the
text ended on a line of its own, and the rest. -/
def plainPieces (inFlow : Bool) (indent : Nat) (acc : List Piece) (gap newLine : Bool)
    (column : Nat) : List Char → Option (List Piece × Bool × List Char)
  | [] => some (acc.reverse, newLine, [])
  | c :: rest =>
    if isBlank c || isBreak c then
      if newLine && c == '\t' && column < indent then none
      else
        plainPieces inFlow indent (gapPiece c :: acc) true (newLine || isBreak c) (after c column) rest
    else if gap && ((!inFlow && column < indent) || (column = 0 && isBoundary (c :: rest)) || c == '#') then
      some (acc.reverse, newLine, c :: rest)
    else if plainStops inFlow c rest then some (acc.reverse, newLine, c :: rest)
    else plainPieces inFlow indent (.char c :: acc) false false (column + 1) rest

inductive Chomp where
  | strip | clip | keep
  deriving DecidableEq, Repr

structure BlockHead where
  chomp : Chomp := .clip
  increment : Option Nat := none
  deriving Repr

def chomp? (c : Char) : Option Chomp :=
  if c = '-' then some .strip else if c = '+' then some .keep else none

def blockHead? : List Char → Option (BlockHead × List Char)
  | a :: b :: rest =>
    match chomp? a, chomp? b with
    | some c, _ =>
      if b = '0' then none
      else if b.isDigit then some (⟨c, some (b.toNat - 48)⟩, rest)
      else some (⟨c, none⟩, b :: rest)
    | none, d =>
      if a = '0' then none
      else if a.isDigit then
        match d with
        | some c => some (⟨c, some (a.toNat - 48)⟩, rest)
        | none => some (⟨.clip, some (a.toNat - 48)⟩, b :: rest)
      else some ({}, a :: b :: rest)
  | [a] =>
    match chomp? a with
    | some c => some (⟨c, none⟩, [])
    | none =>
      if a = '0' then none
      else if a.isDigit then some (⟨.clip, some (a.toNat - 48)⟩, [])
      else some ({}, [a])
  | [] => some ({}, [])

def lineRest? (s : List Char) : Option (List Char) :=
  let s := s.dropWhile isBlank
  let s := match s with
    | '#' :: _ => s.dropWhile fun c => !isBreak c
    | _ => s
  match s with
  | [] => some []
  | c :: rest => if isBreak c then some rest else none

def leadingLines (acc : List Char) (column widest : Nat) :
    List Char → Option (List Char × Nat × Nat × List Char)
  | [] => some (acc.reverse, max widest column, column, [])
  | c :: rest =>
    if c = ' ' then leadingLines acc (column + 1) widest rest
    else if c = '\t' then none
    else if isBreak c then leadingLines (c :: acc) 0 (max widest column) rest
    else some (acc.reverse, max widest column, column, c :: rest)

inductive BlockPiece where
  | char (c : Char)
  | lineEnd (c : Char)
  | emptyLine (c : Char)
  deriving DecidableEq, Repr

def blockPieces (indent : Nat) (acc : List BlockPiece) (inLine : Bool) (column : Nat) :
    List Char → Option (List BlockPiece × List Char)
  | [] => some (acc.reverse, [])
  | c :: rest =>
    if inLine then
      if isBreak c then blockPieces indent (.lineEnd c :: acc) false 0 rest
      else blockPieces indent (.char c :: acc) true (column + 1) rest
    else if c == ' ' && column < indent then blockPieces indent acc false (column + 1) rest
    else if c == '\t' && column < indent then none
    else if isBreak c then blockPieces indent (.emptyLine c :: acc) false 0 rest
    else if column = indent then blockPieces indent (.char c :: acc) true (column + 1) rest
    else some (acc.reverse, c :: rest)

structure BlockText where
  text : List Char := []
  lineEnd : Option Char := none
  empty : List Char := []
  blankStart : Bool := false
  fresh : Bool := true

/-- Takes the next piece. In a folded block a line end between two lines that start without a blank
becomes a blank, or nothing if empty lines follow. -/
def BlockText.add (folded : Bool) (b : BlockText) : BlockPiece → BlockText
  | .lineEnd c => { b with lineEnd := some c, fresh := true }
  | .emptyLine c => { b with empty := c :: b.empty }
  | .char c =>
    if b.fresh then
      let between : List Char :=
        if folded && !b.blankStart && !isBlank c && b.lineEnd == some '\n' then
          if b.empty.isEmpty then [' '] else []
        else b.lineEnd.toList
      { text := c :: (b.empty ++ (between ++ b.text)), blankStart := isBlank c, fresh := false }
    else { b with text := c :: b.text }

def BlockText.finish (chomp : Chomp) (b : BlockText) : List Char :=
  let tail : List Char := match chomp with
    | .strip => []
    | .clip => b.lineEnd.toList
    | .keep => b.lineEnd.toList ++ b.empty.reverse
  b.text.reverse ++ tail

/-- Reads a block behind its mark. `outer` is the column that it must be indented from, if there is
one. -/
def blockScalar (folded : Bool) (outer : Option Nat) (s : List Char) :
    Option (List Char × List Char) := do
  let (head, s) ← blockHead? s
  let s ← lineRest? s
  let (indent, lead, column, s) ← match head.increment with
    | some n => pure (outer.getD 0 + n, [], 0, s)
    | none => do
      let (lead, widest, column, s) ← leadingLines [] 0 0 s
      pure (max widest (max ((outer.map (· + 1)).getD 0) 1), lead, column, s)
  let (pieces, rest) ← blockPieces indent (lead.map .emptyLine).reverse false column s
  return ((pieces.foldl (BlockText.add folded) {}).finish head.chomp, rest)

end Typesmith.Yaml
