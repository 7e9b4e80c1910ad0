import Typesmith.Yaml.Scalar

namespace Typesmith.Yaml

structure Cursor where
  rest : List Char
  line : Nat := 0
  column : Nat := 0
  index : Nat := 0

namespace Cursor

def skip (c : Cursor) : Nat → Cursor
  | 0 => c
  | n + 1 =>
    match c.rest with
    | [] => c
    | x :: rest =>
      if isBreak x then skip ⟨rest, c.line + 1, 0, c.index + 1⟩ n
      else skip ⟨rest, c.line, c.column + 1, c.index + 1⟩ n

def moveTo (c : Cursor) (rest : List Char) : Cursor :=
  c.skip (c.rest.length - rest.length)

end Cursor

/-- Where a key without a mark may have started. -/
structure KeyStart where
  place : Nat
  line : Nat
  column : Nat
  index : Nat
  required : Bool
  deriving Repr

structure Lexer where
  cursor : Cursor
  /-- The indentation of the open blocks, innermost first. -/
  indents : List Nat := []
  start : Option KeyStart := none
  outer : List (Option KeyStart) := []
  keyAllowed : Bool := true
  /-- The tokens so far, last first, and their number. -/
  tokens : List Token := []
  count : Nat := 0

namespace Lexer

def inFlow (l : Lexer) : Bool :=
  !l.outer.isEmpty

def emit (l : Lexer) (t : Token) : Lexer :=
  { l with tokens := t :: l.tokens, count := l.count + 1 }

def insertAt (l : Lexer) (place : Nat) (t : Token) : Lexer :=
  let after := l.count - place
  { l with tokens := l.tokens.take after ++ t :: l.tokens.drop after, count := l.count + 1 }

def skip (l : Lexer) (n : Nat) : Lexer :=
  { l with cursor := l.cursor.skip n }

def moveTo (l : Lexer) (rest : List Char) : Lexer :=
  { l with cursor := l.cursor.moveTo rest }

def allowKey (l : Lexer) (b : Bool) : Lexer :=
  { l with keyAllowed := b }

def deeper (l : Lexer) (column : Nat) : Bool :=
  match l.indents with
  | [] => true
  | i :: _ => i < column

def openBlock (l : Lexer) (column place : Nat) (t : Token) : Lexer :=
  if !l.inFlow && l.deeper column then
    { l.insertAt place t with indents := column :: l.indents }
  else l

def closeBlocksBy (p : Nat → Bool) (l : Lexer) : List Nat → Lexer
  | [] => { l with indents := [] }
  | i :: rest => if p i then closeBlocksBy p (l.emit .blockEnd) rest else { l with indents := i :: rest }

def closeBlocks (l : Lexer) (column : Nat) : Lexer :=
  if l.inFlow then l else closeBlocksBy (fun i => decide (column < i)) l l.indents

def closeAll (l : Lexer) : Lexer :=
  if l.inFlow then l else closeBlocksBy (fun _ => true) l l.indents

def dropStart? (l : Lexer) : Option Lexer :=
  match l.start with
  | some k => if k.required then none else some { l with start := none }
  | none => some l

def inReach (l : Lexer) (k : KeyStart) : Bool :=
  l.cursor.line ≤ k.line && l.cursor.index ≤ k.index + 1024

def saveStart? (l : Lexer) : Option Lexer :=
  if l.keyAllowed then do
    let c := l.cursor
    let required := !l.inFlow && l.indents.head? == some c.column
    let l ← l.dropStart?
    return { l with start := some ⟨l.count, c.line, c.column, c.index, required⟩ }
  else some l

def dropStale? (l : Lexer) : Option Lexer :=
  match l.start with
  | some k => if l.inReach k then some l else l.dropStart?
  | none => some l

/-- Skips blanks, comments and line ends. A key may start on a new line, unless brackets are open. The
answer is the rest and whether a key may start there. -/
def gapRest (inFlow : Bool) (allowed comment : Bool) (column : Nat) : List Char → List Char × Bool
  | [] => ([], allowed)
  | c :: rest =>
    if isBreak c then gapRest inFlow (allowed || !inFlow) false 0 rest
    else if comment || c == ' ' || (c == '\t' && (inFlow || !allowed)) || (column == 0 && c == '\uFEFF') then
      gapRest inFlow allowed comment (column + 1) rest
    else if c == '#' then gapRest inFlow allowed true (column + 1) rest
    else (c :: rest, allowed)

def skipGap (l : Lexer) : Lexer :=
  let (rest, allowed) := gapRest l.inFlow l.keyAllowed false l.cursor.column l.cursor.rest
  { l.moveTo rest with keyAllowed := allowed }

def mark? (l : Lexer) (width : Nat) (allow : Bool) (t : Token) : Option Lexer := do
  let l ← l.dropStart?
  return ((l.emit t).skip width).allowKey allow

def openFlow? (l : Lexer) (t : Token) : Option Lexer := do
  let l ← l.saveStart?
  let l := (l.emit t).skip 1
  return { l with outer := l.start :: l.outer, start := none, keyAllowed := true }

def closeFlow? (l : Lexer) (t : Token) : Option Lexer := do
  let l ← l.mark? 1 false t
  match l.outer with
  | [] => return l
  | start :: outer => return { l with start, outer }

def blockEntry? (l : Lexer) : Option Lexer :=
  if l.inFlow then l.mark? 1 true .blockEntry
  else if l.keyAllowed then
    (l.openBlock l.cursor.column l.count .blockSequenceStart).mark? 1 true .blockEntry
  else none

def key? (l : Lexer) : Option Lexer :=
  if l.inFlow then l.mark? 1 false .key
  else if l.keyAllowed then (l.openBlock l.cursor.column l.count .blockMappingStart).mark? 1 true .key
  else none

/-- The colon behind a key. Only here is a key without a mark of its own known as one, so its token
is put in before the words of the key. -/
def value? (l : Lexer) : Option Lexer := do
  let l ← l.dropStale?
  match l.start with
  | some k =>
    let l := (l.insertAt k.place .key).openBlock k.column k.place .blockMappingStart
    return (({ l with start := none }.emit .value).skip 1).allowKey false
  | none =>
    if l.inFlow then return ((l.emit .value).skip 1).allowKey false
    else if l.keyAllowed then
      return (((l.openBlock l.cursor.column l.count .blockMappingStart).emit .value).skip 1).allowKey true
    else none

def anchor? (l : Lexer) (token : String → Token) : Option Lexer := do
  let l ← l.saveStart?
  let name := l.cursor.rest.tail.takeWhile isWordChar
  let rest := l.cursor.rest.tail.dropWhile isWordChar
  let ends := match rest with
    | [] => true
    | c :: _ => isBlank c || isBreak c || ['?', ':', ',', ']', '\x7d', '%', '@', '\x60'].contains c
  if name.isEmpty || !ends then none
  else return ((l.emit (token (String.ofList name))).moveTo rest).allowKey false

def isTagChar (c : Char) : Bool :=
  isWordChar c || ";/?:@&=+$,.!~*'()[]%".toList.contains c

def tagText (acc : List Char) : List Char → Option (List Char × List Char)
  | [] => some (acc.reverse, [])
  | '%' :: a :: b :: rest => do
    let hi ← Text.hexValue? a
    let lo ← Text.hexValue? b
    if 16 * hi + lo < 128 then tagText (Char.ofNat (16 * hi + lo) :: acc) rest else none
  | c :: rest =>
    if c == '%' then none
    else if isTagChar c then tagText (c :: acc) rest
    else some (acc.reverse, c :: rest)

def tagHandle (s : List Char) : List Char × List Char :=
  let word := s.tail.takeWhile isWordChar
  match s.tail.dropWhile isWordChar with
  | '!' :: rest => ('!' :: word ++ ['!'], rest)
  | rest => ('!' :: word, rest)

def tagToken? (s : List Char) : Option (Token × List Char) :=
  match s with
  | _ :: '<' :: rest => do
    let (suffix, rest) ← tagText [] rest
    match rest with
    | '>' :: rest => if suffix.isEmpty then none else some (.tag "" (String.ofList suffix), rest)
    | _ => none
  | s => do
    let (handle, rest) := tagHandle s
    let (text, rest) ← tagText [] rest
    if 1 < handle.length && handle.getLast? == some '!' then
      if text.isEmpty then none
      else return (.tag (String.ofList handle) (String.ofList text), rest)
    else
      let suffix := handle.tail ++ text
      return (if suffix.isEmpty then .tag "" "!" else .tag "!" (String.ofList suffix), rest)

def tag? (l : Lexer) : Option Lexer := do
  let l ← l.saveStart?
  let (t, rest) ← tagToken? l.cursor.rest
  if atGap rest then return ((l.emit t).moveTo rest).allowKey false else none

def block? (l : Lexer) (folded : Bool) : Option Lexer := do
  let l ← l.dropStart?
  let (text, rest) ← blockScalar folded l.indents.head? l.cursor.rest.tail
  return ((l.emit (.scalar (String.ofList text) false)).moveTo rest).allowKey true

def quoted? (l : Lexer)
    (read : List Piece → Nat → List Char → Option (List Piece × List Char)) : Option Lexer := do
  let l ← l.saveStart?
  let (pieces, rest) ← read [] (l.cursor.column + 1) l.cursor.rest.tail
  let text := foldPieces true .nothing pieces
  return ((l.emit (.scalar (String.ofList text) false)).moveTo rest).allowKey false

def plain? (l : Lexer) : Option Lexer := do
  let l ← l.saveStart?
  let indent := (l.indents.head?.map (· + 1)).getD 0
  let (pieces, newLine, rest) ← plainPieces l.inFlow indent [] false false l.cursor.column l.cursor.rest
  let text := foldPieces false .nothing pieces
  return ((l.emit (.scalar (String.ofList text) true)).moveTo rest).allowKey newLine

def smallNumber? (s : List Char) : Option (Nat × List Char) :=
  let ds := s.takeWhile Char.isDigit
  if ds.isEmpty || 9 < ds.length then none else some (Text.digitsValue ds, s.dropWhile Char.isDigit)

def directiveToken? (s : List Char) : Option (Token × List Char) :=
  let name := String.ofList (s.takeWhile isWordChar)
  let s := s.dropWhile isWordChar
  if !atGap s then none
  else
    let s := s.dropWhile isBlank
    if name = "YAML" then do
      let (major, s) ← smallNumber? s
      match s with
      | '.' :: s => do
        let (minor, s) ← smallNumber? s
        return (.version major minor, s)
      | _ => none
    else if name = "TAG" then
      match s with
      | '!' :: _ => do
        let (handle, rest) := tagHandle s
        if handle.getLast? != some '!' then none
        else
          match rest with
          | [] => none
          | c :: _ =>
            if !isBlank c then none
            else do
              let (start, rest) ← tagText [] (rest.dropWhile isBlank)
              if start.isEmpty || !atGap rest then none
              else return (.tagHandle (String.ofList handle) (String.ofList start), rest)
      | _ => none
    else none

def directive? (l : Lexer) : Option Lexer := do
  let l ← l.closeAll.dropStart?
  let (t, rest) ← directiveToken? l.cursor.rest.tail
  let rest ← lineRest? rest
  return ((l.emit t).moveTo rest).allowKey false

def startsPlain (inFlow : Bool) (c : Char) (rest : List Char) : Bool :=
  if isBlank c || isBreak c then false
  else if c == '-' then
    match rest with
    | [] => true
    | d :: _ => !isBlank d
  else if c == '?' || c == ':' then !inFlow && !atGap rest
  else !(",[]\x7b\x7d#&*!|>'\"%@\x60".toList.contains c)

def token? (l : Lexer) (c : Char) (rest : List Char) : Option Lexer :=
  let flow := l.inFlow
  if l.cursor.column = 0 && c == '%' then l.directive?
  else if l.cursor.column = 0 && isRule '-' (c :: rest) then l.closeAll.mark? 3 false .documentStart
  else if l.cursor.column = 0 && isRule '.' (c :: rest) then l.closeAll.mark? 3 false .documentEnd
  else if c == '[' then l.openFlow? .flowSequenceStart
  else if c == '\x7b' then l.openFlow? .flowMappingStart
  else if c == ']' then l.closeFlow? .flowSequenceEnd
  else if c == '\x7d' then l.closeFlow? .flowMappingEnd
  else if c == ',' then l.mark? 1 true .flowEntry
  else if c == '-' && atGap rest then l.blockEntry?
  else if c == '?' && (flow || atGap rest) then l.key?
  else if c == ':' && (flow || atGap rest) then l.value?
  else if c == '*' then l.anchor? .alias
  else if c == '&' then l.anchor? .anchor
  else if c == '!' then l.tag?
  else if c == '|' && !flow then l.block? false
  else if c == '>' && !flow then l.block? true
  else if c == '\'' then l.quoted? singleQuoted
  else if c == '"' then l.quoted? doubleQuoted
  else if startsPlain flow c rest then l.plain?
  else none

def finish? (l : Lexer) : Option Lexer := do
  let l ← l.closeAll.dropStart?
  return l.emit .streamEnd

def next? (l : Lexer) : Option Lexer :=
  match l.cursor.rest with
  | [] => some l
  | c :: rest => do
    let l ← l.dropStale?
    (l.closeBlocks l.cursor.column).token? c rest

/-- The tokens from here on, and all before. What makes no token is marked at the end. Every token
takes a character, so the length of the text is fuel enough. -/
def run : Nat → Lexer → List Token
  | 0, l => (Token.bad :: l.tokens).reverse
  | fuel + 1, l =>
    let l := l.skipGap
    let next := if l.cursor.rest.isEmpty then l.finish? else l.next?
    match next with
    | none => (Token.bad :: l.tokens).reverse
    | some next => if l.cursor.rest.isEmpty then next.tokens.reverse else run fuel next

end Lexer

def tokens (s : String) : List Token :=
  let cs := s.toList
  let cs := match cs with
    | '\uFEFF' :: rest => rest
    | cs => cs
  if cs.all isAllowed then
    let cs := normalBreaks cs
    Lexer.run (cs.length + 1) { cursor := { rest := cs } }
  else [.bad]

end Typesmith.Yaml
