import Typesmith.Json.Writer
import Typesmith.Text.Natural
import Typesmith.Yaml.Meaning
import Typesmith.Yaml.Timestamp

namespace Typesmith.Yaml

open Text

def isSexagesimal (s : List Char) : Bool :=
  let s := match s with
    | '-' :: rest => rest
    | '+' :: rest => rest
    | s => s
  match splitChars ':' s with
  | [] => false
  | [_] => false
  | first :: groups =>
    -- only the last group may have a fraction
    let body := match groups.reverse with
      | [] => []
      | last :: before => last.takeWhile (· ≠ '.') :: before
    let tail := match groups.getLast? with
      | some last => (last.dropWhile (· ≠ '.')).tail
      | none => []
    (first.head?.any isAsciiDigit) && first.all (fun c => isAsciiDigit c || c == '_') &&
      tail.all (fun c => isAsciiDigit c || c == '_') &&
      body.all fun g => match g with
        | [a] => isAsciiDigit a
        | [a, b] => '0' ≤ a && a ≤ '5' && isAsciiDigit b
        | _ => false

def readsOtherwise (s : String) : Bool :=
  match Meaning.ofPlain s with
  | .text _ => Timestamp.isTimestamp s.toList || isSexagesimal s.toList
  | _ => true

def breaksLine (c : Char) : Bool :=
  c == '\r' || c == '\u0085' || isBreak c

def isClear (c : Char) : Bool :=
  inRanges c.toNat [(10, 10), (0x20, 0x7E), (0xA0, 0xD7FF), (0xE000, 0xFEFE), (0xFF00, 0xFFFD)]

def opensSyntax (c : Char) : Bool :=
  "#,[]\x7b\x7d&*!|>'\"%@\x60".toList.contains c

/-- Whether a text holds a mark that readers would take for their own: `before` says whether a blank
or a line end stands before, `start` whether the text starts here. -/
def hasMarks (start before : Bool) : List Char → Bool
  | [] => false
  | c :: rest =>
    let last := match rest with
      | [] => true
      | d :: _ => isBlank d
    (start && (opensSyntax c || ((c == '?' || c == '-') && last))) || (c == ':' && last) ||
      (c == '#' && before) || hasMarks false (isBlank c || breaksLine c) rest

def hasPair (p q : Char → Bool) : List Char → Bool
  | a :: b :: rest => (p a && q b) || hasPair p q (b :: rest)
  | _ => false

inductive Style where
  | plain | single | double | block
  deriving DecidableEq, Repr

def plainFits (s : List Char) : Bool :=
  let edge (c : Option Char) : Bool := c.any fun c => c == ' ' || breaksLine c
  !(startsRule s || edge s.head? || edge s.getLast? || s.any breaksLine || !s.all isClear ||
    hasMarks true true s)
where
  startsRule (s : List Char) : Bool :=
    s.take 3 == ['-', '-', '-'] || s.take 3 == ['.', '.', '.']

def singleFits (s : List Char) : Bool :=
  s.all isClear && !hasPair breaksLine (· == ' ') s && !hasPair (· == ' ') breaksLine s

def blockFits (s : List Char) : Bool :=
  s.all isClear && !hasPair (· == ' ') breaksLine s && s.getLast? != some ' '

def styleOf (isKey : Bool) (s : String) : Style :=
  let cs := s.toList
  if cs.contains '\n' then if !isKey && blockFits cs then .block else .double
  else if readsOtherwise s then .double
  else if isKey && cs.any breaksLine then .double
  else if plainFits cs then .plain
  else if singleFits cs then .single
  else .double

def lineWidth : Nat := 80

def newLine (indent : Nat) : List Char :=
  '\n' :: List.replicate indent ' '

def breaksAt (column : Nat) (blankBefore : Bool) (rest : List Char) : Bool :=
  decide (lineWidth < column) && !blankBefore && !rest.isEmpty && rest.head? != some ' '

/-- The characters of a text that is written as it is, apostrophes as `quote` says, from a column on.
`blankBefore` and `lineBefore` say what was written last, and `start` that nothing was. -/
def flowText (quote : List Char) (indent column : Nat) (start blankBefore lineBefore : Bool) :
    List Char → List Char
  | [] => []
  | c :: rest =>
    if c = ' ' then
      if !start && breaksAt column blankBefore rest then
        newLine indent ++ flowText quote indent indent false true false rest
      else ' ' :: flowText quote indent (column + 1) false true lineBefore rest
    else if breaksLine c then c :: flowText quote indent 0 false blankBefore true rest
    else
      let lead := if lineBefore then List.replicate indent ' ' else []
      let text := if c = '\'' then quote else [c]
      lead ++ text ++ flowText quote indent (column + lead.length + text.length) false false false rest

def escapeLetter? (c : Char) : Option Char :=
  match c.toNat with
  | 0 => some '0'
  | 7 => some 'a'
  | 8 => some 'b'
  | 9 => some 't'
  | 10 => some 'n'
  | 11 => some 'v'
  | 12 => some 'f'
  | 13 => some 'r'
  | 27 => some 'e'
  | 34 => some '"'
  | 92 => some '\\'
  | 0x85 => some 'N'
  | 0x2028 => some 'L'
  | 0x2029 => some 'P'
  | _ => none

def escapeText (c : Char) : List Char :=
  match escapeLetter? c with
  | some l => ['\\', l]
  | none =>
    let (letter, width) := if c.toNat ≤ 0xFF then ('x', 2) else if c.toNat ≤ 0xFFFF then ('u', 4) else ('U', 8)
    '\\' :: letter :: (hexPadded width c.toNat).map Char.toUpper

def doubleText (fold : Bool) (indent column : Nat) (start blankBefore : Bool) : List Char → List Char
  | [] => []
  | c :: rest =>
    if !isClear c || breaksLine c || c = '"' || c = '\\' then
      let text := escapeText c
      text ++ doubleText fold indent (column + text.length) false false rest
    else if c = ' ' then
      if fold && !start && decide (lineWidth < column) && !blankBefore && !rest.isEmpty then
        let mark := if rest.head? = some ' ' then ['\\'] else []
        newLine indent ++ mark ++ doubleText fold indent (indent + mark.length) false true rest
      else ' ' :: doubleText fold indent (column + 1) false true rest
    else c :: doubleText fold indent (column + 1) false false rest

def blockLines (indent : Nat) (fresh : Bool) : List Char → List Char
  | [] => []
  | c :: rest =>
    if breaksLine c then c :: blockLines indent true rest
    else if fresh then List.replicate indent ' ' ++ c :: blockLines indent false rest
    else c :: blockLines indent false rest

def blockSigns (s : List Char) : List Char :=
  let indentSign := if s.head?.any (fun c => c == ' ' || breaksLine c) then ['2'] else []
  let chompSign := match s.reverse with
    | [] => ['-']
    | [c] => if breaksLine c then ['+'] else ['-']
    | c :: d :: _ => if !breaksLine c then ['-'] else if breaksLine d then ['+'] else []
  indentSign ++ chompSign

def scalarText (indent column : Nat) (s : String) : List Char :=
  let cs := s.toList
  match styleOf false s with
  | .plain => flowText ['\''] indent column true false false cs ++ ['\n']
  | .single => '\'' :: (flowText ['\'', '\''] indent (column + 1) true false false cs ++ ['\'', '\n'])
  | .double => '"' :: (doubleText true indent (column + 1) true false cs ++ ['"', '\n'])
  | .block =>
    let lines := blockLines indent true cs
    '|' :: (blockSigns cs ++ '\n' :: lines ++ (if lines.getLast?.any breaksLine then [] else ['\n']))

def keyText (s : String) : List Char :=
  let cs := s.toList
  match styleOf true s with
  | .plain => cs
  | .single => '\'' :: (replaceChar '\'' ['\'', '\''] cs ++ ['\''])
  | _ => '"' :: (doubleText false 0 0 true false cs ++ ['"'])

def longestKey : Nat := 128

def fieldTexts (indent : Nat) : List (String × List Char) → List Char
  | [] => []
  | (k, text) :: rest =>
    let lead := List.replicate indent ' '
    let head :=
      if longestKey < k.utf8ByteSize then lead ++ ['?', ' '] ++ keyText k ++ '\n' :: lead ++ [':']
      else lead ++ keyText k ++ [':']
    head ++ text ++ fieldTexts indent rest

mutual

def valueText (indent column : Nat) : Json → List Char
  | .obj [] => " \x7b\x7d\n".toList
  | .obj fields => '\n' :: fieldTexts (indent + 2) (sortNaturally (fieldValues (indent + 2) fields))
  | .arr [] => " []\n".toList
  | .arr items => '\n' :: itemTexts indent items
  | .str s => ' ' :: scalarText (indent + 2) (column + 1) s
  | j => ' ' :: (j.write Json.numbers ++ ['\n'])

def fieldValues (indent : Nat) : List (String × Json) → List (String × List Char)
  | [] => []
  | (k, v) :: rest =>
    let long := decide (longestKey < k.utf8ByteSize)
    let column := if long then indent + 1 else indent + (keyText k).length + 1
    (k, valueText indent column v) :: fieldValues indent rest

def itemTexts (indent : Nat) : List Json → List Char
  | [] => []
  | j :: rest =>
    let text := match j with
      | .obj (f :: fields) =>
        ' ' :: (fieldTexts (indent + 2) (sortNaturally (fieldValues (indent + 2) (f :: fields)))).drop
          (indent + 2)
      | .arr (i :: items) => ' ' :: (itemTexts (indent + 2) (i :: items)).drop (indent + 2)
      | .str s => ' ' :: scalarText (indent + 2) (indent + 2) s
      | .obj [] => " \x7b\x7d\n".toList
      | .arr [] => " []\n".toList
      | .null => ' ' :: (Json.null.write Json.numbers ++ ['\n'])
      | .bool b => ' ' :: ((Json.bool b).write Json.numbers ++ ['\n'])
      | .num n => ' ' :: ((Json.num n).write Json.numbers ++ ['\n'])
    List.replicate indent ' ' ++ '-' :: text ++ itemTexts indent rest

end

def write (j : Json) : String :=
  match j with
  | .obj [] => "\x7b\x7d\n"
  | .obj fields => String.ofList (fieldTexts 0 (sortNaturally (fieldValues 0 fields)))
  | .arr [] => "[]\n"
  | .arr items => String.ofList (itemTexts 0 items)
  | .str s => String.ofList (scalarText 2 0 s)
  | j => String.ofList (j.write Json.numbers ++ ['\n'])

end Typesmith.Yaml
