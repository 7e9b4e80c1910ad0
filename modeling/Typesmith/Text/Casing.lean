import Typesmith.Text.LetterCase
import Typesmith.Text.WordBreak
import Typesmith.Text.CaseMap

namespace Typesmith.Text

/-- Capitalises word by word. `inWord` says that the current word already has its capital and
`afterMid` that the last character was one that a word may hold singly. -/
def capitalizeFrom (inWord afterMid : Bool) : List Char → List Char
  | [] => []
  | c :: rest =>
    let inWord := inWord && !(afterMid && isMidWord c)
    if isCased c then
      (if inWord then [c] else titleForm c) ++ capitalizeFrom true (isMidWord c) rest
    else c :: capitalizeFrom (inWord && !isWordBreak c) (isMidWord c) rest

def capitalize (s : List Char) : List Char :=
  capitalizeFrom false false s

def sigmaReach : Nat := 31

/-- A small sigma takes its final form unless a cased character follows in the same word. -/
def lowerSigma (rest : List Char) : Char :=
  match (rest.take sigmaReach).find? fun c => !isCaseIgnorable c with
  | some c => if isCased c then 'σ' else 'ς'
  | none => 'ς'

/-- Lower-cases; `between` says that no cased character of the current word has been seen. -/
def lowercaseFrom (between : Bool) : List Char → List Char
  | [] => []
  | c :: rest =>
    if between then
      if isCased c then lowerForm c ++ lowercaseFrom false rest else c :: lowercaseFrom true rest
    else if !isCased c && !isCaseIgnorable c then c :: lowercaseFrom true rest
    else if c = 'Σ' then lowerSigma rest :: lowercaseFrom false rest
    else lowerForm c ++ lowercaseFrom false rest

def lowercase (s : List Char) : List Char :=
  lowercaseFrom true s

def uppercase (s : List Char) : List Char :=
  s.map toUpper

end Typesmith.Text
