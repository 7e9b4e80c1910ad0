import Typesmith.Yaml.Node
import Typesmith.Yaml.Timestamp
import Typesmith.Json.Basic
import Typesmith.Text.Base64
import Typesmith.Text.Utf8

namespace Typesmith.Yaml

inductive Meaning where
  | null
  | bool (b : Bool)
  | int (n : Int)
  | float (d : Decimal)
  | infinite (name : String)
  | text (s : String)
  deriving Repr

namespace Meaning

def word? (s : String) : Option Meaning :=
  if ["y", "Y", "yes", "Yes", "YES", "true", "True", "TRUE", "on", "On", "ON"].contains s then
    some (.bool true)
  else if ["n", "N", "no", "No", "NO", "false", "False", "FALSE", "off", "Off", "OFF"].contains s then
    some (.bool false)
  else if ["", "~", "null", "Null", "NULL"].contains s then some .null
  else if [".nan", ".NaN", ".NAN"].contains s then some (.infinite ".nan")
  else if [".inf", ".Inf", ".INF", "+.inf", "+.Inf", "+.INF"].contains s then some (.infinite ".inf")
  else if ["-.inf", "-.Inf", "-.INF"].contains s then some (.infinite "-.inf")
  else none

def inBase? (base : Nat) (digits : List Char) : Option Nat :=
  digits.foldlM (fun n c => do
    let d ← Text.hexValue? c
    if d < base then some (base * n + d) else none) 0

/-- The base and the digits of a numeral: a zero in front makes it octal, a zero and a letter give
another base. -/
def baseOf (s : List Char) : Nat × List Char :=
  match s with
  | '0' :: c :: d :: rest =>
    match c.toLower with
    | 'x' => (16, d :: rest)
    | 'o' => (8, d :: rest)
    | 'b' => (2, d :: rest)
    | _ => (8, c :: d :: rest)
  | '0' :: rest => (8, rest)
  | s => (10, s)

def int? (s : List Char) : Option Int :=
  let (negative, signed, ds) := match s with
    | '-' :: rest => (true, true, rest)
    | '+' :: rest => (false, true, rest)
    | rest => (false, false, rest)
  if ds.isEmpty then none
  else do
    let (base, ds) := baseOf ds
    let n ← inBase? base ds
    if negative then if n ≤ Decimal.signedBound then some (-(n : Int)) else none
    else if n < (if signed then Decimal.signedBound else Decimal.unsignedBound) then some n
    else none

def float? (s : List Char) : Option Decimal :=
  Decimal.read? s

/-- The meaning of a text without quotes. Only the first character decides what is tried. -/
def ofPlain (s : String) : Meaning :=
  match s.toList with
  | [] => .null
  | c :: rest =>
    if "yYnNtTfFoO~".toList.contains c then (word? s).getD (.text s)
    else if c = '.' then
      match word? s with
      | some m => m
      | none => ((float? (c :: rest)).map .float).getD (.text s)
    else if c.isDigit || c = '+' || c = '-' then
      match word? s with
      | some m => m
      | none =>
        let plain := (c :: rest).filter (· ≠ '_')
        match int? plain with
        | some n => .int n
        | none => ((float? plain).map .float).getD (.text s)
    else .text s

def standard : String := "tag:yaml.org,2002:"

def floatOfInt? (n : Int) : Option Decimal :=
  Decimal.round? (decide (n < 0)) n.natAbs 0

/-- The meaning of a text with a tag. A standard tag must agree with what the text means; a tag that
is not known leaves the text as it is. -/
def ofScalar? (tag : String) (plain : Bool) (s : String) : Option Meaning :=
  let known := Text.startsWith tag standard
  let name := if known then (Text.dropStart tag standard) else ""
  if tag = "" then some (if plain then ofPlain s else .text s)
  else if name = "str" then some (.text s)
  else if name = "binary" then
    (Text.Base64.decode? s.toList).map fun bytes => .text (String.ofList (Text.ofBytes bytes))
  else if name = "timestamp" then if Timestamp.isTimestamp s.toList then some (.text s) else none
  else
    match name, ofPlain s with
    | "bool", .bool b => some (.bool b)
    | "bool", _ => none
    | "int", .int n => some (.int n)
    | "int", _ => none
    | "float", .float d => some (.float d)
    | "float", .infinite x => some (.infinite x)
    | "float", .int n => (floatOfInt? n).map .float
    | "float", _ => none
    | "null", .null => some .null
    | "null", _ => none
    | _, _ => some (.text s)

end Meaning

end Typesmith.Yaml
