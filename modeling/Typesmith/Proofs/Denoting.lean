import Mathlib.Algebra.Group.Nat.Defs
import Typesmith.Proofs.Bracketing

namespace Typesmith.Text

def units (n : Nat) : List Nat :=
  if n < 65536 then [n] else [0xD800 + (n - 65536) / 1024, 0xDC00 + (n - 65536) % 1024]

def utf16 (s : List Char) : List Nat :=
  s.flatMap fun c => units c.toNat

theorem units_append_injective {c d : Char} {s t : List Nat}
    (same : units c.toNat ++ s = units d.toNat ++ t) : c = d ∧ s = t := by
  -- no character is one half of a pair, so the first unit tells how many there are
  have single : ∀ c : Char, c.toNat < 0xD800 ∨ (0xDFFF < c.toNat ∧ c.toNat < 0x110000) := fun c => c.valid
  have first := single c
  have second := single d
  have code : c.toNat = d.toNat ∧ s = t := by
    unfold units at same
    split at same <;> split at same <;>
      simp only [List.cons_append, List.nil_append, List.cons.injEq] at same
    · exact same
    · omega
    · omega
    · exact ⟨by omega, same.2.2⟩
  exact ⟨Char.toNat_inj.mp code.1, code.2⟩

theorem length_units (n : Nat) : 1 ≤ (units n).length ∧ (units n).length ≤ 2 := by
  unfold units
  split <;> simp

theorem units_ne_nil (n : Nat) : units n ≠ [] :=
  List.ne_nil_of_length_pos (length_units n).1

theorem utf16_injective {s t : List Char} (same : utf16 s = utf16 t) : s = t := by
  induction s generalizing t with
  | nil =>
    cases t with
    | nil => rfl
    | cons d t => simp [utf16, units_ne_nil] at same
  | cons c s ih =>
    cases t with
    | nil => simp [utf16, units_ne_nil] at same
    | cons d t =>
      obtain ⟨rfl, rest⟩ := units_append_injective same
      rw [ih rest]

/-- How far a string literal is read. -/
inductive LiteralMode
  | plain
  | escaped
  /-- Before the last `left + 1` digits of a number, with the value of those in front. -/
  | digits (left value : Nat)
  | code
  /-- Between braces; `some` as soon as there is a digit. -/
  | braced (value : Option Nat)
  | closed
  deriving DecidableEq, Repr

namespace LiteralMode

def afterDigit (left value : Nat) : LiteralMode × List Nat :=
  match left with
  | 0 => (plain, [value])
  | left + 1 => (digits left value, [])

def digit (left value : Nat) (c : Char) : Option (LiteralMode × List Nat) :=
  (hexValue? c).map fun d => afterDigit left (16 * value + d)

/-- The character behind a backslash. Six letters stand for control characters, two start numbers, and
all other characters stand for themselves. -/
def afterBackslash (c : Char) : LiteralMode × List Nat :=
  match c with
  | 'b' => (plain, [8])
  | 't' => (plain, [9])
  | 'n' => (plain, [10])
  | 'v' => (plain, [11])
  | 'f' => (plain, [12])
  | 'r' => (plain, [13])
  | 'x' => (digits 1 0, [])
  | 'u' => (code, [])
  | c => (plain, units c.toNat)

def step (mode : LiteralMode) (c : Char) : Option (LiteralMode × List Nat) :=
  match mode with
  | plain =>
    if c = '"' then some (closed, [])
    else if c = '\\' then some (escaped, [])
    else if c = '\n' ∨ c = '\r' then none
    else some (plain, units c.toNat)
  | escaped => some (afterBackslash c)
  | digits left value => digit left value c
  | code => if c = '\x7b' then some (braced none, []) else digit 3 0 c
  | braced value =>
    if c = '\x7d' then value.map fun n => (plain, units n)
    else do
      let d ← hexValue? c
      let n := 16 * value.getD 0 + d
      if n < 0x110000 then some (braced (some n), []) else none
  | closed => none

def read (mode : LiteralMode) : List Char → Option (List Nat)
  | [] => if mode = closed then some [] else none
  | c :: rest => do
    let (next, out) ← mode.step c
    let later ← next.read rest
    return out ++ later

theorem read_cons {mode next : LiteralMode} {c : Char} {out : List Nat} (one : mode.step c = some (next, out))
    (rest : List Char) : mode.read (c :: rest) = (next.read rest).map (out ++ ·) := by
  simp only [read, one, Option.bind_eq_bind, Option.bind_some]
  cases next.read rest <;> rfl

theorem read_escape (c : Char) (rest : List Char) :
    plain.read ('\\' :: c :: rest) =
      ((afterBackslash c).1.read rest).map ((afterBackslash c).2 ++ ·) := by
  have first : plain.step '\\' = some (escaped, []) := rfl
  have second : escaped.step c = some ((afterBackslash c).1, (afterBackslash c).2) := rfl
  rw [read_cons first, read_cons second]
  simp only [List.nil_append, Option.map_id']

theorem read_opening {c : Char} {mode : LiteralMode} (opens : afterBackslash c = (mode, []))
    (rest : List Char) : plain.read ('\\' :: c :: rest) = mode.read rest := by
  rw [read_escape, opens]
  simp only [List.nil_append, Option.map_id']

theorem read_plain {s : List Char} (ordinary : ∀ c ∈ s, c ≠ '"' ∧ c ≠ '\\' ∧ c ≠ '\n' ∧ c ≠ '\r')
    (rest : List Char) : plain.read (s ++ rest) = (plain.read rest).map (utf16 s ++ ·) := by
  induction s with
  | nil => simp [utf16]
  | cons c s ih =>
    obtain ⟨quote, backslash, feed, carriage⟩ := ordinary c List.mem_cons_self
    have one : plain.step c = some (plain, units c.toNat) := by
      simp [step, quote, backslash, feed, carriage]
    rw [List.cons_append, read_cons one, ih fun d inside => ordinary d (List.mem_cons_of_mem _ inside)]
    simp [utf16, Function.comp_def]

theorem hexValue?_hexDigit (d : Fin 16) : hexValue? (hexDigit d) = some d.val := by
  revert d
  decide

theorem digit_hexDigit (left value n : Nat) :
    digit left value (hexDigit (n % 16)) = some (afterDigit left (16 * value + n % 16)) := by
  have digit := hexValue?_hexDigit ⟨n % 16, Nat.mod_lt n (by decide)⟩
  rw [LiteralMode.digit, digit, Option.map_some]

theorem read_hexPadded (width left value n : Nat) (rest : List Char) :
    (digits (left + width) value).read (hexPadded width n ++ rest) =
      (digits left (16 ^ width * value + n % 16 ^ width)).read rest := by
  induction width generalizing left n rest with
  | zero => simp [hexPadded, Nat.mod_one]
  | succ width ih =>
    have sum : 16 * (16 ^ width * value + n / 16 % 16 ^ width) + n % 16 =
        16 ^ (width + 1) * value + n % 16 ^ (width + 1) := by
      rw [Nat.pow_succ, Nat.mul_comm (16 ^ width) 16, Nat.mod_mul, Nat.mul_add, Nat.mul_assoc]
      omega
    have last : (digits (left + 1) (16 ^ width * value + n / 16 % 16 ^ width)).step (hexDigit (n % 16)) =
        some (digits left (16 ^ (width + 1) * value + n % 16 ^ (width + 1)), []) := by
      rw [step, digit_hexDigit, sum]
      rfl
    rw [hexPadded, List.append_assoc, ← Nat.add_assoc, Nat.add_right_comm, ih, List.singleton_append,
      read_cons last]
    simp only [List.nil_append, Option.map_id']

theorem read_number {left n : Nat} (small : n < 16 ^ (left + 1)) (rest : List Char) :
    (digits left 0).read (hexPadded (left + 1) n ++ rest) = (plain.read rest).map ([n] ++ ·) := by
  have front := read_hexPadded left 0 0 (n / 16) (hexDigit (n % 16) :: rest)
  have last : (digits 0 (n / 16)).step (hexDigit (n % 16)) = some (plain, [n]) := by
    rw [step, digit_hexDigit, Nat.div_add_mod]
    rfl
  have fits : n / 16 % 16 ^ left = n / 16 := by
    apply Nat.mod_eq_of_lt
    rw [Nat.pow_succ] at small
    omega
  rw [Nat.zero_add, Nat.mul_zero, Nat.zero_add, fits] at front
  rw [hexPadded, List.append_assoc, List.singleton_append, front, read_cons last]

theorem read_code {n : Nat} (small : n < 16 ^ 4) (rest : List Char) :
    code.read (hexPadded 4 n ++ rest) = (plain.read rest).map ([n] ++ ·) := by
  have free : ∀ d : Fin 16, hexDigit d ≠ '\x7b' := by decide
  rw [← read_number small]
  cases spelled : hexPadded 4 n with
  | nil => simp [hexPadded] at spelled
  | cons c more =>
    obtain ⟨d, rfl⟩ := mem_hexPadded (spelled ▸ List.mem_cons_self : c ∈ hexPadded 4 n)
    have same : code.step (hexDigit d) = (digits 3 0).step (hexDigit d) := if_neg (free d)
    rw [List.cons_append, read, read, same]

end LiteralMode

/-- Whether a character of a quoted text is read as what it is. There is no one-letter escape for a
bell, and none with eight digits. -/
def isFaithful (c : Char) : Bool :=
  c.toNat ≠ 7 && (isPrintable c || c.toNat < 65536)

def meaning (c : Char) : List Nat :=
  if isFaithful c then units c.toNat
  else if c.toNat = 7 then utf16 ['a']
  else utf16 ('U' :: hexPadded 8 c.toNat)

theorem meaning_eq_singleton {c : Char} (bell : c.toNat ≠ 7) (single : c.toNat < 65536) :
    meaning c = [c.toNat] := by
  have faithful : isFaithful c = true := by simp [isFaithful, bell, single]
  rw [meaning, if_pos faithful, units, if_pos single]

section quoted

open LiteralMode

theorem read_quoteChar_printable {c : Char} (printable : isPrintable c = true) (quote : c ≠ '"')
    (backslash : c ≠ '\\') (rest : List Char) :
    plain.read (c :: rest) = (plain.read rest).map (meaning c ++ ·) := by
  have hidden : ['\n', '\r', '\x07'].all (!isPrintable ·) = true := by decide
  have apart : ∀ d ∈ ['\n', '\r', '\x07'], c ≠ d := by
    rintro d listed rfl
    have own := List.all_eq_true.mp hidden c listed
    rw [printable] at own
    cases own
  have faithful : isFaithful c = true := by
    have bell : c.toNat ≠ 7 := fun same => apart '\x07' (by simp) (Char.toNat_inj.mp same)
    simp [isFaithful, bell, printable]
  have ordinary : ∀ d ∈ [c], d ≠ '"' ∧ d ≠ '\\' ∧ d ≠ '\n' ∧ d ≠ '\r' := by
    simpa using ⟨quote, backslash, apart '\n' (by simp), apart '\r' (by simp)⟩
  rw [← List.singleton_append, read_plain ordinary, meaning, if_pos faithful]
  simp [utf16]

theorem read_quoteChar_long {c : Char} (hidden : isPrintable c = false) (large : 65536 ≤ c.toNat)
    (rest : List Char) :
    plain.read ('\\' :: 'U' :: hexPadded 8 c.toNat ++ rest) = (plain.read rest).map (meaning c ++ ·) := by
  have digits : ∀ d : Fin 16, hexDigit d ≠ '"' ∧ hexDigit d ≠ '\\' ∧ hexDigit d ≠ '\n' ∧ hexDigit d ≠ '\r' := by
    decide
  have ordinary : ∀ d ∈ hexPadded 8 c.toNat, d ≠ '"' ∧ d ≠ '\\' ∧ d ≠ '\n' ∧ d ≠ '\r' := by
    intro d inside
    obtain ⟨n, rfl⟩ := mem_hexPadded inside
    exact digits n
  have unfaithful : ¬ isFaithful c = true := by
    simp [isFaithful, hidden]
    omega
  have bell : c.toNat ≠ 7 := by omega
  have letter : afterBackslash 'U' = (plain, units 'U'.toNat) := rfl
  rw [List.cons_append, List.cons_append, read_escape, letter, read_plain ordinary, meaning,
    if_neg unfaithful, if_neg bell]
  simp [utf16, Function.comp_def]

theorem read_quoteChar (c : Char) (rest : List Char) :
    plain.read (quoteChar c ++ rest) = (plain.read rest).map (meaning c ++ ·) := by
  by_cases quote : c = '"'
  · subst quote
    exact read_escape '"' rest
  by_cases backslash : c = '\\'
  · subst backslash
    exact read_escape '\\' rest
  cases printable : isPrintable c with
  | true =>
    rw [quoteChar, if_neg quote, if_neg backslash, if_pos printable]
    exact read_quoteChar_printable printable quote backslash rest
  | false =>
    rw [quoteChar, if_neg quote, if_neg backslash, printable]
    simp only [Bool.false_eq_true, if_false]
    have unit (letter : Char) (n : Nat) (code : c.toNat = n) (bell : n ≠ 7) (small : n < 65536)
        (escape : afterBackslash letter = (plain, [n])) :
        plain.read ('\\' :: letter :: rest) = (plain.read rest).map (meaning c ++ ·) := by
      subst code
      rw [read_escape, escape, meaning_eq_singleton bell small]
    split
    · rename_i bell
      have unfaithful : ¬ isFaithful c = true := by simp [isFaithful, bell]
      rw [meaning, if_neg unfaithful, if_pos bell]
      exact read_escape 'a' rest
    · exact unit 'b' 8 ‹_› (by decide) (by decide) rfl
    · exact unit 't' 9 ‹_› (by decide) (by decide) rfl
    · exact unit 'n' 10 ‹_› (by decide) (by decide) rfl
    · exact unit 'v' 11 ‹_› (by decide) (by decide) rfl
    · exact unit 'f' 12 ‹_› (by decide) (by decide) rfl
    · exact unit 'r' 13 ‹_› (by decide) (by decide) rfl
    · rename_i bell _ _ _ _ _ _
      split
      · have fits : c.toNat < 16 ^ 2 := by omega
        rw [List.cons_append, List.cons_append, read_opening rfl, read_number fits,
          meaning_eq_singleton bell (by omega)]
      · split
        · rename_i fits
          rw [List.cons_append, List.cons_append, read_opening rfl, read_code fits,
            meaning_eq_singleton bell fits]
        · rename_i large
          exact read_quoteChar_long printable (Nat.le_of_not_lt large) rest

theorem read_quoted (s : List Char) :
    plain.read (s.flatMap quoteChar ++ ['"']) = some (s.flatMap meaning) := by
  induction s with
  | nil => rfl
  | cons c s ih =>
    rw [List.flatMap_cons, List.append_assoc, read_quoteChar, ih, List.flatMap_cons, Option.map_some]

end quoted

theorem length_le_utf16 (s : List Char) : s.length ≤ (utf16 s).length := by
  induction s with
  | nil => exact Nat.le_refl _
  | cons c s ih =>
    have one := length_units c.toNat
    simp only [utf16, List.flatMap_cons, List.length_append, List.length_cons] at ih ⊢
    omega

theorem meaning_misread {c : Char} (misread : isFaithful c = false) :
    meaning c ≠ units c.toNat ∧ (units c.toNat).length ≤ (meaning c).length := by
  rw [meaning, misread]
  simp only [Bool.false_eq_true, if_false]
  split
  · rename_i bell
    rw [bell]
    decide
  · have digits : ('U' :: hexPadded 8 c.toNat).length = 9 := by simp [hexPadded]
    have long := length_le_utf16 ('U' :: hexPadded 8 c.toNat)
    have short := (length_units c.toNat).2
    rw [digits] at long
    refine ⟨fun same => ?_, by omega⟩
    rw [same] at long
    omega

theorem length_units_le (c : Char) : (units c.toNat).length ≤ (meaning c).length := by
  cases faithful : isFaithful c with
  | true =>
    have same : meaning c = units c.toNat := if_pos faithful
    exact Nat.le_of_eq (congrArg List.length same.symm)
  | false => exact (meaning_misread faithful).2

theorem length_utf16_le (s : List Char) : (utf16 s).length ≤ (s.flatMap meaning).length := by
  induction s with
  | nil => exact Nat.le_refl _
  | cons c s ih =>
    have one := length_units_le c
    simp only [utf16, List.flatMap_cons, List.length_append] at ih ⊢
    omega

/-- No character makes up for another one that is misread. -/
theorem meanings_eq_utf16_iff {s : List Char} :
    (s.flatMap meaning = utf16 s) ↔ ∀ c ∈ s, isFaithful c = true := by
  induction s with
  | nil => simp [utf16]
  | cons c s ih =>
    have split : utf16 (c :: s) = units c.toNat ++ utf16 s := rfl
    rw [List.forall_mem_cons, ← ih, List.flatMap_cons, split]
    constructor
    · intro same
      -- nothing is read as fewer units than it has, so the lengths agree character by character
      have one := length_units_le c
      have total := congrArg List.length same
      have others := length_utf16_le s
      simp only [List.length_append] at total
      obtain ⟨first, rest⟩ := List.append_inj same (by omega)
      refine ⟨?_, rest⟩
      by_contra misread
      exact (meaning_misread (Bool.eq_false_iff.mpr misread)).1 first
    · rintro ⟨faithful, rest⟩
      rw [rest, meaning, if_pos faithful]

end Typesmith.Text

namespace Typesmith.Naming

open Text

/-- A character that starts a name where it is read: a letter, but for one that counts as a sign there. -/
def startsName (c : Char) : Bool :=
  isIdentStart c && c.toNat ≠ 0x2E2F

/-- The property that a key stands for. Names with marks, joiners and escapes in them are not read, as no
key has them. -/
def denotes (key : String) : Option (List Nat) :=
  match key.toList with
  | [] => none
  | c :: rest =>
    if c = '"' then LiteralMode.plain.read rest
    else if startsName c && rest.all fun d => startsName d || isDigit d then some (utf16 (c :: rest))
    else none

/-- Whether the key of a name stands for the name: an unquoted one is without the letter that is no
letter there, and a quoted one has no escape that is no escape there. -/
def Denotable (name : String) : Prop :=
  if isIdentifier name then ∀ c ∈ name.toList, c.toNat ≠ 0x2E2F else ∀ c ∈ name.toList, isFaithful c = true

theorem isDigit_of_not_start {c : Char} (part : isIdentPart c = true) (other : isIdentStart c = false) :
    isDigit c = true := by
  rwa [isIdentPart, other, Bool.false_or] at part

theorem startsName_of_isIdentStart {c : Char} (start : isIdentStart c = true) (known : c.toNat ≠ 0x2E2F) :
    startsName c = true := by
  simp [startsName, start, known]

theorem denotes_of_known {name : String} (identifier : isIdentifier name = true)
    (known : ∀ c ∈ name.toList, c.toNat ≠ 0x2E2F) : denotes name = some (utf16 name.toList) := by
  unfold isIdentifier at identifier
  unfold denotes
  split
  · rename_i empty
    simp [empty] at identifier
  · rename_i c rest letters
    rw [letters] at identifier known
    simp only [Bool.and_eq_true, List.all_eq_true] at identifier
    have unquoted : c ≠ '"' := by
      rintro rfl
      exact absurd identifier.1 (by decide)
    have first := startsName_of_isIdentStart identifier.1 (known c List.mem_cons_self)
    have others : (rest.all fun d => startsName d || isDigit d) = true := by
      rw [List.all_eq_true]
      intro d inside
      rw [Bool.or_eq_true]
      cases start : isIdentStart d with
      | true => exact .inl (startsName_of_isIdentStart start (known d (List.mem_cons_of_mem _ inside)))
      | false => exact .inr (isDigit_of_not_start (identifier.2 d inside) start)
    rw [if_neg unquoted, first, others, letters]
    rfl

theorem denotes_of_unknown {name : String} (identifier : isIdentifier name = true) {c : Char}
    (inside : c ∈ name.toList) (unknown : c.toNat = 0x2E2F) : denotes name = none := by
  have odd : startsName c = false := by simp [startsName, unknown]
  have digit : isDigit c = false := by
    obtain rfl : c = '\u2E2F' := Char.toNat_inj.mp unknown
    decide
  unfold isIdentifier at identifier
  unfold denotes
  split
  · rfl
  · rename_i d rest letters
    rw [letters] at identifier inside
    simp only [Bool.and_eq_true] at identifier
    have unquoted : d ≠ '"' := by
      rintro rfl
      exact absurd identifier.1 (by decide)
    rw [if_neg unquoted, if_neg]
    intro all
    simp only [Bool.and_eq_true, List.all_eq_true] at all
    rcases List.mem_cons.mp inside with rfl | later
    · rw [odd] at all
      cases all.1
    · have own := all.2 c later
      rw [odd, digit] at own
      cases own

theorem denotes_quote (name : String) : denotes (quote name) = some (name.toList.flatMap meaning) := by
  rw [denotes, quote, String.toList_ofList]
  exact read_quoted name.toList

theorem denotes_propertyKey_iff (name : String) :
    denotes (propertyKey name) = some (utf16 name.toList) ↔ Denotable name := by
  unfold propertyKey Denotable
  split
  · rename_i identifier
    constructor
    · intro denoted c inside unknown
      rw [denotes_of_unknown identifier inside unknown] at denoted
      cases denoted
    · exact denotes_of_known identifier
  · rw [denotes_quote, Option.some.injEq]
    exact meanings_eq_utf16_iff

/-- The key of a name stands for just that name if and only if there is no U+2E2F in it where it is an
identifier, and where it is none, no bell and no character beyond U+FFFF that is not printable. Keys of
different such names stand for different properties. -/
theorem propertyKey_denotes (name : String) :
    (denotes (propertyKey name) = some (utf16 name.toList) ↔
      if isIdentifier name then ∀ c ∈ name.toList, c.toNat ≠ 0x2E2F
      else ∀ c ∈ name.toList, c.toNat ≠ 7 ∧ (isPrintable c = true ∨ c.toNat < 65536)) ∧
    ∀ other, Denotable name → Denotable other →
      denotes (propertyKey name) = denotes (propertyKey other) → name = other := by
  have condition : Denotable name ↔ if isIdentifier name then ∀ c ∈ name.toList, c.toNat ≠ 0x2E2F
      else ∀ c ∈ name.toList, c.toNat ≠ 7 ∧ (isPrintable c = true ∨ c.toNat < 65536) := by
    simp [Denotable, isFaithful]
  refine ⟨?_, ?_⟩
  · rw [denotes_propertyKey_iff, condition]
  · intro other first second same
    rw [(denotes_propertyKey_iff name).mpr first, (denotes_propertyKey_iff other).mpr second] at same
    exact String.toList_injective (utf16_injective (Option.some.inj same))

/-- A bell is read as the letter it is written with, a tag as the digits of its code, and the letter that
is no letter not at all. -/
theorem propertyKey_misread :
    (propertyKey "\x07" = "\"\\a\"" ∧ denotes (propertyKey "\x07") = denotes (propertyKey "a")) ∧
    denotes (propertyKey (String.singleton (Char.ofNat 0xE0001))) = some (utf16 "U000e0001".toList) ∧
    denotes (propertyKey "\u2E2F") = none := by
  refine ⟨⟨?_, ?_⟩, ?_, ?_⟩ <;> decide +kernel

end Typesmith.Naming
