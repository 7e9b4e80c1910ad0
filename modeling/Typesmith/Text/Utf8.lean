namespace Typesmith.Text

/-- A byte is held as the character with its value, so the same list functions serve both. -/
def charBytes (c : Char) : List Char :=
  let n := c.toNat
  if n < 0x80 then [c]
  else if n < 0x800 then [0xC0 + n / 64, 0x80 + n % 64].map Char.ofNat
  else if n < 0x10000 then [0xE0 + n / 4096, 0x80 + n / 64 % 64, 0x80 + n % 64].map Char.ofNat
  else
    [0xF0 + n / 262144, 0x80 + n / 4096 % 64, 0x80 + n / 64 % 64, 0x80 + n % 64].map Char.ofNat

def toBytes (s : List Char) : List Char :=
  s.flatMap charBytes

def isContinuation (c : Char) : Bool :=
  0x80 ≤ c.toNat && c.toNat < 0xC0

/-- The character whose first byte gives `bits` and which has `count` more bytes, unless a shorter
sequence would do or the value is no character. -/
def joinBytes (bits count least : Nat) (rest : List Char) : Option (Nat × Char) :=
  let tail := rest.take count
  let value := tail.foldl (fun n c => n * 64 + c.toNat % 64) bits
  if tail.length = count ∧ tail.all isContinuation ∧ least ≤ value ∧ value.isValidChar then
    some (count, Char.ofNat value)
  else none

def sequenceAt (a : Char) (rest : List Char) : Option (Nat × Char) :=
  let x := a.toNat
  if x < 0x80 then some (0, a)
  else if x < 0xC2 then none
  else if x < 0xE0 then joinBytes (x - 0xC0) 1 0x80 rest
  else if x < 0xF0 then joinBytes (x - 0xE0) 2 0x800 rest
  else if x < 0xF5 then joinBytes (x - 0xF0) 3 0x10000 rest
  else none

/-- The text of bytes, after passing over `skip` of them. A byte that starts no character is
replaced. -/
def ofBytesFrom (skip : Nat) : List Char → List Char
  | [] => []
  | a :: rest =>
    match skip with
    | n + 1 => ofBytesFrom n rest
    | 0 =>
      match sequenceAt a rest with
      | some (n, c) => c :: ofBytesFrom n rest
      | none => '\uFFFD' :: ofBytesFrom 0 rest

def ofBytes (s : List Char) : List Char :=
  ofBytesFrom 0 s

end Typesmith.Text
