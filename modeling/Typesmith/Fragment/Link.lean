import Typesmith.Text.Scan
import Typesmith.Text.Utf8

namespace Typesmith

open Text

/-- The parts of an address, unescaped. Of the path and the fragment the given spelling is kept too. -/
structure Link where
  scheme : List Char := []
  rigid : List Char := []
  user : Option (List Char × Option (List Char)) := none
  host : List Char := []
  omitHost : Bool := false
  path : List Char := []
  pathText : List Char := []
  query : Option (List Char) := none
  fragment : List Char := []
  fragmentText : List Char := []
  deriving Repr, Inhabited

namespace Link

inductive Part where
  | user | host | path | segment | fragment
  deriving DecidableEq

def needsEscape (part : Part) (c : Char) : Bool :=
  if c.isAlphanum || "-_.~".toList.contains c then false
  else if part == .host && "!$&'()*+,;=:[]<>\"".toList.contains c then false
  else if "$&+,/:;=?@".toList.contains c then
    match part with
    | .path => c == '?'
    | .segment => "/;,?".toList.contains c
    | .user => "@/?:".toList.contains c
    | .fragment => false
    | .host => true
  else !(part == .fragment && "!()*".toList.contains c)

def upperHex (n : Nat) : Char :=
  (hexDigit n).toUpper

def escape (part : Part) (s : List Char) : List Char :=
  s.flatMap fun c =>
    if needsEscape part c then ['%', upperHex (c.toNat / 16), upperHex (c.toNat % 16)] else [c]

def isSpelled (part : Part) (s : List Char) : Bool :=
  s.all fun c => "!$&'()*+,;=:@[]%".toList.contains c || !needsEscape part c

def spell (part : Part) (given bytes : List Char) : List Char :=
  if !given.isEmpty && isSpelled part given then given else escape part bytes

def unescape? (part : Part) : List Char → Option (List Char)
  | [] => some []
  | '%' :: a :: b :: rest => do
    let x ← hexValue? a
    let y ← hexValue? b
    if part == .host && x < 8 && !(a == '2' && b == '5') then none
    else
      let out ← unescape? part rest
      return Char.ofNat (x * 16 + y) :: out
  | '%' :: _ => none
  | c :: rest =>
    if part == .host && c.toNat < 0x80 && needsEscape .host c then none
    else do
      let out ← unescape? part rest
      return c :: out

def cutScheme? (s : List Char) : Option (List Char × List Char) :=
  let isScheme (c : Char) : Bool := c.isAlphanum || c == '+' || c == '-' || c == '.'
  let name := s.takeWhile isScheme
  match name, s.dropWhile isScheme with
  | [], ':' :: _ => none
  | [], _ => some ([], s)
  | c :: _, ':' :: rest => if c.isAlpha then some (name, rest) else some ([], s)
  | _ :: _, _ => some ([], s)

def isPort (s : List Char) : Bool :=
  match s with
  | [] => true
  | c :: ds => c == ':' && ds.all isAsciiDigit

def cutLast (sep : Char) (s : List Char) : Option (List Char × List Char) :=
  (cut sep s.reverse).map fun (after, before) => (before.reverse, after.reverse)

def readHost? (s : List Char) : Option (List Char) :=
  let port : Option (List Char) := match s with
    | '[' :: _ => (cutLast ']' s).map (·.2)
    | _ => match cutLast ':' s with
      | some (_, p) => some (':' :: p)
      | none => some []
  match port with
  | some p => if isPort p then unescape? .host s else none
  | none => none

def isUserChar (c : Char) : Bool :=
  c.isAlphanum || "-._:~!$&'()*+,;=%@".toList.contains c

def readAuthority? (s : List Char) :
    Option (Option (List Char × Option (List Char)) × List Char) :=
  match cutLast '@' s with
  | none => (readHost? s).map fun h => (none, h)
  | some (user, host) => do
    let h ← readHost? host
    if !user.all isUserChar then none
    else
      match cut ':' user with
      | none =>
        let u ← unescape? .user user
        return (some (u, none), h)
      | some (u, p) =>
        let u ← unescape? .user u
        let p ← unescape? .user p
        return (some (u, some p), h)

def cutQuery (s : List Char) : List Char × Option (List Char) :=
  match cut '?' s with
  | none => (s, none)
  | some (before, []) => (before, some [])
  | some (before, after) => (before, some after)

def readBody? (s : List Char) : Option Link :=
  if s.any fun c => c.toNat < 32 || c.toNat == 127 then none
  else if s = ['*'] then some { path := s, pathText := s }
  else do
    let (scheme, rest) ← cutScheme? s
    let scheme := scheme.map Char.toLower
    let (rest, query) := cutQuery rest
    match rest with
    | '/' :: '/' :: more =>
      -- three slashes start a path, and no host
      if scheme.isEmpty && more.head? == some '/' then
        let path ← unescape? .path rest
        return { path, pathText := rest, query }
      else
        let (user, host) ← readAuthority? (more.takeWhile (· ≠ '/'))
        let pathText := more.dropWhile (· ≠ '/')
        let path ← unescape? .path pathText
        return { scheme, query, user, host, path, pathText }
    | '/' :: _ =>
      let path ← unescape? .path rest
      return { scheme, query, path, pathText := rest, omitHost := !scheme.isEmpty }
    | _ =>
      if !scheme.isEmpty then return { scheme, query, rigid := rest }
      -- a colon in the first step would end a scheme, and this one is none
      else if (rest.takeWhile (· ≠ '/')).contains ':' then none
      else
        let path ← unescape? .path rest
        return { query, path, pathText := rest }

def read? (s : List Char) : Option Link :=
  match cut '#' s with
  | none => readBody? s
  | some (body, frag) => do
    let l ← readBody? body
    let fragment ← unescape? .fragment frag
    return { l with fragment, fragmentText := frag }

def collapseSlashes : List Char → List Char
  | '/' :: '/' :: rest => collapseSlashes ('/' :: rest)
  | c :: rest => c :: collapseSlashes rest
  | [] => []

def dropPort (scheme host : List Char) : List Char :=
  match cutLast ':' host with
  | some (name, port) =>
    if (scheme == "http".toList && port == "80".toList)
        || (scheme == "https".toList && port == "443".toList) then name
    else host
  | none => host

def normal (l : Link) : Link :=
  { l with
    host := dropPort l.scheme ((toBytes (ofBytes l.host)).map Char.toLower)
    path := collapseSlashes l.path
    pathText := []
    fragmentText := [] }

def writeUser : Option (List Char × Option (List Char)) → List Char
  | none => []
  | some (u, none) => escape .user u ++ ['@']
  | some (u, some p) => escape .user u ++ ':' :: (escape .user p ++ ['@'])

def writeFront (l : Link) : List Char :=
  let head := if l.scheme.isEmpty then [] else l.scheme ++ [':']
  if l.scheme.isEmpty && l.host.isEmpty && l.user.isNone then head
  else if l.omitHost && l.host.isEmpty && l.user.isNone then head
  else
    let slashes := if l.host.isEmpty && l.path.isEmpty && l.user.isNone then [] else ['/', '/']
    head ++ slashes ++ writeUser l.user ++ escape .host l.host

/-- The escaped path; a lone asterisk stays. A slash is put between a host and a relative path, and
a dot in front of a first step that would read as a scheme. -/
def writePath (l : Link) (front : List Char) : List Char :=
  let path := if l.path == ['*'] then ['*'] else spell .path l.pathText l.path
  let slash := if !path.isEmpty && path.head? != some '/' && !l.host.isEmpty then ['/'] else []
  let dot :=
    if front.isEmpty && slash.isEmpty && (path.takeWhile (· ≠ '/')).contains ':' then ['.', '/']
    else []
  slash ++ dot ++ path

def write (l : Link) : List Char :=
  let body :=
    if l.rigid.isEmpty then l.writeFront ++ l.writePath l.writeFront
    else (if l.scheme.isEmpty then [] else l.scheme ++ [':']) ++ l.rigid
  let query := match l.query with
    | none => []
    | some q => '?' :: q
  let frag := spell .fragment l.fragmentText l.fragment
  body ++ query ++ (if frag.isEmpty then [] else '#' :: frag)

def normalize? (s : String) : Option String :=
  (read? (toBytes s.toList)).map fun l => String.ofList (ofBytes l.normal.write)

def tidy? (s : String) : Option String :=
  (read? (toBytes s.toList)).map fun l => String.ofList (ofBytes l.write)

/-- The place that a normal `$ref` text names: its percent escapes are read back. -/
def target (s : String) : String :=
  match unescape? .segment (toBytes s.toList) with
  | some out => String.ofList (ofBytes out)
  | none => s

end Link

end Typesmith
