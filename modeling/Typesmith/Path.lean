import Typesmith.Text.Scan

namespace Typesmith.Path

open Text

def isAbsolute (p : String) : Bool :=
  startsWith p "/"

/-- Adds one step to the steps walked so far, last one first. `..` takes a step back, stays at the
root and is kept where a relative path has nothing to go back to. -/
def step (rooted : Bool) (walked : List String) (s : String) : List String :=
  if s = "" ∨ s = "." then walked
  else if s = ".." then
    match walked with
    | [] => if rooted then [] else [".."]
    | last :: before => if last = ".." then ".." :: walked else before
  else s :: walked

def clean (p : String) : String :=
  let rooted := isAbsolute p
  let steps := ((split '/' p).foldl (step rooted) []).reverse
  let body := join "/" steps
  if rooted then "/" ++ body else if steps.isEmpty then "." else body

def joinAll (ps : List String) : String :=
  match ps.filter (· ≠ "") with
  | [] => ""
  | ps => clean (join "/" ps)

def splitLast (p : String) : List Char × List Char :=
  let base := (p.toList.reverse.takeWhile (· ≠ '/')).reverse
  (p.toList.take (p.toList.length - base.length), base)

def dir (p : String) : String :=
  clean (String.ofList (splitLast p).1)

def base (p : String) : String :=
  if p = "" then "."
  else
    let trimmed := (p.toList.reverse.dropWhile (· = '/')).reverse
    if trimmed.isEmpty then "/" else String.ofList (trimmed.reverse.takeWhile (· ≠ '/')).reverse

def extension (p : String) : String :=
  let last := (splitLast p).2
  let tail := last.reverse.takeWhile (· ≠ '.')
  if tail.length = last.length then "" else String.ofList ('.' :: tail.reverse)

end Typesmith.Path
