import Typesmith.Yaml.Lexer

namespace Typesmith.Yaml

inductive Node where
  | scalar (tag : String) (plain : Bool) (text : String)
  | sequence (items : List Node)
  | mapping (entries : List (Node × Node))
  | circular
  deriving Repr, Inhabited

namespace Node

def empty : Node :=
  .scalar "" true ""

/-- What a name stands for: a finished node, or one that was opened where this many tokens were left. -/
inductive Anchored where
  | done (n : Node)
  | opened (place : Nat)

structure Source where
  tokens : List Token
  anchors : List (String × Anchored) := []
  handles : List (String × String) := []

abbrev Parse := StateT Source Option

def peek : Parse Token :=
  return (← get).tokens.headD .bad

def skip : Parse Unit :=
  modify fun s => { s with tokens := s.tokens.tail }

structure Properties where
  anchor : Option String := none
  tag : Option String := none

def fullTag (handle suffix : String) : Parse String := do
  if handle = "" then return suffix
  else
    match (← get).handles.lookup handle with
    | some start => return start ++ suffix
    | none => failure

def properties : Parse Properties := do
  match ← peek with
  | .anchor a =>
    skip
    match ← peek with
    | .tag h x => skip; return ⟨some a, some (← fullTag h x)⟩
    | _ => return ⟨some a, none⟩
  | .tag h x =>
    skip
    match ← peek with
    | .anchor a => skip; return ⟨some a, some (← fullTag h x)⟩
    | _ => return ⟨none, some (← fullTag h x)⟩
  | _ => return {}

def openAnchor (anchor : Option String) (place : Nat) : Parse Unit :=
  match anchor with
  | some a => modify fun s => { s with anchors := (a, .opened place) :: s.anchors }
  | none => pure ()

def closeAnchor (anchor : Option String) (place : Nat) (n : Node) : Parse Unit := do
  match anchor with
  | some a =>
    match (← get).anchors.lookup a with
    | some (.opened p) =>
      if p = place then modify fun s => { s with anchors := (a, .done n) :: s.anchors }
    | _ => pure ()
  | none => pure ()

def endsItem : Token → Bool
  | .blockEntry | .blockEnd => true
  | _ => false

def endsEntry : Token → Bool
  | .key | .value | .blockEnd => true
  | _ => false

def endsFlowKey (close : Token) (t : Token) : Bool :=
  t == .value || t == .flowEntry || t == close

mutual

/-- Reads a node. In a block, blocks may open, and the value of a key may be a list that is not
indented. -/
def node : Nat → Bool → Bool → Parse Node
  | 0, _, _ => failure
  | fuel + 1, block, unindented => do
    match ← peek with
    | .alias a =>
      skip
      match (← get).anchors.lookup a with
      | some (.done n) => return n
      | some (.opened _) => return .circular
      | none => failure
    | _ =>
      let p ← properties
      let place := (← get).tokens.length
      openAnchor p.anchor place
      let n ← content fuel block unindented p
      closeAnchor p.anchor place n
      return n

def content : Nat → Bool → Bool → Properties → Parse Node
  | 0, _, _, _ => failure
  | fuel + 1, block, unindented, p => do
    match ← peek, block, unindented with
    | .blockEntry, _, true => return .sequence (← unindentedItems fuel)
    | .scalar text plain, _, _ => skip; return .scalar (p.tag.getD "") plain text
    | .flowSequenceStart, _, _ => skip; return .sequence (← flowItems fuel true)
    | .flowMappingStart, _, _ => skip; return .mapping (← flowEntries fuel true)
    | .blockSequenceStart, true, _ => skip; return .sequence (← blockItems fuel)
    | .blockMappingStart, true, _ => skip; return .mapping (← blockEntries fuel)
    | _, _, _ =>
      if p.anchor.isSome || p.tag.isSome then return .scalar (p.tag.getD "") true "" else failure

def blockItems : Nat → Parse (List Node)
  | 0 => failure
  | fuel + 1 => do
    match ← peek with
    | .blockEntry =>
      skip
      let n ← if endsItem (← peek) then pure empty else node fuel true false
      return n :: (← blockItems fuel)
    | .blockEnd => skip; return []
    | _ => failure

def unindentedItems : Nat → Parse (List Node)
  | 0 => failure
  | fuel + 1 => do
    match ← peek with
    | .blockEntry =>
      skip
      let t ← peek
      let n ← if endsItem t || endsEntry t then pure empty else node fuel true false
      return n :: (← unindentedItems fuel)
    | _ => return []

def blockEntries : Nat → Parse (List (Node × Node))
  | 0 => failure
  | fuel + 1 => do
    match ← peek with
    | .key =>
      skip
      let k ← if endsEntry (← peek) then pure empty else node fuel true true
      let v ← blockValue fuel
      return (k, v) :: (← blockEntries fuel)
    | .blockEnd => skip; return []
    | _ => failure

def blockValue : Nat → Parse Node
  | 0 => failure
  | fuel + 1 => do
    match ← peek with
    | .value =>
      skip
      if endsEntry (← peek) then return empty else node fuel true true
    | _ => return empty

def flowItems : Nat → Bool → Parse (List Node)
  | 0, _ => failure
  | fuel + 1, first => do
    match ← peek, first with
    | .flowSequenceEnd, _ => skip; return []
    | .flowEntry, false => skip; flowItem fuel
    | _, true => flowItem fuel
    | _, false => failure

def flowItem : Nat → Parse (List Node)
  | 0 => failure
  | fuel + 1 => do
    match ← peek with
    | .flowSequenceEnd => skip; return []
    | .key =>
      skip
      let k ← if endsFlowKey .flowSequenceEnd (← peek) then do skip; pure empty
        else node fuel false false
      let v ← flowValue fuel .flowSequenceEnd
      return .mapping [(k, v)] :: (← flowItems fuel false)
    | _ =>
      let n ← node fuel false false
      return n :: (← flowItems fuel false)

def flowValue : Nat → Token → Parse Node
  | 0, _ => failure
  | fuel + 1, close => do
    match ← peek with
    | .value =>
      skip
      let t ← peek
      if t == .flowEntry || t == close then return empty else node fuel false false
    | _ => return empty

def flowEntries : Nat → Bool → Parse (List (Node × Node))
  | 0, _ => failure
  | fuel + 1, first => do
    match ← peek, first with
    | .flowMappingEnd, _ => skip; return []
    | .flowEntry, false => skip; flowEntry fuel
    | _, true => flowEntry fuel
    | _, false => failure

def flowEntry : Nat → Parse (List (Node × Node))
  | 0 => failure
  | fuel + 1 => do
    match ← peek with
    | .flowMappingEnd => skip; return []
    | .key =>
      skip
      let k ← if endsFlowKey .flowMappingEnd (← peek) then pure empty else node fuel false false
      let v ← flowValue fuel .flowMappingEnd
      return (k, v) :: (← flowEntries fuel false)
    | _ =>
      let k ← node fuel false false
      return (k, empty) :: (← flowEntries fuel false)

end

def standardHandles : List (String × String) :=
  [("!", "!"), ("!!", "tag:yaml.org,2002:")]

def directives : Nat → Bool → Parse Unit
  | 0, _ => failure
  | fuel + 1, version => do
    match ← peek with
    | .version major minor =>
      if version || major ≠ 1 || minor ≠ 1 then failure
      else
        skip
        directives fuel true
    | .tagHandle handle start =>
      if ((← get).handles.lookup handle).isSome then failure
      else
        skip
        modify fun s => { s with handles := (handle, start) :: s.handles }
        directives fuel version
    | _ => modify fun s => { s with handles := s.handles ++ standardHandles }

def isBetween : Token → Bool
  | .version _ _ | .tagHandle _ _ | .documentStart | .documentEnd | .streamEnd => true
  | _ => false

def document (fuel : Nat) : Parse (Option Node) := do
  let first ← peek
  directives fuel false
  match first with
  | .streamEnd => return none
  | .version _ _ | .tagHandle _ _ | .documentStart =>
    if (← peek) == .documentStart then
      skip
      let n ← if isBetween (← peek) then pure empty else node fuel true false
      if (← peek) == .bad then failure else return some n
    else failure
  | _ =>
    let n ← node fuel true false
    if (← peek) == .bad then failure else return some n

/-- The first document in some tokens, or nothing if there is none. Between two tokens there are at
most four calls, so the fuel does not run out. -/
def ofTokens? (tokens : List Token) : Option (Option Node) :=
  (document (4 * tokens.length + 8)).run' { tokens }

def parse? (s : String) : Option (Option Node) :=
  ofTokens? (tokens s)

end Node

end Typesmith.Yaml
