import Typesmith.Naming
import Typesmith.Model.Combine

namespace Typesmith.Model

structure Options where
  /-- The name of the model; empty for a fragment that is written where it is used. -/
  name : String := ""
  suggested : String := ""
  ref : String := ""
  base : String := ""
  deriving Repr, Inhabited

namespace Options

def hint (o : Options) : String :=
  if o.name = "" then o.suggested else o.name

def child (o : Options) (suggested : String) : Options :=
  { suggested, base := o.base }

end Options

abbrev Converter := Fragment → Options → ConvertM Container

def blank (kind : Kind) (f : Fragment) (o : Options) (shape : Shape) : Descriptor :=
  { kind, name := o.name, suggested := o.suggested, ref := o.ref, fragment := some f, shape }

def onlyNull (f : Fragment) : Bool :=
  !f.keywords.types.isEmpty && f.keywords.types.all (· == "null")

def withoutNull (f : Fragment) : Fragment :=
  { f with
    keywords :=
      { f.keywords with
        nullable := false
        types := f.nonNullTypes
        enum := f.keywords.enum.filter fun v => !v.isNull } }

def valueToken (kind : Kind) (f : Fragment) : String :=
  match kind with
  | .string => if f.keywords.format = "binary" then "Blob" else "string"
  | .number => "number"
  | .boolean => "boolean"
  | .null => "null"
  | _ => "any"

/-- A type declared elsewhere. It declares nothing, so it has no name of its own. -/
def externalDescriptor (f : Fragment) (o : Options) (name : String) : Descriptor :=
  blank .external f { o with name := "" } (.external (if name = "" then "any" else name))

def externalName (f : Fragment) : String :=
  let name := f.extraText "instanceof"
  if name = "" then f.extraText "x-instanceof" else name

def convertProperties (conv : Converter) (f : Fragment) (o : Options) : ConvertM (List Property) :=
  f.properties.mapM fun (name, prop) => do
    let types ← conv prop (o.child (o.hint ++ Naming.pascalCase name))
    return { name, types, required := f.keywords.required.contains name,
             readOnly := prop.keywords.readOnly, fragment := some prop }

def indexProperty (types : Container) : Property :=
  { name := "key", isIndex := true, required := true, types }

/-- Gives a record its shape. One that says nothing about its properties takes any of them. -/
def closeObject (conv : Converter) (f : Fragment) (o : Options) (id : Id) (set : List Property) :
    ConvertM Unit := do
  match f.additionalProperties with
  | some (.described extra) =>
    let types ← conv extra (o.child (o.hint ++ "Value"))
    setShape id (.object [set ++ [indexProperty types]] false)
  | some .forbidden => setShape id (.object [set] set.isEmpty)
  | _ =>
    if set.isEmpty then
      let any ← create { kind := .any, shape := .value "any" }
      setShape id (.object [[indexProperty [any]]] false)
    else setShape id (.object [set] false)

def convertObject (conv : Converter) (f : Fragment) (o : Options) (nullable : Bool) :
    ConvertM Container := do
  -- stored before its properties are converted, as they may refer back to it
  let (id, out) ← claim (blank .object f o (.object [] false)) nullable
  let set ← convertProperties conv f o
  closeObject conv f o id set
  return out

def convertArray (conv : Converter) (f : Fragment) (o : Options) (nullable : Bool) :
    ConvertM Container := do
  let (id, out) ← claim (blank .array f o (.array [])) nullable
  let _ ← f.itemFragments.foldlM (fun items item => do
    let types ← conv item (o.child (o.hint ++ "Item"))
    setShape id (.array (items ++ [types]))
    return items ++ [types]) ([] : List Container)
  return out

def literalKey : Json → String
  | .str s => s
  | v => v.compact

/-- Names the members of an enum; a name that was used before gets a number. `used` counts the
repetitions of each name. -/
def nameMembers (used : List (String × Nat)) : List Json → List Member
  | [] => []
  | v :: rest =>
    let name := Naming.memberName (literalKey v)
    match used.lookup name with
    | some n => ⟨Registry.numbered name (n + 1), v⟩ :: nameMembers ((name, n + 1) :: used) rest
    | none => ⟨name, v⟩ :: nameMembers ((name, 0) :: used) rest

def enumMembers (f : Fragment) : List Member :=
  nameMembers [] (f.keywords.enum.filter fun v => !v.isNull)

def allStrings (members : List Member) : Bool :=
  !members.isEmpty && members.all fun m => m.value.str?.isSome

def allNumbers (members : List Member) : Bool :=
  !members.isEmpty && members.all fun m =>
    match m.value with
    | .num _ => true
    | _ => false

/-- An enum. One without a name gets a new one, unless it is written where it is used. -/
def convertEnum (cfg : Setting) (f : Fragment) (o : Options) (nullable : Bool) :
    ConvertM Container := do
  let members := enumMembers f
  let name ← if o.name = "" && !(cfg.inlineStringEnums && allStrings members) then
      modifyGet fun s =>
        let (name, names) := s.names.reserve (Naming.sanitize ("Enum" ++ o.suggested))
        (name, { s with names })
    else pure o.name
  let (_, out) ← claim (blank .enum f { o with name } (.enum members)) nullable
  return out

def branchFragments (cfg : Setting) (depth : Nat) (c : Fragment.Combinator) (f : Fragment)
    (members : List Fragment) (o : Options) : ConvertM (List Fragment) := do
  match c with
  | .allOf => return [← composite cfg depth f f.commonPart members o.ref o.base]
  | _ => liftM (members.mapM fun member => alternative cfg f.commonPart member o.base)

def branchHint (c : Fragment.Combinator) (hint : String) (i : Nat) : String :=
  match c with
  | .allOf => hint
  | _ => Registry.numbered hint i

def convertSomeOf (cfg : Setting) (depth : Nat) (conv : Converter) (f : Fragment) (o : Options)
    (nullable : Bool) : ConvertM Container := do
  match f.combinator? with
  | none => fail (Fault.ofCombinator o.ref f.compact)
  | some (c, members) =>
    let (id, out) ← claim (blank .someOf f o (.someOf c [])) nullable
    let fragments ← branchFragments cfg depth c f members o
    let _ ← fragments.foldlM (fun branches branch => do
      let types ← conv branch (o.child (branchHint c o.hint branches.length))
      setShape id (.someOf c (branches ++ [types]))
      return branches ++ [types]) ([] : List Container)
    return out

def genericKeyword : String := "x-typegen-generic"

def caseOrder (order : Json) (cases : List (String × Json)) : List String :=
  let known := cases.map (·.1)
  let listed := ((order.arr?.getD []).filterMap Json.str?).filter known.contains
  let listed := listed.eraseDups
  listed ++ (Text.sort known).filter fun k => !listed.contains k

def parameterName (ext : Json) : String :=
  match ext.get? "parameter" with
  | some (.str p) => if Naming.isIdentifier p then p else "Key"
  | _ => "Key"

def caseFragment (ref key : String) (raw : Json) : ConvertM Fragment :=
  match Fragment.decode? raw with
  | some f => pure f
  | none =>
    fail ⟨.reference, ref, raw.compact, "case " ++ Text.quote key ++ " is not a valid schema",
      some "the fragment cannot be read"⟩

def convertGeneric (conv : Converter) (f : Fragment) (o : Options) (nullable : Bool) :
    ConvertM Container := do
  let ext := (f.keywords.extensions.lookup genericKeyword).getD .null
  let cases := ext.fieldsAt "cases"
  let parameter := parameterName ext
  let keys := caseOrder (ext.getD "order") cases
  let (id, out) ← claim (blank .generic f o (.generic parameter (keys.map fun k => (k, [])))) nullable
  let _ ← keys.foldlM (fun done key => do
    let raw := (cases.lookup key).getD .null
    let inner ← caseFragment o.ref key raw
    let types ← conv inner (o.child (o.hint ++ Naming.pascalCase key))
    let done := done ++ [(key, types)]
    -- keys whose fragments are still to be converted keep their places
    setShape id (.generic parameter (done ++ (keys.drop done.length).map fun k => (k, [])))
    return done) ([] : List (String × Container))
  return out

def typeBranches (f : Fragment) : List Fragment :=
  f.keywords.types.map fun t =>
    { f with keywords := { f.keywords with types := [t], title := "", description := "" } }

def convertMultiType (conv : Converter) (f : Fragment) (o : Options) (nullable : Bool) :
    ConvertM Container := do
  let branches := typeBranches f
  if o.name ≠ "" then
    -- `nullable` was taken off the fragment before and belongs to the whole union
    conv { keywords := { title := f.keywords.title, description := f.keywords.description, nullable },
           anyOf := branches } o
  else
    let parts ← branches.mapM fun branch => conv branch (o.child o.suggested)
    let nulls ← if nullable then (fun id => [id]) <$> create nullDescriptor else pure []
    let out := parts.flatten ++ nulls
    register o.ref out
    return out

/-- The container of a reference. It is noted before what is inside its fragment is converted, so
whatever names the reference meanwhile gets the same descriptors. -/
def findOrCreateWith (cfg : Setting) (conv : Converter) (ref : String) : ConvertM Container := do
  let canonical := Reference.normalize ref
  match (← get).lookup? canonical with
  | some c => return c
  | none =>
    let f ← resolve cfg canonical
    let base := Naming.modelName (Reference.parse canonical).lastSegment
    let name ← modifyGet fun s =>
      let (name, names) := s.names.claim canonical base
      (name, { s with names })
    match cfg.overrides.lookup name with
    | some other =>
      let (_, out) ← claim (externalDescriptor f { ref := canonical } other) false
      return out
    | none =>
      -- the name stays with the reference even if the conversion fails
      conv f { name, ref := canonical, base := canonical }

def classifyRaw (cfg : Setting) (raw : Json) (ref : String) : ConvertM Kind := do
  let (kind, lines) := Rule.classify cfg.rules raw
  modify fun s => { s with debug := s.debug ++ lines }
  match kind, Rule.unknownType? raw with
  | .any, some t =>
    warn .catchAll ref ("type " ++ String.ofList t.plain ++ " is not recognized, using any")
  | _, _ => pure ()
  return kind

def convertKind (cfg : Setting) (depth : Nat) (conv : Converter) (kind : Kind) (f : Fragment)
    (o : Options) (nullable : Bool) : ConvertM Container := do
  match kind with
  | .object => convertObject conv f o nullable
  | .array => convertArray conv f o nullable
  | .enum => convertEnum cfg f o nullable
  | .someOf => convertSomeOf cfg depth conv f o nullable
  | .generic => convertGeneric conv f o nullable
  | .external => return (← claim (externalDescriptor f o (externalName f)) nullable).2
  | kind => return (← claim (blank kind f o (.value (valueToken kind f))) nullable).2

def isMultiType (f : Fragment) : Bool :=
  1 < f.keywords.types.length && f.combinator?.isNone && f.keywords.enum.isEmpty

def convertWith (cfg : Setting) (depth : Nat) (conv : Converter) : Converter := fun f o => do
  if f.isRef then
    let out ← findOrCreateWith cfg conv (Reference.qualify f.ref o.base)
    register o.ref out
    return out
  else
    let nullable := f.isNullable && !onlyNull f
    let f := if nullable then withoutNull f else f
    if isMultiType f then convertMultiType conv f o nullable
    else
      match f.toJson? with
      | none => fail (Fault.ofReference o.ref "encoding fragment" (some unwritableText))
      | some raw =>
        let kind ← classifyRaw cfg raw o.ref
        convertKind cfg depth conv kind f o nullable

def convertDepth (cfg : Setting) : Nat → Converter
  | 0, _, _ => throw .tooDeep
  | depth + 1, f, o => convertWith cfg depth (convertDepth cfg depth) f o

def firstDepth : Nat := 10000

/-- The first answer that is not cut off by its depth, with twice the depth at every try. There is
none when the nesting has no end. -/
def firstEnding {α : Type} (run : Nat → Except Failure α × Store) (depth : Nat) :
    Option (Except Failure α × Store) :=
  match run depth with
  | (.error .tooDeep, _) => by
    -- a call that is written out would keep its place in the text
    apply firstEnding
    · exact run
    · exact 2 * depth
  | r => some r
partial_fixpoint

/-- Runs a conversion as deep as it needs. One that would never end counts as too deep. -/
def deepening {α : Type} (run : Nat → ConvertM α) : ConvertM α :=
  ExceptT.mk fun s => (firstEnding (fun depth => (run depth).run s) firstDepth).getD (.error .tooDeep, s)

def findOrCreate (cfg : Setting) (ref : String) : ConvertM Container :=
  deepening fun depth => findOrCreateWith cfg (convertDepth cfg depth) ref

def convert (cfg : Setting) (f : Fragment) (o : Options) : ConvertM Container := do
  let o := if o.ref = "" then o else { o with ref := Reference.normalize o.ref }
  let s ← get
  match (if o.ref = "" then none else s.lookup? o.ref) with
  | some c => return c
  | none => deepening fun depth => convertDepth cfg depth f o

end Typesmith.Model
