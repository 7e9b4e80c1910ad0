import Typesmith.EntryPoint.Synthesis
import Typesmith.Proofs.Mounting
import Typesmith.Proofs.Paths

namespace Typesmith

namespace Text

theorem split_ne_nil (sep : Char) (s : String) : split sep s ≠ [] := fun nothing =>
  splitChars_ne_nil sep s.toList (List.map_eq_nil_iff.mp nothing)

end Text

namespace Json

/-- The value reached by going down along keys. -/
def along? (j : Json) (keys : List String) : Option Json :=
  keys.foldlM step? j

def nest (keys : List String) (v : Json) : Json :=
  keys.foldr (fun key inner => .obj [(key, inner)]) v

theorem at?_eq_along? (j : Json) (pointer : String) : j.at? pointer = j.along? (pointerTokens pointer) :=
  rfl

theorem along?_cons (j : Json) (key : String) (keys : List String) :
    j.along? (key :: keys) = (j.step? key).bind (·.along? keys) :=
  List.foldlM_cons

theorem step?_nest_self (key : String) (keys : List String) (v : Json) :
    (nest (key :: keys) v).step? key = some (nest keys v) := by
  simp [nest, step?]

theorem along?_nest_self (keys : List String) (v : Json) : (nest keys v).along? keys = some v := by
  induction keys with
  | nil => rfl
  | cons key keys ih => rw [along?_cons, step?_nest_self, Option.bind_some, ih]

theorem along?_nest {keys : List String} (broken : ∃ key ∈ keys, '\\' ∈ key.toList) (v : Json) :
    (nest keys v).along? (keys.flatMap (Text.split '\\')) = none := by
  induction keys with
  | nil => simp at broken
  | cons key keys ih =>
    rw [List.flatMap_cons]
    by_cases whole : '\\' ∈ key.toList
    · -- the first piece of the key is shorter, and no field is called so
      cases pieces : Text.split '\\' key with
      | nil => exact absurd pieces (Text.split_ne_nil _ _)
      | cons first rest =>
        have free : '\\' ∉ first.toList := Text.not_mem_split (pieces ▸ List.mem_cons_self)
        have other : first ≠ key := fun same => free (same ▸ whole)
        have missing : (nest (key :: keys) v).step? first = none := by
          simp [nest, step?, List.lookup_cons, beq_eq_false_iff_ne.mpr other]
        rw [List.cons_append, along?_cons, missing, Option.bind_none]
    · obtain ⟨other, inside, backslash⟩ := broken
      have later : other ∈ keys := (List.mem_cons.mp inside).resolve_left fun same => whole (same ▸ backslash)
      rw [Text.split_eq_singleton whole, List.singleton_append, along?_cons, step?_nest_self, Option.bind_some]
      exact ih ⟨other, later, backslash⟩

end Json

namespace Reference

open Text

/-- How a character is written in a segment. -/
def spelling (c : Char) : List Char :=
  if c = '~' then ['~', '0'] else if c = '/' then ['~', '1'] else [c]

theorem escape_ofList (l : List Char) : escape (String.ofList l) = String.ofList (l.flatMap spelling) := by
  apply String.toList_injective
  rw [escape_toList, String.toList_ofList, String.toList_ofList]
  rfl

theorem slashes_cons (c : Char) (l : List Char) :
    slashes (c :: l) = (if c = '\\' then '/' else c) :: slashes l :=
  List.map_cons

theorem splitChars_slashes (l : List Char) :
    splitChars '/' (slashes (l.flatMap spelling)) = (splitChars '\\' l).map (·.flatMap spelling) := by
  induction l with
  | nil => rfl
  | cons c l ih =>
    rw [List.flatMap_cons]
    cases pieces : splitChars '\\' l with
    | nil => exact absurd pieces (splitChars_ne_nil _ _)
    | cons first others =>
      rw [pieces, List.map_cons] at ih
      by_cases tilde : c = '~'
      · simp [tilde, spelling, slashes_cons, splitChars, ih, pieces]
      · by_cases slash : c = '/'
        · simp [slash, spelling, slashes_cons, splitChars, ih, pieces]
        · by_cases backslash : c = '\\'
          · simp [backslash, spelling, slashes_cons, splitChars, ih, pieces]
          · simp [tilde, slash, backslash, spelling, slashes_cons, splitChars, ih, pieces]

theorem unescape_splitChars_slashes (key : String) :
    (splitChars '/' (slashes (escape key).toList)).map (unescape ∘ String.ofList) =
      split '\\' key := by
  have letters : (escape key).toList = key.toList.flatMap spelling := escape_toList key
  rw [letters, splitChars_slashes, List.map_map, split]
  refine List.map_congr_left fun piece _ => ?_
  rw [Function.comp_apply, Function.comp_apply, ← escape_ofList, unescape_escape]

end Reference

namespace EntryPoint

open Text Reference

def refAlong (keys : List String) : String :=
  keys.foldl childRef "#"

def pointerAlong (keys : List String) : List Char :=
  keys.flatMap fun key => '/' :: slashes (escape key).toList

theorem refAlong_toList (keys : List String) :
    (refAlong keys).toList = '#' :: keys.flatMap fun key => '/' :: (escape key).toList := by
  have below : ∀ ref : String, (keys.foldl childRef ref).toList =
      ref.toList ++ keys.flatMap fun key => '/' :: (escape key).toList := by
    induction keys with
    | nil => simp
    | cons key keys ih =>
      intro ref
      rw [List.foldl_cons, ih, childRef]
      simp
  exact below "#"

theorem parse_refAlong (keys : List String) :
    parse (refAlong keys) = ⟨"", String.ofList (pointerAlong keys)⟩ := by
  have read : slashes (keys.flatMap fun key => '/' :: (escape key).toList) = pointerAlong keys := by
    rw [slashes, List.map_flatMap, pointerAlong]
    rfl
  have front : rooted (pointerAlong keys) = pointerAlong keys := by
    cases keys with
    | nil => rfl
    | cons key keys => rfl
  have found : cut '#' ('#' :: keys.flatMap fun key => '/' :: (escape key).toList) = some ([], _) :=
    cut_append List.not_mem_nil _
  rw [parse, refAlong_toList, found, Option.getD_some]
  dsimp only
  rw [read, front]
  rfl

theorem pointerAlong_cons (key : String) (keys : List String) :
    pointerAlong (key :: keys) = '/' :: (slashes (escape key).toList ++ pointerAlong keys) :=
  rfl

theorem splitChars_pointerAlong (before : List Char) (keys : List String) :
    splitChars '/' (before ++ pointerAlong keys) =
      splitChars '/' before ++ keys.flatMap fun key => splitChars '/' (slashes (escape key).toList) := by
  induction keys generalizing before with
  | nil => simp [pointerAlong]
  | cons key keys ih => rw [pointerAlong_cons, splitChars_append, ih, List.flatMap_cons]

/-- Read from its reference, a list of keys comes with every key taken apart at its backslashes. -/
theorem pointerTokens_refAlong (keys : List String) :
    Json.pointerTokens (parse (refAlong keys)).pointer = keys.flatMap (split '\\') := by
  rw [parse_refAlong]
  dsimp only
  cases keys with
  | nil => rfl
  | cons key keys =>
    have slash : "/".toList = ['/'] := rfl
    have filled : String.ofList (pointerAlong (key :: keys)) ≠ "" := by
      intro empty
      have letters := congrArg String.toList empty
      rw [String.toList_ofList, pointerAlong_cons] at letters
      cases letters
    have rest : dropStart (String.ofList (pointerAlong (key :: keys))) "/" =
        String.ofList (slashes (escape key).toList ++ pointerAlong keys) := by
      simp [dropStart, startsWith, pointerAlong_cons, slash]
    rw [Json.pointerTokens, if_neg filled, rest, split, String.toList_ofList, splitChars_pointerAlong,
      List.map_map, List.map_append, List.map_flatMap, List.flatMap_cons]
    simp only [unescape_splitChars_slashes]

theorem segments_refAlong (first second : String) (keys : List String) :
    (parse (refAlong (first :: second :: keys))).segments =
      (first :: second :: keys).flatMap (split '\\') := by
  -- only a single empty key would be taken for the root
  have deep : (parse (refAlong (first :: second :: keys))).pointer ≠ "/" := by
    intro root
    have letters := congrArg String.toList root
    rw [parse_refAlong, String.toList_ofList, pointerAlong_cons, pointerAlong_cons] at letters
    have slash : "/".toList = ['/'] := rfl
    simp [slash] at letters
  rw [← pointerTokens_refAlong, segments, Json.pointerTokens]
  simp [deep]

theorem component_eq_refAlong (name : String) : component name = refAlong ["components", "schemas", name] :=
  rfl

theorem lastSegment_component_iff (name : String) :
    (parse (component name)).lastSegment = name ↔ '\\' ∉ name.toList := by
  have segments := segments_refAlong "components" "schemas" [name]
  rw [← component_eq_refAlong] at segments
  have pieces : (["components", "schemas", name].flatMap (split '\\')) =
      ["components", "schemas"] ++ split '\\' name := by
    rw [List.flatMap_cons, List.flatMap_cons, List.flatMap_singleton]
    rfl
  have filled := split_ne_nil '\\' name
  have ending : (parse (component name)).lastSegment = (split '\\' name).getLast filled := by
    rw [lastSegment, segments, pieces, List.getLast?_append, List.getLast?_eq_some_getLast filled]
    rfl
  rw [ending]
  refine ⟨fun same => ?_, fun whole => ?_⟩
  · have free := not_mem_split (List.getLast_mem filled)
    rwa [same] at free
  · simp [split_eq_singleton whole]

def operationRef (path method : String) : String :=
  pathRef path ++ "/" ++ asciiLower method

theorem operationRef_eq_refAlong (path : String) {method : String} (known : method ∈ methods) :
    operationRef path method = refAlong ["paths", path, asciiLower method] := by
  -- no method has a character to be escaped
  have plain : ∀ method ∈ methods, escape (asciiLower method) = asciiLower method := by decide
  have last : operationRef path method = childRef (pathRef path) (asciiLower method) := by
    rw [childRef, plain method known, operationRef]
  have root : childRef "#" "paths" = "#/paths" := by decide
  rw [last, refAlong, List.foldl_cons, root]
  rfl

end EntryPoint

namespace Resolver

open Text Reference EntryPoint

def EntriesOnly (r : Resolver) : Prop :=
  ∀ m ∈ r.mounts, ∃ name, m.1 = mountPoint name

theorem EntriesOnly.mount {r : Resolver} (own : r.EntriesOnly) (name : String) (value : Json) :
    (r.mount (mountRef name) value).2.EntriesOnly := by
  intro m inside
  rcases List.mem_cons.mp inside with rfl | older
  · exact ⟨name, by rw [mountPoint]⟩
  · exact own m (List.mem_filter.mp older).1

theorem entriesOnly_mountAll {cfg : Model.Setting} (own : cfg.resolver.EntriesOnly) {entries : List EntryPoint}
    (refs : ∀ e ∈ entries, e.ref = mountRef e.name) :
    (Conversion.mountAll cfg entries).resolver.EntriesOnly := by
  induction entries generalizing cfg with
  | nil => exact own
  | cons e entries ih =>
    rw [Conversion.mountAll_cons, refs e List.mem_cons_self]
    exact ih (own.mount e.name (.obj e.fragment)) fun other inside => refs other (List.mem_cons_of_mem _ inside)

theorem covers_mountPoint {name pointer : String} {c : Char} {rest : List Char}
    (letters : pointer.toList = '/' :: c :: rest) (other : c ≠ 'x') :
    covers (mountPoint name) pointer = false := by
  obtain ⟨tail, shape⟩ : ∃ tail, (mountPoint name).toList = '/' :: 'x' :: tail := by
    have root : mountRoot.toList = '/' :: 'x' :: "-typegen/entrypoints/".toList := rfl
    rw [mountPoint, parse_mountRef, String.toList_append, root]
    exact ⟨_, rfl⟩
  have apart : pointer ≠ mountPoint name := by
    intro same
    rw [same, shape] at letters
    exact other (List.cons.inj (List.cons.inj letters).2).1.symm
  have behind : ('x' :: (tail ++ ['/'])).isPrefixOf (c :: rest) = false := by
    rw [List.isPrefixOf_cons_cons, beq_eq_false_iff_ne.mpr other.symm, Bool.false_and]
  simp [covers, startsWith, apart, letters, shape, behind]

theorem lookup_eq_ok_iff {r : Resolver} {ref pointer : String} {doc v : Json}
    (read : r.document ref = .ok (doc, pointer)) :
    r.lookup ref = .ok v ↔ v.isNull = false ∧ doc.at? pointer = some v := by
  rw [lookup, read]
  simp only [bind, Except.bind]
  cases reached : doc.at? pointer with
  | none => simp [throw, throwThe, MonadExceptOf.throw]
  | some w =>
    cases w with
    | null =>
      constructor
      · intro answer
        cases answer
      · rintro ⟨filled, same⟩
        cases same
        cases filled
    | _ =>
      simp only [pure, Except.pure, Except.ok.injEq, Option.some.injEq]
      exact ⟨fun same => ⟨same ▸ rfl, same⟩, And.right⟩

/-- What a reference built from keys leads to: the value along the keys, each taken apart at its
backslashes. With no backslash in them that is the value under the keys, and with one it is never found
where the document holds nothing else. -/
structure Reaches (r : Resolver) (ref : String) (keys : List String) : Prop where
  segments : (parse ref).segments = keys.flatMap (split '\\')
  value : ∀ v, r.lookup ref = .ok v ↔
    v.isNull = false ∧ r.root.along? (keys.flatMap (split '\\')) = some v
  plain : (∀ key ∈ keys, '\\' ∉ key.toList) → (parse ref).segments = keys ∧
    ∀ v, r.lookup ref = .ok v ↔ v.isNull = false ∧ r.root.along? keys = some v
  lost : (∃ key ∈ keys, '\\' ∈ key.toList) → (parse ref).segments ≠ keys ∧
    ∀ v, (Json.nest keys v).along? keys = some v ∧
      ∀ w, { r with root := Json.nest keys v }.lookup ref ≠ .ok w

variable {r : Resolver}

theorem lookup_refAlong (own : r.EntriesOnly) {first : String} {keys : List String} {c : Char}
    {rest : List Char} (letters : slashes (escape first).toList = c :: rest) (other : c ≠ 'x') (v : Json) :
    r.lookup (refAlong (first :: keys)) = .ok v ↔
      v.isNull = false ∧ r.root.along? ((first :: keys).flatMap (split '\\')) = some v := by
  have pointer : (parse (refAlong (first :: keys))).pointer.toList =
      '/' :: c :: (rest ++ pointerAlong keys) := by
    rw [parse_refAlong, String.toList_ofList, pointerAlong_cons, letters]
    rfl
  have unmounted : r.mountFor? (parse (refAlong (first :: keys))).pointer = none := by
    have nothing : r.mounts.filter (covers ·.1 (parse (refAlong (first :: keys))).pointer) = [] := by
      refine List.filter_eq_nil_iff.mpr fun m inside => ?_
      obtain ⟨name, place⟩ := own m inside
      rw [place, covers_mountPoint pointer other]
      exact Bool.false_ne_true
    rw [mountFor?, nothing]
    rfl
  have here : (parse (refAlong (first :: keys))).isLocal = true := by
    rw [parse_refAlong]
    rfl
  have read : r.document (refAlong (first :: keys)) = .ok (r.root, (parse (refAlong (first :: keys))).pointer) := by
    rw [document]
    simp [here, unmounted]
  rw [lookup_eq_ok_iff read, Json.at?_eq_along?, pointerTokens_refAlong]

theorem reaches_refAlong (own : r.EntriesOnly) {first second : String} {keys : List String} {c : Char}
    {rest : List Char} (letters : slashes (escape first).toList = c :: rest)
    (other : c ≠ 'x') : r.Reaches (refAlong (first :: second :: keys)) (first :: second :: keys) := by
  have segments := segments_refAlong first second keys
  refine ⟨segments, lookup_refAlong own letters other, fun plain => ?_, fun broken => ⟨?_, fun v => ⟨?_, ?_⟩⟩⟩
  · have same := flatMap_split_eq_self plain
    refine ⟨segments.trans same, fun v => ?_⟩
    rw [lookup_refAlong own letters other, same]
  · obtain ⟨key, inside, backslash⟩ := broken
    rw [segments]
    intro same
    rw [← same] at inside
    obtain ⟨whole, _, piece⟩ := List.mem_flatMap.mp inside
    exact not_mem_split piece backslash
  · exact Json.along?_nest_self _ v
  · intro w found
    have elsewhere : EntriesOnly { r with root := Json.nest (first :: second :: keys) v } := own
    have reached := ((lookup_refAlong elsewhere letters other w).mp found).2
    rw [Json.along?_nest broken v] at reached
    cases reached

theorem reaches_component (own : r.EntriesOnly) (name : String) :
    r.Reaches (component name) ["components", "schemas", name] := by
  have letters : slashes (escape "components").toList = 'c' :: "omponents".toList := by decide
  rw [component_eq_refAlong]
  exact reaches_refAlong own letters (by decide)

/-- The schema of every name, every operation and every response is looked up along its keys, each
taken apart at its backslashes: what the document has under the keys is found in every document exactly
if none of them holds a backslash. The last segment of the reference of a schema is its name under the
same condition. -/
theorem document_keys_reached (own : r.EntriesOnly) :
    (∀ name, r.Reaches (component name) ["components", "schemas", name] ∧
      ((parse (component name)).lastSegment = name ↔ '\\' ∉ name.toList)) ∧
    ∀ path, ∀ method ∈ methods,
      r.Reaches (operationRef path method) ["paths", path, asciiLower method] ∧
      ∀ status, r.Reaches (childRef (childRef (operationRef path method) "responses") status)
        ["paths", path, asciiLower method, "responses", status] := by
  have components : slashes (escape "components").toList = 'c' :: "omponents".toList := by decide
  have paths : slashes (escape "paths").toList = 'p' :: "aths".toList := by decide
  refine ⟨fun name => ⟨?_, lastSegment_component_iff name⟩, fun path method known => ⟨?_, fun status => ?_⟩⟩
  · rw [component_eq_refAlong]
    exact reaches_refAlong own components (by decide)
  · rw [operationRef_eq_refAlong path known]
    exact reaches_refAlong own paths (by decide)
  · have below : r.Reaches (refAlong ["paths", path, asciiLower method, "responses", status])
        ["paths", path, asciiLower method, "responses", status] := reaches_refAlong own paths (by decide)
    rw [operationRef_eq_refAlong path known]
    exact below

def pond : Json :=
  .obj [("components", .obj [("schemas", .obj [("fish/~eel", .obj [("type", .str "string")])])]),
    ("paths", .obj [("/ponds/~all", .obj [("get", .obj [("responses", .obj [("default",
      .obj [("description", .str "fish")])])])])])]

theorem document_keys_reached_pond :
    ∃ r : Resolver, r.EntriesOnly ∧ r.mounts ≠ [] ∧ r.root = pond ∧
      r.lookup (component "fish/~eel") = .ok (.obj [("type", .str "string")]) ∧
      (parse (component "fish/~eel")).lastSegment = "fish/~eel" ∧
      r.lookup (childRef (childRef (operationRef "/ponds/~all" "GET") "responses") "default") =
        .ok (.obj [("description", .str "fish")]) := by
  have bare : EntriesOnly { root := pond } := fun _ inside => absurd inside List.not_mem_nil
  have own : (Conversion.mountAll (Conversion.Request.setting {} none ⟨"", "", pond⟩)
      [ofOperation default .response "GetPondsAllResponse" []]).resolver.EntriesOnly :=
    entriesOnly_mountAll bare (by simp [ofOperation])
  obtain ⟨schemas, operations⟩ := document_keys_reached own
  obtain ⟨schema, last⟩ := schemas "fish/~eel"
  obtain ⟨_, found⟩ := schema.plain (by decide)
  obtain ⟨_, responses⟩ := operations "/ponds/~all" "GET" (by decide)
  obtain ⟨_, answered⟩ := (responses "default").plain (by decide)
  refine ⟨_, own, List.cons_ne_nil _ _, rfl, (found _).mpr ⟨rfl, rfl⟩, last.mpr (by decide), ?_⟩
  exact (answered _).mpr ⟨rfl, rfl⟩

/-- A schema and a response under keys with backslashes, neither of which is found. -/
theorem document_keys_lost :
    (∃ fault, ({ root := Json.nest ["components", "schemas", "a\\b"] (.obj []) } : Resolver).lookup
      (component "a\\b") = .error fault) ∧ (parse (component "a\\b")).lastSegment = "b" ∧
    ∃ fault, ({ root := Json.nest ["paths", "/a\\b", "get", "responses", "200"] (.obj []) } : Resolver).lookup
      (childRef (childRef (operationRef "/a\\b" "GET") "responses") "200") = .error fault :=
  ⟨⟨_, rfl⟩, by decide, ⟨_, rfl⟩⟩

end Resolver

end Typesmith
