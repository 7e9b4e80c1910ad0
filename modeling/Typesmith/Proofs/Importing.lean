import Typesmith.Proofs.Coverage
import Typesmith.Proofs.Mounting
import Typesmith.Proofs.Paths
import Typesmith.Proofs.Spelling

namespace Typesmith

namespace Reference

open Text

theorem backslash_not_mem_escape {s : String} (free : '\\' ∉ s.toList) : '\\' ∉ (escape s).toList := by
  rw [escape_toList, List.mem_flatMap]
  rintro ⟨c, member, inside⟩
  split at inside
  · simp at inside
  · split at inside
    · simp at inside
    · exact free (List.mem_singleton.mp inside ▸ member)

end Reference

namespace EntryPoint

open Reference

theorem lastSegment_mountRef {name : String} (free : '\\' ∉ name.toList) :
    (parse (mountRef name)).lastSegment = name := by
  have root : mountRoot.toList = "/".toList ++ ("x-typegen/entrypoints".toList ++ ['/']) := rfl
  have pointer : (parse (mountRef name)).pointer.toList =
      "/".toList ++ ("x-typegen/entrypoints".toList ++ '/' :: (escape name).toList) := by
    rw [parse_mountRef, slashes_eq_self (backslash_not_mem_escape free), String.toList_append,
      String.toList_ofList, root, List.append_assoc, List.append_assoc, List.singleton_append]
  have long : ¬ ((parse (mountRef name)).pointer = "" ∨ (parse (mountRef name)).pointer = "/") := by
    have size : 1 < (parse (mountRef name)).pointer.toList.length := by
      rw [pointer, List.length_append, List.length_append, List.length_cons]
      have slash : "/".toList.length = 1 := rfl
      omega
    rintro (empty | slash)
    · rw [empty] at size
      exact absurd size (by decide)
    · rw [slash] at size
      exact absurd size (by decide)
  have dropped : Text.dropStart (parse (mountRef name)).pointer "/" =
      String.ofList ("x-typegen/entrypoints".toList ++ '/' :: (escape name).toList) := by
    rw [Text.dropStart, Text.startsWith, pointer, if_pos (by simp), List.drop_left]
  have pieces : Text.splitChars '/' ("x-typegen/entrypoints".toList ++ '/' :: (escape name).toList) =
      Text.splitChars '/' "x-typegen/entrypoints".toList ++ [(escape name).toList] := by
    rw [Text.splitChars_append, Text.splitChars_eq_singleton (slash_not_mem_escape name)]
  rw [lastSegment, segments, if_neg long, dropped, Text.split, String.toList_ofList, pieces]
  rw [List.map_append, List.map_append, List.map_singleton, List.map_singleton, List.getLast?_append,
    String.ofList_toList, unescape_escape]
  rfl

end EntryPoint

namespace Registry

open Naming

theorem numbered_modelName_ne (s : String) (n : Nat) : numbered (modelName s) n ≠ s := by
  intro same
  have counted := congrArg (fun text => digitCount text.toList) same
  simp only [numbered, String.toList_append, digitCount_append, String.toList_ofList] at counted
  have kept := digitCount_modelName s
  have more : 0 < digitCount (Text.decimal n) := by
    obtain ⟨c, member⟩ := List.exists_mem_of_ne_nil _ (Nat.toDigits_ne_nil (n := n) (b := 10))
    exact List.countP_pos_iff.mpr ⟨c, member, Nat.isDigit_of_mem_toDigits (by decide) (by decide) member⟩
  omega

theorem backslash_not_mem_modelName (s : String) : '\\' ∉ (modelName s).toList := by
  intro inside
  have foreign : isIdentPart '\\' = false := by decide
  rw [isIdentPart_of_mem_modelName inside] at foreign
  cases foreign

theorem backslash_not_mem_numbered (s : String) (n : Nat) : '\\' ∉ (numbered (modelName s) n).toList := by
  intro inside
  have underscore : "_".toList = ['_'] := rfl
  rw [numbered, String.toList_append, String.toList_append, underscore, String.toList_ofList] at inside
  rcases List.mem_append.mp inside with front | digits
  · rcases List.mem_append.mp front with base | line
    · exact backslash_not_mem_modelName s base
    · exact absurd (List.mem_singleton.mp line) (by decide)
  · exact absurd (Nat.isDigit_of_mem_toDigits (by decide) (by decide) digits) (by decide)

end Registry

namespace Conversion

open Model Declaration EntryPoint Registry

variable {s : Store}

theorem baseName_mountRef {name : String} (free : '\\' ∉ name.toList) :
    baseName (Reference.normalize (mountRef name)) = Naming.modelName name := by
  rw [baseName, Reference.parse_normalize, lastSegment_mountRef free]

/-- The name of an entry point is never one that its reference got a number for. -/
theorem earned_mountRef (earned : s.names.Earned) {name : String}
    (held : (name, Reference.normalize (mountRef name)) ∈ s.names.issued) :
    Naming.modelName name = name := by
  have owned := normalize_ne_empty (mountRef name)
  rcases earned name _ held owned with own | ⟨n, _, own, _⟩
  · have free : '\\' ∉ name.toList := by
      rw [own]
      exact backslash_not_mem_modelName _
    rw [baseName_mountRef free] at own
    exact own.symm
  · have free : '\\' ∉ name.toList := by
      rw [own]
      exact backslash_not_mem_numbered _ n
    rw [baseName_mountRef free] at own
    -- a model name keeps the digits of its text, so the number would have to count itself
    exact absurd own.symm (numbered_modelName_ne name n)

theorem held_mountRef (earned : s.names.Earned) {name held : String}
    (fixed : Naming.modelName name = name)
    (own : ∀ owner, (name, owner) ∈ s.names.issued → owner = Reference.normalize (mountRef name))
    (claimed : (held, Reference.normalize (mountRef name)) ∈ s.names.issued) : held = name := by
  have free : '\\' ∉ name.toList := by
    rw [← fixed]
    exact backslash_not_mem_modelName name
  have base : baseName (Reference.normalize (mountRef name)) = name := by
    rw [baseName_mountRef free, fixed]
  rcases earned held _ claimed (normalize_ne_empty _) with same | ⟨_, other, _, different, taken⟩
  · rw [same, base]
  · rw [base] at taken
    exact absurd (own other taken) different

/-- An entry point that is neither skipped nor replaced, and whose name no other owner has, is declared
under its name exactly if that is its own model name. Plain letters and digits with a capital in front
always are. -/
theorem entry_declared_iff {q : Request} {foreign : Option DocumentLoader} {doc : Document} {r : Result}
    {entries : List EntryPoint} {e : EntryPoint} (done : Succeeds (run q foreign doc) {} r s)
    (whole : q.componentsOnly = false) (made : Synthesizes q foreign doc entries) (inside : e ∈ entries)
    (allowed : e.name ∉ q.skips) (free : q.overrides.lookup e.name = none)
    (own : ∀ owner, (e.name, owner) ∈ s.names.issued → owner = Reference.normalize e.ref) :
    (e.name ∈ r.declarations.map (·.name) ↔ Naming.modelName e.name = e.name) ∧
      (Naming.Plain e.name.toList → e.name ∈ r.declarations.map (·.name)) := by
  obtain ⟨refs, roots, settled⟩ := run_settled done
  obtain ⟨entries', made', taken⟩ := settled.entries whole
  obtain rfl : entries' = entries := Except.ok.inj (made'.symm.trans made)
  have ref : e.ref = mountRef e.name := by
    obtain ⟨titled, same, all⟩ := synthesize_titled made
    rw [same] at inside
    obtain ⟨x, member, rfl⟩ := List.mem_map.mp inside
    exact (all.made x member).ref
  rw [ref] at own
  have declared_iff : e.name ∈ r.declarations.map (·.name) ↔ Naming.modelName e.name = e.name := by
    constructor
    · intro declared
      obtain ⟨⟨name, owner⟩, issued, same⟩ := List.mem_map.mp (settled.issued _ declared)
      dsimp only at same
      rw [same] at issued
      rw [own owner issued] at issued
      exact earned_mountRef settled.accounted.earned issued
    · intro fixed
      have known := (taken e inside).resolve_left allowed
      rw [ref] at known
      obtain ⟨held, claimed, due⟩ := settled.accounted.covered.owned _ known
      have same := held_mountRef settled.accounted.earned fixed own (mem_issued_of_lookup? claimed)
      rw [same] at due
      exact settled.realised _ (due allowed free)
  exact ⟨declared_iff, fun plain => declared_iff.mpr (Naming.modelName_plain plain)⟩

def namesakes : Document where
  path := ""
  name := ""
  root := .obj [("openapi", .str "3.0.0"), ("paths", .obj [
    ("/a", .obj [("get", .obj [("operationId", .str "f"), ("parameters", .arr [.obj [("in", .str "query"),
      ("name", .str "p"), ("schema", .obj [("type", .str "string")])]])])]),
    ("/b", .obj [("get", .obj [("operationId", .str "f"), ("parameters", .arr [.obj [("in", .str "query"),
      ("name", .str "p"), ("schema", .obj [("type", .str "string")])]])])])])]

/-- The second operation gets a number for its name, and the model name of its entry point drops what
sets the number apart. -/
theorem namesakes_run : ∃ r s entries, Succeeds (run {} none namesakes) {} r s ∧
    Synthesizes {} none namesakes entries ∧ entries.map (fun e => (e.name, e.ref)) =
      [("FParameters", "#/x-typegen/entrypoints/FParameters"),
        ("F_1Parameters", "#/x-typegen/entrypoints/F_1Parameters")] ∧
    s.names.issued = [("F1Parameters", "#/x-typegen/entrypoints/F_1Parameters"),
      ("FParameters", "#/x-typegen/entrypoints/FParameters")] := by
  have evaluated : (traceWithin 5 {} namesakes).map
      (fun x => (x.entries.map (fun e => (e.name, e.ref)), x.store.names.issued)) =
      some ([("FParameters", "#/x-typegen/entrypoints/FParameters"),
          ("F_1Parameters", "#/x-typegen/entrypoints/F_1Parameters")],
        [("F1Parameters", "#/x-typegen/entrypoints/F_1Parameters"),
          ("FParameters", "#/x-typegen/entrypoints/FParameters")]) := by
    simp only [traceWithin, addComponents, addEntryPoints, Roots.add, findOrCreate, deepening_eq]
    decide +kernel
  obtain ⟨x, traced, same⟩ := Option.map_eq_some_iff.mp evaluated
  obtain ⟨names, issued⟩ := Prod.mk.inj same
  have sound := sound_of_traceWithin traced
  exact ⟨_, x.store, x.entries, sound.run rfl, synthesizes_of_run sound.found, names, issued⟩

theorem entry_declared_iff_namesakes :
    ∃ r s entries e, Succeeds (run {} none namesakes) {} r s ∧ Synthesizes {} none namesakes entries ∧
      e ∈ entries ∧ e.name = "FParameters" ∧
      (e.name ∈ r.declarations.map (·.name) ↔ Naming.modelName e.name = e.name) ∧
      e.name ∈ r.declarations.map (·.name) := by
  obtain ⟨r, s, entries, done, made, names, issued⟩ := namesakes_run
  obtain ⟨e, _, rfl, first, _⟩ := List.map_eq_cons_iff.mp names
  obtain ⟨name, ref⟩ := Prod.mk.inj first
  have own : ∀ owner, (e.name, owner) ∈ s.names.issued → owner = Reference.normalize e.ref := by
    intro owner inside
    have canonical : Reference.normalize "#/x-typegen/entrypoints/FParameters" =
        "#/x-typegen/entrypoints/FParameters" := by decide
    rw [ref, canonical]
    simpa [issued, name] using inside
  have plain : Naming.Plain e.name.toList := by
    have letters : "Parameters".toList.all Text.isPlain = true := by decide
    rw [name]
    exact ⟨'F', "Parameters".toList, by decide, rfl, List.all_eq_true.mp letters⟩
  have declared := entry_declared_iff done rfl made List.mem_cons_self List.not_mem_nil rfl own
  exact ⟨r, s, _, e, done, made, List.mem_cons_self, name, declared.1, declared.2 plain⟩

/-- Nobody has the name of the second entry point, and yet it is not declared. -/
theorem entry_undeclared_namesakes :
    ∃ r s entries e, Succeeds (run {} none namesakes) {} r s ∧ Synthesizes {} none namesakes entries ∧
      (entries.map (·.name)).Nodup ∧ e ∈ entries ∧ (∀ owner, (e.name, owner) ∉ s.names.issued) ∧
      e.name ∉ r.declarations.map (·.name) := by
  obtain ⟨r, s, entries, done, made, names, issued⟩ := namesakes_run
  obtain ⟨d, rest, rfl, first, names⟩ := List.map_eq_cons_iff.mp names
  obtain ⟨e, none, rfl, second, names⟩ := List.map_eq_cons_iff.mp names
  obtain rfl := List.map_eq_nil_iff.mp names
  have name := (Prod.mk.inj first).1
  have name' := (Prod.mk.inj second).1
  have unissued : e.name ∉ s.names.issued.map (·.1) := by
    rw [issued, name']
    decide
  refine ⟨r, s, _, e, done, made, ?_, by simp, ?_, ?_⟩
  · simp [name, name']
  · exact fun owner inside => unissued (List.mem_map.mpr ⟨_, inside, rfl⟩)
  · intro declared
    obtain ⟨_, _, settled⟩ := run_settled done
    exact unissued (settled.issued _ declared)

end Conversion

end Typesmith
