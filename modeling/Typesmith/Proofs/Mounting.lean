import Typesmith.Conversion.Run
import Typesmith.Proofs.Referring
import Typesmith.Proofs.Titling

namespace Typesmith

namespace Text

theorem replacePair_cons {a b new c : Char} (other : c ≠ a) (rest : List Char) :
    replacePair a b new (c :: rest) = c :: replacePair a b new rest := by
  cases rest <;> simp [replacePair, other]

end Text

namespace Reference

open Text

theorem escape_toList (s : String) : (escape s).toList =
    s.toList.flatMap fun c => if c = '~' then ['~', '0'] else if c = '/' then ['~', '1'] else [c] := by
  simp only [escape, replaceChar, String.toList_ofList, List.flatMap_assoc]
  congr 1
  funext c
  by_cases tilde : c = '~' <;> by_cases slash : c = '/' <;> simp [tilde, slash]

theorem slash_not_mem_escape (s : String) : '/' ∉ (escape s).toList := by
  rw [escape_toList, List.mem_flatMap]
  rintro ⟨c, _, inside⟩
  split at inside
  · simp at inside
  · split at inside
    · simp at inside
    · rename_i other
      exact other (List.mem_singleton.mp inside).symm

theorem unescape_escape (s : String) : unescape (escape s) = s := by
  apply String.toList_injective
  rw [unescape, escape_toList, String.toList_ofList]
  -- reading back the slashes first leaves the text with its tildes written out
  have slashes : ∀ l : List Char, replacePair '~' '1' '/' (l.flatMap fun c =>
      if c = '~' then ['~', '0'] else if c = '/' then ['~', '1'] else [c]) =
        replaceChar '~' ['~', '0'] l := by
    intro l
    induction l with
    | nil => rfl
    | cons c l ih =>
      by_cases tilde : c = '~'
      · simp [tilde, replaceChar, replacePair, replacePair_cons, ih]
      · by_cases slash : c = '/'
        · simp [slash, replaceChar, replacePair, ih]
        · simp [tilde, slash, replaceChar, replacePair_cons, ih]
  have tildes : ∀ l : List Char, replacePair '~' '0' '~' (replaceChar '~' ['~', '0'] l) = l := by
    intro l
    induction l with
    | nil => rfl
    | cons c l ih =>
      rw [replaceChar] at ih ⊢
      by_cases tilde : c = '~'
      · simp [tilde, replacePair, ih]
      · simp [tilde, replacePair_cons, ih]
  rw [slashes, tildes]

theorem escape_injective : Function.Injective escape :=
  Function.LeftInverse.injective unescape_escape

theorem slashes_append (l l' : List Char) : slashes (l ++ l') = slashes l ++ slashes l' :=
  List.map_append

/-- Texts without slashes are told apart also when their backslashes are read as slashes. -/
theorem slashes_injective {l l' : List Char} (free : '/' ∉ l) (free' : '/' ∉ l')
    (same : slashes l = slashes l') : l = l' := by
  have back : ∀ l : List Char, '/' ∉ l → (slashes l).map (fun c => if c = '/' then '\\' else c) = l := by
    intro l free
    rw [slashes, List.map_map]
    conv_rhs => rw [← List.map_id l]
    refine List.map_congr_left fun c inside => ?_
    have other : c ≠ '/' := fun slash => free (slash ▸ inside)
    by_cases backslash : c = '\\' <;> simp [backslash, other]
  rw [← back l free, ← back l' free', same]

end Reference

namespace EntryPoint

open Reference

def mountRoot : String := "/x-typegen/entrypoints/"

theorem mountRef_toList (name : String) :
    (mountRef name).toList = [] ++ '#' :: (mountRoot.toList ++ (escape name).toList) := by
  have start : "#/x-typegen/entrypoints/" = "#" ++ mountRoot := rfl
  have whole : mountRef name = "#" ++ (mountRoot ++ escape name) := by
    unfold mountRef
    rw [start, String.append_assoc]
  rw [whole, String.toList_append, String.toList_append]
  rfl

theorem parse_mountRef (name : String) :
    parse (mountRef name) = ⟨"", mountRoot ++ String.ofList (slashes (escape name).toList)⟩ := by
  have plain : slashes mountRoot.toList = mountRoot.toList := rfl
  have first : mountRoot.toList = '/' :: mountRoot.toList.tail := rfl
  have front : rooted (mountRoot.toList ++ slashes (escape name).toList) =
      mountRoot.toList ++ slashes (escape name).toList := by
    rw [first, List.cons_append, rooted, if_pos rfl]
  rw [parse, mountRef_toList, Text.cut_append List.not_mem_nil, Option.getD_some]
  dsimp only
  rw [slashes_append, plain, front, String.ofList_append, String.ofList_toList]
  rfl

def mountPoint (name : String) : String :=
  (parse (mountRef name)).pointer

theorem mountPoint_injective : Function.Injective mountPoint := by
  intro name other same
  simp only [mountPoint, parse_mountRef] at same
  have letters := congrArg String.toList same
  simp only [String.toList_append, String.toList_ofList] at letters
  have segments := slashes_injective (slash_not_mem_escape name) (slash_not_mem_escape other)
    (List.append_cancel_left letters)
  exact escape_injective (String.toList_injective segments)

theorem mountRef_injective : Function.Injective mountRef := by
  intro name other same
  refine mountPoint_injective ?_
  rw [mountPoint, mountPoint, same]

end EntryPoint

namespace Resolver

open Text

def Mounted (r : Resolver) (pointer : String) (value : Json) : Prop :=
  r.mounts.filter (·.1 = pointer) = [(pointer, value)]

theorem mounted_mount (r : Resolver) (ref : String) (value : Json) :
    (r.mount ref value).2.Mounted (Reference.parse ref).pointer value := by
  simp [Mounted, mount, List.filter_filter]

theorem Mounted.mount {r : Resolver} {pointer ref : String} {value other : Json}
    (mounted : r.Mounted pointer value) (apart : (Reference.parse ref).pointer ≠ pointer) :
    (r.mount ref other).2.Mounted pointer value := by
  unfold Mounted at mounted ⊢
  have new : ¬ decide ((Reference.parse ref).pointer = pointer) = true := by simpa using apart
  simp only [Resolver.mount]
  rw [List.filter_cons, if_neg new, List.filter_filter, ← mounted]
  refine List.filter_congr fun m _ => ?_
  by_cases here : m.1 = pointer
  · simp [here, Ne.symm apart]
  · simp [here]

theorem length_of_covers {mount pointer : String} (covering : covers mount pointer = true) :
    mount = pointer ∨ mount.length < pointer.length := by
  simp only [covers, startsWith, Bool.or_eq_true, beq_iff_eq, List.isPrefixOf_iff_prefix] at covering
  rcases covering with rfl | front
  · exact .inl rfl
  · have longer := front.length_le
    have slash : "/".length = 1 := rfl
    rw [String.toList_append, List.length_append, String.length_toList, String.length_toList,
      String.length_toList, slash] at longer
    exact .inr longer

/-- The longer one of two mounts; of two that are equally long, the first. -/
def longer (best : Option (String × Json)) (m : String × Json) : Option (String × Json) :=
  match best with
  | none => some m
  | some b => if b.1.length < m.1.length then some m else some b

theorem foldl_longer_some {l : List (String × Json)} {best : String × Json}
    (shorter : ∀ m ∈ l, m.1.length < best.1.length) : l.foldl longer (some best) = some best := by
  induction l with
  | nil => rfl
  | cons m l ih =>
    have keeps : longer (some best) m = some best :=
      if_neg (Nat.not_lt_of_gt (shorter m List.mem_cons_self))
    rw [List.foldl_cons, keeps]
    exact ih fun m inside => shorter m (List.mem_cons_of_mem _ inside)

theorem foldl_longer_mounted {l : List (String × Json)} {pointer : String} {value : Json}
    {best : Option (String × Json)} (near : ∀ m ∈ l, m.1 = pointer ∨ m.1.length < pointer.length)
    (mounted : l.filter (·.1 = pointer) = [(pointer, value)])
    (shorter : ∀ b ∈ best, b.1.length < pointer.length) :
    l.foldl longer best = some (pointer, value) := by
  induction l generalizing best with
  | nil => cases mounted
  | cons m l ih =>
    have others : ∀ m ∈ l, m.1 = pointer ∨ m.1.length < pointer.length :=
      fun m inside => near m (List.mem_cons_of_mem _ inside)
    rw [List.foldl_cons]
    by_cases here : m.1 = pointer
    · rw [List.filter_cons, if_pos (by simpa using here)] at mounted
      obtain ⟨rfl, alone⟩ := List.cons.inj mounted
      have taken : longer best (pointer, value) = some (pointer, value) := by
        cases best with
        | none => rfl
        | some b => exact if_pos (shorter b rfl)
      rw [taken]
      refine foldl_longer_some fun m inside => (others m inside).resolve_left fun again => ?_
      exact List.filter_eq_nil_iff.mp alone m inside (by simpa using again)
    · rw [List.filter_cons, if_neg (by simpa using here)] at mounted
      have short := (near m List.mem_cons_self).resolve_left here
      refine ih others mounted ?_
      intro b chosen
      unfold longer at chosen
      split at chosen
      · cases chosen
        exact short
      · split at chosen
        · cases chosen
          exact short
        · cases chosen
          exact shorter _ rfl

theorem mountFor?_mounted {r : Resolver} {pointer : String} {value : Json}
    (mounted : r.Mounted pointer value) : r.mountFor? pointer = some (value, "") := by
  have best : (r.mounts.filter (covers ·.1 pointer)).foldl longer none = some (pointer, value) := by
    refine foldl_longer_mounted ?_ ?_ (by simp)
    · intro m inside
      exact length_of_covers (List.mem_filter.mp inside).2
    · rw [List.filter_filter, ← mounted]
      refine List.filter_congr fun m _ => ?_
      by_cases here : m.1 = pointer
      · simp [here, covers]
      · simp [here]
  change ((r.mounts.filter (covers ·.1 pointer)).foldl longer none).map
    (fun m => (m.2, dropStart pointer m.1)) = _
  simp [best, dropStart, startsWith]

theorem lookup_mounted {r : Resolver} {ref : String} {fields : List (String × Json)}
    (here : (Reference.parse ref).locator = "")
    (mounted : r.Mounted (Reference.parse ref).pointer (.obj fields)) : r.lookup ref = .ok (.obj fields) := by
  have found : r.document ref = .ok (.obj fields, "") := by
    simp [document, Reference.isLocal, here, mountFor?_mounted mounted]
  rw [lookup, found]
  rfl

end Resolver

namespace Conversion

open EntryPoint

variable {cfg : Model.Setting} {entries : List EntryPoint}

theorem mountAll_cons (e : EntryPoint) : mountAll cfg (e :: entries) =
    mountAll { cfg with resolver := (cfg.resolver.mount e.ref (.obj e.fragment)).2 } entries :=
  rfl

theorem mounted_mountAll {pointer : String} {value : Json} (mounted : cfg.resolver.Mounted pointer value)
    (apart : ∀ e ∈ entries, (Reference.parse e.ref).pointer ≠ pointer) :
    (mountAll cfg entries).resolver.Mounted pointer value := by
  induction entries generalizing cfg with
  | nil => exact mounted
  | cons e entries ih =>
    rw [mountAll_cons]
    refine ih (mounted.mount (apart e List.mem_cons_self)) ?_
    exact fun other inside => apart other (List.mem_cons_of_mem _ inside)

theorem lookup_mountAll (refs : ∀ e ∈ entries, e.ref = mountRef e.name)
    (distinct : (entries.map (·.name)).Nodup) :
    ∀ e ∈ entries, (mountAll cfg entries).resolver.lookup e.ref = .ok (.obj e.fragment) := by
  have mounted : ∀ e ∈ entries,
      (mountAll cfg entries).resolver.Mounted (Reference.parse e.ref).pointer (.obj e.fragment) := by
    induction entries generalizing cfg with
    | nil => simp
    | cons first rest ih =>
      rw [List.map_cons, List.nodup_cons] at distinct
      have later : ∀ e ∈ rest, e.ref = mountRef e.name :=
        fun e inside => refs e (List.mem_cons_of_mem _ inside)
      intro e inside
      rw [mountAll_cons]
      rcases List.mem_cons.mp inside with rfl | inside
      · refine mounted_mountAll (cfg.resolver.mounted_mount e.ref (.obj e.fragment)) fun other member same => ?_
        rw [later other member, refs e List.mem_cons_self] at same
        rw [← mountPoint_injective same] at distinct
        exact distinct.1 (List.mem_map.mpr ⟨other, member, rfl⟩)
      · exact ih later distinct.2 e inside
  intro e inside
  refine Resolver.lookup_mounted ?_ (mounted e inside)
  rw [refs e inside, parse_mountRef]

/-- The names of the entry points of a document are distinct unless two of them clash: they have one
role, their statuses end the names alike, and the names of their operations come to one text with what
the content types add. Operations that differ clash only if their content types add different texts.
Where names are distinct, references are, and what is mounted for each entry point is found. -/
theorem entry_names_distinct_iff {setting : EntryPoint.Setting} {doc : Document}
    (done : ((synthesize setting doc).run.run {}).1 = .ok entries) :
    ∃ titled, entries = titled.map (·.1) ∧ Titled setting (operations doc) titled ∧
      ((entries.map (·.name)).Nodup ↔ titled.Pairwise fun x y => ¬ Clash x y) ∧
      (∀ x ∈ titled, ∀ y ∈ titled, Clash x y → x.2.content = y.2.content →
        x.2.operation = y.2.operation) ∧
      ((entries.map (·.ref)).Nodup ↔ (entries.map (·.name)).Nodup) ∧
      ((entries.map (·.name)).Nodup → ∀ cfg : Model.Setting, ∀ e ∈ entries,
        (mountAll cfg entries).resolver.lookup e.ref = .ok (.obj e.fragment)) := by
  obtain ⟨titled, rfl, all⟩ := synthesize_titled done
  have refs : ∀ e ∈ titled.map (·.1), e.ref = mountRef e.name := by
    intro e inside
    obtain ⟨x, member, rfl⟩ := List.mem_map.mp inside
    exact (all.made x member).ref
  refine ⟨titled, rfl, all, ?_, ?_, ?_, ?_⟩
  · rw [List.map_map, List.Nodup, List.pairwise_map]
    refine List.Pairwise.iff_of_mem fun {x y} first second => not_congr ?_
    exact (all.made x first).name_eq_iff (all.made y second)
  · intro x first y second clash same
    refine all.apart x first y second (String.toList_injective ?_)
    have stems := congrArg String.toList clash.2.2
    rw [String.toList_append, String.toList_append, same] at stems
    exact List.append_cancel_right stems
  · have same : (titled.map (·.1)).map (·.ref) = ((titled.map (·.1)).map (·.name)).map mountRef := by
      rw [List.map_map (l := titled.map (·.1))]
      exact List.map_congr_left refs
    rw [same, List.nodup_map_iff mountRef_injective]
  · exact fun distinct cfg => lookup_mountAll refs distinct

theorem ok_of_toOption {ε α : Type} {x : Except ε α} {a : α} (found : x.toOption = some a) : x = .ok a := by
  cases x with
  | error e => cases found
  | ok b => exact congrArg Except.ok (Option.some.inj found)

/-- Two operations with requests. The name of the second is that of the first with what a content type
adds. -/
def lookalikes : Document where
  path := ""
  name := ""
  root := .obj [("openapi", .str "3.0.0"), ("paths", .obj [
    ("/a", .obj [("post", .obj [("operationId", .str "foo"), ("requestBody", .obj [("content",
      .obj [("application/xml", .obj [("schema", .obj [("type", .str "string")])])])])])]),
    ("/b", .obj [("post", .obj [("operationId", .str "fooXml"), ("requestBody", .obj [("content",
      .obj [("application/json", .obj [("schema", .obj [("type", .str "number")])])])])])])])]

theorem entry_names_distinct_iff_lookalikes :
    ∃ (entries : List EntryPoint) (titled : List (EntryPoint × Title)), ((synthesize ⟨{ root := lookalikes.root }, "application/xml"⟩ lookalikes).run.run
        {}).1 = .ok entries ∧ entries = titled.map (·.1) ∧
      entries.map (·.name) = ["FooRequest", "FooXmlJsonRequest"] ∧
      titled.Pairwise (fun x y => ¬ Clash x y) := by
  have evaluated : ((synthesize ⟨{ root := lookalikes.root }, "application/xml"⟩ lookalikes).run.run
      {}).1.toOption.map (·.map (·.name)) = some ["FooRequest", "FooXmlJsonRequest"] := by
    decide +kernel
  obtain ⟨entries, found, names⟩ := Option.map_eq_some_iff.mp evaluated
  have done := ok_of_toOption found
  obtain ⟨titled, same, _, distinct, _⟩ := entry_names_distinct_iff done
  refine ⟨entries, titled, done, same, names, distinct.mp ?_⟩
  rw [names]
  decide

/-- Both requests get the name `FooXmlRequest`, and the second is mounted over the first. -/
theorem entry_names_collide_lookalikes :
    ∃ entries, ((synthesize ⟨{ root := lookalikes.root }, "application/json"⟩ lookalikes).run.run
        {}).1 = .ok entries ∧ ¬ (entries.map (·.name)).Nodup := by
  have evaluated : ((synthesize ⟨{ root := lookalikes.root }, "application/json"⟩ lookalikes).run.run
      {}).1.toOption.map (·.map (·.name)) = some ["FooXmlRequest", "FooXmlRequest"] := by
    decide +kernel
  obtain ⟨entries, found, names⟩ := Option.map_eq_some_iff.mp evaluated
  refine ⟨entries, ok_of_toOption found, ?_⟩
  rw [names]
  decide

end Conversion

end Typesmith
