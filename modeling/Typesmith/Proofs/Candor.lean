import Typesmith.Proofs.Meaning
import Typesmith.Proofs.Stopping
import Typesmith.Proofs.Weight

namespace Typesmith.Model

open Fragment
open Json (keys)

/-- No keyword that is kept as it was found has the name of a combinator, anywhere in the fragment. -/
inductive Candid : Fragment → Prop
  | intro {f : Fragment}
      (own : ∀ key ∈ ["oneOf", "anyOf", "allOf"], key ∉ keys (trailingFields f.keywords))
      (inside : ∀ g ∈ parts f, Candid g) : Candid f

section

variable {f g : Fragment}

theorem Candid.own (candid : Candid f) :
    ∀ key ∈ ["oneOf", "anyOf", "allOf"], key ∉ keys (trailingFields f.keywords) := by
  cases candid
  assumption

theorem Candid.part (candid : Candid f) (inside : g ∈ parts f) : Candid g := by
  cases candid with
  | intro _ each => exact each g inside

theorem Candid.congr (candid : Candid f) (trailing : trailingFields g.keywords = trailingFields f.keywords)
    (inside : parts g = parts f) : Candid g :=
  .intro (by rw [trailing]; exact candid.own) fun _ member => candid.part (inside ▸ member)

end

/-- The fragments that are converted inside a fragment stay, or come from a list. -/
structure Gains (more : List Fragment) (s t : Fragment) : Prop where
  properties : ∀ p ∈ t.properties, p ∈ s.properties ∨ p.2 ∈ more
  extra : ∀ g ∈ extraFragments t, g ∈ extraFragments s ∨ g ∈ more
  item : ∀ g ∈ t.itemFragments, g ∈ s.itemFragments ∨ g ∈ more
  oneOf : ∀ g ∈ t.oneOf, g ∈ s.oneOf ∨ g ∈ more
  anyOf : ∀ g ∈ t.anyOf, g ∈ s.anyOf ∨ g ∈ more

section reading

variable {s t f g : Fragment} {b : Branch}

theorem Gains.part {more : List Fragment} (gains : Gains more s t) (inside : g ∈ parts t) :
    g ∈ parts s ∨ g ∈ more := by
  simp only [parts, List.mem_append, List.mem_map] at inside ⊢
  rcases inside with (((⟨p, listed, rfl⟩ | extra) | item) | one) | any
  · rcases gains.properties p listed with before | added
    · exact .inl (.inl (.inl (.inl (.inl ⟨p, before, rfl⟩))))
    · exact .inr added
  · exact (gains.extra g extra).imp_left fun before => .inl (.inl (.inl (.inr before)))
  · exact (gains.item g item).imp_left fun before => .inl (.inl (.inr before))
  · exact (gains.oneOf g one).imp_left fun before => .inl (.inr before)
  · exact (gains.anyOf g any).imp_left .inr

theorem gains_setOne : Gains [f] s (s.setOne b f) := by
  cases b with
  | items => exact ⟨fun _ => .inl, fun _ => .inl, fun _ => .inr, fun _ => .inl, fun _ => .inl⟩
  | additionalProperties =>
    exact ⟨fun _ => .inl, fun _ => .inr, fun _ => .inl, fun _ => .inl, fun _ => .inl⟩
  | _ => exact ⟨fun _ => .inl, fun _ => .inl, fun _ => .inl, fun _ => .inl, fun _ => .inl⟩

theorem gains_setMany {fs : List Fragment} : Gains fs s (s.setMany b fs) := by
  cases b with
  | items =>
    refine ⟨fun _ => .inl, fun _ => .inl, ?_, fun _ => .inl, fun _ => .inl⟩
    cases fs with
    | nil => exact fun _ inside => .inr inside
    | cons f rest => exact fun _ inside => .inr inside
  | oneOf => exact ⟨fun _ => .inl, fun _ => .inl, fun _ => .inl, fun _ => .inr, fun _ => .inl⟩
  | anyOf => exact ⟨fun _ => .inl, fun _ => .inl, fun _ => .inl, fun _ => .inl, fun _ => .inr⟩
  | _ => exact ⟨fun _ => .inl, fun _ => .inl, fun _ => .inl, fun _ => .inl, fun _ => .inl⟩

theorem gains_setNamed {fs : List (String × Fragment)} : Gains (fs.map (·.2)) s (s.setNamed b fs) := by
  cases b with
  | properties =>
    refine ⟨fun p inside => ?_, fun _ => .inl, fun _ => .inl, fun _ => .inl, fun _ => .inl⟩
    exact (Json.mem_foldl_setField inside).symm.imp_right (List.mem_map_of_mem)
  | _ => exact ⟨fun _ => .inl, fun _ => .inl, fun _ => .inl, fun _ => .inl, fun _ => .inl⟩

theorem gains_setOther {v : Json} (set : s.setOther b v = some t) : Gains [] s t := by
  cases b with
  | items =>
    cases set
    exact ⟨fun _ => .inl, fun _ => .inl, fun _ => .inr, fun _ => .inl, fun _ => .inl⟩
  | additionalProperties =>
    cases set
    refine ⟨fun _ => .inl, ?_, fun _ => .inl, fun _ => .inl, fun _ => .inl⟩
    have plain : ∀ extent : ExtentOf Fragment, (∀ h, extent ≠ .described h) →
        extraFragments { s with additionalProperties := some extent } = [] := by
      intro extent plain
      cases extent with
      | described h => exact absurd rfl (plain h)
      | _ => rfl
    intro g inside
    rw [plain _ (by intro h; split <;> simp)] at inside
    exact .inr inside
  | additionalItems =>
    cases set
    exact ⟨fun _ => .inl, fun _ => .inl, fun _ => .inl, fun _ => .inl, fun _ => .inl⟩
  | _ => cases set

theorem gains_clear : Gains [] s (s.clear b) := by
  cases b with
  | items => exact ⟨fun _ => .inl, fun _ => .inl, fun _ => .inr, fun _ => .inl, fun _ => .inl⟩
  | oneOf => exact ⟨fun _ => .inl, fun _ => .inl, fun _ => .inl, fun _ => .inr, fun _ => .inl⟩
  | anyOf => exact ⟨fun _ => .inl, fun _ => .inl, fun _ => .inl, fun _ => .inl, fun _ => .inr⟩
  | properties =>
    exact ⟨fun _ inside => (List.not_mem_nil inside).elim, fun _ => .inl, fun _ => .inl, fun _ => .inl,
      fun _ => .inl⟩
  | additionalProperties =>
    exact ⟨fun _ => .inl, fun _ => .inr, fun _ => .inl, fun _ => .inl, fun _ => .inl⟩
  | _ => exact ⟨fun _ => .inl, fun _ => .inl, fun _ => .inl, fun _ => .inl, fun _ => .inl⟩

end reading

section decoding

variable {n : Nat} (smaller : ∀ j f, Json.size j < n → decode? j = some f → Candid f)
include smaller

theorem decodeItems_candid {items : List Json} {fs : List Fragment} (size : Json.sizeItems items < n)
    (read : decodeItems items = some fs) : ∀ f ∈ fs, Candid f := by
  induction items generalizing fs with
  | nil =>
    cases read
    simp
  | cons j rest ih =>
    simp only [decodeItems, Option.bind_eq_some_iff, Option.map_eq_some_iff] at read
    obtain ⟨f, head, fs, tail, rfl⟩ := read
    simp only [Json.sizeItems] at size
    rintro g listed
    rcases List.mem_cons.mp listed with rfl | later
    · exact smaller j _ (by omega) head
    · exact ih (by omega) tail g later

theorem decodeNamed_candid {fields : List (String × Json)} {fs : List (String × Fragment)}
    (size : Json.sizeFields fields < n) (read : decodeNamed fields = some fs) :
    ∀ p ∈ fs, Candid p.2 := by
  induction fields generalizing fs with
  | nil =>
    cases read
    simp
  | cons field rest ih =>
    obtain ⟨key, j⟩ := field
    simp only [decodeNamed, Option.bind_eq_some_iff, Option.map_eq_some_iff] at read
    obtain ⟨f, head, fs, tail, rfl⟩ := read
    simp only [Json.sizeFields] at size
    rintro p listed
    rcases List.mem_cons.mp listed with rfl | later
    · exact smaller j _ (by omega) head
    · exact ih (by omega) tail p later

theorem readField_candid {s t : Fragment} {key : String} {v : Json} (size : v.size < n)
    (read : readField s (key, v) = some t) : ∃ more, Gains more s t ∧ ∀ g ∈ more, Candid g := by
  have nothing : ∀ g ∈ ([] : List Fragment), Candid g := by simp
  cases readsField read with
  | keyword =>
    exact ⟨[], ⟨fun _ => .inl, fun _ => .inl, fun _ => .inl, fun _ => .inl, fun _ => .inl⟩, nothing⟩
  | @named _ fields fs _ named =>
    have bound : Json.sizeFields fields < n := by
      rw [Json.size] at size
      omega
    refine ⟨_, gains_setNamed, ?_⟩
    rintro g member
    obtain ⟨p, listed, rfl⟩ := List.mem_map.mp member
    exact decodeNamed_candid smaller bound named p listed
  | dependencies =>
    exact ⟨[], ⟨fun _ => .inl, fun _ => .inl, fun _ => .inl, fun _ => .inl, fun _ => .inl⟩, nothing⟩
  | @one _ fields f _ one =>
    have first := smaller (.obj fields) f size one
    exact ⟨[f], gains_setOne, by simpa using first⟩
  | @many _ items fs _ listed =>
    have bound : Json.sizeItems items < n := by
      rw [Json.size] at size
      omega
    exact ⟨fs, gains_setMany, decodeItems_candid smaller bound listed⟩
  | null => exact ⟨[], gains_clear, nothing⟩
  | other _ set => exact ⟨[], gains_setOther set, nothing⟩

end decoding

theorem decodeFields_kept {fields : List (String × Json)} {s t : Fragment}
    (read : decodeFields fields s = some t) :
    t.keywords.extensions = s.keywords.extensions ∧ t.keywords.extras = s.keywords.extras := by
  induction fields generalizing s with
  | nil =>
    cases read
    exact ⟨rfl, rfl⟩
  | cons field rest ih =>
    rw [decodeFields_cons, Option.bind_eq_some_iff] at read
    obtain ⟨m, first, others⟩ := read
    obtain ⟨_, extensions, extras, _⟩ := readField_frame first
    obtain ⟨laterExtensions, laterExtras⟩ := ih others
    exact ⟨laterExtensions.trans extensions, laterExtras.trans extras⟩

theorem decodeFields_candid {n : Nat} (smaller : ∀ j f, Json.size j < n → decode? j = some f → Candid f)
    {fields : List (String × Json)} {s t : Fragment} (size : Json.sizeFields fields < n)
    (begun : ∀ g ∈ parts s, Candid g) (read : decodeFields fields s = some t) :
    ∀ g ∈ parts t, Candid g := by
  induction fields generalizing s with
  | nil =>
    cases read
    exact begun
  | cons field rest ih =>
    rw [decodeFields_cons, Option.bind_eq_some_iff] at read
    obtain ⟨m, first, others⟩ := read
    obtain ⟨key, v⟩ := field
    simp only [Json.sizeFields] at size
    refine ih (by omega) ?_ others
    intro g inside
    obtain ⟨more, gains, candid⟩ := readField_candid smaller (by omega) first
    rcases gains.part inside with before | added
    · exact begun g before
    · exact candid g added

theorem own_of_unkept {k : Keywords}
    (unkept : ∀ kv ∈ k.extensions ++ k.extras, kv.1 ∉ ["oneOf", "anyOf", "allOf"]) :
    ∀ key ∈ ["oneOf", "anyOf", "allOf"], key ∉ keys (trailingFields k) := by
  have plain : ∀ key ∈ ["oneOf", "anyOf", "allOf"], key ≠ "$ref" ∧ key ∉ backKeys := by decide
  intro key combinator member
  rcases mem_keys_trailingFields member with ⟨kv, inside, rfl⟩ | ⟨reference, _⟩ | known
  · exact unkept kv inside combinator
  · exact (plain key combinator).1 reference
  · exact (plain key combinator).2 known

theorem decodeFields_own {fields : List (String × Json)} {t : Fragment}
    (read : decodeFields fields (start fields) = some t) :
    ∀ key ∈ ["oneOf", "anyOf", "allOf"], key ∉ keys (trailingFields t.keywords) := by
  have known : ∀ key ∈ ["oneOf", "anyOf", "allOf"], knownKeys.contains key = true := by decide
  obtain ⟨extensions, extras⟩ := decodeFields_kept read
  refine own_of_unkept ?_
  rw [extensions, extras]
  intro kv kept combinator
  have unknown : ¬ knownKeys.contains kv.1 = true := by
    rcases List.mem_append.mp kept with inside | inside
    · simpa using (List.mem_filter.mp (List.mem_filter.mp inside).1).2
    · simpa using (List.mem_filter.mp (List.mem_filter.mp inside).1).2
  exact unknown (known kv.1 combinator)

/-- Whatever is read from a value has no unknown keyword that is a combinator's. -/
theorem decode_candid {j : Json} {f : Fragment} (read : decode? j = some f) : Candid f := by
  refine decode_induction (P := fun _ f => Candid f) ?_ ?_ read
  · exact .intro (by decide) (by simp [parts, extraFragments, itemFragments])
  · intro fields f smaller read
    refine .intro (decodeFields_own read) ?_
    refine decodeFields_candid smaller (by rw [Json.size]; omega) ?_ read
    simp [parts, start, extraFragments, itemFragments]

theorem merge_candid {fs : List Fragment} {f : Fragment} (merged : merge? fs = some f) : Candid f := by
  obtain ⟨_, _, read⟩ := Option.bind_eq_some_iff.mp merged
  exact decode_candid read

section

variable {cfg : Setting} {f g : Fragment}

theorem fragment_candid {ref : String} (resolved : cfg.resolver.fragment ref = .ok f) : Candid f := by
  obtain ⟨value, _, read⟩ := except_bind_ok.mp resolved
  split at read
  · cases read
    exact decode_candid (by rw [decode?] : decode? .null = some {})
  · split at read
    · rename_i decoded
      cases read
      exact decode_candid decoded
    · cases read
  · cases read

theorem Candid.stripped (candid : Candid f) : Candid (stripped f) := by
  refine candid.congr ?_ (stripped_parts f)
  unfold Model.stripped
  split <;> rfl

theorem Candid.untitled (candid : Candid f) : Candid (untitled f) :=
  candid.congr rfl rfl

theorem Candid.branch (candid : Candid f) (listed : g ∈ typeBranches f) : Candid g := by
  obtain ⟨t, _, rfl⟩ := List.mem_map.mp listed
  exact candid.congr rfl rfl

theorem Candid.union (candid : Candid f) (nullable : Bool) : Candid (typesUnion f nullable) := by
  refine .intro (own_of_unkept (by simp [typesUnion])) ?_
  intro g inside
  exact candid.branch (by simpa [parts, typesUnion, extraFragments, itemFragments] using inside)

theorem alternative_candid {member : Fragment} {base : String} (candid : Candid member)
    (chosen : alternative cfg f.commonPart member base = .ok g) : Candid g := by
  cases structured : f.commonPart.hasStructure with
  | true =>
    obtain ⟨_, _, ⟨_, _, rfl⟩ | merged⟩ := alternative_cases structured chosen
    · exact candid
    · exact merge_candid merged
  | false =>
    simp only [alternative, structured] at chosen
    cases chosen
    exact candid

theorem Candid.nested {base : String} {kind : Kind} (candid : Candid f)
    (nested : Nested cfg base kind f g) : Candid g := by
  have part {h : Fragment} (inside : h ∈ f.properties.map (·.2) ∨ h ∈ extraFragments f ∨
      h ∈ f.itemFragments) : Candid h := by
    refine candid.part ?_
    simp only [parts, List.mem_append]
    tauto
  cases nested with
  | property listed => exact part (.inl (List.mem_map_of_mem listed))
  | extra described => exact part (.inr (.inl described))
  | item listed => exact part (.inr (.inr listed))
  | merged joined => exact (merge_candid joined).untitled
  | alternative combined separate listed chosen =>
    exact alternative_candid (candid.part (mem_parts_of_member combined separate listed)) chosen
  | case decoded => exact decode_candid decoded

end

end Typesmith.Model
