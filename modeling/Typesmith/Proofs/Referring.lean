import Mathlib.Data.List.DropRight
import Typesmith.Resolver

namespace Typesmith

namespace Text

theorem cut_append {sep : Char} {before : List Char} (free : sep ∉ before) (after : List Char) :
    cut sep (before ++ sep :: after) = some (before, after) := by
  have other : ∀ c ∈ before, decide (c ≠ sep) = true := by
    intro c inside
    rw [decide_eq_true_iff]
    rintro rfl
    exact free inside
  rw [cut, List.dropWhile_append_of_pos other, List.takeWhile_append_of_pos other]
  simp

theorem cut_eq_none {sep : Char} {s : List Char} (free : sep ∉ s) : cut sep s = none := by
  have other : ∀ c ∈ s, decide (c ≠ sep) = true := by
    intro c inside
    rw [decide_eq_true_iff]
    rintro rfl
    exact free inside
  rw [cut, List.dropWhile_eq_nil_iff.mpr other]

theorem not_mem_of_cut {sep : Char} {s before after : List Char} (found : cut sep s = some (before, after)) :
    sep ∉ before := by
  unfold cut at found
  split at found
  · cases found
  · cases found
    intro inside
    simpa using List.mem_takeWhile_imp inside

theorem not_mem_of_cut_none {sep : Char} {s : List Char} (found : cut sep s = none) : sep ∉ s := by
  unfold cut at found
  split at found
  · rename_i empty
    intro inside
    simpa using List.dropWhile_eq_nil_iff.mp empty sep inside
  · cases found

theorem mem_of_mem_trimBy {p : Char → Bool} {s : List Char} {c : Char} (inside : c ∈ trimBy p s) :
    c ∈ s := by
  rw [trimBy, List.mem_reverse] at inside
  have middle := (List.dropWhile_sublist p).subset inside
  exact (List.dropWhile_sublist p).subset (List.mem_reverse.mp middle)

theorem trimBy_trimBy (p : Char → Bool) (s : List Char) : trimBy p (trimBy p s) = trimBy p s := by
  -- trimming at the end keeps the first character, which was not dropped at the start
  have start : (trimBy p s).dropWhile p = trimBy p s := by
    rcases trimmed : trimBy p s with _ | ⟨c, rest⟩
    · rfl
    · obtain ⟨tail, whole⟩ : trimBy p s <+: s.dropWhile p := List.rdropWhile_prefix p _
      rw [trimmed] at whole
      have kept := List.dropWhile_idempotent (p := p) (l := s)
      rw [← whole, List.cons_append] at kept
      by_cases dropped : p c = true
      · rw [List.dropWhile_cons_of_pos dropped] at kept
        have shorter := (List.dropWhile_sublist p (l := rest ++ tail)).length_le
        rw [kept, List.length_cons] at shorter
        omega
      · rw [List.dropWhile_cons_of_neg dropped]
  change ((trimBy p s).dropWhile p).rdropWhile p = _
  rw [start]
  exact List.rdropWhile_idempotent p _

end Text

namespace Reference

open Text

/-- References as they are read from texts: the locator has no `#` and no white space around it, the
pointer starts with a slash and has no backslash. -/
structure Normal (r : Reference) : Prop where
  whole : '#' ∉ r.locator.toList
  trimmed : trimBy isSpace r.locator.toList = r.locator.toList
  rooted : Reference.rooted (slashes r.pointer.toList) = r.pointer.toList

theorem slashes_eq_self {pointer : List Char} (free : '\\' ∉ pointer) : slashes pointer = pointer := by
  rw [slashes]
  conv_rhs => rw [← List.map_id pointer]
  refine List.map_congr_left fun c inside => ?_
  have other : c ≠ '\\' := fun same => free (same ▸ inside)
  simp [other]

theorem rooted_slashes (pointer : List Char) :
    Reference.rooted (slashes (Reference.rooted (slashes pointer))) =
      Reference.rooted (slashes pointer) := by
  have free : '\\' ∉ slashes pointer := by
    intro inside
    obtain ⟨c, _, same⟩ := List.mem_map.mp inside
    split at same
    · cases same
    · contradiction
  rcases shape : slashes pointer with _ | ⟨c, rest⟩
  · rfl
  · rw [shape] at free
    by_cases slash : c = '/'
    · rw [slash] at free ⊢
      simp only [Reference.rooted, if_true]
      rw [slashes_eq_self free]
      rfl
    · have more : '\\' ∉ '/' :: c :: rest := List.not_mem_cons_of_ne_of_not_mem (by decide) free
      simp only [Reference.rooted, if_neg slash]
      rw [slashes_eq_self more]
      rfl

theorem parse_normal (s : String) : (parse s).Normal := by
  rcases found : cut '#' s.toList with _ | ⟨locator, pointer⟩
  · have free := not_mem_of_cut_none found
    simp only [parse, found, Option.getD_none]
    refine ⟨?_, ?_, ?_⟩
    · simpa using fun inside => free (mem_of_mem_trimBy inside)
    · simpa using trimBy_trimBy isSpace _
    · rfl
  · have free := not_mem_of_cut found
    simp only [parse, found, Option.getD_some]
    refine ⟨?_, ?_, ?_⟩
    · simpa using fun inside => free (mem_of_mem_trimBy inside)
    · simpa using trimBy_trimBy isSpace _
    · simpa using rooted_slashes pointer

theorem parse_canonical {r : Reference} (normal : r.Normal) : parse r.canonical = r := by
  have letters : r.canonical.toList = r.locator.toList ++ '#' :: r.pointer.toList := by
    simp [canonical]
  rw [parse, letters, cut_append normal.whole]
  simp [normal.trimmed, normal.rooted]

/-- The canonical text of a reference names what its text names. -/
theorem parse_normalize (s : String) : parse (normalize s) = parse s :=
  parse_canonical (parse_normal s)

end Reference

namespace Resolver

theorem document_of_parse {r : Resolver} {ref other : String} {found : Json × String}
    (same : Reference.parse ref = Reference.parse other) (read : r.document ref = .ok found) :
    r.document other = .ok found := by
  unfold document at read ⊢
  rw [← same]
  dsimp only at read ⊢
  split at read
  · rename_i isLocal
    rw [if_pos isLocal]
    exact read
  · rename_i isForeign
    rw [if_neg isForeign]
    split at read
    · cases read
    · rename_i load loader
      cases loaded : load (Reference.parse ref).locator with
      | ok doc =>
        rw [loaded] at read
        exact read
      | error e =>
        rw [loaded] at read
        cases e <;> cases read

theorem lookup_of_parse {r : Resolver} {ref other : String} {value : Json}
    (same : Reference.parse ref = Reference.parse other) (read : r.lookup ref = .ok value) :
    r.lookup other = .ok value := by
  unfold lookup at read ⊢
  cases found : r.document ref with
  | error e =>
    rw [found] at read
    cases read
  | ok place =>
    rw [found] at read
    rw [document_of_parse same found]
    cases reached : place.1.at? place.2 with
    | none => simp [bind, Except.bind, reached] at read
    | some v => cases v <;> simp_all [bind, Except.bind]

theorem fragment_of_parse {r : Resolver} {ref other : String} {f : Fragment}
    (same : Reference.parse ref = Reference.parse other) (read : r.fragment ref = .ok f) :
    r.fragment other = .ok f := by
  unfold fragment at read ⊢
  cases found : r.lookup ref with
  | error e =>
    rw [found] at read
    cases read
  | ok value =>
    rw [found] at read
    rw [lookup_of_parse same found]
    cases value with
    | bool b => exact read
    | obj fields =>
      cases decoded : Fragment.decode? (.obj fields) with
      | none => simp [bind, Except.bind, decoded] at read
      | some g => simpa [bind, Except.bind, decoded] using read
    | _ => cases read

theorem fragment_normalize {r : Resolver} {ref : String} {f : Fragment} :
    r.fragment (Reference.normalize ref) = .ok f ↔ r.fragment ref = .ok f :=
  ⟨fragment_of_parse (Reference.parse_normalize ref), fragment_of_parse (Reference.parse_normalize ref).symm⟩

end Resolver

end Typesmith
