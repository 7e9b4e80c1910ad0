import Typesmith.Proofs.Keys

namespace Typesmith

namespace Text

theorem intercalate_splitChars (sep : Char) (s : List Char) :
    List.intercalate [sep] (splitChars sep s) = s := by
  induction s with
  | nil => rfl
  | cons c s ih =>
    rw [splitChars]
    by_cases here : c = sep
    · rw [if_pos here, List.intercalate_cons_of_ne_nil (splitChars_ne_nil sep s), ih, here]
      rfl
    · rw [if_neg here]
      rcases pieces : splitChars sep s with _ | ⟨first, _ | ⟨second, others⟩⟩
      · exact absurd pieces (splitChars_ne_nil sep s)
      · rw [pieces, List.intercalate_singleton] at ih
        rw [ih]
        exact List.intercalate_singleton
      · rw [pieces, List.intercalate_cons_cons] at ih
        rw [← ih]
        exact List.intercalate_cons_cons

theorem intercalate_append (sep first : List Char) {pieces : List (List Char)} (some : pieces ≠ [])
    (others : List (List Char)) : List.intercalate sep (pieces ++ first :: others) =
      List.intercalate sep pieces ++ sep ++ List.intercalate sep (first :: others) := by
  induction pieces with
  | nil => exact absurd rfl some
  | cons piece pieces ih =>
    cases pieces with
    | nil => simp
    | cons next pieces => simpa using ih (List.cons_ne_nil next pieces)

theorem splitChars_prefix_iff {sep : Char} {a b : List Char} :
    splitChars sep a <+: splitChars sep b ↔ b = a ∨ ∃ rest, b = a ++ sep :: rest := by
  constructor
  · rintro ⟨others, whole⟩
    have text := intercalate_splitChars sep b
    rw [← whole] at text
    cases others with
    | nil =>
      left
      rw [← text, List.append_nil, intercalate_splitChars]
    | cons next others =>
      right
      rw [intercalate_append _ _ (splitChars_ne_nil sep a), intercalate_splitChars, List.append_assoc] at text
      exact ⟨_, text.symm⟩
  · rintro (rfl | ⟨rest, rfl⟩)
    · exact List.prefix_rfl
    · rw [splitChars_append]
      exact List.prefix_append _ _

end Text

namespace Reference

open Text

def rawSegments (pointer : String) : List String :=
  if pointer = "" then [] else split '/' (dropStart pointer "/")

def Pointed (pointer : String) : Prop :=
  pointer = "" ∨ ∃ rest, pointer = String.ofList ('/' :: rest)

theorem pointed_parse (ref : String) : Pointed (parse ref).pointer := by
  have normal := (parse_normal ref).rooted
  rcases letters : slashes (parse ref).pointer.toList with _ | ⟨c, rest⟩
  · rw [letters, rooted] at normal
    exact .inl (String.toList_injective normal.symm)
  · rw [letters, rooted] at normal
    right
    split at normal
    · rename_i slash
      exact ⟨rest, by rw [← slash, normal, String.ofList_toList]⟩
    · exact ⟨c :: rest, by rw [normal, String.ofList_toList]⟩

theorem rawSegments_slash (rest : List Char) :
    rawSegments (String.ofList ('/' :: rest)) = (splitChars '/' rest).map String.ofList := by
  have filled : String.ofList ('/' :: rest) ≠ "" := fun empty => by
    have letters := congrArg String.toList empty
    rw [String.toList_ofList] at letters
    cases letters
  have slash : "/".toList = ['/'] := rfl
  have tail : dropStart (String.ofList ('/' :: rest)) "/" = String.ofList rest := by
    simp [dropStart, startsWith, slash]
  rw [rawSegments, if_neg filled, tail, split, String.toList_ofList]

theorem pointerTokens_eq (pointer : String) :
    Json.pointerTokens pointer = (rawSegments pointer).map unescape := by
  unfold Json.pointerTokens rawSegments
  split <;> rfl

theorem map_ofList_prefix_iff {a b : List (List Char)} :
    a.map String.ofList <+: b.map String.ofList ↔ a <+: b := by
  constructor
  · intro front
    have letters := front.map String.toList
    simpa [List.map_map, Function.comp_def] using letters
  · exact fun front => front.map _

theorem slash_prefix_iff {a b : List Char} :
    rawSegments (String.ofList ('/' :: a)) <+: rawSegments (String.ofList ('/' :: b)) ↔
      b = a ∨ ∃ rest, b = a ++ '/' :: rest := by
  rw [rawSegments_slash, rawSegments_slash, map_ofList_prefix_iff, splitChars_prefix_iff]

end Reference

namespace Resolver

open Text Reference

section covering

variable {mount pointer : String}

theorem covers_iff (first : Pointed mount) (second : Pointed pointer) :
    covers mount pointer = true ↔ rawSegments mount <+: rawSegments pointer := by
  simp only [covers, startsWith, Bool.or_eq_true, beq_iff_eq, List.isPrefixOf_iff_prefix, String.toList_append]
  have slash : "/".toList = ['/'] := rfl
  rw [slash]
  rcases first with rfl | ⟨a, rfl⟩
  · have nothing : rawSegments "" = [] := rfl
    simp only [nothing, List.nil_prefix, iff_true]
    rcases second with rfl | ⟨b, rfl⟩
    · exact .inl rfl
    · exact .inr (by simp)
  · rcases second with rfl | ⟨b, rfl⟩
    · have nothing : rawSegments "" = [] := rfl
      have some : splitChars '/' a ≠ [] := splitChars_ne_nil '/' a
      rw [nothing, rawSegments_slash, List.prefix_nil, List.map_eq_nil_iff]
      constructor
      · rintro (empty | front)
        · have letters := congrArg String.toList empty
          simp at letters
        · simp at front
      · exact fun none => absurd none some
    · rw [slash_prefix_iff, String.toList_ofList, String.toList_ofList, List.cons_append,
        List.cons_prefix_cons]
      refine or_congr ⟨fun same => ?_, fun same => by rw [same]⟩ ⟨?_, ?_⟩
      · have letters := congrArg String.toList same
        rw [String.toList_ofList, String.toList_ofList] at letters
        exact (List.cons.inj letters).2
      · rintro ⟨_, rest, whole⟩
        exact ⟨rest, by simp [← whole]⟩
      · rintro ⟨rest, rfl⟩
        exact ⟨rfl, rest, by simp⟩

theorem pointerTokens_behind (first : Pointed mount) (second : Pointed pointer)
    (front : rawSegments mount <+: rawSegments pointer) :
    Json.pointerTokens (dropStart pointer mount) =
      ((rawSegments pointer).drop (rawSegments mount).length).map unescape := by
  rw [pointerTokens_eq]
  congr 1
  rcases first with rfl | ⟨a, rfl⟩
  · have whole : dropStart pointer "" = pointer := by simp [dropStart, startsWith]
    rw [whole]
    rfl
  · rcases second with rfl | ⟨b, rfl⟩
    · rw [rawSegments_slash] at front
      have none := List.map_eq_nil_iff.mp (List.prefix_nil.mp front)
      exact absurd none (splitChars_ne_nil '/' a)
    · rcases slash_prefix_iff.mp front with rfl | ⟨rest, rfl⟩
      · have nothing : dropStart (String.ofList ('/' :: b)) (String.ofList ('/' :: b)) = "" := by
          simp [dropStart, startsWith]
        rw [nothing, List.drop_length]
        rfl
      · have tail : dropStart (String.ofList ('/' :: (a ++ '/' :: rest))) (String.ofList ('/' :: a)) =
            String.ofList ('/' :: rest) := by
          simp [dropStart, startsWith]
        rw [tail, rawSegments_slash, rawSegments_slash, rawSegments_slash, splitChars_append, List.map_append,
          List.drop_left]

end covering

section longest

theorem longer_cases (best : Option (String × Json)) (m : String × Json) :
    ∃ b, longer best m = some b ∧ (b = m ∨ best = some b) ∧ m.1.length ≤ b.1.length ∧
      ∀ a ∈ best, a.1.length ≤ b.1.length := by
  cases best with
  | none => exact ⟨m, rfl, .inl rfl, Nat.le_refl _, fun _ none => nomatch none⟩
  | some a =>
    by_cases less : a.1.length < m.1.length
    · refine ⟨m, if_pos less, .inl rfl, Nat.le_refl _, ?_⟩
      rintro _ ⟨⟩
      exact less.le
    · refine ⟨a, if_neg less, .inr rfl, Nat.not_lt.mp less, ?_⟩
      rintro _ ⟨⟩
      exact Nat.le_refl _

theorem foldl_longer {l : List (String × Json)} {best : Option (String × Json)} {b : String × Json}
    (found : l.foldl longer best = some b) :
    (b ∈ l ∨ best = some b) ∧ (∀ m ∈ l, m.1.length ≤ b.1.length) ∧ ∀ a ∈ best, a.1.length ≤ b.1.length := by
  induction l generalizing best with
  | nil =>
    refine ⟨.inr found, by simp, fun a chosen => ?_⟩
    cases chosen.symm.trans found
    exact Nat.le_refl _
  | cons m l ih =>
    obtain ⟨c, step, from', least, before⟩ := longer_cases best m
    rw [List.foldl_cons, step] at found
    obtain ⟨among, most, top⟩ := ih found
    have above := top c rfl
    refine ⟨?_, ?_, fun a chosen => (before a chosen).trans above⟩
    · rcases among with later | same
      · exact .inl (List.mem_cons_of_mem _ later)
      · cases same
        rcases from' with rfl | same
        · exact .inl List.mem_cons_self
        · exact .inr same
    · intro x inside
      rcases List.mem_cons.mp inside with rfl | later
      · exact least.trans above
      · exact most x later

theorem foldl_longer_isSome (l : List (String × Json)) (b : String × Json) :
    ∃ c, l.foldl longer (some b) = some c := by
  induction l generalizing b with
  | nil => exact ⟨b, rfl⟩
  | cons m l ih =>
    obtain ⟨c, step, _⟩ := longer_cases (some b) m
    rw [List.foldl_cons, step]
    exact ih c

theorem foldl_longer_eq_none_iff {l : List (String × Json)} : l.foldl longer none = none ↔ l = [] := by
  constructor
  · intro none
    cases l with
    | nil => rfl
    | cons m l =>
      obtain ⟨c, some⟩ := foldl_longer_isSome l m
      exact nomatch some.symm.trans none
  · rintro rfl
    rfl

end longest

section table

/-- The mount that a pointer is looked up in: all others above the pointer have shorter pointers. -/
structure Nearest (mounts : List (String × Json)) (pointer : String) (m : String × Json) : Prop where
  inside : m ∈ mounts
  covering : covers m.1 pointer = true
  others : ∀ other ∈ mounts, covers other.1 pointer = true → other = m ∨ other.1.length < m.1.length

variable {r : Resolver} {pointer : String} {m : String × Json}

theorem mountFor?_eq (r : Resolver) (pointer : String) : r.mountFor? pointer =
    ((r.mounts.filter (covers ·.1 pointer)).foldl longer none).map fun m => (m.2, dropStart pointer m.1) :=
  rfl

theorem mountFor?_of_nearest (nearest : Nearest r.mounts pointer m) :
    r.mountFor? pointer = some (m.2, dropStart pointer m.1) := by
  have among : m ∈ r.mounts.filter (covers ·.1 pointer) :=
    List.mem_filter.mpr ⟨nearest.inside, nearest.covering⟩
  cases found : (r.mounts.filter (covers ·.1 pointer)).foldl longer none with
  | none =>
    rw [foldl_longer_eq_none_iff.mp found] at among
    cases among
  | some b =>
    obtain ⟨inside | none, most, _⟩ := foldl_longer found
    · obtain ⟨listed, covering⟩ := List.mem_filter.mp inside
      have least := most m among
      have same : b = m := (nearest.others b listed covering).resolve_right (Nat.not_lt.mpr least)
      rw [mountFor?_eq, found, same]
      rfl
    · cases none

theorem mountFor?_of_uncovered (uncovered : ∀ m ∈ r.mounts, covers m.1 pointer = false) :
    r.mountFor? pointer = none := by
  have nothing : r.mounts.filter (covers ·.1 pointer) = [] :=
    List.filter_eq_nil_iff.mpr fun m inside => by simp [uncovered m inside]
  rw [mountFor?_eq, nothing]
  rfl

end table

section calls

def mountEach (r : Resolver) (calls : List (String × Json)) : Resolver :=
  calls.foldl (fun r call => (r.mount call.1 call.2).2) r

def callsAt (calls : List (String × Json)) (pointer : String) : List (String × Json) :=
  calls.filter fun call => (parse call.1).pointer = pointer

def lastAt (calls : List (String × Json)) (pointer : String) : Option Json :=
  (callsAt calls pointer).getLast?.map (·.2)

/-- The value was mounted last at the pointer that has, of all pointers that something was mounted at, the
most segments at the front of this one. -/
structure Shadows (calls : List (String × Json)) (pointer mount : String) (value : Json) : Prop where
  last : lastAt calls mount = some value
  above : rawSegments mount <+: rawSegments pointer
  longest : ∀ call ∈ calls, rawSegments (parse call.1).pointer <+: rawSegments pointer →
    (rawSegments (parse call.1).pointer).length ≤ (rawSegments mount).length

variable {root : Json} {foreign : Option DocumentLoader} {calls : List (String × Json)}
  {pointer mount : String} {value : Json}

theorem mountEach_eq (r : Resolver) (calls : List (String × Json)) :
    mountEach r calls = { r with mounts := (mountEach r calls).mounts } := by
  induction calls generalizing r with
  | nil => rfl
  | cons call calls ih => exact ih (r.mount call.1 call.2).2

theorem mountEach_concat (r : Resolver) (calls : List (String × Json)) (call : String × Json) :
    mountEach r (calls ++ [call]) = ((mountEach r calls).mount call.1 call.2).2 := by
  rw [mountEach, List.foldl_concat]
  rfl

theorem callsAt_concat (calls : List (String × Json)) (call : String × Json) (pointer : String) :
    callsAt (calls ++ [call]) pointer =
      callsAt calls pointer ++ if (parse call.1).pointer = pointer then [call] else [] := by
  simp [callsAt, List.filter_append, List.filter_cons]

theorem mem_mounts_iff :
    (pointer, value) ∈ (mountEach { root, foreign } calls).mounts ↔ lastAt calls pointer = some value := by
  -- the last call replaces what the earlier ones left at its pointer
  induction calls using List.reverseRecOn with
  | nil => simp [mountEach, lastAt, callsAt]
  | append_singleton calls call ih =>
    have step : (mountEach { root, foreign } (calls ++ [call])).mounts =
        ((parse call.1).pointer, call.2) ::
          (mountEach { root, foreign } calls).mounts.filter (·.1 ≠ (parse call.1).pointer) := by
      rw [mountEach_concat]
      rfl
    rw [step, lastAt, callsAt_concat, List.mem_cons, List.mem_filter, ih]
    by_cases here : (parse call.1).pointer = pointer
    · simp [here, eq_comm]
    · simp [here, Ne.symm here, lastAt]

theorem lastAt_concat_self (calls : List (String × Json)) (ref : String) (value : Json) :
    lastAt (calls ++ [(ref, value)]) (parse ref).pointer = some value := by
  rw [lastAt, callsAt_concat, if_pos rfl, List.getLast?_concat]
  rfl

theorem exists_call (last : lastAt calls pointer = some value) :
    ∃ call ∈ calls, (parse call.1).pointer = pointer := by
  obtain ⟨call, ending, _⟩ := Option.map_eq_some_iff.mp last
  have inside := List.mem_of_getLast? ending
  exact ⟨call, (List.mem_filter.mp inside).1, by simpa using (List.mem_filter.mp inside).2⟩

theorem pointed_of_last (last : lastAt calls pointer = some value) : Pointed pointer := by
  obtain ⟨call, _, rfl⟩ := exists_call last
  exact pointed_parse call.1

theorem exists_last {call : String × Json} (inside : call ∈ calls) :
    ∃ value, lastAt calls (parse call.1).pointer = some value := by
  have among : call ∈ callsAt calls (parse call.1).pointer := List.mem_filter.mpr ⟨inside, by simp⟩
  have filled : callsAt calls (parse call.1).pointer ≠ [] := List.ne_nil_of_mem among
  exact ⟨_, by rw [lastAt, List.getLast?_eq_some_getLast filled]; rfl⟩

theorem length_of_segments {a b : String} (first : Pointed a) (second : Pointed b)
    (front : rawSegments a <+: rawSegments pointer) (front' : rawSegments b <+: rawSegments pointer)
    (fewer : (rawSegments a).length ≤ (rawSegments b).length) : a = b ∨ a.length < b.length :=
  length_of_covers ((covers_iff first second).mpr (List.prefix_of_prefix_length_le front front' fewer))

theorem Shadows.nearest (shadows : Shadows calls pointer mount value) (pointed : Pointed pointer) :
    Nearest (mountEach { root, foreign } calls).mounts pointer (mount, value) := by
  have start := pointed_of_last shadows.last
  refine ⟨mem_mounts_iff.mpr shadows.last, (covers_iff start pointed).mpr shadows.above, ?_⟩
  rintro ⟨other, w⟩ inside covering
  have last := mem_mounts_iff.mp inside
  have start' := pointed_of_last last
  obtain ⟨call, listed, rfl⟩ := exists_call last
  have front := (covers_iff start' pointed).mp covering
  have fewer := shadows.longest call listed front
  rcases length_of_segments start' start front shadows.above fewer with same | less
  · left
    have again := shadows.last
    rw [← same, last] at again
    cases again
    exact Prod.ext same rfl
  · exact .inr less

theorem exists_shadows (pointed : Pointed pointer) {call : String × Json} (inside : call ∈ calls)
    (front : rawSegments (parse call.1).pointer <+: rawSegments pointer) :
    ∃ mount value, Shadows calls pointer mount value := by
  -- the longest one of the mounts that cover the pointer
  let mounts := (mountEach { root := .null } calls).mounts
  have covered : ∀ call ∈ calls, rawSegments (parse call.1).pointer <+: rawSegments pointer →
      ∃ w, ((parse call.1).pointer, w) ∈ mounts.filter (covers ·.1 pointer) := by
    intro call inside front
    obtain ⟨w, last⟩ := exists_last inside
    exact ⟨w, List.mem_filter.mpr ⟨mem_mounts_iff.mpr last,
      (covers_iff (pointed_parse call.1) pointed).mpr front⟩⟩
  obtain ⟨w, among⟩ := covered call inside front
  cases found : (mounts.filter (covers ·.1 pointer)).foldl longer none with
  | none =>
    rw [foldl_longer_eq_none_iff.mp found] at among
    cases among
  | some b =>
    obtain ⟨listed | none, most, _⟩ := foldl_longer found
    · obtain ⟨listed, covering⟩ := List.mem_filter.mp listed
      have last : lastAt calls b.1 = some b.2 := mem_mounts_iff.mp listed
      have start := pointed_of_last last
      have above := (covers_iff start pointed).mp covering
      refine ⟨b.1, b.2, last, above, fun other listed front => ?_⟩
      obtain ⟨w, among⟩ := covered other listed front
      by_contra more
      have fewer := Nat.le_of_not_le more
      rcases length_of_segments start (pointed_parse other.1) above front fewer with same | less
      · exact more (by rw [same])
      · exact absurd (most _ among) (Nat.not_le.mpr less)
    · cases none

end calls

def answer (ref : String) : Option Json → Except Fault Json
  | none => .error (Fault.ofReference ref "pointer does not reach a value" (some noValue))
  | some .null => .error (Fault.ofReference ref "pointer reaches a null value" none)
  | some value => .ok value

section lookups

variable {r : Resolver} {ref : String} {root : Json} {foreign : Option DocumentLoader}
  {calls : List (String × Json)} {mounts : List (String × Json)} {mount : String} {value : Json}

theorem lookup_eq_answer {doc : Json} {pointer : String} (read : r.document ref = .ok (doc, pointer)) :
    r.lookup ref = answer ref (doc.along? (Json.pointerTokens pointer)) := by
  rw [lookup, read, ← Json.at?_eq_along?]
  simp only [bind, Except.bind]
  rcases doc.at? pointer with _ | _ | _ <;> rfl

theorem document_local (here : (parse ref).isLocal = true) : r.document ref =
    .ok ((r.mountFor? (parse ref).pointer).getD (r.root, (parse ref).pointer)) := by
  rw [document]
  simp [here]

theorem lookup_shadowed (here : (parse ref).isLocal = true)
    (members : ∀ m, m ∈ mounts ↔ m ∈ (mountEach { root, foreign } calls).mounts)
    (shadows : Shadows calls (parse ref).pointer mount value) :
    lookup { root, foreign, mounts } ref = answer ref (value.along?
      (((rawSegments (parse ref).pointer).drop (rawSegments mount).length).map unescape)) := by
  have pointed := pointed_parse ref
  have nearest : Nearest mounts (parse ref).pointer (mount, value) := by
    have own : Nearest (mountEach { root, foreign } calls).mounts (parse ref).pointer (mount, value) :=
      shadows.nearest pointed
    obtain ⟨inside, covering, others⟩ := own
    exact ⟨(members _).mpr inside, covering, fun other listed => others other ((members _).mp listed)⟩
  have found := mountFor?_of_nearest (r := { root, foreign, mounts }) nearest
  have read := document_local (r := { root, foreign, mounts }) here
  rw [found, Option.getD_some] at read
  rw [lookup_eq_answer read, pointerTokens_behind (pointed_of_last shadows.last) pointed shadows.above]

theorem lookup_unshadowed (here : (parse ref).isLocal = true)
    (members : ∀ m, m ∈ mounts ↔ m ∈ (mountEach { root, foreign } calls).mounts)
    (free : ∀ call ∈ calls, ¬ rawSegments (parse call.1).pointer <+: rawSegments (parse ref).pointer) :
    lookup { root, foreign, mounts } ref =
      answer ref (root.along? ((rawSegments (parse ref).pointer).map unescape)) := by
  have uncovered : ∀ m ∈ mounts, covers m.1 (parse ref).pointer = false := by
    rintro ⟨other, w⟩ inside
    have last := mem_mounts_iff.mp ((members _).mp inside)
    have start := pointed_of_last last
    obtain ⟨call, listed, rfl⟩ := exists_call last
    rw [← Bool.not_eq_true, covers_iff start (pointed_parse ref)]
    exact free call listed
  have found := mountFor?_of_uncovered (r := { root, foreign, mounts }) uncovered
  have read := document_local (r := { root, foreign, mounts }) here
  rw [found, Option.getD_none] at read
  rw [lookup_eq_answer read, pointerTokens_eq]

theorem lookup_congr (here : (parse ref).isLocal = true)
    (members : ∀ m, m ∈ mounts ↔ m ∈ (mountEach { root, foreign } calls).mounts) :
    lookup { root, foreign, mounts } ref =
      lookup { root, foreign, mounts := (mountEach { root, foreign } calls).mounts } ref := by
  by_cases free : ∀ call ∈ calls, ¬ rawSegments (parse call.1).pointer <+: rawSegments (parse ref).pointer
  · rw [lookup_unshadowed here members free, lookup_unshadowed here (fun _ => Iff.rfl) free]
  · push Not at free
    obtain ⟨call, inside, front⟩ := free
    obtain ⟨mount, value, shadows⟩ := exists_shadows (pointed_parse ref) inside front
    rw [lookup_shadowed here members shadows, lookup_shadowed here (fun _ => Iff.rfl) shadows]

theorem lookup_mounted_last (here : (parse ref).isLocal = true) (filled : value.isNull = false) :
    ((mountEach { root, foreign } calls).mount ref value).2.lookup (normalize ref) = .ok value := by
  have shadows : Shadows (calls ++ [(ref, value)]) (parse (normalize ref)).pointer (parse ref).pointer value := by
    rw [parse_normalize]
    exact ⟨lastAt_concat_self calls ref value, List.prefix_rfl, fun _ _ front => front.length_le⟩
  have again : (parse (normalize ref)).isLocal = true := by
    rw [parse_normalize]
    exact here
  rw [← mountEach_concat _ _ (ref, value), mountEach_eq, lookup_shadowed again (fun _ => Iff.rfl) shadows,
    parse_normalize, List.drop_length]
  cases value with
  | null => cases filled
  | _ => rfl

end lookups

/-- After any values were mounted one after another, a reference into the root document is looked up in the
value that was mounted last at the pointer with the most of its segments, and in the document itself where
nothing was mounted above it. Neither the order of the table nor that of calls for different pointers
matters, and what is mounted is found right away. -/
theorem lookup_mountEach (root : Json) (foreign : Option DocumentLoader) (calls : List (String × Json))
    {ref : String} (here : (parse ref).isLocal = true) :
    (∀ mount value, Shadows calls (parse ref).pointer mount value →
      (mountEach { root, foreign } calls).lookup ref = answer ref (value.along?
        (((rawSegments (parse ref).pointer).drop (rawSegments mount).length).map unescape))) ∧
    ((∃ call ∈ calls, rawSegments (parse call.1).pointer <+: rawSegments (parse ref).pointer) →
      ∃ mount value, Shadows calls (parse ref).pointer mount value) ∧
    ((∀ call ∈ calls, ¬ rawSegments (parse call.1).pointer <+: rawSegments (parse ref).pointer) →
      (mountEach { root, foreign } calls).lookup ref =
        answer ref (root.along? ((rawSegments (parse ref).pointer).map unescape))) ∧
    (∀ mounts, mounts.Perm (mountEach { root, foreign } calls).mounts →
      lookup { root, foreign, mounts } ref = (mountEach { root, foreign } calls).lookup ref) ∧
    (∀ calls', (∀ pointer, callsAt calls' pointer = callsAt calls pointer) →
      (mountEach { root, foreign } calls').lookup ref = (mountEach { root, foreign } calls).lookup ref) ∧
    ∀ value, value.isNull = false →
      ((mountEach { root, foreign } calls).mount ref value).2.lookup
        ((mountEach { root, foreign } calls).mount ref value).1 = .ok value := by
  have table := mountEach_eq { root, foreign } calls
  refine ⟨fun mount value shadows => ?_, ?_, fun free => ?_, fun mounts perm => ?_, fun calls' same => ?_, ?_⟩
  · rw [table]
    exact lookup_shadowed here (fun _ => Iff.rfl) shadows
  · rintro ⟨call, inside, front⟩
    exact exists_shadows (pointed_parse ref) inside front
  · rw [table]
    exact lookup_unshadowed here (fun _ => Iff.rfl) free
  · rw [table]
    exact lookup_congr here fun _ => perm.mem_iff
  · rw [table, mountEach_eq { root, foreign } calls']
    refine lookup_congr here fun m => ?_
    rw [mem_mounts_iff, mem_mounts_iff, lastAt, same, lastAt]
  · exact fun value filled => lookup_mounted_last here filled

def layered : List (String × Json) :=
  [("#/a/b", .obj [("c", .str "first")]), ("#/a", .obj [("b", .str "hidden"), ("d", .str "outer")]),
    ("#\\a\\b", .obj [("c", .str "second")])]

theorem lookup_mountEach_layered :
    (parse "#/a/b/c").isLocal = true ∧ Shadows layered "/a/b/c" "/a/b" (.obj [("c", .str "second")]) ∧
      (mountEach { root := .null } layered).lookup "#/a/b/c" = .ok (.str "second") ∧
      (mountEach { root := .obj [("ab", .str "beside")] } layered).lookup "#/ab" = .ok (.str "beside") := by
  have here : (parse "#/a/b/c").isLocal = true := by decide
  have shadows : Shadows layered "/a/b/c" "/a/b" (.obj [("c", .str "second")]) :=
    ⟨rfl, by decide, by decide⟩
  have inside := (lookup_mountEach .null none layered here).1 _ _ shadows
  have beside := (lookup_mountEach (.obj [("ab", .str "beside")]) none layered
    (show (parse "#/ab").isLocal = true by decide)).2.2.1 (by decide)
  exact ⟨here, shadows, inside, beside⟩

end Resolver

end Typesmith
