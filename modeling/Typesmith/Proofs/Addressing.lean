import Typesmith.Document.Foreign
import Typesmith.Proofs.Identity
import Typesmith.Proofs.Locations
import Typesmith.Proofs.Moving

namespace Typesmith.Reference

open Text

/-- The file of a locator; the empty locator stands for the root document itself. -/
def fileOf (root locator : String) : String :=
  Path.clean (if locator = "" then root else Foreign.pathOf (Path.dir root) locator)

def Neat (locator : String) : Prop :=
  locator = "" ∨ Path.clean locator = locator

instance (locator : String) : Decidable (Neat locator) :=
  inferInstanceAs (Decidable (_ ∨ _))

/-- Both locators name the root document, or neither does; both are absolute, or both are relative and
go up equally often. -/
structure SameForm (l l' : String) : Prop where
  root : l = "" ↔ l' = ""
  start : Path.isAbsolute l = Path.isAbsolute l'
  level : Path.isAbsolute l = false → Path.ups l = Path.ups l'

theorem Neat.spell_steps {l : String} (neat : Neat l) (filled : l ≠ "")
    (relative : Path.isAbsolute l = false) : Path.spell (Path.steps l) = l := by
  have cleaned := neat.resolve_left filled
  rwa [Path.clean_relative relative] at cleaned

theorem fileOf_relative (root : String) {l : String} (filled : l ≠ "")
    (relative : Path.isAbsolute l = false) {k : Nat} {names : List String}
    (tidy : Path.Tidy (Path.steps l) k names) :
    fileOf root l = Path.spellOut (Path.isAbsolute (Path.dir root))
      (names.reverse ++ Path.climb (Path.isAbsolute (Path.dir root)) k (Path.trail (Path.dir root))) := by
  have inside : Path.dir root ≠ "" := Path.clean_ne_empty _
  have below : Foreign.pathOf (Path.dir root) l = Path.joinAll [Path.dir root, l] := by
    simp [Foreign.pathOf, relative]
  have again : Path.clean (Path.joinAll [Path.dir root, l]) = Path.joinAll [Path.dir root, l] := by
    rw [Path.joinAll_pair inside filled, Path.clean_clean]
  rw [fileOf, if_neg filled, below, again, Path.joinAll_below inside filled, tidy.foldl_climb]

theorem fileOf_absolute (root : String) {l : String} (rooted : Path.isAbsolute l = true) :
    fileOf root l = Path.clean l := by
  have filled : l ≠ "" := by
    rintro rfl
    cases rooted
  rw [fileOf, if_neg filled, Foreign.pathOf, if_pos rooted]

theorem locator_eq_iff {root l l' : String} (neat : Neat l) (neat' : Neat l')
    (same : fileOf root l = fileOf root l') : l = l' ↔ SameForm l l' := by
  constructor
  · rintro rfl
    exact ⟨Iff.rfl, rfl, fun _ => rfl⟩
  · rintro ⟨origin, start, level⟩
    by_cases empty : l = ""
    · rw [empty, origin.mp empty]
    have filled' : l' ≠ "" := fun none => empty (origin.mpr none)
    cases rooted : Path.isAbsolute l with
    | true =>
      have rooted' : Path.isAbsolute l' = true := by rw [← start, rooted]
      rw [fileOf_absolute root rooted, fileOf_absolute root rooted'] at same
      rwa [neat.resolve_left empty, neat'.resolve_left filled'] at same
    | false =>
      have relative' : Path.isAbsolute l' = false := by rw [← start, rooted]
      obtain ⟨k, names, tidy⟩ := Path.tidy_steps l
      obtain ⟨k', names', tidy'⟩ := Path.tidy_steps l'
      have equal := level rooted
      rw [Path.ups_eq tidy, Path.ups_eq tidy'] at equal
      subst equal
      rw [fileOf_relative root empty rooted tidy, fileOf_relative root filled' relative' tidy'] at same
      have climbed := Path.walked_climb (Path.walked_trail (Path.dir root)) k
      have walked := climbed.append fun s inside => tidy.named s (List.mem_reverse.mp inside)
      have walked' := climbed.append fun s inside => tidy'.named s (List.mem_reverse.mp inside)
      obtain ⟨_, lists⟩ := (walked.spellOut_inj walked').mp same
      have down : names = names' := List.reverse_inj.mp (List.append_cancel_right lists)
      rw [← neat.spell_steps empty rooted, ← neat'.spell_steps filled' relative', tidy.eq, tidy'.eq, down]

/-- The locator of a reference that was found in `base` comes out neat: it is taken over from there, or
written neatly, or relative and found in a document other than the root. -/
def Cleaned (r base : Reference) : Prop :=
  (r.locator = "" → Neat base.locator) ∧
  (r.locator ≠ "" → Neat r.locator ∨
    (base.locator ≠ "" ∧ Path.isAbsolute r.locator = false ∧ contains r.locator "://" = false))

instance (r base : Reference) : Decidable (r.Cleaned base) :=
  inferInstanceAs (Decidable (_ ∧ _))

theorem cleaned_iff (r base : Reference) :
    r.Cleaned base ↔ Neat (r.resolveAgainst base).locator := by
  unfold Cleaned resolveAgainst
  by_cases none : r.locator = ""
  · simp [none]
  by_cases foreign : base.locator ≠ "" ∧ Path.isAbsolute r.locator = false ∧
      contains r.locator "://" = false
  · have inside : Path.dir base.locator ≠ "" := Path.clean_ne_empty _
    have joined : Neat (Path.joinAll [Path.dir base.locator, r.locator]) := by
      right
      rw [Path.joinAll_pair inside none, Path.clean_clean]
    simp only [if_neg none, if_pos foreign, joined, iff_true]
    exact ⟨fun empty => absurd empty none, fun _ => .inr foreign⟩
  · simp [none, foreign]

end Typesmith.Reference

namespace Typesmith.Model

open Reference

/-- Two references, each found in some fragment and cleaned there, that lead to the same place of the same
file. They have one canonical text if and only if their locators have the same form. Then they have one
container: asking for the second after the first changes nothing. -/
theorem same_place_identity {root s base s' base' : String}
    (clean : (parse s).Cleaned (parse base)) (clean' : (parse s').Cleaned (parse base'))
    (pointer : (parse s).pointer = (parse s').pointer)
    (file : fileOf root ((parse s).resolveAgainst (parse base)).locator =
      fileOf root ((parse s').resolveAgainst (parse base')).locator) :
    (qualify s base = qualify s' base' ↔
      SameForm ((parse s).resolveAgainst (parse base)).locator
        ((parse s').resolveAgainst (parse base')).locator) ∧
    (qualify s base = qualify s' base' → ∀ cfg before c after, Requests cfg {} before →
      Returns (findOrCreate cfg (qualify s base)) before c after →
      exec (findOrCreate cfg (qualify s' base')) after = (.ok c, after)) := by
  have pointers : ((parse s).resolveAgainst (parse base)).pointer =
      ((parse s').resolveAgainst (parse base')).pointer := by
    rw [resolveAgainst_pointer, resolveAgainst_pointer, pointer]
  have neat := (cleaned_iff _ _).mp clean
  have neat' := (cleaned_iff _ _).mp clean'
  constructor
  · rw [qualify, qualify, canonical_eq_iff pointers, ← locator_eq_iff neat neat' file]
    constructor
    · exact congrArg locator
    · intro locators
      cases first : (parse s).resolveAgainst (parse base)
      cases second : (parse s').resolveAgainst (parse base')
      simp_all
  · intro same cfg before c after requests run
    obtain ⟨consistent, _⟩ := requests.settle (consistent_fresh cfg)
    obtain ⟨_, _, held⟩ := findOrCreate_settles run consistent
    apply findOrCreate_known
    rwa [← same]

theorem same_place_identity_beside :
    qualify "b.json#/X" "#/components/schemas/A" = qualify "../b.json#/X" "sub/c.json#/Y" := by
  have file : fileOf "/d/api.json"
        ((parse "b.json#/X").resolveAgainst (parse "#/components/schemas/A")).locator =
      fileOf "/d/api.json" ((parse "../b.json#/X").resolveAgainst (parse "sub/c.json#/Y")).locator := by
    decide +kernel
  refine (same_place_identity ?_ ?_ ?_ file).1.mpr ⟨?_, ?_, fun _ => ?_⟩
  all_goals decide +kernel

def neighbour : Setting where
  resolver := {
    root := .obj []
    foreign := some fun locator =>
      if Foreign.pathOf "/d" locator = "/d/b.json" then
        .ok (.obj [("X", .obj [("type", .str "string")])])
      else .error (.unread (Foreign.pathOf "/d" locator)) }

/-- Two spellings in the root document for one place of one file: two containers, two names. -/
theorem same_place_spelled_apart :
    (parse "b.json#/X").pointer = (parse "./b.json#/X").pointer ∧
    fileOf "/d/api.json" ((parse "b.json#/X").resolveAgainst (parse "#/p")).locator =
      fileOf "/d/api.json" ((parse "./b.json#/X").resolveAgainst (parse "#/q")).locator ∧
    qualify "b.json#/X" "#/p" ≠ qualify "./b.json#/X" "#/q" ∧
    ((exec (do
      let c ← findOrCreate neighbour (qualify "b.json#/X" "#/p")
      let c' ← findOrCreate neighbour (qualify "./b.json#/X" "#/q")
      return (c, c', (← get).descriptors.toList.map (·.name))) {}).1.toOption =
        some ([0], [1], ["X", "X_1"])) := by
  refine ⟨by decide +kernel, by decide +kernel, by decide +kernel, ?_⟩
  simp only [findOrCreate, deepening_eq]
  decide +kernel

end Typesmith.Model
