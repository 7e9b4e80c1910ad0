import Typesmith.Project.Build
import Typesmith.Proofs.Housing
import Typesmith.Proofs.Ordering

namespace Typesmith.Project

open Files

def places (plan : Plan) : List String :=
  plan.flatMap fun file => [file.1, file.1 ++ ".tmp"]

/-- The directories that may be made for a plan. -/
def housesOf (f : Files) (plan : Plan) : List String :=
  (places plan).flatMap f.houses

def placesOf (f : Files) (plan : Plan) : List String :=
  (places plan).map f.absolute

/-- Reading, writing and moving the files of a plan and making the directories above them succeeds: the
files are there or missing, there is room for each of them and for one beside it, and no two paths are one
place. -/
structure Serves (f : Files) (plan : Plan) : Prop where
  named : ∀ file ∈ plan, file.1 ≠ "" ∧ Text.endsWith file.1 "/" = false
  readable : ∀ file ∈ plan, (∃ text, f.read file.1 = .ok text) ∨ f.read file.1 = .error .missing
  room : ∀ path ∈ places plan, Room (housesOf f plan) f path
  apart : ∀ path ∈ places plan, ∀ other ∈ places plan, f.absolute path = f.absolute other → path = other

/-- A set of files to be written: every path once, and none of them beside another one. -/
structure Prepared (f : Files) (plan : Plan) : Prop extends Serves f plan where
  distinct : (plan.map (·.1)).Nodup
  separate : ∀ file ∈ plan, ∀ other ∈ plan, file.1 ≠ other.1 ++ ".tmp"

def isOutdated (f : Files) (file : String × String) : Bool :=
  f.fileAt (f.absolute file.1) != some file.2

def outdated (f : Files) (plan : Plan) : List String :=
  (plan.filter (isOutdated f)).map (·.1)

namespace Writer

def file (w : Writer) : String × String :=
  (w.path, w.text)

def ofFile (file : String × String) : Writer :=
  { path := file.1, text := file.2 }

def Untouched (w : Writer) (f g : Files) : Prop :=
  g.entries.lookup (f.absolute w.path) = f.entries.lookup (f.absolute w.path) ∧
    g.entries.lookup (f.absolute w.aside) = f.entries.lookup (f.absolute w.aside)

/-- What is at the places of a writer, by its stage; `f` are the files that all writers started from. -/
def Holds (w : Writer) (f g : Files) : Prop :=
  match w.stage with
  | .start => w.Untouched f g
  | .outdated | .housed => w.Untouched f g ∧ isOutdated f w.file = true
  | .beside =>
    g.entries.lookup (f.absolute w.path) = f.entries.lookup (f.absolute w.path) ∧
      g.entries.lookup (f.absolute w.aside) = some (.file w.text) ∧ isOutdated f w.file = true
  | .done true =>
    g.entries.lookup (f.absolute w.path) = some (.file w.text) ∧
      g.entries.lookup (f.absolute w.aside) = none ∧ isOutdated f w.file = true
  | .done false => w.Untouched f g ∧ isOutdated f w.file = false

end Writer

/-- How one turn changes the stage of a writer. -/
inductive Stage.Next : Stage → Stage → Prop
  | keep : Next .start (.done false)
  | replace : Next .start .outdated
  | house : Next .outdated .housed
  | write : Next .housed .beside
  | move : Next .beside (.done true)
  | rest {changed : Bool} : Next (.done changed) (.done changed)

def Stage.turns : Stage → Nat
  | .start => 0
  | .outdated => 1
  | .housed => 2
  | .beside => 3
  | .done _ => 4

theorem Stage.Next.turns_le {a b : Stage} (next : Next a b) : min 4 (a.turns + 1) ≤ b.turns := by
  cases next <;> simp [turns]

/-- Writers at work on a plan: each has left at its places what belongs to its stage, and everything else
is as it was but for new directories. -/
structure Running (f : Files) (plan : Plan) (ws : List Writer) (g : Files) : Prop where
  files : ws.map Writer.file = plan
  keeps : Keeps (housesOf f plan) (placesOf f plan) f g
  holds : ∀ w ∈ ws, w.Holds f g

section step

variable {f g h : Files} {plan : Plan} {w v : Writer} {ws before after : List Writer}

theorem mem_places_path {file : String × String} (planned : file ∈ plan) : file.1 ∈ places plan :=
  List.mem_flatMap.mpr ⟨file, planned, by simp⟩

theorem mem_places_aside {file : String × String} (planned : file ∈ plan) : file.1 ++ ".tmp" ∈ places plan :=
  List.mem_flatMap.mpr ⟨file, planned, by simp⟩

theorem mem_places {path : String} (place : path ∈ places plan) :
    ∃ file ∈ plan, path = file.1 ∨ path = file.1 ++ ".tmp" := by
  obtain ⟨file, planned, listed⟩ := List.mem_flatMap.mp place
  exact ⟨file, planned, by simpa using listed⟩

theorem mem_placesOf {path : String} (place : path ∈ places plan) : f.absolute path ∈ placesOf f plan :=
  List.mem_map_of_mem place

theorem Serves.covered (serves : Serves f plan) {file : String × String} (planned : file ∈ plan)
    (unknown : f.entries.lookup (f.absolute file.1) = none) : f.complete = true := by
  have named := (serves.named file planned).1
  by_contra partly
  rw [Bool.not_eq_true] at partly
  have answer := serves.readable file planned
  unfold Files.read stat look at answer
  rw [if_neg named, unknown, partly] at answer
  dsimp only at answer
  split at answer <;> simp [bind, Except.bind] at answer

theorem Running.planned (running : Running f plan ws g) (inside : w ∈ ws) : w.file ∈ plan :=
  running.files ▸ List.mem_map_of_mem inside

theorem Writer.Holds.vacant (holds : w.Holds f g) (serves : Serves f plan) (planned : w.file ∈ plan) :
    g.Vacant (f.absolute w.path) ∧ g.Vacant (f.absolute w.aside) := by
  have own := (serves.room _ (mem_places_path planned)).vacant
  have beside := (serves.room _ (mem_places_aside planned)).vacant
  have untouched : w.Untouched f g → g.Vacant (f.absolute w.path) ∧ g.Vacant (f.absolute w.aside) :=
    fun same => ⟨own.congr same.1, beside.congr same.2⟩
  unfold Holds at holds
  split at holds
  · exact untouched holds
  · exact untouched holds.1
  · exact untouched holds.1
  · exact ⟨own.congr holds.1, vacant_of_file holds.2.1⟩
  · exact ⟨vacant_of_file holds.1, vacant_of_none holds.2.1⟩
  · exact untouched holds.1

theorem Writer.Holds.congr (holds : w.Holds f g)
    (own : h.entries.lookup (f.absolute w.path) = g.entries.lookup (f.absolute w.path))
    (beside : h.entries.lookup (f.absolute w.aside) = g.entries.lookup (f.absolute w.aside)) :
    w.Holds f h := by
  unfold Holds Untouched at holds ⊢
  rw [own, beside]
  exact holds

theorem append_tmp_injective {a b : String} (same : a ++ ".tmp" = b ++ ".tmp") : a = b := by
  have letters := congrArg String.toList same
  rw [String.toList_append, String.toList_append] at letters
  exact String.toList_injective (List.append_cancel_right letters)

theorem Prepared.disjoint (ready : Prepared f plan) {a b : String × String} (one : a ∈ plan) (other : b ∈ plan)
    (different : a.1 ≠ b.1) :
    ∀ x ∈ [f.absolute a.1, f.absolute (a.1 ++ ".tmp")], x ∉ [f.absolute b.1, f.absolute (b.1 ++ ".tmp")] := by
  have apart := ready.apart
  have own := mem_places_path one
  have beside := mem_places_aside one
  have own' := mem_places_path other
  have beside' := mem_places_aside other
  simp only [List.mem_cons, List.not_mem_nil, or_false, forall_eq_or_imp, forall_eq, not_or]
  refine ⟨⟨fun same => ?_, fun same => ?_⟩, fun same => ?_, fun same => ?_⟩
  · exact different (apart _ own _ own' same)
  · exact ready.separate _ one _ other (apart _ own _ beside' same)
  · exact ready.separate _ other _ one (apart _ beside _ own' same).symm
  · exact different (append_tmp_injective (apart _ beside _ beside' same))

/-- A turn that is only about the places of one writer leaves the others where they are. -/
theorem Running.next (running : Running f plan (before ++ w :: after) g) (ready : Prepared f plan)
    (file : v.file = w.file) (holds : v.Holds f h)
    (keeps : Keeps (housesOf f plan) [f.absolute w.path, f.absolute w.aside] g h) :
    Running f plan (before ++ v :: after) h := by
  have own : w.file ∈ plan := running.planned (by simp)
  have within : [f.absolute w.path, f.absolute w.aside] ⊆ placesOf f plan := by
    intro x inside
    rcases List.mem_cons.mp inside with rfl | inside
    · exact mem_placesOf (mem_places_path own)
    · obtain rfl := List.mem_singleton.mp inside
      exact mem_placesOf (mem_places_aside own)
  refine ⟨?_, running.keeps.trans (keeps.mono within), fun u inside => ?_⟩
  · rw [← running.files]
    simp [file]
  have others : u = v ∨ u ∈ before ++ after := by
    simp only [List.mem_append, List.mem_cons] at inside ⊢
    tauto
  rcases others with rfl | other
  · exact holds
  have member : u ∈ before ++ w :: after := by
    simp only [List.mem_append, List.mem_cons] at other ⊢
    tauto
  have planned := running.planned member
  have different : u.file.1 ≠ w.file.1 := by
    have distinct := ready.distinct
    rw [← running.files, List.map_append, List.map_cons, List.map_append, List.map_cons] at distinct
    have apart := (List.nodup_middle.mp distinct)
    intro same
    refine (List.nodup_cons.mp apart).1 ?_
    rw [← same, ← List.map_append, ← List.map_append]
    exact List.mem_map_of_mem (List.mem_map_of_mem other)
  -- what changed are two places that are not those of `u`, and directories, of which none is made there
  have outside := ready.disjoint planned own different
  have vacant := (running.holds u member).vacant ready.toServes planned
  refine (running.holds u member).congr ?_ ?_
  · exact (keeps.stays _ (outside _ List.mem_cons_self)).lookup_eq vacant.1.directory
      (ready.room _ (mem_places_path planned)).apart
  · exact (keeps.stays _ (outside _ (List.mem_cons_of_mem _ List.mem_cons_self))).lookup_eq vacant.2.directory
      (ready.room _ (mem_places_aside planned)).apart

theorem Writer.isOutdated_of_file {text : String} (found : f.fileAt (f.absolute w.path) = some text) :
    isOutdated f w.file = !(text == w.text) := by
  change (f.fileAt (f.absolute w.path) != some w.text) = _
  rw [found]
  rfl

theorem Writer.isOutdated_of_none (none : f.fileAt (f.absolute w.path) = none) : isOutdated f w.file = true := by
  change (f.fileAt (f.absolute w.path) != some w.text) = _
  rw [none]
  rfl

/-- What one turn does: it leads to the next stage, and changes nothing but the places of the writer. -/
structure Writer.Turn (made : List String) (f g : Files) (w : Writer) (h : Files) (v : Writer) : Prop where
  file : v.file = w.file
  next : w.stage.Next v.stage
  holds : v.Holds f h
  keeps : Keeps made [f.absolute w.path, f.absolute w.aside] g h
  quiet : v.stage = .done false → h = g

theorem Writer.turn_start (made : List String) (stage : w.stage = .start) (untouched : w.Untouched f g)
    (here : g.absolute w.path = f.absolute w.path) (named : w.path ≠ "")
    (bare : Text.endsWith w.path "/" = false) (vacant : g.Vacant (g.absolute w.path))
    (covered : g.entries.lookup (g.absolute w.path) = none → g.complete = true) :
    ∃ v, w.step g = .ok (g, v) ∧ w.Turn made f g g v := by
  have same : g.fileAt (g.absolute w.path) = f.fileAt (f.absolute w.path) := by
    rw [here, fileAt, fileAt, untouched.1]
  have quiet {v : Writer} (file : v.file = w.file) (next : Stage.start.Next v.stage) (holds : v.Holds f g) :
      w.Turn made f g g v :=
    ⟨file, stage ▸ next, holds, .refl _ _ g, fun _ => rfl⟩
  rcases read_cases named bare vacant covered with ⟨text, read, file⟩ | ⟨none, e, read, known⟩
  · rw [same] at file
    have verdict := isOutdated_of_file file
    have one : w.step g = .ok (g, w.reached (if text == w.text then .done false else .outdated)) := by
      rw [step, stage]
      simp only [read]
    cases equal : text == w.text with
    | true =>
      rw [equal] at one verdict
      exact ⟨_, one, quiet rfl .keep ⟨untouched, verdict⟩⟩
    | false =>
      rw [equal] at one verdict
      exact ⟨_, one, quiet rfl .replace ⟨untouched, verdict⟩⟩
  · rw [same] at none
    refine ⟨w.reached .outdated, ?_, quiet rfl .replace ⟨untouched, isOutdated_of_none none⟩⟩
    rw [step, stage]
    cases e with
    | unread path => exact absurd rfl (known path)
    | missing => simp only [read]
    | refused => simp only [read]

variable {made : List String}

theorem Writer.turn_outdated (stage : w.stage = .outdated) (holds : w.Holds f g)
    (here : g.absolute w.path = f.absolute w.path) (there : g.absolute w.aside = f.absolute w.aside)
    (room : Room made g w.path) (beside : Room made g w.aside) :
    ∃ h v, w.step g = .ok (h, v) ∧ w.Turn made f g h v := by
  rw [Holds, stage] at holds
  obtain ⟨h, housed, keeps⟩ := addDirectory_spec room
  have own := (keeps.stays _ (by simp)).lookup_eq room.vacant.directory room.apart
  have other := (keeps.stays _ (by simp)).lookup_eq beside.vacant.directory beside.apart
  rw [here] at own
  rw [there] at other
  have one : w.step g = .ok (h, w.reached .housed) := by
    rw [step, stage]
    simp only [housed]
    rfl
  exact ⟨h, _, one, rfl, stage ▸ .house, ⟨⟨own.trans holds.1.1, other.trans holds.1.2⟩, holds.2⟩,
    keeps.mono (List.nil_subset _), by simp [reached]⟩

theorem Writer.turn_housed (stage : w.stage = .housed) (holds : w.Holds f g)
    (here : g.absolute w.path = f.absolute w.path) (there : g.absolute w.aside = f.absolute w.aside)
    (two : f.absolute w.path ≠ f.absolute w.aside) (room : Room made g w.path) (beside : Room made g w.aside) :
    ∃ h v, w.step g = .ok (h, v) ∧ w.Turn made f g h v := by
  rw [Holds, stage] at holds
  obtain ⟨h, written, file, keeps⟩ := write_spec w.text beside
  rw [there] at file keeps
  have vacant := room.vacant
  have apart := room.apart
  rw [here] at vacant apart
  have own := (keeps.stays _ (by simpa using two)).lookup_eq vacant.directory apart
  have one : w.step g = .ok (h, w.reached .beside) := by
    rw [step, stage]
    simp only [written]
    rfl
  exact ⟨h, _, one, rfl, stage ▸ .write, ⟨own.trans holds.1.1, file, holds.2⟩, keeps.mono (by simp),
    by simp [reached]⟩

theorem Writer.turn_beside (stage : w.stage = .beside) (holds : w.Holds f g)
    (here : g.absolute w.path = f.absolute w.path) (there : g.absolute w.aside = f.absolute w.aside)
    (two : f.absolute w.path ≠ f.absolute w.aside) (room : Room made g w.path) (beside : Room made g w.aside) :
    ∃ h v, w.step g = .ok (h, v) ∧ w.Turn made f g h v := by
  rw [Holds, stage] at holds
  have letters : w.aside.toList = w.path.toList ++ ".tmp".toList := String.toList_append
  have named : w.aside ≠ "" := by
    intro empty
    rw [empty] at letters
    simp at letters
  have bare : Text.endsWith w.aside "/" = false := by
    rw [Text.endsWith, letters, List.isSuffixOf, List.reverse_append]
    rfl
  have read : g.read w.aside = .ok w.text := by
    refine read_of_file named bare ?_
    rw [there, fileAt, holds.2.1]
  have other : g.absolute w.aside ≠ g.absolute w.path := by
    rw [here, there]
    exact two.symm
  obtain ⟨h, moved, file, gone, keeps⟩ := move_spec read room other beside.apart
  rw [here] at file keeps
  rw [there] at gone keeps
  have one : w.step g = .ok (h, w.reached (.done true)) := by
    rw [step, stage]
    simp only [moved]
    rfl
  exact ⟨h, _, one, rfl, stage ▸ .move, ⟨file, gone, holds.2.2⟩, keeps.mono (by simp), by simp [reached]⟩

theorem Running.room (running : Running f plan ws g) (serves : Serves f plan) (inside : w ∈ ws) :
    Room (housesOf f plan) g w.path ∧ Room (housesOf f plan) g w.aside := by
  have own := running.planned inside
  have vacant := (running.holds w inside).vacant serves own
  have outside : ∀ x ∈ placesOf f plan, x ∉ housesOf f plan := by
    intro x listed
    obtain ⟨path, place, rfl⟩ := List.mem_map.mp listed
    exact (serves.room path place).apart
  exact ⟨running.keeps.room (serves.room _ (mem_places_path own)) outside vacant.1,
    running.keeps.room (serves.room _ (mem_places_aside own)) outside vacant.2⟩

theorem Running.turn (running : Running f plan ws g) (ready : Prepared f plan) (inside : w ∈ ws) :
    ∃ h v, w.step g = .ok (h, v) ∧ w.Turn (housesOf f plan) f g h v := by
  have own := running.planned inside
  have holds := running.holds w inside
  have here := absolute_congr running.keeps.cwd w.path
  have there := absolute_congr running.keeps.cwd w.aside
  obtain ⟨room, beside⟩ := running.room ready.toServes inside
  have two : f.absolute w.path ≠ f.absolute w.aside := fun same =>
    ready.separate _ own _ own (ready.apart _ (mem_places_path own) _ (mem_places_aside own) same)
  cases stage : w.stage with
  | start =>
    rw [Writer.Holds, stage] at holds
    have named := ready.named _ own
    have covered : g.entries.lookup (g.absolute w.path) = none → g.complete = true := by
      intro unknown
      rw [here, holds.1] at unknown
      rw [running.keeps.complete]
      exact ready.covered own unknown
    obtain ⟨v, one, turn⟩ := Writer.turn_start _ stage holds here named.1 named.2 room.vacant covered
    exact ⟨g, v, one, turn⟩
  | outdated => exact Writer.turn_outdated stage holds here there room beside
  | housed => exact Writer.turn_housed stage holds here there two room beside
  | beside => exact Writer.turn_beside stage holds here there two room beside
  | done changed =>
    refine ⟨g, w, ?_, rfl, stage ▸ .rest, holds, .refl _ _ g, fun _ => rfl⟩
    rw [Writer.step, stage]

theorem Running.goes_on (running : Running f plan (before ++ w :: after) g) (ready : Prepared f plan) :
    ∃ h v, w.step g = .ok (h, v) ∧ w.Turn (housesOf f plan) f g h v ∧ Running f plan (before ++ v :: after) h := by
  obtain ⟨h, v, one, turn⟩ := running.turn ready (List.mem_append_right _ List.mem_cons_self)
  exact ⟨h, v, one, turn, running.next ready turn.file turn.holds turn.keeps⟩

theorem Writer.Turn.stage_eq {a b : Stage} (turn : w.Turn made f g h v) (stage : w.stage = a)
    (only : ∀ c, a.Next c → c = b) : v.stage = b :=
  only _ (stage ▸ turn.next)

end step

def turn (s : Files × List Writer) (i : Nat) : Except Access (Files × List Writer) :=
  match s.2[i]? with
  | none => .ok s
  | some w => do
    let (f, w) ← w.step s.1
    return (f, s.2.set i w)

def turns (schedule : List Nat) (s : Files × List Writer) : Except Access (Files × List Writer) :=
  schedule.foldlM turn s

section run

variable {f g : Files} {plan : Plan} {ws : List Writer}

def Went (schedule : List Nat) (ws vs : List Writer) : Prop :=
  ∀ i w, ws[i]? = some w → ∃ v, vs[i]? = some v ∧ min 4 (w.stage.turns + schedule.count i) ≤ v.stage.turns

theorem Went.append {first second : List Nat} {ws vs us : List Writer} (one : Went first ws vs)
    (other : Went second vs us) : Went (first ++ second) ws us := by
  intro i w found
  obtain ⟨v, there, least⟩ := one i w found
  obtain ⟨u, there', least'⟩ := other i v there
  refine ⟨u, there', ?_⟩
  rw [List.count_append]
  omega

theorem Running.turn_at (running : Running f plan ws g) (ready : Prepared f plan) (i : Nat) :
    ∃ h vs, Project.turn (g, ws) i = .ok (h, vs) ∧ Running f plan vs h ∧ Went [i] ws vs := by
  have still {j : Nat} (other : j ≠ i) (w : Writer) : min 4 (w.stage.turns + [i].count j) ≤ w.stage.turns := by
    rw [List.count_singleton, beq_false_of_ne other.symm]
    exact Nat.min_le_right _ _
  unfold Project.turn
  dsimp only
  cases here : ws[i]? with
  | none =>
    refine ⟨g, ws, rfl, running, fun j w found => ⟨w, found, still ?_ w⟩⟩
    rintro rfl
    rw [here] at found
    cases found
  | some w =>
    obtain ⟨short, rfl⟩ := List.getElem?_eq_some_iff.mp here
    obtain ⟨h, v, one, turn⟩ := running.turn ready (List.getElem_mem short)
    obtain ⟨before, after, split, length, replaced⟩ := @List.exists_of_set _ _ v _ short
    refine ⟨h, ws.set i v, ?_, ?_, fun j u found => ?_⟩
    · simp only [one]
      rfl
    · rw [replaced]
      rw [split] at running
      exact running.next ready turn.file turn.holds turn.keeps
    · by_cases same : j = i
      · subst same
        rw [here] at found
        cases found
        refine ⟨v, by simp [short], ?_⟩
        rw [List.count_singleton_self]
        exact turn.next.turns_le
      · exact ⟨u, by rwa [List.getElem?_set_ne (Ne.symm same)], still same u⟩

/-- However the writers take turns, all of them succeed. -/
theorem Running.turns (running : Running f plan ws g) (ready : Prepared f plan) (schedule : List Nat) :
    ∃ h vs, Project.turns schedule (g, ws) = .ok (h, vs) ∧ Running f plan vs h ∧ Went schedule ws vs := by
  induction schedule generalizing g ws with
  | nil => exact ⟨g, ws, rfl, running, fun i w found => ⟨w, found, Nat.min_le_right _ _⟩⟩
  | cons i rest ih =>
    obtain ⟨h, vs, one, running', first⟩ := running.turn_at ready i
    obtain ⟨h', us, more, last, later⟩ := ih running'
    refine ⟨h', us, ?_, last, first.append later⟩
    rw [Project.turns, List.foldlM_cons, one]
    exact more

end run

end Typesmith.Project
