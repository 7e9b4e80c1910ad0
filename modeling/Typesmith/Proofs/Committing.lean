import Typesmith.Proofs.Execution
import Typesmith.Proofs.Writing

namespace Typesmith.Project

open Files Session Text
open Model (run_bind)

/-- The files after a plan was written: every planned file is there, nothing is left beside those that
were written, and everything else is as it was. -/
structure Committed (plan : Plan) (f g : Files) : Prop where
  cwd : g.cwd = f.cwd
  planned : ∀ file ∈ plan, g.fileAt (f.absolute file.1) = some file.2
  cleared : ∀ file ∈ plan, isOutdated f file = true → g.fileAt (f.absolute (file.1 ++ ".tmp")) = none
  kept : ∀ place, (∀ file ∈ plan, place ≠ f.absolute file.1) →
    (∀ file ∈ plan, isOutdated f file = true → place ≠ f.absolute (file.1 ++ ".tmp")) →
    g.fileAt place = f.fileAt place

def writtenPaths (ws : List Writer) : List String :=
  sort ((ws.filter Writer.changed).map (·.path))

section running

variable {f g : Files} {plan order : Plan} {w : Writer} {ws before after : List Writer}

theorem running_start (f : Files) (plan : Plan) : Running f plan (plan.map Writer.ofFile) f := by
  refine ⟨?_, .refl _ _ f, fun w inside => ?_⟩
  · rw [List.map_map]
    exact List.map_id plan
  · obtain ⟨file, _, rfl⟩ := List.mem_map.mp inside
    exact ⟨rfl, rfl⟩

theorem Writer.Holds.done (holds : w.Holds f g) (done : w.isDone = true) :
    w.changed = isOutdated f w.file ∧ g.fileAt (f.absolute w.path) = some w.text ∧
      (if w.changed then g.fileAt (f.absolute w.aside) = none
        else g.fileAt (f.absolute w.aside) = f.fileAt (f.absolute w.aside)) := by
  unfold isDone at done
  split at done
  · rename_i changed stage
    rw [Holds, stage] at holds
    cases changed with
    | true =>
      have written : w.changed = true := by simp [Writer.changed, stage]
      refine ⟨written.trans holds.2.2.symm, by rw [fileAt, holds.1], ?_⟩
      rw [if_pos written, fileAt, holds.2.1]
    | false =>
      have left : w.changed = false := by simp [Writer.changed, stage]
      refine ⟨left.trans holds.2.symm, ?_, ?_⟩
      · have same : (f.fileAt (f.absolute w.path) != some w.text) = false := holds.2
        rw [fileAt, holds.1.1, ← fileAt]
        simpa using same
      · rw [left, fileAt, holds.1.2]
        rfl
  · cases done

theorem Running.committed (running : Running f plan ws g) (done : ∀ w ∈ ws, w.isDone = true) :
    Committed plan f g := by
  have writer {file : String × String} (planned : file ∈ plan) : ∃ w ∈ ws, w.file = file :=
    List.mem_map.mp (running.files ▸ planned)
  refine ⟨running.keeps.cwd, ?_, ?_, ?_⟩
  · intro file planned
    obtain ⟨w, inside, rfl⟩ := writer planned
    exact ((running.holds w inside).done (done w inside)).2.1
  · intro file planned stale
    obtain ⟨w, inside, rfl⟩ := writer planned
    obtain ⟨verdict, -, beside⟩ := (running.holds w inside).done (done w inside)
    rwa [verdict, if_pos stale] at beside
  · intro place apart clear
    by_cases own : place ∈ placesOf f plan
    · obtain ⟨path, listed, rfl⟩ := List.mem_map.mp own
      obtain ⟨file, planned, rfl | rfl⟩ := mem_places listed
      · exact absurd rfl (apart file planned)
      · obtain ⟨w, inside, rfl⟩ := writer planned
        obtain ⟨verdict, -, beside⟩ := (running.holds w inside).done (done w inside)
        have fresh : isOutdated f w.file = false := by
          rw [Bool.eq_false_iff]
          exact fun stale => clear w.file planned stale rfl
        rw [verdict, fresh] at beside
        exact beside
    · exact (running.keeps.stays place own).fileAt_eq

theorem Running.written (running : Running f plan ws g) (done : ∀ w ∈ ws, w.isDone = true) :
    writtenPaths ws = sort (outdated f plan) := by
  have verdict : ∀ w ∈ ws, w.changed = (isOutdated f ∘ Writer.file) w := fun w inside =>
    ((running.holds w inside).done (done w inside)).1
  rw [writtenPaths, outdated, ← running.files, List.filter_map, List.map_map, List.filter_congr verdict]
  rfl

theorem Writer.finish_eq {f₁ f₂ f₃ f₄ : Files} {w₁ w₂ w₃ w₄ : Writer} (first : w.step f = .ok (f₁, w₁))
    (second : w₁.step f₁ = .ok (f₂, w₂)) (third : w₂.step f₂ = .ok (f₃, w₃))
    (fourth : w₃.step f₃ = .ok (f₄, w₄)) : w.finish f = .ok (f₄, w₄) := by
  unfold finish
  simp only [first, second, third, fourth, bind, Except.bind]

theorem Running.finish (running : Running f plan (before ++ w :: after) g) (ready : Prepared f plan)
    (start : w.stage = .start) : ∃ h v, w.finish g = .ok (h, v) ∧ Running f plan (before ++ v :: after) h ∧
      v.file = w.file ∧ v.isDone = true ∧ (v.changed = false → h = g) := by
  -- the first step decides: the file is left alone, or three more steps write it
  obtain ⟨f₁, w₁, first, turn₁, running₁⟩ := running.goes_on ready
  have next₁ := turn₁.next
  rw [start] at next₁
  cases stage₁ : w₁.stage with
  | done changed =>
    rw [stage₁] at next₁
    cases next₁
    obtain rfl := turn₁.quiet stage₁
    have rest : w₁.step f₁ = .ok (f₁, w₁) := by rw [Writer.step, stage₁]
    have done : w₁.isDone = true := by rw [Writer.isDone, stage₁]
    exact ⟨f₁, w₁, Writer.finish_eq first rest rest rest, running₁, turn₁.file, done, fun _ => rfl⟩
  | outdated =>
    obtain ⟨f₂, w₂, second, turn₂, running₂⟩ := running₁.goes_on ready
    obtain ⟨f₃, w₃, third, turn₃, running₃⟩ := running₂.goes_on ready
    obtain ⟨f₄, w₄, fourth, turn₄, running₄⟩ := running₃.goes_on ready
    have stage₂ : w₂.stage = .housed := turn₂.stage_eq stage₁ (by rintro _ ⟨⟩; rfl)
    have stage₃ : w₃.stage = .beside := turn₃.stage_eq stage₂ (by rintro _ ⟨⟩; rfl)
    have stage₄ : w₄.stage = .done true := turn₄.stage_eq stage₃ (by rintro _ ⟨⟩; rfl)
    have file := turn₄.file.trans (turn₃.file.trans (turn₂.file.trans turn₁.file))
    have done : w₄.isDone = true := by rw [Writer.isDone, stage₄]
    refine ⟨f₄, w₄, Writer.finish_eq first second third fourth, running₄, file, done, ?_⟩
    intro left
    rw [Writer.changed, stage₄] at left
    cases left
  | _ =>
    rw [stage₁] at next₁
    cases next₁

end running

section session

variable {f : Files} {plan order : Plan} {s : Session}

theorem run_upToDate_of_ok {path text old : String} (read : s.files.read path = .ok old) :
    (upToDate path text).run s = (.ok (old == text), s) := by
  have seen : view.run s = (.ok s.files, s) := rfl
  rw [upToDate, run_bind, seen]
  dsimp only
  rw [read]
  rfl

theorem run_upToDate_of_missing {path text : String} (read : s.files.read path = .error .missing) :
    (upToDate path text).run s = (.ok false, s) := by
  have seen : view.run s = (.ok s.files, s) := rfl
  rw [upToDate, run_bind, seen]
  dsimp only
  rw [read]
  rfl

/-- Looking at a file leaves everything as it was. -/
theorem Serves.run_upToDate (serves : Serves s.files plan) {file : String × String} (planned : file ∈ plan) :
    (upToDate file.1 file.2).run s = (.ok (!isOutdated s.files file), s) := by
  have named := serves.named file planned
  have vacant := (serves.room _ (mem_places_path planned)).vacant
  rcases read_cases named.1 named.2 vacant (serves.covered planned) with ⟨text, read, here⟩ | ⟨none, e, read, _⟩
  · rw [run_upToDate_of_ok read, isOutdated, here, bne, Bool.not_not]
    rfl
  · have missing : s.files.read file.1 = .error .missing := by
      rcases serves.readable file planned with ⟨text, there⟩ | missing
      · rw [read] at there
        cases there
      · exact missing
    rw [run_upToDate_of_missing missing, isOutdated, none]
    rfl

theorem run_mapM_cons {α β : Type} {step : α → SessionM β} {x : α} {l : List α} {b : β} {bs : List β}
    {s t u : Session} (one : (step x).run s = (.ok b, t)) (others : (l.mapM step).run t = (.ok bs, u)) :
    ((x :: l).mapM step).run s = (.ok (b :: bs), u) := by
  rw [List.mapM_cons, run_bind, one]
  dsimp only
  rw [run_bind, others]
  rfl

theorem run_check {stale : String × String → Bool}
    (each : ∀ file ∈ plan, (upToDate file.1 file.2).run s = (.ok (!stale file), s)) :
    (check plan).run s = (.ok ((plan.filter stale).map (·.1)), s) := by
  have answers : (plan.mapM (m := SessionM) fun file => do return (file.1, ← upToDate file.1 file.2)).run s =
      (.ok (plan.map fun file => (file.1, !stale file)), s) := by
    induction plan with
    | nil => rfl
    | cons file rest ih =>
      refine run_mapM_cons ?_ (ih fun other inside => each other (List.mem_cons_of_mem _ inside))
      rw [run_bind, each file List.mem_cons_self]
      rfl
  have listed : ((plan.map fun file => (file.1, !stale file)).filter fun answer => !answer.2).map (·.1) =
      (plan.filter stale).map (·.1) := by
    rw [List.filter_map, List.map_map]
    simp only [Function.comp_def, Bool.not_not]
  rw [check, run_bind, answers, ← listed]
  rfl

theorem run_writeFile (ready : Prepared f plan) {file : String × String} {before after : List Writer}
    (running : Running f plan (before ++ Writer.ofFile file :: after) s.files) :
    ∃ t v, (writeFile file.1 file.2).run s = (.ok (.ok (isOutdated f file)), t) ∧
      Running f plan (before ++ v :: after) t.files ∧ v.isDone = true := by
  obtain ⟨h, v, finished, running', same, done, quiet⟩ := running.finish ready rfl
  have verdict : v.changed = isOutdated f file := by
    rw [((running'.holds v (by simp)).done done).1, same]
    rfl
  have seen : view.run s = (.ok s.files, s) := rfl
  have run : (writeFile file.1 file.2).run s = (.ok (.ok v.changed), if v.changed then
      { s with files := h, written := s.written ++ [s.files.absolute file.1] } else s) := by
    have finished' : Writer.finish { path := file.1, text := file.2 } s.files = .ok (h, v) := finished
    rw [writeFile, run_bind, seen]
    dsimp only
    rw [finished']
    cases changed : v.changed <;> simp only [changed] <;> rfl
  rw [verdict] at run
  refine ⟨_, v, run, ?_, done⟩
  split
  · exact running'
  · rename_i left
    rw [← verdict, Bool.not_eq_true] at left
    rw [← quiet left]
    exact running'

theorem run_writeFiles (ready : Prepared f plan) {rest : Plan} (before : List Writer)
    (running : Running f plan (before ++ rest.map Writer.ofFile) s.files) :
    ∃ t vs, (rest.mapM (m := SessionM) fun file => do return (file.1, ← writeFile file.1 file.2)).run s =
        (.ok (rest.map fun file => (file.1, .ok (isOutdated f file))), t) ∧
      Running f plan (before ++ vs) t.files ∧ ∀ v ∈ vs, v.isDone = true := by
  induction rest generalizing before s with
  | nil => exact ⟨s, [], rfl, running, by simp⟩
  | cons file rest ih =>
    obtain ⟨t, v, one, running', done⟩ := run_writeFile ready running
    have moved : before ++ v :: rest.map Writer.ofFile = (before ++ [v]) ++ rest.map Writer.ofFile := by simp
    rw [moved] at running'
    obtain ⟨u, vs, others, last, all⟩ := ih _ running'
    refine ⟨u, v :: vs, run_mapM_cons ?_ others, ?_, ?_⟩
    · rw [run_bind, one]
      rfl
    · rwa [List.append_assoc] at last
    · intro w inside
      rcases List.mem_cons.mp inside with rfl | inside
      · exact done
      · exact all w inside

theorem run_commit (ready : Prepared s.files order) :
    ∃ t, (commit order).run s = (.ok (sort (outdated s.files order)), t) ∧ Committed order s.files t.files := by
  obtain ⟨t, vs, answers, running, done⟩ := run_writeFiles ready [] (running_start s.files order)
  refine ⟨t, ?_, running.committed done⟩
  have fine : (order.map fun file => (file.1, (.ok (isOutdated s.files file) : Except Access Bool))).findSome?
      (fun answer => refusal? answer.2) = none := by
    rw [List.findSome?_eq_none_iff]
    intro answer inside
    obtain ⟨file, _, rfl⟩ := List.mem_map.mp inside
    rfl
  have listed : ((order.map fun file => (file.1, (.ok (isOutdated s.files file) : Except Access Bool))).filter
      fun answer => wasWritten answer.2).map (·.1) = outdated s.files order := by
    rw [List.filter_map, List.map_map]
    rfl
  rw [commit, run_bind, answers]
  dsimp only
  rw [fine, listed]
  rfl

theorem Committed.run_check {g : Files} (committed : Committed plan f g) (serves : Serves f plan) {t : Session}
    (files : t.files = g) : (check plan).run t = (.ok [], t) := by
  subst files
  have each : ∀ file ∈ plan, (upToDate file.1 file.2).run t = (.ok (!false), t) := by
    intro file planned
    have named := serves.named file planned
    have read : t.files.read file.1 = .ok file.2 := by
      refine read_of_file named.1 named.2 ?_
      rw [absolute_congr committed.cwd]
      exact committed.planned file planned
    rw [run_upToDate_of_ok read, beq_self_eq_true]
    rfl
  rw [Project.run_check each, List.filter_false]
  rfl

end session

section order

variable {f g h : Files} {plan order : Plan}

theorem Serves.prepared (serves : Serves f plan) (ascending : Json.Ascending plan)
    (separate : ∀ file ∈ plan, ∀ other ∈ plan, file.1 ≠ other.1 ++ ".tmp") (perm : order.Perm plan) :
    Prepared f order := by
  have listed {file : String × String} : file ∈ order ↔ file ∈ plan := perm.mem_iff
  have placed {path : String} : path ∈ places order ↔ path ∈ places plan :=
    (perm.flatMap_right _).mem_iff
  have housed {d : String} : d ∈ housesOf f order ↔ d ∈ housesOf f plan :=
    ((perm.flatMap_right _).flatMap_right _).mem_iff
  refine ⟨⟨?_, ?_, ?_, ?_⟩, ?_, ?_⟩
  · exact fun file planned => serves.named file (listed.mp planned)
  · exact fun file planned => serves.readable file (listed.mp planned)
  · intro path place
    have room := serves.room path (placed.mp place)
    exact ⟨fun d inside => housed.mpr (room.within inside), room.free, room.vacant,
      fun inside => room.apart (housed.mp inside)⟩
  · exact fun path place other place' => serves.apart path (placed.mp place) other (placed.mp place')
  · exact (perm.map _).nodup_iff.mpr (ascending.imp fun less => ne_of_lt less)
  · exact fun file planned other planned' => separate file (listed.mp planned) other (listed.mp planned')

theorem Committed.of_perm (committed : Committed order f g) (perm : order.Perm plan) : Committed plan f g :=
  ⟨committed.cwd, fun file planned => committed.planned file (perm.mem_iff.mpr planned),
    fun file planned => committed.cleared file (perm.mem_iff.mpr planned),
    fun place apart clear => committed.kept place (fun file planned => apart file (perm.mem_iff.mp planned))
      fun file planned => clear file (perm.mem_iff.mp planned)⟩

/-- There is one view of the texts that a plan can leave. -/
theorem Committed.unique (one : Committed plan f g) (other : Committed plan f h) : g.fileAt = h.fileAt := by
  funext place
  by_cases planned : ∃ file ∈ plan, place = f.absolute file.1
  · obtain ⟨file, listed, rfl⟩ := planned
    rw [one.planned file listed, other.planned file listed]
  · have apart : ∀ file ∈ plan, place ≠ f.absolute file.1 := fun file listed same => planned ⟨file, listed, same⟩
    by_cases beside : ∃ file ∈ plan, isOutdated f file = true ∧ place = f.absolute (file.1 ++ ".tmp")
    · obtain ⟨file, listed, stale, rfl⟩ := beside
      rw [one.cleared file listed stale, other.cleared file listed stale]
    · have clear : ∀ file ∈ plan, isOutdated f file = true → place ≠ f.absolute (file.1 ++ ".tmp") :=
        fun file listed stale same => beside ⟨file, listed, stale, same⟩
      rw [one.kept place apart clear, other.kept place apart clear]

theorem outdated_ascending (f : Files) (ascending : Json.Ascending plan) :
    (outdated f plan).Pairwise (· < ·) :=
  ascending.sublist (List.filter_sublist.map _)

theorem sort_outdated (ascending : Json.Ascending plan) (perm : order.Perm plan) :
    sort (outdated f order) = outdated f plan := by
  have same := sort_eq_of_perm ((perm.filter (isOutdated f)).map (·.1))
  refine same.trans (List.Perm.eq_of_pairwise ?_ (sort_sorted _) ?_ (sort_perm _))
  · exact fun _ _ _ _ first second => String.le_antisymm first second
  · exact (outdated_ascending f ascending).imp fun less => le_of_lt less

end order

theorem Went.done {schedule : List Nat} {ws vs : List Writer} (went : Went schedule ws vs)
    (length : vs.length = ws.length) (four : ∀ i < ws.length, 4 ≤ schedule.count i) :
    ∀ v ∈ vs, v.isDone = true := by
  intro v inside
  obtain ⟨i, short, rfl⟩ := List.getElem_of_mem inside
  have short' : i < ws.length := length ▸ short
  obtain ⟨u, found, least⟩ := went i ws[i] (List.getElem?_eq_getElem short')
  have turns := four i short'
  rw [List.getElem?_eq_getElem short] at found
  cases found
  unfold Writer.isDone
  split
  · rfl
  · rename_i other
    cases stage : vs[i].stage with
    | done changed => exact absurd stage (other changed)
    | _ =>
      rw [stage] at least
      simp only [Stage.turns] at least
      omega

/-- Writing the planned files and comparing them agree, where working on the files succeeds and none of
them is beside another one. In any order, and also if the writers of the files take turns in any way,
nothing fails, the paths that are written are those that the comparison lists before, in ascending order,
and it lists none afterwards. The files that are left have the planned texts, nothing is left beside those
that were written, and all others are as they were. -/
theorem commit_check_agree {plan : Plan} {s : Session} (ascending : Json.Ascending plan)
    (separate : ∀ file ∈ plan, ∀ other ∈ plan, file.1 ≠ other.1 ++ ".tmp") (serves : Serves s.files plan) :
    (outdated s.files plan).Pairwise (· < ·) ∧
    (check plan).run s = (.ok (outdated s.files plan), s) ∧
    (∀ g h, Committed plan s.files g → Committed plan s.files h → g.fileAt = h.fileAt) ∧
    ∀ order, order.Perm plan →
      (∃ t, (commit order).run s = (.ok (outdated s.files plan), t) ∧ Committed plan s.files t.files ∧
        (check plan).run t = (.ok [], t)) ∧
      ∀ schedule, ∃ g ws, turns schedule (s.files, order.map Writer.ofFile) = .ok (g, ws) ∧
        ((∀ i < order.length, 4 ≤ schedule.count i) → ∀ w ∈ ws, w.isDone = true) ∧
        ((∀ w ∈ ws, w.isDone = true) → writtenPaths ws = outdated s.files plan ∧ Committed plan s.files g ∧
          ∀ t : Session, t.files = g → (check plan).run t = (.ok [], t)) := by
  refine ⟨outdated_ascending _ ascending, run_check fun file planned => serves.run_upToDate planned,
    fun g h one other => one.unique other, fun order perm => ⟨?_, fun schedule => ?_⟩⟩
  · obtain ⟨t, run, committed⟩ := run_commit (serves.prepared ascending separate perm)
    rw [sort_outdated ascending perm] at run
    exact ⟨t, run, committed.of_perm perm, (committed.of_perm perm).run_check serves rfl⟩
  · have ready := serves.prepared ascending separate perm
    obtain ⟨g, ws, run, running, went⟩ := (running_start s.files order).turns ready schedule
    have length : ws.length = (order.map Writer.ofFile).length := by
      rw [List.length_map, ← running.files, List.length_map]
    refine ⟨g, ws, run, fun four => went.done length ?_, fun done => ?_⟩
    · rwa [List.length_map]
    · have committed := (running.committed done).of_perm perm
      exact ⟨(running.written done).trans (sort_outdated ascending perm), committed,
        fun t files => committed.run_check serves files⟩

/-- A session in which one file is as planned, one has another text and something beside it, and one is
missing with its directory. -/
def kiosk : Session :=
  { files :=
      { cwd := "/work"
        entries := [("/", .directory ["work"]), ("/work", .directory ["out"]),
          ("/work/out", .directory ["a.ts", "b.ts", "b.ts.tmp"]), ("/work/out/a.ts", .file "one"),
          ("/work/out/b.ts", .file "old"), ("/work/out/b.ts.tmp", .file "half")] } }

def issues : Plan :=
  [("out/a.ts", "one"), ("out/b.ts", "two"), ("out/new/c.ts", "three")]

theorem kiosk_serves : Serves kiosk.files issues where
  named := by decide +kernel
  readable := by
    have first : kiosk.files.read "out/a.ts" = .ok "one" := by decide +kernel
    have second : kiosk.files.read "out/b.ts" = .ok "old" := by decide +kernel
    have third : kiosk.files.read "out/new/c.ts" = .error .missing := by decide +kernel
    simp [issues, first, second, third]
  room := by
    have within : ∀ path ∈ places issues, ∀ d ∈ kiosk.files.houses path, d ∈ housesOf kiosk.files issues :=
      fun path place d inside => List.mem_flatMap.mpr ⟨path, place, inside⟩
    have free : ∀ path ∈ places issues, ∀ d ∈ kiosk.files.houses path, ¬ kiosk.files.Blocked d := by
      decide +kernel
    have vacant : ∀ path ∈ places issues, kiosk.files.Vacant (kiosk.files.absolute path) := by decide +kernel
    have apart : ∀ path ∈ places issues, kiosk.files.absolute path ∉ housesOf kiosk.files issues := by
      decide +kernel
    exact fun path place => ⟨within path place, free path place, vacant path place, apart path place⟩
  apart := by decide +kernel

theorem commit_check_agree_kiosk : outdated kiosk.files issues = ["out/b.ts", "out/new/c.ts"] ∧
    (check issues).run kiosk = (.ok ["out/b.ts", "out/new/c.ts"], kiosk) ∧
    ∃ t, (commit issues.reverse).run kiosk = (.ok ["out/b.ts", "out/new/c.ts"], t) ∧
      t.files.fileAt "/work/out/b.ts" = some "two" ∧ t.files.fileAt "/work/out/b.ts.tmp" = none ∧
      (check issues).run t = (.ok [], t) := by
  have ascending : Json.Ascending issues := by
    rw [Json.Ascending]
    decide +kernel
  have stale : outdated kiosk.files issues = ["out/b.ts", "out/new/c.ts"] := by decide +kernel
  obtain ⟨-, checked, -, orders⟩ := commit_check_agree ascending (by decide +kernel) kiosk_serves
  obtain ⟨⟨t, run, committed, fresh⟩, -⟩ := orders issues.reverse issues.reverse_perm
  rw [stale] at checked run
  have planned := committed.planned ("out/b.ts", "two") (by decide)
  have cleared := committed.cleared ("out/b.ts", "two") (by decide) (by decide +kernel)
  have place : kiosk.files.absolute "out/b.ts" = "/work/out/b.ts" := by decide +kernel
  have beside : kiosk.files.absolute ("out/b.ts" ++ ".tmp") = "/work/out/b.ts.tmp" := by decide +kernel
  rw [place] at planned
  rw [beside] at cleared
  exact ⟨stale, checked, t, run, planned, cleared, fresh⟩

end Typesmith.Project
