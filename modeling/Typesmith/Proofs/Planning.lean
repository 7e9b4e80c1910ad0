import Typesmith.Project.Build
import Typesmith.Proofs.Closure
import Typesmith.Proofs.Fields
import Typesmith.Proofs.Locations
import Typesmith.Proofs.Origins

namespace Typesmith.Project

open Text Session Conversion Typesmith.Path

def Settings.asked (s : Settings) : List OutputType :=
  s.outputTypes.filterMap fun name => OutputType.ofName? (lowerEach (trim name))

def Settings.typesName (s : Settings) : String :=
  if s.typesFile = "" then "types.ts" else s.typesFile

def OutputType.fileNames (typesFile : String) (r : Result) : OutputType → List String
  | single => [typesFile]
  | split => r.declarations.map (·.name ++ ".ts") ++ ["index.ts"]
  | manifest => ["manifest.json"]
  | yaml => ["manifest.yaml"]

def Settings.directory (s : Settings) (r : Result) : String :=
  joinAll [s.outputDir, r.document.name]

def Settings.paths (s : Settings) (r : Result) : List String :=
  (s.asked.flatMap (·.fileNames s.typesName r)).map fun f => joinAll [s.directory r, f]

def Settings.Apart (s : Settings) (r r' : Result) : Prop :=
  ∀ p ∈ s.paths r, p ∉ s.paths r'

section

variable {s : Settings} {r r' : Result}

theorem Settings.typesName_ne_empty (s : Settings) : s.typesName ≠ "" := by
  unfold typesName
  split
  · decide
  · assumption

theorem fileNames_of_plan {typesFile : String} {t : OutputType} {files : List (String × String)}
    (planned : t.plan typesFile r = .ok files) : files.map (·.1) = t.fileNames typesFile r := by
  cases t with
  | single =>
    cases planned
    rfl
  | split =>
    cases planned
    rw [List.map_append, List.map_map]
    rfl
  | manifest =>
    cases planned
    rfl
  | yaml =>
    obtain ⟨text, _, made⟩ := Model.except_bind_ok.mp planned
    cases made
    rfl

theorem isName_module {d : Declaration} (legal : Naming.Legal d.name) : IsName (d.name ++ ".ts") := by
  have letters : (d.name ++ ".ts").toList = d.name.toList ++ ['.', 't', 's'] := by simp
  have long : ∀ t : String, t.toList.length < 3 → d.name ++ ".ts" ≠ t := by
    rintro _ short rfl
    rw [letters, List.length_append] at short
    exact absurd short (Nat.not_lt_of_le (Nat.le_add_left _ _))
  refine ⟨long _ (by decide), long _ (by decide), long _ (by decide), ?_⟩
  · rw [letters]
    intro inside
    rcases List.mem_append.mp inside with front | ending
    · have part := legal.isIdentPart front
      exact absurd part (by decide)
    · exact absurd ending (by decide)

theorem steps_name {n : String} (name : IsName n) : steps n = [n] :=
  (tidy_name name).steps_spell

theorem ups_name {n : String} (name : IsName n) : ups n = 0 := by
  rw [ups, steps_name name, List.count_eq_zero]
  intro inside
  exact name.2.2.1 (List.mem_singleton.mp inside).symm

/-- Only the file with all declarations can be told to leave its directory. -/
theorem fileNames_level (legal : ∀ d ∈ r.declarations, Naming.Legal d.name) {t : OutputType}
    {typesFile f : String} (inside : f ∈ t.fileNames typesFile r) :
    (t = .single ∧ f = typesFile) ∨ IsName f := by
  have proper : ∀ n ∈ ["index.ts", "manifest.json", "manifest.yaml"], IsName n := by
    unfold IsName
    decide
  cases t with
  | single => exact .inl ⟨rfl, List.mem_singleton.mp inside⟩
  | split =>
    refine .inr ?_
    rcases List.mem_append.mp inside with module | index
    · obtain ⟨d, declared, rfl⟩ := List.mem_map.mp module
      exact isName_module (legal d declared)
    · rw [List.mem_singleton.mp index]
      exact proper _ (by simp)
  | manifest =>
    rw [List.mem_singleton.mp inside]
    exact .inr (proper _ (by simp))
  | yaml =>
    rw [List.mem_singleton.mp inside]
    exact .inr (proper _ (by simp))

theorem fileNames_shared (t : OutputType) (typesFile : String) :
    ∃ f, ∀ r : Result, f ∈ t.fileNames typesFile r := by
  cases t with
  | single => exact ⟨typesFile, fun _ => List.mem_singleton_self _⟩
  | split => exact ⟨"index.ts", fun _ => List.mem_append_right _ (List.mem_singleton_self _)⟩
  | manifest => exact ⟨"manifest.json", fun _ => List.mem_singleton_self _⟩
  | yaml => exact ⟨"manifest.yaml", fun _ => List.mem_singleton_self _⟩

end

section

variable {out n f : String}

theorem trail_directory (out : String) (name : IsName n) :
    joinAll [out, n] ≠ "" ∧ isAbsolute (joinAll [out, n]) = isAbsolute out ∧
      trail (joinAll [out, n]) = n :: trail out := by
  have walked : Walked (isAbsolute out) (n :: trail out) := (walked_trail out).cons name
  have spelled : joinAll [out, n] = spellOut (isAbsolute out) (n :: trail out) := by
    by_cases empty : out = ""
    · subst empty
      have alone : joinAll ["", n] = clean n := by simp [joinAll, name.1, join]
      have relative : isAbsolute n = false := (tidy_name name).relative
      rw [alone, clean_relative relative, steps_name name]
      rfl
    · rw [joinAll_below empty name.1, steps_name name]
      change spellOut _ (step _ _ n) = _
      rw [step_name name]
  rw [spelled]
  refine ⟨?_, walked.isAbsolute_spellOut, walked.trail_spellOut⟩
  rw [← spelled]
  unfold joinAll
  split
  · rename_i none
    simp [name.1] at none
  · exact clean_ne_empty _

theorem path_below (name : IsName n) (filled : f ≠ "") {k : Nat} {names : List String}
    (tidy : Tidy (steps f) k names) :
    joinAll [joinAll [out, n], f] =
      spellOut (isAbsolute out) (names.reverse ++ climb (isAbsolute out) k (n :: trail out)) := by
  obtain ⟨inside, start, walked⟩ := trail_directory out name
  rw [joinAll_below inside filled, start, walked, tidy.foldl_climb]

theorem path_below_inj {n' f' : String} (name : IsName n) (name' : IsName n') (filled : f ≠ "")
    (filled' : f' ≠ "") (level : ups f = 0) (level' : ups f' = 0)
    (same : joinAll [joinAll [out, n], f] = joinAll [joinAll [out, n'], f']) : n = n' := by
  obtain ⟨k, names, tidy⟩ := tidy_steps f
  obtain ⟨k', names', tidy'⟩ := tidy_steps f'
  rw [ups_eq tidy] at level
  rw [ups_eq tidy'] at level'
  subst level level'
  rw [path_below name filled tidy, path_below name' filled' tidy'] at same
  have walked : Walked (isAbsolute out) (names.reverse ++ n :: trail out) :=
    ((walked_trail out).cons name).append fun s inside => tidy.named s (List.mem_reverse.mp inside)
  have walked' : Walked (isAbsolute out) (names'.reverse ++ n' :: trail out) :=
    ((walked_trail out).cons name').append fun s inside => tidy'.named s (List.mem_reverse.mp inside)
  obtain ⟨_, equal⟩ := (walked.spellOut_inj walked').mp same
  -- read from the root on, the first difference can only be in the names of the documents
  have turned := congrArg List.reverse equal
  simp only [List.reverse_append, List.reverse_cons, List.reverse_reverse, List.append_assoc] at turned
  have rest := List.append_cancel_left turned
  exact (List.cons.inj rest).1

/-- A file that leaves its directory has the same path for all documents. -/
theorem path_below_up {n' : String} (name : IsName n) (name' : IsName n') (filled : f ≠ "")
    (level : ups f ≠ 0) : joinAll [joinAll [out, n], f] = joinAll [joinAll [out, n'], f] := by
  obtain ⟨k, names, tidy⟩ := tidy_steps f
  rw [ups_eq tidy] at level
  obtain ⟨j, rfl⟩ := Nat.exists_eq_succ_of_ne_zero level
  rw [path_below name filled tidy, path_below name' filled tidy, climb_name name, climb_name name']

end

section

variable {s : Settings} {r r' : Result}

theorem mem_paths {p : String} : p ∈ s.paths r ↔
    ∃ t ∈ s.asked, ∃ f ∈ t.fileNames s.typesName r, p = joinAll [s.directory r, f] := by
  simp only [Settings.paths, List.mem_map, List.mem_flatMap]
  constructor
  · rintro ⟨f, ⟨t, asked, inside⟩, rfl⟩
    exact ⟨t, asked, f, inside, rfl⟩
  · rintro ⟨t, asked, f, inside, rfl⟩
    exact ⟨f, ⟨t, asked, inside⟩, rfl⟩

theorem fileNames_below (legal : ∀ d ∈ r.declarations, Naming.Legal d.name)
    (level : .single ∈ s.asked → ups s.typesName = 0) {t : OutputType} (asked : t ∈ s.asked) {f : String}
    (inside : f ∈ t.fileNames s.typesName r) : f ≠ "" ∧ ups f = 0 := by
  rcases fileNames_level legal inside with ⟨rfl, rfl⟩ | proper
  · exact ⟨s.typesName_ne_empty, level asked⟩
  · exact ⟨proper.1, ups_name proper⟩

/-- Two documents have no path in common if and only if nothing is asked for, or their names differ and
the file with all declarations does not leave its directory. -/
theorem apart_iff (legal : ∀ d ∈ r.declarations, Naming.Legal d.name)
    (legal' : ∀ d ∈ r'.declarations, Naming.Legal d.name) (name : IsName r.document.name)
    (name' : IsName r'.document.name) :
    s.Apart r r' ↔ s.asked = [] ∨ (r.document.name ≠ r'.document.name ∧
      (.single ∈ s.asked → ups s.typesName = 0)) := by
  constructor
  · intro apart
    by_cases none : s.asked = []
    · exact .inl none
    refine .inr ⟨?_, ?_⟩
    · intro same
      obtain ⟨t, asked⟩ := List.exists_mem_of_ne_nil _ none
      obtain ⟨f, shared⟩ := fileNames_shared t s.typesName
      have directory : s.directory r = s.directory r' := by rw [Settings.directory, same, Settings.directory]
      exact apart _ (mem_paths.mpr ⟨t, asked, f, shared r, rfl⟩)
        (mem_paths.mpr ⟨t, asked, f, shared r', by rw [directory]⟩)
    · intro single
      by_contra up
      have own : ∀ r : Result, joinAll [s.directory r, s.typesName] ∈ s.paths r := fun r =>
        mem_paths.mpr ⟨.single, single, s.typesName, List.mem_singleton_self _, rfl⟩
      have same : joinAll [s.directory r, s.typesName] = joinAll [s.directory r', s.typesName] :=
        path_below_up name name' s.typesName_ne_empty up
      exact apart _ (own r) (same ▸ own r')
  · rintro (none | ⟨other, level⟩) p inside inside'
    · obtain ⟨t, asked, _⟩ := mem_paths.mp inside
      rw [none] at asked
      cases asked
    · obtain ⟨t, asked, f, file, rfl⟩ := mem_paths.mp inside
      obtain ⟨t', asked', f', file', same⟩ := mem_paths.mp inside'
      obtain ⟨filled, below⟩ := fileNames_below legal level asked file
      obtain ⟨filled', below'⟩ := fileNames_below legal' level asked' file'
      exact other (path_below_inj name name' filled filled' below below' same)

end

def put (files plan : Plan) : Plan :=
  files.foldl (fun plan f => Json.setField f.1 f.2 plan) plan

theorem put_append (first second plan : Plan) : put (first ++ second) plan = put second (put first plan) :=
  List.foldl_append

theorem lookup_put_other {files : Plan} {p : String} (absent : p ∉ files.map (·.1)) (plan : Plan) :
    (put files plan).lookup p = plan.lookup p := by
  have none : files.reverse.lookup p = none := by
    rw [Json.lookup_eq_none_iff]
    simpa [Json.keys] using absent
  rw [put, Json.lookup_foldl_setField, none]
  rfl

theorem lookup_put {files : Plan} {p : String} (inside : p ∈ files.map (·.1)) (plan : Plan) :
    ∃ text, (put files plan).lookup p = some text ∧ (put files []).lookup p = some text := by
  have listed : p ∈ Json.keys files.reverse := by simpa [Json.keys] using inside
  obtain ⟨text, found⟩ := Json.lookup_of_mem_keys listed
  refine ⟨text, ?_, ?_⟩
  · rw [put, Json.lookup_foldl_setField, found]
    rfl
  · rw [put, Json.lookup_foldl_setField, found]
    rfl

def Puts (files : Plan) (step : Plan → SessionM Plan) : Prop :=
  ∀ plan t, ∃ t', (step plan).run t = (.ok (put files plan), t')

/-- A step of planning that adds files under some paths, unless it stops. -/
def Plans (paths : List String) (step : Plan → SessionM Plan) : Prop :=
  ∀ plan t plan' t', (step plan).run t = (.ok plan', t') → ∃ files, files.map (·.1) = paths ∧ Puts files step

theorem Puts.eq {files plan plan' : Plan} {step : Plan → SessionM Plan} (puts : Puts files step)
    {t t' : Session} (run : (step plan).run t = (.ok plan', t')) : plan' = put files plan := by
  obtain ⟨last, done⟩ := puts plan t
  rw [run] at done
  cases done
  rfl

theorem Plans.andThen {paths more : List String} {first second : Plan → SessionM Plan}
    (one : Plans paths first) (two : Plans more second) :
    Plans (paths ++ more) fun plan => first plan >>= second := by
  intro plan t plan' t' run
  obtain ⟨middle, m, started, rest⟩ := Model.run_bind_ok_iff.mp run
  obtain ⟨files, names, puts⟩ := one plan t middle m started
  obtain ⟨others, names', puts'⟩ := two middle m plan' t' rest
  refine ⟨files ++ others, by rw [List.map_append, names, names'], ?_⟩
  intro plan t
  obtain ⟨u, begun⟩ := puts plan t
  obtain ⟨v, ended⟩ := puts' (put files plan) u
  rw [put_append]
  exact ⟨v, Model.run_bind_ok_iff.mpr ⟨_, u, begun, ended⟩⟩

theorem plans_pure : Plans [] pure := by
  intro plan t plan' t' run
  refine ⟨[], rfl, ?_⟩
  intro plan t
  exact ⟨t, rfl⟩

section

variable {s : Settings} {r : Result}

theorem plans_report {report : SessionM Unit} (silent : ∀ t, ∃ t', report.run t = (.ok (), t')) :
    Plans [] fun plan => do report; return plan := by
  intro plan t plan' t' run
  refine ⟨[], rfl, ?_⟩
  intro plan t
  obtain ⟨u, done⟩ := silent t
  exact ⟨u, by rw [Model.run_bind, done]; rfl⟩

theorem say_silent (message : Console.Log → Console.Log) (t : Session) :
    ∃ t', (say message).run t = (.ok (), t') := by
  have started : (get : SessionM Session).run t = (.ok t, t) := rfl
  unfold say
  rw [Model.run_bind, started]
  dsimp only
  split
  · exact ⟨_, rfl⟩
  · exact ⟨_, rfl⟩

theorem plans_output (s : Settings) (dir : String) (r : Result) (name : String) :
    Plans (((OutputType.ofName? (lowerEach (trim name))).toList.flatMap (·.fileNames s.typesName r)).map
      fun f => joinAll [dir, f]) (planOutput s dir r · name) := by
  unfold planOutput Settings.typesName
  generalize lowerEach (trim name) = known
  dsimp only
  cases OutputType.ofName? known with
  | none => exact plans_report fun t => ⟨_, rfl⟩
  | some t =>
    dsimp only
    cases planned : t.plan (if s.typesFile = "" then "types.ts" else s.typesFile) r with
    | error problem =>
      intro plan st plan' st' run
      cases run
    | ok files =>
      intro plan st plan' st' _
      refine ⟨files.map fun f => (joinAll [dir, f.1], f.2), ?_, ?_⟩
      · rw [Option.toList_some, List.flatMap_singleton, ← fileNames_of_plan planned, List.map_map,
          List.map_map]
        rfl
      · intro plan st
        refine ⟨st, ?_⟩
        rw [put, List.foldl_map]
        rfl

theorem plans_outputs (s : Settings) (dir : String) (r : Result) (names : List String) :
    Plans (((names.filterMap fun name => OutputType.ofName? (lowerEach (trim name))).flatMap
      (·.fileNames s.typesName r)).map fun f => joinAll [dir, f])
      (fun plan => names.foldlM (planOutput s dir r) plan) := by
  induction names with
  | nil => exact plans_pure
  | cons name names ih =>
    have both := (plans_output s dir r name).andThen ih
    rw [← List.map_append, ← List.flatMap_append] at both
    rw [List.filterMap_cons]
    cases known : OutputType.ofName? (lowerEach (trim name)) with
    | none =>
      rw [known] at both
      exact both
    | some t =>
      rw [known] at both
      exact both

theorem plans_result (s : Settings) (r : Result) : Plans (s.paths r) (planResult s true · r) := by
  rw [← List.append_nil (s.paths r)]
  exact (plans_outputs s (s.directory r) r s.outputTypes).andThen (plans_report (say_silent _))

theorem lookup_planned_other {results : List Result} {plan plan' : Plan} {t t' : Session} {p : String}
    (absent : ∀ r ∈ results, p ∉ s.paths r)
    (run : (results.foldlM (planResult s true) plan).run t = (.ok plan', t')) :
    plan'.lookup p = plan.lookup p := by
  induction results generalizing plan t with
  | nil =>
    cases run
    rfl
  | cons r rest ih =>
    rw [List.foldlM_cons] at run
    obtain ⟨middle, m, first, run⟩ := Model.run_bind_ok_iff.mp run
    obtain ⟨files, names, puts⟩ := plans_result s r plan t middle m first
    have untouched := absent r List.mem_cons_self
    rw [← names] at untouched
    rw [ih (fun r later => absent r (List.mem_cons_of_mem _ later)) run, puts.eq first,
      lookup_put_other untouched]

/-- Where no path is planned for two documents, each document has its own files in the plan. -/
theorem lookup_planned {results : List Result} (apart : results.Pairwise s.Apart) {plan plan' : Plan}
    {t t' : Session} (run : (results.foldlM (planResult s true) plan).run t = (.ok plan', t')) :
    ∀ r ∈ results, ∃ own, (∀ t, ∃ t', (planResult s true [] r).run t = (.ok own, t')) ∧
      ∀ p ∈ s.paths r, ∃ text, own.lookup p = some text ∧ plan'.lookup p = some text := by
  induction results generalizing plan t with
  | nil =>
    intro r inside
    cases inside
  | cons r rest ih =>
    obtain ⟨others, apart⟩ := List.pairwise_cons.mp apart
    rw [List.foldlM_cons] at run
    obtain ⟨middle, m, first, onward⟩ := Model.run_bind_ok_iff.mp run
    intro r' inside
    rcases List.mem_cons.mp inside with rfl | later
    · obtain ⟨files, names, puts⟩ := plans_result s r' plan t middle m first
      refine ⟨put files [], puts [], ?_⟩
      intro p planned
      have kept := lookup_planned_other (fun r later => others r later p planned) onward
      rw [← names] at planned
      obtain ⟨text, found, own⟩ := lookup_put planned plan
      refine ⟨text, own, ?_⟩
      rw [kept, puts.eq first, found]
    · exact ih apart onward r' later

theorem pairwise_apart_iff {results : List Result} (several : 1 < results.length)
    (legal : ∀ r ∈ results, ∀ d ∈ r.declarations, Naming.Legal d.name)
    (proper : ∀ r ∈ results, IsName r.document.name) :
    results.Pairwise s.Apart ↔ s.asked = [] ∨ ((results.map (·.document.name)).Nodup ∧
      (.single ∈ s.asked → ups s.typesName = 0)) := by
  have each : results.Pairwise s.Apart ↔ results.Pairwise fun r r' => s.asked = [] ∨
      (r.document.name ≠ r'.document.name ∧ (.single ∈ s.asked → ups s.typesName = 0)) := by
    apply List.Pairwise.iff_of_mem
    intro r r' inside inside'
    exact apart_iff (legal r inside) (legal r' inside') (proper r inside) (proper r' inside')
  rw [each]
  by_cases none : s.asked = []
  · simp only [none, true_or, iff_true]
    exact List.pairwise_of_forall fun _ _ => trivial
  · simp only [none, false_or, List.pairwise_and_iff, List.Nodup, List.pairwise_map]
    refine and_congr_right fun _ => ?_
    match results, several with
    | r :: r' :: rest, _ =>
      constructor
      · intro level
        exact (List.pairwise_cons.mp level).1 r' List.mem_cons_self
      · intro level
        exact List.pairwise_of_forall fun _ _ => level

/-- The results of several documents that have proper names: no two of them have a path in common if
and only if nothing is asked for, or their names differ and the file with all declarations does not
leave its directory. Then each document's files are in the plan, with the texts that the document alone
comes to. -/
theorem documents_apart_iff {results : List Result} (several : 1 < results.length)
    (converted : ∀ r ∈ results, ∃ q foreign doc, (outcome q foreign doc).answer = .ok r)
    (proper : ∀ r ∈ results, IsName r.document.name) :
    (results.Pairwise s.Apart ↔ s.asked = [] ∨ ((results.map (·.document.name)).Nodup ∧
      (.single ∈ s.asked → ups s.typesName = 0))) ∧
    (results.Pairwise s.Apart → ∀ plan t t',
      (results.foldlM (planResult s (decide (1 < results.length))) []).run t = (.ok plan, t') →
      ∀ r ∈ results, ∃ own, (∀ t, ∃ t', (planResult s true [] r).run t = (.ok own, t')) ∧
        ∀ p ∈ s.paths r, ∃ text, own.lookup p = some text ∧ plan.lookup p = some text) := by
  have legal : ∀ r ∈ results, ∀ d ∈ r.declarations, Naming.Legal d.name := by
    intro r inside
    obtain ⟨q, foreign, doc, done⟩ := converted r inside
    exact declared_legal done
  refine ⟨pairwise_apart_iff several legal proper, ?_⟩
  intro apart plan t t' run
  rw [decide_eq_true several] at run
  exact lookup_planned apart run

end

def kennel (path component : String) : Document where
  path
  name := Document.nameOfPath path
  root := .obj [("components", .obj [("schemas", .obj [(component, .obj [("type", .str "string")])])]),
    ("openapi", .str "3.0.0")]

def kennelSettings : Settings :=
  { outputDir := "out", outputTypes := ["ts"], componentsOnly := true }

open Model Declaration in
theorem kennel_converted {component : String} (either : component = "Cat" ∨ component = "Dog")
    (path : String) :
    ∃ r, (outcome { componentsOnly := true } none (kennel path component)).answer = .ok r ∧
      r.document = kennel path component := by
  have evaluated : (componentsWithin 5 { componentsOnly := true } (kennel "" component)).isSome = true := by
    simp only [componentsWithin, addComponents, Roots.add, findOrCreate, deepening_eq]
    rcases either with rfl | rfl <;> decide +kernel
  obtain ⟨⟨roots, s, vs⟩, ran⟩ := Option.isSome_iff_exists.mp evaluated
  -- the path of a document has no part in its conversion
  have ran : componentsWithin 5 { componentsOnly := true } (kennel path component) = some (roots, s, vs) := ran
  exact ⟨_, congrArg Prod.fst (succeeds_of_componentsWithin rfl ran), rfl⟩

theorem documents_apart_iff_kennels :
    ∃ r r', (outcome { componentsOnly := true } none (kennel "/a/cats.json" "Cat")).answer = .ok r ∧
      (outcome { componentsOnly := true } none (kennel "/b/dogs.json" "Dog")).answer = .ok r' ∧
      [r, r'].Pairwise kennelSettings.Apart := by
  obtain ⟨r, done, own⟩ := kennel_converted (.inl rfl) "/a/cats.json"
  obtain ⟨r', done', own'⟩ := kennel_converted (.inr rfl) "/b/dogs.json"
  refine ⟨r, r', done, done', ?_⟩
  have name : r.document.name = "cats" := by rw [own]; decide
  have name' : r'.document.name = "dogs" := by rw [own']; decide
  have several : 1 < [r, r'].length := Nat.lt_succ_self 1
  refine (documents_apart_iff several ?_ ?_).1.mpr (.inr ⟨?_, ?_⟩)
  · simp only [List.mem_cons, List.not_mem_nil, or_false]
    rintro _ (rfl | rfl)
    · exact ⟨_, _, _, done⟩
    · exact ⟨_, _, _, done'⟩
  · simp only [List.mem_cons, List.not_mem_nil, or_false]
    rintro _ (rfl | rfl)
    · rw [name]
      unfold IsName
      decide
    · rw [name']
      unfold IsName
      decide
  · rw [List.map_cons, List.map_singleton, name, name']
    decide
  · intro _
    decide

theorem kennel_planned {r : Result} (directory : kennelSettings.directory r = "out/pets") (plan : Plan)
    (t : Session) : ∃ t', (planResult kennelSettings true plan r).run t =
      (.ok (Json.setField "out/pets/types.ts" (header r.document ++ Declaration.file r.declarations) plan),
        t') := by
  have known : OutputType.ofName? (lowerEach (trim "ts")) = some .single := by decide
  have path : joinAll ["out/pets", "types.ts"] = "out/pets/types.ts" := by decide
  have output : planOutput kennelSettings (kennelSettings.directory r) r plan "ts" = pure (Json.setField
      "out/pets/types.ts" (header r.document ++ Declaration.file r.declarations) plan) := by
    rw [directory, ← path]
    unfold planOutput
    dsimp only
    rw [known]
    rfl
  have outputs : (kennelSettings.outputTypes.foldlM (planOutput kennelSettings
      (kennelSettings.directory r) r) plan).run t = (.ok (Json.setField "out/pets/types.ts"
        (header r.document ++ Declaration.file r.declarations) plan), t) := by
    have asked : kennelSettings.outputTypes = ["ts"] := rfl
    rw [asked, List.foldlM_cons, output]
    rfl
  unfold planResult
  rw [if_pos rfl]
  change ∃ t', (kennelSettings.outputTypes.foldlM (planOutput kennelSettings
    (kennelSettings.directory r) r) plan >>= _).run t = _
  rw [Model.run_bind, outputs]
  dsimp only
  obtain ⟨t', said⟩ := say_silent _ t
  rw [Model.run_bind, said]
  exact ⟨t', rfl⟩

/-- Documents in different directories may have the same name: then one is written over the other. -/
theorem documents_collide_kennels :
    ∃ r r', (outcome { componentsOnly := true } none (kennel "/a/pets.json" "Cat")).answer = .ok r ∧
      (outcome { componentsOnly := true } none (kennel "/b/pets.json" "Dog")).answer = .ok r' ∧
      ¬ [r, r'].Pairwise kennelSettings.Apart ∧
      ∀ t, ∃ t', ([r, r'].foldlM (planResult kennelSettings true) []).run t =
        (.ok [("out/pets/types.ts", header r'.document ++ Declaration.file r'.declarations)], t') := by
  obtain ⟨r, done, own⟩ := kennel_converted (.inl rfl) "/a/pets.json"
  obtain ⟨r', done', own'⟩ := kennel_converted (.inr rfl) "/b/pets.json"
  have directory : kennelSettings.directory r = "out/pets" := by
    rw [Settings.directory, own]
    decide
  have directory' : kennelSettings.directory r' = "out/pets" := by
    rw [Settings.directory, own']
    decide
  refine ⟨r, r', done, done', ?_, ?_⟩
  · intro apart
    have listed : ∀ r, kennelSettings.directory r = "out/pets" →
        "out/pets/types.ts" ∈ kennelSettings.paths r := by
      intro r directory
      refine mem_paths.mpr ⟨.single, by decide, "types.ts", List.mem_singleton_self _, ?_⟩
      rw [directory]
      decide
    exact (List.pairwise_cons.mp apart).1 r' List.mem_cons_self _ (listed r directory) (listed r' directory')
  · intro t
    obtain ⟨m, first⟩ := kennel_planned directory [] t
    obtain ⟨t', second⟩ := kennel_planned directory' _ m
    refine ⟨t', ?_⟩
    rw [List.foldlM_cons, Model.run_bind, first]
    dsimp only
    rw [List.foldlM_cons, Model.run_bind, second]
    rfl

end Typesmith.Project
