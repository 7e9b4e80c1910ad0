import Typesmith.Proofs.Citing
import Typesmith.Proofs.Origins
import Typesmith.Proofs.Reporting
import Typesmith.Proofs.Undisturbed

namespace Typesmith

namespace Model

/-- The parameters of types whose keys are content types, statuses, or given without a parameter. -/
def givenParameters : List String :=
  ["ContentType", "Status", "Key"]

theorem unadorned_given : ∀ parameter ∈ givenParameters, Naming.Unadorned parameter := by
  decide

def Shape.choice? : Shape → Option (String × List (String × Container))
  | .generic parameter cases => some (parameter, cases)
  | _ => none

variable {cfg : Setting} {s : Store} {i k : Id} {d : Descriptor} {parameter : String}
  {cases : List (String × Container)}

theorem Shape.eq_of_choice? {shape : Shape} (choice : shape.choice? = some (parameter, cases)) :
    shape = .generic parameter cases := by
  cases shape <;> cases choice
  rfl

theorem quotes_generic_iff (found : s.get? i = some d) (generic : d.shape = .generic parameter cases) :
    Quotes cfg s i k ↔ ∃ c ∈ cases, ∃ j ∈ c.2, Cites cfg s j k := by
  simp only [Quotes, found, Option.some.injEq, exists_eq_left', generic, Shape.shown, Shape.inside,
    List.mem_flatMap]
  constructor
  · rintro ⟨j, ⟨c, listed, inside⟩, cites⟩
    exact ⟨c, listed, j, inside, cites⟩
  · rintro ⟨c, listed, j, inside, cites⟩
    exact ⟨j, ⟨c, listed, inside⟩, cites⟩

theorem declaration_parameter (found : s.get? i = some d) (generic : d.shape = .generic parameter cases)
    (some : cases ≠ []) {deps later : List Id} {text : String}
    (run : (declarationText cfg s i).run deps = .ok (text, later)) :
    ∃ rest, text = d.comments ++ "export type " ++ d.name ++ "<" ++ parameter ++ " extends string = " ++ rest := by
  unfold declarationText fetch at run
  rw [found] at run
  dsimp only at run
  rw [pure_bind] at run
  split at run
  · cases run
  rw [generic] at run
  obtain ⟨⟨first, types⟩, rest, rfl⟩ := List.exists_cons_of_ne_nil some
  dsimp only [declareGeneric] at run
  rw [StateT.run_bind] at run
  obtain ⟨⟨lines, middle⟩, shown, made⟩ := except_bind_ok.mp run
  cases made
  exact ⟨_, by simp only [String.append_assoc]; rfl⟩

end Model

namespace Conversion

open Model Declaration Registry Naming

variable {q : Request} {foreign : Option DocumentLoader} {doc : Document} {s t : Store}

theorem run_keeps {r : Result} (keep : Roots → Store → Prop) (fresh : keep {} {})
    (waits : ∀ r s t, Quiet s t → keep r s → keep r t)
    (adds : ∀ cfg r ref s r' t, Returns (Roots.add cfg q.skips r ref) s r' t → keep r s → keep r' t)
    (ran : Succeeds (run q foreign doc) {} r t) :
    ∃ roots ds, keep roots t ∧ collect (q.setting foreign doc) t roots.containers = .ok ds ∧
      r.declarations = sortByName (ds ++ roots.aliases) := by
  obtain ⟨roots, m, components, ran⟩ := succeeds_bind.mp ran
  have before : keep roots m := addComponents_keeps (fun _ => keep)
    (fun _ _ _ _ _ _ quiet kept => waits _ _ _ quiet kept)
    (fun _ _ _ _ _ _ added kept => adds _ _ _ _ _ _ added kept) components fresh
  split at ran
  · obtain ⟨ds, collected, rfl, rfl⟩ := succeeds_conclude.mp ran
    exact ⟨roots, ds, before, collected, rfl⟩
  · obtain ⟨entries, k, found, ran⟩ := succeeds_bind.mp ran
    obtain ⟨⟨roots', listed⟩, l, added, ran⟩ := succeeds_bind.mp ran
    obtain ⟨ds, collected, rfl, rfl⟩ := succeeds_conclude.mp ran
    have after : keep roots' l := addEntryPoints_keeps (fun _ b => keep b.1) (fun _ _ _ _ _ kept => kept)
      (fun _ _ _ _ _ _ taken kept => adds _ _ _ _ _ _ taken kept) added
      (waits _ _ _ (quiet_entryPointsOf found) before)
    rw [mountAll_eq, collect_resolver] at collected
    exact ⟨roots', ds, after, collected, rfl⟩

/-- What is known of the store at the end of a run, and what is declared from it. -/
structure Ended (q : Request) (foreign : Option DocumentLoader) (doc : Document) (r : Result) (s : Store)
    (roots : Roots) (ds : List Declaration) : Prop where
  ready : Ready q.skips roots s
  attributed : Attributed s
  earned : s.names.Earned
  collected : collect (q.setting foreign doc) s roots.containers = .ok ds
  all : r.declarations = sortByName (ds ++ roots.aliases)

theorem run_ended {r : Result} (ran : Succeeds (run q foreign doc) {} r s) :
    ∃ roots ds, Ended q foreign doc r s roots ds := by
  obtain ⟨_, _, settled⟩ := run_settled ran
  obtain ⟨roots, ds, ⟨ready, attributed⟩, collected, all⟩ :=
    run_keeps (fun r s => Ready q.skips r s ∧ Attributed s)
      ⟨⟨⟨[], gathered_fresh q.skips⟩, unfolds_fresh⟩, attributed_fresh⟩
      (fun _ _ _ quiet kept => ⟨kept.1.of_quiet quiet, kept.2.of_same quiet.descriptors⟩)
      (fun _ _ _ _ _ _ added kept => ⟨kept.1.add added, by
        obtain ⟨_, found, _⟩ := returns_add.mp added
        exact findOrCreate_attributed found kept.2⟩) ran
  exact ⟨roots, ds, ready, attributed, settled.accounted.earned, collected, all⟩

section

variable {r : Result} {roots : Roots} {ds : List Declaration} {i : Id} {d : Descriptor}

theorem Ended.tidy (ended : Ended q foreign doc r s roots ds) : Tidy s := by
  obtain ⟨_, gathered⟩ := ended.ready.grown
  exact gathered.tidy

theorem Ended.declares_text (ended : Ended q foreign doc r s roots ds) (found : s.get? i = some d)
    (named : d.name ≠ "") {m : Declaration} (declared : m ∈ r.declarations) (same : m.name = d.name) :
    ∃ deps, (renderText (q.setting foreign doc) s true i).run [] = .ok (m.text, deps) := by
  have tidy := ended.tidy
  rw [ended.all, sortByName, List.mem_mergeSort, List.mem_append] at declared
  rcases declared with visited | aliased
  · obtain ⟨j, imports⟩ := collect_imports tidy ended.collected visited
    have own : nameOf s i = nameOf s j := by
      rw [imports.named, same]
      simp [nameOf, found]
    rw [tidy.nameOf_inj ⟨d, found, named⟩ own]
    exact imports.rendered
  · obtain ⟨_, gathered⟩ := ended.ready.grown
    refine absurd ?_ (gathered.unused aliased i)
    simp [nameOf, found, same]

theorem Ended.name_eq_iff (ended : Ended q foreign doc r s roots ds) (found : s.get? i = some d)
    (named : d.name ≠ "") {name : String} (plain : Unadorned name) :
    d.name = name ↔ d.ref ≠ "" ∧ baseName d.ref = name ∧
      ∀ owner, (name, owner) ∈ s.names.issued → owner = d.ref := by
  have held := ended.tidy.held i d found named
  constructor
  · rintro rfl
    obtain ⟨_, origin⟩ := stored_origin ended.tidy ended.earned ended.attributed found named
    obtain ⟨owned, base⟩ := origin.of_unadorned plain
    exact ⟨owned, base, fun owner taken => ended.tidy.distinct.owner_unique taken held⟩
  · rintro ⟨owned, rfl, alone⟩
    rcases ended.earned _ _ held owned with own | ⟨_, other, _, different, taken⟩
    · exact own
    · exact absurd (alone other taken) different

end

section

variable {r : Result} {i : Id} {d : Descriptor} {parameter : String} {cases : List (String × Container)}

/-- The declaration of a generic with cases starts with its parameter and notes just the models that the
types of its cases name. One of them has the name of the parameter only if that is made from its
reference, or from what an enum was asked for; and for a parameter that is given without being asked for,
exactly if the reference asks for that name and no other one has it. -/
theorem parameter_captures_iff (done : Succeeds (run q foreign doc) {} r s) (found : s.get? i = some d)
    (generic : d.shape = .generic parameter cases) (named : d.name ≠ "") :
    ∃ text deps, (renderText (q.setting foreign doc) s true i).run [] = .ok (text, deps) ∧
      (∀ m ∈ r.declarations, m.name = d.name → m.text = text) ∧
      (cases ≠ [] → ∃ rest, text =
        d.comments ++ "export type " ++ d.name ++ "<" ++ parameter ++ " extends string = " ++ rest) ∧
      (∀ k, k ∈ deps ↔ ∃ c ∈ cases, ∃ j ∈ c.2, Cites (q.setting foreign doc) s j k) ∧
      ∀ k ∈ deps, ∃ e, s.get? k = some e ∧ (e.name = parameter → Origin parameter e.ref) ∧
        (parameter ∈ givenParameters → (e.name = parameter ↔ e.ref ≠ "" ∧ baseName e.ref = parameter ∧
          ∀ owner, (parameter, owner) ∈ s.names.issued → owner = e.ref)) := by
  obtain ⟨roots, ds, ended⟩ := run_ended done
  have visited : ∃ v, visit (q.setting foreign doc) s i = .ok v ∧ ∀ k ∈ v.deps, HasName s k :=
    visit_total ended.tidy ended.ready.unfolds ⟨d, found, named⟩
  obtain ⟨⟨_, text, deps⟩, shown, _⟩ := visited
  obtain ⟨⟨_, _⟩, run, made⟩ := except_bind_ok.mp shown
  cases made
  refine ⟨text, deps, run, ?_, fun filled => declaration_parameter found generic filled run, ?_, ?_⟩
  · intro m declared same
    obtain ⟨_, again⟩ := ended.declares_text found named declared same
    cases again.symm.trans run
    rfl
  · exact fun k => (mem_deps_iff run).trans (quotes_generic_iff found generic)
  · intro k noted
    obtain ⟨e, stored, entitled⟩ := quotes_hasName ((mem_deps_iff run).mp noted)
    refine ⟨e, stored, ?_, fun given => ended.name_eq_iff stored entitled (unadorned_given _ given)⟩
    rintro rfl
    exact (stored_origin ended.tidy ended.earned ended.attributed stored entitled).2

end

def traffic : Document where
  path := ""
  name := ""
  root := .obj [
    ("components", .obj [("schemas", .obj [("Status", .obj [("type", .str "string")])])]),
    ("openapi", .str "3.0.0"),
    ("paths", .obj [("/x", .obj [("get", .obj [("operationId", .str "f"), ("responses", .obj [
      ("200", .obj [("content", .obj [("application/json", .obj [
        ("schema", .obj [("$ref", .str "#/components/schemas/Status")])])])])])])])])]

def trafficText : String :=
  "export type FResponses<Status extends string = \"200\"> =\n  Status extends \"200\" ? Status :\n  any;"

theorem traffic_run : ∃ r s d e, Succeeds (run {} none traffic) {} r s ∧ s.get? 1 = some d ∧
    d.shape = .generic "Status" [("200", [0])] ∧ d.name = "FResponses" ∧ s.get? 0 = some e ∧
    e.name = "Status" ∧
    (renderText (Request.setting {} none traffic) s true 1).run [] = .ok (trafficText, [0]) ∧
    ∃ m ∈ r.declarations, m.name = d.name ∧ m.text = trafficText := by
  have evaluated : (traceWithin 5 {} traffic).map (fun x => decide (
      (x.store.get? 0).map (·.name) = some "Status" ∧ (x.store.get? 1).map (·.name) = some "FResponses" ∧
      (x.store.get? 1).bind (·.shape.choice?) = some ("Status", [("200", [0])]) ∧
      ((renderText (Request.setting {} none traffic) x.store true 1).run []).toOption =
        some (trafficText, [0]) ∧
      x.visits.map (fun v => (v.id, v.text)) =
        [(0, "export type Status = string;"), (1, trafficText)])) = some true := by
    simp only [traceWithin, addComponents, addEntryPoints, Roots.add, findOrCreate, deepening_eq]
    decide +kernel
  obtain ⟨x, traced, same⟩ := Option.map_eq_some_iff.mp evaluated
  obtain ⟨first, second, generic, shown, visits⟩ := of_decide_eq_true same
  obtain ⟨e, stored, own⟩ := Option.map_eq_some_iff.mp first
  obtain ⟨d, found, name⟩ := Option.map_eq_some_iff.mp second
  rw [found, Option.bind_some] at generic
  obtain ⟨_, _, listed, _, later⟩ := List.map_eq_cons_iff.mp visits
  obtain ⟨v, rfl, choice⟩ := List.map_eq_singleton_iff.mp later
  obtain ⟨id, text⟩ := Prod.mk.inj choice
  refine ⟨_, x.store, d, e, (sound_of_traceWithin traced).run rfl, found, Shape.eq_of_choice? generic, name,
    stored, own, eq_ok_of_toOption shown, ofVisit x.store v, by simp [sortByName, listed], ?_, text⟩
  rw [ofVisit_name, id]
  simp [nameOf, found]

theorem parameter_captures_iff_traffic :
    ∃ r s d cases text deps e, Succeeds (run {} none traffic) {} r s ∧ s.get? 1 = some d ∧
      d.shape = .generic "Status" cases ∧ d.name ≠ "" ∧
      (renderText (Request.setting {} none traffic) s true 1).run [] = .ok (text, deps) ∧
      0 ∈ deps ∧ s.get? 0 = some e ∧ e.name = "Status" ∧ baseName e.ref = "Status" := by
  obtain ⟨r, s, d, e, done, found, generic, name, stored, own, shown, _⟩ := traffic_run
  have named : d.name ≠ "" := by simp [name]
  obtain ⟨text, deps, run, _, _, _, captures⟩ := parameter_captures_iff done found generic named
  cases run.symm.trans shown
  obtain ⟨_, again, _, given⟩ := captures 0 (List.mem_singleton_self 0)
  cases stored.symm.trans again
  exact ⟨r, s, d, _, _, _, e, done, found, generic, named, shown, List.mem_singleton_self 0, stored, own,
    ((given (by decide)).mp own).2.1⟩

/-- The case of the status stands for the text, and is written as the parameter. -/
theorem parameter_captured_traffic :
    ∃ r s d e, (outcome {} none traffic).answer = .ok r ∧ Succeeds (run {} none traffic) {} r s ∧
      s.get? 1 = some d ∧ d.shape = .generic "Status" [("200", [0])] ∧
      (∃ m ∈ r.declarations, m.name = d.name ∧ m.text = trafficText) ∧
      (renderText (Request.setting {} none traffic) s true 1).run [] = .ok (trafficText, [0]) ∧
      s.get? 0 = some e ∧ e.name = "Status" := by
  obtain ⟨r, s, d, e, done, found, generic, _, stored, own, shown, declared⟩ := traffic_run
  exact ⟨r, s, d, e, congrArg Prod.fst done, done, found, generic, declared, shown, stored, own⟩

end Conversion

end Typesmith
