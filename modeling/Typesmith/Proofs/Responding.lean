import Mathlib.Data.List.Perm.Basic
import Typesmith.Proofs.Merging
import Typesmith.Proofs.Mounting
import Typesmith.Proofs.Ordering
import Typesmith.Proofs.Rewriting
import Typesmith.Proofs.Titling

namespace Typesmith.EntryPoint

open Text

/-- Statuses are in order, but one that stands for all others comes last. -/
def StatusBefore (a b : String) : Prop :=
  asciiLower a ≠ "default" ∧ asciiLower b = "default" ∨
    (asciiLower a = "default" ↔ asciiLower b = "default") ∧ a < b

/-- Content types are in order, but the default one comes first. -/
def ContentBefore (cfg : Setting) (a b : String) : Prop :=
  b ≠ cfg.defaultContentType ∧ (a = cfg.defaultContentType ∨ a < b)

/-- The entry points of a status: one for each content type of its response, or a single `null`. -/
structure Answers (cfg : Setting) (op : Operation) (status : String) (response : List (String × Json))
    (group : List EntryPoint) : Prop where
  each : ∀ e ∈ group, e.role = .response ∧ e.status = status ∧ e.operation = op.label
  bare : contentAt response = [] → ∃ e, group = [e] ∧ e.contentType = "" ∧
    e.fragment.lookup "type" = some (.str "null") ∧
    ∀ key ∈ Json.keys e.fragment, key = "type" ∨ key = "description"
  types : contentAt response ≠ [] →
    (group.map (·.contentType)).Perm (Json.keys (contentAt response)) ∧
    (group.map (·.contentType)).Pairwise (ContentBefore cfg)

/-- The entry point that chooses by status among groups of others: it lists the statuses, and each of them
refers to its group, with `anyOf` unless that has one member. -/
structure Chooses (op : Operation) (groups : List (String × List EntryPoint)) (choice : EntryPoint) :
    Prop where
  role : choice.role = .responses
  name : choice.name = op.name ++ "Responses"
  generic : ∃ fields cases, choice.fragment = [("x-typegen-generic", .obj fields)] ∧
    fields.lookup "parameter" = some (.str "Status") ∧
    fields.lookup "order" = some (.arr (groups.map fun g => .str g.1)) ∧
    fields.lookup "cases" = some (.obj cases) ∧
    Json.Ascending cases ∧ (∀ status, status ∈ Json.keys cases ↔ status ∈ groups.map (·.1)) ∧
    ∀ g ∈ groups, ∃ value, cases.lookup g.1 = some value ∧
      (∀ e, g.2 = [e] → value = .obj [("$ref", .str e.ref)]) ∧
      (g.2.length ≠ 1 → value = .obj [("anyOf", .arr (g.2.map fun e => .obj [("$ref", .str e.ref)]))])

structure Offers (es : List EntryPoint) (e : EntryPoint) : Prop where
  plain : e.fragment.lookup "$ref" = none
  listed : ∃ fields cases, e.fragment.lookup "x-typegen-generic" = some (.obj fields) ∧
    fields.lookup "cases" = some cases ∧ ∀ ref, cases.Refers ref → ∃ other ∈ es, other.ref = ref

def AllOffered (es : List EntryPoint) : Prop :=
  ∀ e ∈ es, e.role = .requests ∨ e.role = .responses → Offers es e

section order

variable {cfg : Setting} {l : List String}

theorem sortStatuses_perm (l : List String) : (sortStatuses l).Perm l := by
  unfold sortStatuses
  refine ((sort_perm _).append (sort_perm _)).trans ?_
  refine List.perm_append_comm.trans ?_
  exact List.filter_append_perm (fun s => asciiLower s == "default") l

theorem pairwise_sortStatuses (distinct : l.Nodup) : (sortStatuses l).Pairwise StatusBefore := by
  unfold sortStatuses
  have special : ∀ {s : String}, s ∈ sort (l.filter fun s => asciiLower s == "default") →
      asciiLower s = "default" := by
    intro s inside
    exact beq_iff_eq.mp (List.mem_filter.mp ((sort_perm _).mem_iff.mp inside)).2
  have ordinary : ∀ {s : String}, s ∈ sort (l.filter fun s => !(asciiLower s == "default")) →
      asciiLower s ≠ "default" := by
    intro s inside
    simpa using (List.mem_filter.mp ((sort_perm _).mem_iff.mp inside)).2
  refine List.pairwise_append.mpr ⟨?_, ?_, fun a one b two => .inl ⟨ordinary one, special two⟩⟩
  · refine (ascending_sort (distinct.filter _)).imp_of_mem fun {a b} one two less => .inr ⟨?_, less⟩
    exact iff_of_false (ordinary one) (ordinary two)
  · refine (ascending_sort (distinct.filter _)).imp_of_mem fun {a b} one two less => .inr ⟨?_, less⟩
    exact iff_of_true (special one) (special two)

variable {content : List (String × Json)}

theorem contentTypes_perm (ascending : Json.Ascending content) :
    (contentTypes cfg content).Perm (Json.keys content) := by
  unfold contentTypes
  dsimp only
  split
  · rename_i listed
    have inside : cfg.defaultContentType ∈ Json.keys content := List.contains_iff_mem.mp listed
    refine .trans ?_ (List.perm_cons_erase inside).symm
    rw [ascending.nodup.erase_eq_filter]
    refine .of_eq (congrArg _ (List.filter_congr fun s _ => ?_))
    simp [bne, Bool.beq_eq_decide_eq]
  · exact .refl _

theorem pairwise_contentTypes (ascending : Json.Ascending content) :
    (contentTypes cfg content).Pairwise (ContentBefore cfg) := by
  unfold contentTypes
  dsimp only
  split
  · refine List.pairwise_cons.mpr ⟨fun s inside => ?_, ?_⟩
    · exact ⟨of_decide_eq_true (List.mem_filter.mp inside).2, .inl rfl⟩
    · refine (List.Pairwise.filter _ ascending).imp_of_mem fun {a b} _ two less => ⟨?_, .inr less⟩
      exact of_decide_eq_true (List.mem_filter.mp two).2
  · rename_i absent
    refine List.Pairwise.imp_of_mem (fun {a b} _ two less => ⟨?_, .inr less⟩) ascending
    rintro rfl
    exact absent (List.contains_iff_mem.mpr two)

theorem contentTypes_eq_nil : contentTypes cfg content = [] ↔ content = [] := by
  unfold contentTypes
  dsimp only
  split
  · rename_i listed
    refine iff_of_false (List.cons_ne_nil _ _) ?_
    rintro rfl
    cases listed
  · exact List.map_eq_nil_iff

end order

section groups

variable {cfg : Setting} {op : Operation} {status base : String} {response : List (String × Json)}

theorem answers_responseEntries (ascending : Json.Ascending (contentAt response)) :
    Answers cfg op status response (responseEntries cfg op status response base) := by
  unfold responseEntries
  dsimp only
  split
  · rename_i none
    have empty := contentTypes_eq_nil.mp (List.isEmpty_iff.mp none)
    refine ⟨?_, fun _ => ⟨_, rfl, rfl, ?_, ?_⟩, fun some => absurd empty some⟩
    · intro e inside
      rw [List.mem_singleton.mp inside]
      exact ⟨rfl, rfl, rfl⟩
    · unfold describe ofOperation
      dsimp only
      split
      · rw [Json.lookup_setField]
        rfl
      · rfl
    · unfold describe ofOperation
      dsimp only
      intro key inside
      split at inside
      · rw [Json.mem_keys_setField] at inside
        simpa [or_comm] using inside
      · exact .inl (List.mem_singleton.mp inside)
  · rename_i some
    have filled : contentAt response ≠ [] := mt (fun none => List.isEmpty_iff.mpr (contentTypes_eq_nil.mpr none)) some
    refine ⟨?_, fun none => absurd none filled, fun _ => ?_⟩
    · intro e inside
      obtain ⟨t, _, rfl⟩ := List.mem_map.mp inside
      exact ⟨rfl, rfl, rfl⟩
    · rw [List.map_map]
      change ((contentTypes cfg (contentAt response)).map id).Perm _ ∧ (List.map id _).Pairwise _
      rw [List.map_id]
      exact ⟨contentTypes_perm ascending, pairwise_contentTypes ascending⟩

theorem statusCase_of_length {group : List EntryPoint} (several : group.length ≠ 1) :
    statusCase group = .obj [("anyOf", .arr (group.map fun e => refJson e.ref))] := by
  unfold statusCase
  split
  · exact absurd rfl several
  · rfl

theorem genericFragment_eq (parameter : String) (order : List String) (cases : List (String × Json)) :
    ∃ fields, genericFragment parameter order cases = [("x-typegen-generic", .obj fields)] ∧
      fields.lookup "parameter" = some (.str parameter) ∧
      fields.lookup "order" = some (.arr (order.map .str)) ∧
      fields.lookup "cases" = some (.obj (Json.sortFields cases)) := by
  refine ⟨_, rfl, ?_, ?_, ?_⟩ <;>
    · rw [Json.lookup_sortFields]
      rfl

theorem chooses_genericFragment {groups : List (String × List EntryPoint)}
    (distinct : (groups.map (·.1)).Nodup) :
    Chooses op groups (ofOperation op .responses (op.name ++ "Responses")
      (genericFragment "Status" (groups.map (·.1)) (groups.map fun g => (g.1, statusCase g.2)))) := by
  obtain ⟨fields, same, parameter, order, cases⟩ :=
    genericFragment_eq "Status" (groups.map (·.1)) (groups.map fun g => (g.1, statusCase g.2))
  have keys : Json.keys (groups.map fun g => (g.1, statusCase g.2)) = groups.map (·.1) := List.map_map
  refine ⟨rfl, rfl, fields, _, same, parameter, ?_, cases, Json.ascending_sortFields _, ?_, ?_⟩
  · rw [order, List.map_map]
    rfl
  · intro status
    rw [Json.mem_keys_sortFields, keys]
  · intro g inside
    refine ⟨statusCase g.2, ?_, ?_, statusCase_of_length⟩
    · refine Json.lookup_sortFields_of_mem (keys ▸ distinct) ?_
      exact List.mem_map.mpr ⟨g, inside, rfl⟩
    · intro e alone
      rw [alone]
      rfl

theorem ordered_part? {j v : Json} {key : String} (ordered : Json.Ordered j)
    (found : Outline.part? j key = some v) : Json.Ordered v := by
  unfold Outline.part? at found
  split at found
  · obtain ⟨field, last, rfl⟩ := Option.map_eq_some_iff.mp found
    cases ordered with
    | obj _ each => exact each field (List.mem_filter.mp (List.mem_of_getLast? last)).1
  · cases found

theorem nodup_statusesOf {operation : Json} (ordered : Json.Ordered operation) :
    (statusesOf operation).Nodup := by
  refine List.Nodup.filter _ ?_
  cases listed : Outline.part? operation "responses" with
  | none => exact List.nodup_nil
  | some table =>
    cases table with
    | obj fields => exact (ordered_part? ordered listed).ascending.nodup
    | _ => exact List.nodup_nil

theorem ascending_contentAt (ordered : Json.Ordered (.obj response)) :
    Json.Ascending (contentAt response) := by
  unfold contentAt
  cases found : response.lookup "content" with
  | none => exact List.Pairwise.nil
  | some content =>
    cases content with
    | obj fields => exact (ordered.lookup found).ascending
    | _ => exact List.Pairwise.nil

def groupsOf (cfg : Setting) (op : Operation) (found : String → List (String × Json) × String)
    (statuses : List String) : List (String × List EntryPoint) :=
  statuses.map fun status => (status, responseEntries cfg op status (found status).1 (found status).2)

theorem statuses_groupsOf (found : String → List (String × Json) × String) (statuses : List String) :
    (groupsOf cfg op found statuses).map (·.1) = statuses := by
  rw [groupsOf, List.map_map]
  exact List.map_id _

/-- The response of a status is found, and the fields of its objects are in order. -/
def Found (cfg : Setting) (op : Operation) (found : String → List (String × Json) × String)
    (status : String) : Prop :=
  let ref := childRef (childRef op.pointer "responses") status
  followFrom cfg.resolver.lookup ref maxHops (Reference.normalize ref) = .ok (found status) ∧
    Json.Ordered (.obj (found status).1)

theorem yields_responses {found : String → List (String × Json) × String} {statuses : List String}
    (some : statuses ≠ []) (all : ∀ status ∈ statuses, Found cfg op found status) (p : Progress) :
    Yields (responses cfg op statuses) p
      ((groupsOf cfg op found (sortStatuses statuses)).flatMap (·.2) ++
        [ofOperation op .responses (op.name ++ "Responses") (genericFragment "Status"
          (sortStatuses statuses)
          ((groupsOf cfg op found (sortStatuses statuses)).map fun g => (g.1, statusCase g.2)))]) p := by
  have perm := sortStatuses_perm statuses
  have listed : ∀ status ∈ sortStatuses statuses, Yields
      (follow cfg (childRef (childRef op.pointer "responses") status) >>= fun r =>
        (pure (status, responseEntries cfg op status r.1 r.2) : SynthM (String × List EntryPoint))) p
      (status, responseEntries cfg op status (found status).1 (found status).2) p := by
    intro status inside
    have here := (all status (perm.mem_iff.mp inside)).1
    exact yields_bind.mpr ⟨_, p, yields_follow here, yields_pure.mpr ⟨rfl, rfl⟩⟩
  unfold responses
  dsimp only
  rw [if_neg fun none => some (List.perm_nil.mp (List.isEmpty_iff.mp none ▸ perm).symm)]
  exact yields_bind.mpr ⟨_, p, yields_mapM listed, yields_pure.mpr ⟨rfl, rfl⟩⟩

theorem answers_groupsOf {found : String → List (String × Json) × String} {statuses : List String}
    (all : ∀ status ∈ statuses, Found cfg op found status) :
    ∀ g ∈ groupsOf cfg op found statuses, Answers cfg op g.1 (found g.1).1 g.2 := by
  intro g inside
  obtain ⟨status, member, rfl⟩ := List.mem_map.mp inside
  exact answers_responseEntries (ascending_contentAt (all status member).2)

end groups

section offers

variable {cfg : Setting} {op : Operation} {es : List EntryPoint}

theorem refers_refJson {ref s : String} : (refJson ref).Refers s ↔ ref = s := by
  simp only [refJson, Json.refers_obj_cons]
  constructor
  · rintro (⟨_, same⟩ | later | later)
    · exact Json.str.inj same
    · cases later
    · cases later with
      | here named => cases named
      | field inside => cases inside
  · rintro rfl
    exact .inl ⟨trivial, rfl⟩

theorem refers_statusCase {s : String} (refers : (statusCase es).Refers s) : ∃ e ∈ es, e.ref = s := by
  unfold statusCase at refers
  split at refers
  · exact ⟨_, List.mem_singleton_self _, refers_refJson.mp refers⟩
  · cases refers with
    | here named => simp at named
    | field inside later =>
      cases List.mem_singleton.mp inside
      cases later with
      | item inside later =>
        obtain ⟨e, member, rfl⟩ := List.mem_map.mp inside
        exact ⟨e, member, refers_refJson.mp later⟩

theorem offers_genericFragment {e : EntryPoint} {parameter : String} {order : List String}
    {cases : List (String × Json)} (generic : e.fragment = genericFragment parameter order cases)
    (linked : ∀ field ∈ cases, (∀ s, field.2 ≠ .str s) ∧
      ∀ ref, field.2.Refers ref → ∃ other ∈ es, other.ref = ref) : Offers es e := by
  obtain ⟨fields, same, _, _, listed⟩ := genericFragment_eq parameter order cases
  refine ⟨?_, fields, _, ?_, listed, ?_⟩
  · rw [generic, same]
    rfl
  · rw [generic, same]
    rfl
  · intro ref refers
    cases refers with
    | here named =>
      have member := (Json.mem_foldl_setField named).resolve_right List.not_mem_nil
      exact absurd rfl ((linked _ member).1 ref)
    | field inside later =>
      have member := (Json.mem_foldl_setField inside).resolve_right List.not_mem_nil
      exact (linked _ member).2 ref later

theorem Offers.mono {more : List EntryPoint} {e : EntryPoint} (offers : Offers es e)
    (subset : es ⊆ more) : Offers more e := by
  obtain ⟨plain, fields, cases, generic, listed, linked⟩ := offers
  refine ⟨plain, fields, cases, generic, listed, fun ref refers => ?_⟩
  obtain ⟨other, inside, same⟩ := linked ref refers
  exact ⟨other, subset inside, same⟩

theorem AllOffered.append {es' : List EntryPoint} (first : AllOffered es) (second : AllOffered es') :
    AllOffered (es ++ es') := by
  intro e inside choice
  rcases List.mem_append.mp inside with here | there
  · exact (first e here choice).mono (List.subset_append_left _ _)
  · exact (second e there choice).mono (List.subset_append_right _ _)

theorem AllOffered.of_last {e : EntryPoint} (plain : ∀ x ∈ es, x.role ≠ .requests ∧ x.role ≠ .responses)
    (offers : Offers es e) : AllOffered (es ++ [e]) := by
  intro x inside choice
  rcases List.mem_append.mp inside with here | there
  · exact absurd choice (not_or.mpr (plain x here))
  · rw [List.mem_singleton.mp there]
    exact offers.mono (List.subset_append_left _ _)

theorem AllOffered.of_plain (plain : ∀ x ∈ es, x.role ≠ .requests ∧ x.role ≠ .responses) :
    AllOffered es :=
  fun x inside choice => absurd choice (not_or.mpr (plain x inside))

theorem AllOffered.deprecated (offered : AllOffered es) :
    AllOffered (es.map fun e => { e with fragment := markDeprecated e.fragment }) := by
  intro e inside choice
  obtain ⟨x, member, rfl⟩ := List.mem_map.mp inside
  obtain ⟨plain, fields, cases, generic, listed, linked⟩ := offered x member choice
  have marked : markDeprecated x.fragment = Json.setField "deprecated" (.bool true) x.fragment := by
    simp [markDeprecated, plain]
  refine ⟨?_, fields, cases, ?_, listed, fun ref refers => ?_⟩
  · rw [marked, Json.lookup_setField]
    exact plain
  · rw [marked, Json.lookup_setField]
    exact generic
  · obtain ⟨other, inside, rfl⟩ := linked ref refers
    exact ⟨_, List.mem_map_of_mem inside, rfl⟩

theorem not_choice_responseEntries {status base : String} {response : List (String × Json)} :
    ∀ e ∈ responseEntries cfg op status response base, e.role ≠ .requests ∧ e.role ≠ .responses := by
  intro e inside
  have role : e.role = .response := by
    unfold responseEntries at inside
    dsimp only at inside
    split at inside
    · rw [List.mem_singleton.mp inside]
      rfl
    · obtain ⟨t, _, rfl⟩ := List.mem_map.mp inside
      rfl
  simp [role]

theorem not_choice_requestEntries {body : List (String × Json)} {base : String} :
    ∀ e ∈ requestEntries cfg op body base, e.role ≠ .requests ∧ e.role ≠ .responses := by
  intro e inside
  obtain ⟨t, _, rfl⟩ := List.mem_map.mp inside
  exact ⟨Role.noConfusion, Role.noConfusion⟩

theorem refJson_ne_str (ref s : String) : refJson ref ≠ .str s :=
  Json.noConfusion

theorem statusCase_ne_str (es : List EntryPoint) (s : String) : statusCase es ≠ .str s := by
  unfold statusCase
  split
  · exact refJson_ne_str _ s
  · exact Json.noConfusion

theorem offered_ofMethod {path method : String} {item operation : Json} {p q : Progress}
    (run : Yields (ofMethod cfg path method item operation) p es q) : AllOffered es := by
  obtain ⟨op, _, _, _, _, gives⟩ := yields_ofMethod run
  have none : AllOffered [] := .of_plain (by simp)
  refine gives AllOffered ?_ ?_ ?_ none (fun _ _ => .append) fun _ => .deprecated
  · refine gives_parameters none fun fragment => .of_plain fun x inside => ?_
    rw [List.mem_singleton.mp inside]
    exact ⟨Role.noConfusion, Role.noConfusion⟩
  · refine gives_requests (fun _ _ => .of_plain not_choice_requestEntries) fun body base => ?_
    refine .of_last not_choice_requestEntries (offers_genericFragment rfl fun field inside => ?_)
    obtain ⟨e, member, rfl⟩ := List.mem_map.mp inside
    exact ⟨refJson_ne_str _, fun ref refers => ⟨e, member, refers_refJson.mp refers⟩⟩
  · refine gives_responses none fun groups each => .of_last ?_ (offers_genericFragment rfl ?_)
    · intro e inside
      obtain ⟨g, member, inside⟩ := List.mem_flatMap.mp inside
      obtain ⟨response, base, same⟩ := each g member
      exact not_choice_responseEntries e (same ▸ inside)
    · intro field inside
      obtain ⟨g, member, rfl⟩ := List.mem_map.mp inside
      refine ⟨statusCase_ne_str _, fun ref refers => ?_⟩
      obtain ⟨e, there, same⟩ := refers_statusCase refers
      exact ⟨e, List.mem_flatMap.mpr ⟨g, member, there⟩, same⟩

theorem offered_operations {operations : List (String × String × Json × Json)}
    {p q : Progress} {groups : List (List EntryPoint)}
    (run : Yields (operations.mapM fun (path, method, item, operation) =>
      located (method ++ " " ++ path) (ofMethod cfg path method item operation)) p groups q) :
    AllOffered groups.flatten := by
  induction operations generalizing p q groups with
  | nil =>
    obtain ⟨rfl, _⟩ := yields_pure.mp run
    exact .of_plain (by simp)
  | cons first others ih =>
    rw [List.mapM_cons] at run
    obtain ⟨es, m, made, run⟩ := yields_bind.mp run
    obtain ⟨rest, k, later, run⟩ := yields_bind.mp run
    obtain ⟨rfl, _⟩ := yields_pure.mp run
    rw [List.flatten_cons]
    exact (offered_ofMethod (yields_located.mp made)).append (ih later)

theorem synthesize_offered {doc : Document} (done : ((synthesize cfg doc).run.run {}).1 = .ok es) :
    AllOffered es := by
  have run : Yields (synthesize cfg doc) {} es _ := Prod.ext done rfl
  obtain ⟨groups, _, grouped, run⟩ := yields_bind.mp run
  obtain ⟨rfl, _⟩ := yields_pure.mp run
  exact offered_operations grouped

end offers

/-- The responses of an operation, where all of them are found: status by status and in each status content
type by content type, with a choice that refers to them. Whatever a choice in a document refers to is
an entry point of that document. -/
theorem responses_chosen (cfg : Setting) :
    (∀ (op : Operation) (operation : Json) (found : String → List (String × Json) × String) (p : Progress),
      Json.Ordered operation → statusesOf operation ≠ [] →
      (∀ status ∈ statusesOf operation, Found cfg op found status) →
      ∃ groups choice,
        Yields (responses cfg op (statusesOf operation)) p (groups.flatMap (·.2) ++ [choice]) p ∧
        (groups.map (·.1)).Perm (statusesOf operation) ∧ (groups.map (·.1)).Pairwise StatusBefore ∧
        (∀ g ∈ groups, Answers cfg op g.1 (found g.1).1 g.2) ∧ Chooses op groups choice) ∧
    ∀ (doc : Document) (entries : List EntryPoint),
      ((synthesize cfg doc).run.run {}).1 = .ok entries → AllOffered entries := by
  refine ⟨fun op operation found p ordered some all => ?_, fun doc entries done => synthesize_offered done⟩
  have perm := sortStatuses_perm (statusesOf operation)
  have distinct := nodup_statusesOf ordered
  have statuses : (groupsOf cfg op found (sortStatuses (statusesOf operation))).map (·.1) = _ :=
    statuses_groupsOf found (sortStatuses (statusesOf operation))
  have chooses : Chooses op (groupsOf cfg op found (sortStatuses (statusesOf operation))) _ :=
    chooses_genericFragment (statuses.symm ▸ perm.nodup_iff.mpr distinct)
  rw [statuses] at chooses
  refine ⟨_, _, yields_responses some all p, ?_, ?_, ?_, chooses⟩
  · rw [statuses]
    exact perm
  · rw [statuses]
    exact pairwise_sortStatuses distinct
  · exact answers_groupsOf fun status inside => all status (perm.mem_iff.mp inside)

def loan : Json :=
  .obj [("responses", .obj
    [("200", .obj [("content", .obj [("application/json", .obj []), ("text/plain", .obj [])])]),
     ("default", .obj [("$ref", .str "#/gone")])])]

def loans : Document where
  path := ""
  name := ""
  root := .obj [("gone", .obj []), ("paths", .obj [("/loans", .obj [("get", loan)])])]

def lending : Setting where
  resolver := { root := loans.root }
  defaultContentType := "text/plain"

theorem responses_chosen_loans :
    (∃ groups choice,
      Yields (responses lending ⟨"GET", "/loans", "GetLoans", "#/paths/~1loans/get"⟩ (statusesOf loan)) {}
        (groups.flatMap (·.2) ++ [choice]) {} ∧
      (groups.map (·.1)).Perm ["200", "default"] ∧
      Chooses ⟨"GET", "/loans", "GetLoans", "#/paths/~1loans/get"⟩ groups choice) ∧
    ∃ entries, ((synthesize lending loans).run.run {}).1 = .ok entries ∧
      entries.map (·.name) = ["GetLoansResponse", "GetLoansJsonResponse", "GetLoansResponseDefault",
        "GetLoansResponses"] ∧
      AllOffered entries := by
  obtain ⟨chosen, offered⟩ := responses_chosen lending
  constructor
  · have statuses : statusesOf loan = ["200", "default"] := by decide +kernel
    let fields : List (String × Json) :=
      [("content", .obj [("application/json", .obj []), ("text/plain", .obj [])])]
    have all : ∀ status ∈ statusesOf loan,
        Found lending ⟨"GET", "/loans", "GetLoans", "#/paths/~1loans/get"⟩
          (fun status => if status = "default" then ([], "#/gone")
            else (fields, "#/paths/~1loans/get/responses/200")) status := by
      rw [statuses]
      refine List.forall_mem_cons.mpr ⟨⟨rfl, Json.ordered_canonical (.obj fields)⟩, ?_⟩
      exact List.forall_mem_singleton.mpr ⟨rfl, Json.ordered_canonical (.obj [])⟩
    obtain ⟨groups, choice, run, perm, _, _, chooses⟩ :=
      chosen _ loan _ {} (Json.ordered_canonical loan) (by simp [statuses]) all
    exact ⟨groups, choice, run, statuses ▸ perm, chooses⟩
  · have evaluated : ((synthesize lending loans).run.run {}).1.toOption.map (·.map (·.name)) =
        some ["GetLoansResponse", "GetLoansJsonResponse", "GetLoansResponseDefault",
          "GetLoansResponses"] := by
      decide +kernel
    obtain ⟨entries, found, names⟩ := Option.map_eq_some_iff.mp evaluated
    have done := Conversion.ok_of_toOption found
    exact ⟨entries, done, names, offered loans entries done⟩

end Typesmith.EntryPoint
