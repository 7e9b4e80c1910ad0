import Typesmith.EntryPoint.Synthesis
import Typesmith.Proofs.Casing
import Typesmith.Proofs.Execution
import Typesmith.Proofs.Names
import Typesmith.Proofs.Spelling

namespace Typesmith.Text

theorem isSmall_toUpper (c : Char) : isSmall (toUpper c) = false := by
  have image : mapSteps c.toNat upperRows < 97 ∨ 122 < mapSteps c.toNat upperRows := by
    have apart : ∀ row ∈ upperRows.tail, 122 < row.2.2.2 ∨ row.2.2.2 + (row.2.1 - row.1) < 97 := by
      decide +kernel
    -- the small letters a to z are the numbers from 97 to 122; the first row takes them to their capitals,
    -- and no other row gets near them
    change mapSteps c.toNat ((97, 122, 1, 65) :: upperRows.tail) < 97 ∨
      122 < mapSteps c.toNat ((97, 122, 1, 65) :: upperRows.tail)
    unfold mapSteps
    split
    · omega
    · split
      · rw [Nat.mod_one]
        simp only [beq_self_eq_true, if_true]
        omega
      · rcases mapSteps_outside 97 122 (n := c.toNat) apart with same | outside
        · omega
        · exact outside
  rw [← Bool.not_eq_true, isSmall, Bool.and_eq_true, decide_eq_true_eq, decide_eq_true_eq, toUpper]
  rcases toNat_ofNat_cases (mapSteps c.toNat upperRows) with same | null <;> omega

end Typesmith.Text

namespace Typesmith.EntryPoint

open Text

def Role.word : Role → String
  | parameters => "Parameters"
  | request => "Request"
  | requests => "Requests"
  | response => "Response"
  | responses => "Responses"

theorem statusSuffix_empty : statusSuffix "" = "" := by decide

def ending (role : Role) (status : String) : String :=
  role.word ++ statusSuffix status

/-- The endings with small letters up to the end; only a status can put others behind them. -/
def endingWords : List (List Char × Role) :=
  [("Parameters".toList, .parameters), ("Request".toList, .request), ("Requests".toList, .requests),
   ("Response".toList, .response), ("Responses".toList, .responses), ("ResponseDefault".toList, .response)]

theorem endingWords_apart : ∀ a ∈ endingWords, ∀ b ∈ endingWords,
    a.1.reverse.take 2 = b.1.reverse.take 2 → a = b := by
  decide

theorem endingWords_small {word : List Char} {role : Role} (listed : (word, role) ∈ endingWords) :
    ∃ front last, word = front ++ [last] ∧ isSmall last = true ∧ 2 ≤ word.length := by
  have checked : ∀ a ∈ endingWords, a.1 = a.1.dropLast ++ [a.1.getLastD 'a'] ∧
      isSmall (a.1.getLastD 'a') = true ∧ 2 ≤ a.1.length := by
    decide
  exact ⟨_, _, checked _ listed⟩

theorem ending_cases {role : Role} {status : String} (plain : role = .response ∨ status = "") :
    ∃ word rest, (ending role status).toList = word ++ rest ∧ (word, role) ∈ endingWords ∧
      ∀ a ∈ rest, isSmall a = false := by
  have bare : ∀ role : Role, (role.word.toList, role) ∈ endingWords := by
    intro role
    cases role <;> decide
  rw [ending, String.toList_append]
  rcases plain with rfl | rfl
  · unfold statusSuffix
    split
    · exact ⟨_, [], rfl, bare .response, by simp⟩
    · split
      · exact ⟨"ResponseDefault".toList, [], by decide, by decide, by simp⟩
      · refine ⟨_, uppercase status.toList, by simp, bare .response, ?_⟩
        intro a inside
        obtain ⟨c, _, rfl⟩ := List.mem_map.mp inside
        exact isSmall_toUpper c
  · rw [statusSuffix_empty]
    exact ⟨_, [], rfl, bare role, by simp⟩

/-- Role and status are read off the end of a name, whatever stands in front. -/
theorem ending_unique {x y : String} {r r' : Role} {status status' : String}
    (plain : r = .response ∨ status = "") (plain' : r' = .response ∨ status' = "")
    (same : x ++ ending r status = y ++ ending r' status') :
    x = y ∧ r = r' ∧ statusSuffix status = statusSuffix status' := by
  obtain ⟨word, rest, spelled, listed, none⟩ := ending_cases plain
  obtain ⟨word', rest', spelled', listed', none'⟩ := ending_cases plain'
  obtain ⟨front, last, whole, lower, long⟩ := endingWords_small listed
  obtain ⟨front', last', whole', lower', long'⟩ := endingWords_small listed'
  have letters : (x.toList ++ front) ++ last :: rest = (y.toList ++ front') ++ last' :: rest' := by
    simpa [spelled, spelled', whole, whole'] using congrArg String.toList same
  -- the words end at the last small letter of the name
  obtain ⟨fronts, lasts, rests⟩ := append_last_unique isSmall letters lower lower' none none'
  have words : x.toList ++ word = y.toList ++ word' := by
    rw [whole, whole', ← List.append_assoc, ← List.append_assoc, fronts, lasts]
  have turned := congrArg (List.take 2 ∘ List.reverse) words
  simp only [Function.comp, List.reverse_append] at turned
  rw [List.take_append_of_le_length (by simpa using long),
    List.take_append_of_le_length (by simpa using long')] at turned
  obtain ⟨rfl, rfl⟩ := Prod.mk.inj (endingWords_apart _ listed _ listed' turned)
  have ends : (ending r status).toList = (ending r status').toList := by rw [spelled, spelled', rests]
  simp only [ending, String.toList_append] at ends
  refine ⟨String.toList_injective (List.append_cancel_right words), rfl, ?_⟩
  exact String.toList_injective (List.append_cancel_left ends)

section

variable {ε α β : Type} {p q : Progress}

def attempt (x : ExceptT ε (StateM Progress) α) (p : Progress) : Except ε α × Progress := x.run p

def Yields (x : ExceptT ε (StateM Progress) α) (p : Progress) (a : α) (q : Progress) : Prop :=
  attempt x p = (.ok a, q)

theorem yields_pure {a b : α} :
    Yields (pure a : ExceptT ε (StateM Progress) α) p b q ↔ a = b ∧ p = q := by
  constructor
  · intro run
    cases run
    exact ⟨rfl, rfl⟩
  · rintro ⟨rfl, rfl⟩
    rfl

theorem yields_bind {x : ExceptT ε (StateM Progress) α} {f : α → ExceptT ε (StateM Progress) β} {b : β} :
    Yields (x >>= f) p b q ↔ ∃ a m, Yields x p a m ∧ Yields (f a) m b q :=
  Model.run_bind_ok_iff

theorem yields_modifyGet {f : Progress → α × Progress} {a : α} :
    Yields (modifyGet f : SynthM α) p a q ↔ (f p).1 = a ∧ (f p).2 = q :=
  ⟨fun run => ⟨Except.ok.inj (congrArg Prod.fst run), congrArg Prod.snd run⟩,
    fun ⟨first, second⟩ => Prod.ext (congrArg Except.ok first) second⟩

theorem attempt_located (label : String) (step : SynthM (List EntryPoint)) (p : Progress) :
    attempt (located label step) p = match attempt step p with
      | (.ok es, q) => (.ok es, q)
      | (.error e, q) => (.error (label, e), q) := by
  unfold attempt located
  simp only [ExceptT.run_mk, bind, StateT.bind]
  rcases step.run p with ⟨_ | _, _⟩ <;> rfl

theorem yields_located {label : String} {step : SynthM (List EntryPoint)} {es : List EntryPoint} :
    Yields (located label step) p es q ↔ Yields step p es q := by
  simp only [Yields, attempt_located]
  rcases attempt step p with ⟨_ | _, _⟩ <;> simp

theorem yields_follow {cfg : Setting} {ref : String} {found : List (String × Json) × String}
    (leads : followFrom cfg.resolver.lookup ref maxHops (Reference.normalize ref) = .ok found) :
    Yields (follow cfg ref) p found p := by
  unfold follow
  rw [leads]
  rfl

theorem yields_mapM {f : α → ExceptT ε (StateM Progress) β} {g : α → β} {l : List α}
    (each : ∀ x ∈ l, Yields (f x) p (g x) p) : Yields (l.mapM f) p (l.map g) p := by
  induction l with
  | nil => exact yields_pure.mpr ⟨rfl, rfl⟩
  | cons x l ih =>
    rw [List.mapM_cons]
    refine yields_bind.mpr ⟨_, p, each x List.mem_cons_self, ?_⟩
    refine yields_bind.mpr ⟨_, p, ih fun y inside => each y (List.mem_cons_of_mem _ inside), ?_⟩
    exact yields_pure.mpr ⟨rfl, rfl⟩

def Gives (P : α → Prop) (x : SynthM α) : Prop :=
  ∀ p a q, Yields x p a q → q.names = p.names ∧ P a

variable {P : α → Prop} {Q : β → Prop}

theorem gives_pure {a : α} (holds : P a) : Gives P (pure a : SynthM α) := by
  intro p b q run
  obtain ⟨rfl, rfl⟩ := yields_pure.mp run
  exact ⟨rfl, holds⟩

theorem Gives.bind {x : SynthM α} {f : α → SynthM β} (first : Gives P x)
    (rest : ∀ a, P a → Gives Q (f a)) : Gives Q (x >>= f) := by
  intro p b q run
  obtain ⟨a, m, one, two⟩ := yields_bind.mp run
  obtain ⟨kept, holds⟩ := first p a m one
  obtain ⟨kept', holds'⟩ := rest a holds m b q two
  exact ⟨kept'.trans kept, holds'⟩

theorem gives_ite {c : Prop} [Decidable c] {x y : SynthM α} (yes : Gives P x) (no : Gives P y) :
    Gives P (if c then x else y) := by
  split
  · exact yes
  · exact no

theorem gives_mapM {f : α → SynthM β} {l : List α} (each : ∀ x ∈ l, Gives Q (f x)) :
    Gives (fun bs => ∀ b ∈ bs, Q b) (l.mapM f) := by
  induction l with
  | nil => exact gives_pure (by simp)
  | cons x l ih =>
    rw [List.mapM_cons]
    refine (each x List.mem_cons_self).bind fun b first => ?_
    refine (ih fun y inside => each y (List.mem_cons_of_mem _ inside)).bind fun bs rest => ?_
    exact gives_pure (List.forall_mem_cons.mpr ⟨first, rest⟩)

theorem gives_foldlM {f : β → α → SynthM β} {l : List α} {b : β}
    (each : ∀ b x, Gives (fun _ => True) (f b x)) : Gives (fun _ => True) (l.foldlM f b) := by
  induction l generalizing b with
  | nil => exact gives_pure trivial
  | cons x l ih => exact (each b x).bind fun c _ => ih

theorem gives_note (line : String) : Gives (fun _ => True) (note line) := by
  intro p a q run
  cases run
  exact ⟨rfl, trivial⟩

theorem gives_notes (lines : List String) : Gives (fun _ => True) (lines.forM note) := by
  induction lines with
  | nil => exact gives_pure trivial
  | cons line lines ih => exact (gives_note line).bind fun _ _ => ih

theorem gives_follow (cfg : Setting) (ref : String) : Gives (fun _ => True) (follow cfg ref) := by
  unfold follow
  split
  · exact gives_pure trivial
  · intro p a q run
    cases run

end

section

variable {cfg : Setting} {op : Operation} {P : List EntryPoint → Prop}

theorem gives_parameters {onPath onOperation : Nat} (none : P [])
    (one : ∀ fragment, P [ofOperation op .parameters (op.name ++ "Parameters") fragment]) :
    Gives P (parameters cfg op onPath onOperation) := by
  have reading : ∀ ref count l, Gives (fun _ => True) (readParameters cfg ref count l) := by
    intro ref count l
    refine gives_foldlM fun l i => ?_
    exact (gives_follow cfg _).bind fun _ _ => gives_pure trivial
  refine (reading _ _ _).bind fun l _ => (reading _ _ _).bind fun l _ => ?_
  split
  · exact gives_pure none
  · exact (gives_notes _).bind fun _ _ => gives_pure (one _)

def requestEntries (cfg : Setting) (op : Operation) (body : List (String × Json)) (base : String) :
    List EntryPoint :=
  let content := contentAt body
  let types := contentTypes cfg content
  types.map fun t =>
    { ofOperation op .request (op.name ++ contentSuffix cfg types t ++ "Request")
        (describe (textAt body "description") (mediaFragment content base t)) with contentType := t }

theorem gives_requests (one : ∀ body base, P (requestEntries cfg op body base))
    (several : ∀ body base, P (requestEntries cfg op body base ++
      [ofOperation op .requests (op.name ++ "Requests")
        (genericFragment "ContentType" (contentTypes cfg (contentAt body))
          ((requestEntries cfg op body base).map fun e => (e.contentType, refJson e.ref)))])) :
    Gives P (requests cfg op) := by
  refine (gives_follow cfg _).bind fun found _ => ?_
  obtain ⟨body, base⟩ := found
  have all : P (if 1 < (contentTypes cfg (contentAt body)).length then
      requestEntries cfg op body base ++ [ofOperation op .requests (op.name ++ "Requests")
        (genericFragment "ContentType" (contentTypes cfg (contentAt body))
          ((requestEntries cfg op body base).map fun e => (e.contentType, refJson e.ref)))]
      else requestEntries cfg op body base) := by
    split
    · exact several body base
    · exact one body base
  exact gives_ite ((gives_note _).bind fun _ _ => gives_pure all) (gives_pure all)

theorem gives_responses {statuses : List String} (none : P [])
    (some : ∀ groups : List (String × List EntryPoint),
      (∀ g ∈ groups, ∃ response base, g.2 = responseEntries cfg op g.1 response base) →
      P (groups.flatMap (·.2) ++ [ofOperation op .responses (op.name ++ "Responses")
        (genericFragment "Status" (sortStatuses statuses) (groups.map fun g => (g.1, statusCase g.2)))])) :
    Gives P (responses cfg op statuses) := by
  unfold responses
  dsimp only
  split
  · exact gives_pure none
  · have each : ∀ status, Gives
        (fun g => ∃ response base, g.2 = responseEntries cfg op g.1 response base)
        (follow cfg (childRef (childRef op.pointer "responses") status) >>= fun found =>
          pure (status, responseEntries cfg op status found.1 found.2)) := by
      intro status
      exact (gives_follow cfg _).bind fun found _ => gives_pure ⟨_, _, rfl⟩
    refine (gives_mapM fun status _ => each status).bind fun groups each => ?_
    exact gives_pure (some groups each)

/-- What one operation gives rise to: it gets a name that no other has, and its entry points are those of
its parameters, its request and its responses, which may all be marked. -/
theorem yields_ofMethod {path method : String} {item operation : Json} {p q : Progress}
    {es : List EntryPoint} (run : Yields (ofMethod cfg path method item operation) p es q) :
    ∃ op : Operation, op.path = path ∧ op.method = method ∧ op.name ∉ p.names.issued.map (·.1) ∧
      q.names.issued = (op.name, "") :: p.names.issued ∧
      ∀ P : List EntryPoint → Prop,
        Gives P (parameters cfg op (parameterCount item) (parameterCount operation)) →
        Gives P (requests cfg op) → Gives P (responses cfg op (statusesOf operation)) → P [] →
        (∀ es es', P es → P es' → P (es ++ es')) →
        (∀ es, P es → P (es.map fun e => { e with fragment := markDeprecated e.fragment })) → P es := by
  obtain ⟨name, m, reserved, run⟩ := yields_bind.mp run
  obtain ⟨given, left⟩ := yields_modifyGet.mp reserved
  have anew := @Registry.claim_new p.names "" (operationName method path
    (((Outline.part? operation "operationId").bind Json.str?).getD "")) rfl
  have fresh : name ∉ p.names.issued.map (·.1) := by
    rw [← given]
    exact anew.2 ▸ Registry.next_free _ _
  have issued : m.names.issued = (name, "") :: p.names.issued := by
    rw [← given, ← left]
    exact anew.1
  refine ⟨⟨method, path, name, pathRef path ++ "/" ++ asciiLower method⟩, rfl, rfl, fresh, ?_⟩
  generalize op : (⟨method, path, name, pathRef path ++ "/" ++ asciiLower method⟩ : Operation) = made at run
  have all : ∀ P : List EntryPoint → Prop,
      Gives P (parameters cfg made (parameterCount item) (parameterCount operation)) →
      Gives P (requests cfg made) → Gives P (responses cfg made (statusesOf operation)) → P [] →
      (∀ es es', P es → P es' → P (es ++ es')) →
      (∀ es, P es → P (es.map fun e => { e with fragment := markDeprecated e.fragment })) →
      q.names = m.names ∧ P es := by
    intro P first second third none append mark
    suffices gives : Gives P _ from gives m es q run
    refine (gives_note _).bind fun _ _ => first.bind fun params one => ?_
    refine gives_ite (second.bind ?finish) ((gives_pure none).bind ?finish)
    intro reqs two
    refine third.bind fun resps three => ?_
    have whole := append _ _ (append _ _ one two) three
    split
    · exact gives_pure (mark _ whole)
    · exact gives_pure whole
  have kept := (all (fun _ => True) (gives_parameters trivial fun _ => trivial)
    (gives_requests (fun _ _ => trivial) fun _ _ => trivial)
    (gives_responses trivial fun _ _ => trivial) trivial (fun _ _ _ _ => trivial) fun _ _ => trivial).1
  refine ⟨by rw [kept, issued, ← op], fun P one two three none append mark => ?_⟩
  exact (all P one two three none append mark).2

end

/-- An entry point bears the name of its operation, with what its content type adds, and its ending. -/
structure Made (cfg : Setting) (op : Operation) (content : String) (e : EntryPoint) : Prop where
  name : e.name = op.name ++ content ++ ending e.role e.status
  plain : e.role = .response ∨ e.status = ""
  ref : e.ref = mountRef e.name
  operation : e.operation = op.label
  content : content = "" ∨
    ∃ types, e.contentType ∈ types ∧ content = contentSuffix cfg types e.contentType

def AllMade (cfg : Setting) (op : Operation) (es : List EntryPoint) : Prop :=
  ∀ e ∈ es, ∃ content, Made cfg op content e

section

variable {cfg : Setting} {op : Operation}

theorem made_ofOperation (role : Role) (fragment : List (String × Json)) :
    Made cfg op "" (ofOperation op role (op.name ++ role.word) fragment) := by
  refine ⟨?_, .inr rfl, rfl, rfl, .inl rfl⟩
  simp [ofOperation, ending, statusSuffix_empty]

theorem allMade_nil : AllMade cfg op [] := by
  simp [AllMade]

theorem allMade_append {es es' : List EntryPoint} (first : AllMade cfg op es) (second : AllMade cfg op es') :
    AllMade cfg op (es ++ es') :=
  fun e inside => (List.mem_append.mp inside).elim (first e) (second e)

theorem allMade_singleton (role : Role) (fragment : List (String × Json)) :
    AllMade cfg op [ofOperation op role (op.name ++ role.word) fragment] := by
  intro e inside
  rw [List.mem_singleton.mp inside]
  exact ⟨"", made_ofOperation role fragment⟩

theorem allMade_requestEntries (body : List (String × Json)) (base : String) :
    AllMade cfg op (requestEntries cfg op body base) := by
  intro e inside
  obtain ⟨t, listed, rfl⟩ := List.mem_map.mp inside
  refine ⟨_, ?_, .inr rfl, rfl, rfl, .inr ⟨_, listed, rfl⟩⟩
  simp [ofOperation, ending, Role.word, statusSuffix_empty]

theorem allMade_responseEntries (status : String) (response : List (String × Json)) (base : String) :
    AllMade cfg op (responseEntries cfg op status response base) := by
  intro e inside
  unfold responseEntries at inside
  dsimp only at inside
  split at inside
  · rw [List.mem_singleton.mp inside]
    exact ⟨"", by simp [ofOperation, ending, Role.word], .inl rfl, rfl, rfl, .inl rfl⟩
  · obtain ⟨t, listed, rfl⟩ := List.mem_map.mp inside
    exact ⟨_, by simp [ofOperation, ending, Role.word], .inl rfl, rfl, rfl, .inr ⟨_, listed, rfl⟩⟩

theorem allMade_groups {groups : List (String × List EntryPoint)}
    (each : ∀ g ∈ groups, ∃ response base, g.2 = responseEntries cfg op g.1 response base) :
    AllMade cfg op (groups.flatMap (·.2)) := by
  intro e inside
  obtain ⟨g, member, inside⟩ := List.mem_flatMap.mp inside
  obtain ⟨response, base, same⟩ := each g member
  exact allMade_responseEntries g.1 response base e (same ▸ inside)

theorem AllMade.of_map {es : List EntryPoint} (made : AllMade cfg op es)
    (mark : List (String × Json) → List (String × Json)) :
    AllMade cfg op (es.map fun e => { e with fragment := mark e.fragment }) := by
  intro e inside
  obtain ⟨other, member, rfl⟩ := List.mem_map.mp inside
  obtain ⟨content, made⟩ := made other member
  exact ⟨content, made.name, made.plain, made.ref, made.operation, made.content⟩

theorem yields_ofMethod_made {path method : String} {item operation : Json} {p q : Progress}
    {es : List EntryPoint} (run : Yields (ofMethod cfg path method item operation) p es q) :
    ∃ op : Operation, op.path = path ∧ op.method = method ∧ op.name ∉ p.names.issued.map (·.1) ∧
      q.names.issued = (op.name, "") :: p.names.issued ∧ AllMade cfg op es := by
  obtain ⟨op, onPath, onMethod, fresh, issued, gives⟩ := yields_ofMethod run
  refine ⟨op, onPath, onMethod, fresh, issued, gives (AllMade cfg op) ?_ ?_ ?_ allMade_nil
    (fun _ _ => allMade_append) fun _ made => made.of_map markDeprecated⟩
  · exact gives_parameters allMade_nil (allMade_singleton .parameters)
  · refine gives_requests allMade_requestEntries fun body base => ?_
    exact allMade_append (allMade_requestEntries body base) (allMade_singleton .requests _)
  · refine gives_responses allMade_nil fun groups each => ?_
    exact allMade_append (allMade_groups each) (allMade_singleton .responses _)

end

structure Title where
  operation : Operation
  content : String

/-- Entry points of some operations with what they were made for. No two operations have one name. -/
structure Titled (cfg : Setting) (operations : List (String × String × Json × Json))
    (titled : List (EntryPoint × Title)) : Prop where
  made : ∀ x ∈ titled, Made cfg x.2.operation x.2.content x.1
  listed : ∀ x ∈ titled, ∃ item operation,
    (x.2.operation.path, x.2.operation.method, item, operation) ∈ operations
  apart : ∀ x ∈ titled, ∀ y ∈ titled, x.2.operation.name = y.2.operation.name →
    x.2.operation = y.2.operation

theorem AllMade.titles {cfg : Setting} {op : Operation} {es : List EntryPoint} (made : AllMade cfg op es) :
    ∃ titled : List (EntryPoint × Title), es = titled.map (·.1) ∧
      ∀ x ∈ titled, x.2.operation = op ∧ Made cfg op x.2.content x.1 := by
  induction es with
  | nil => exact ⟨[], rfl, by simp⟩
  | cons e es ih =>
    obtain ⟨content, first⟩ := made e List.mem_cons_self
    obtain ⟨titled, rfl, rest⟩ := ih fun e inside => made e (List.mem_cons_of_mem _ inside)
    exact ⟨(e, ⟨op, content⟩) :: titled, rfl, List.forall_mem_cons.mpr ⟨⟨rfl, first⟩, rest⟩⟩

theorem Titled.cons {cfg : Setting} {op : Operation} {item operation : Json}
    {operations : List (String × String × Json × Json)} {new old : List (EntryPoint × Title)}
    (own : ∀ x ∈ new, x.2.operation = op ∧ Made cfg op x.2.content x.1)
    (titled : Titled cfg operations old) (other : ∀ x ∈ old, x.2.operation.name ≠ op.name) :
    Titled cfg ((op.path, op.method, item, operation) :: operations) (new ++ old) := by
  constructor
  · intro x inside
    rcases List.mem_append.mp inside with here | there
    · rw [(own x here).1]
      exact (own x here).2
    · exact titled.made x there
  · intro x inside
    rcases List.mem_append.mp inside with here | there
    · rw [(own x here).1]
      exact ⟨item, operation, List.mem_cons_self⟩
    · obtain ⟨item, operation, member⟩ := titled.listed x there
      exact ⟨item, operation, List.mem_cons_of_mem _ member⟩
  · intro x inside y inside' same
    rcases List.mem_append.mp inside with here | there <;>
      rcases List.mem_append.mp inside' with here' | there'
    · rw [(own x here).1, (own y here').1]
    · rw [(own x here).1] at same
      exact absurd same.symm (other y there')
    · rw [(own y here').1] at same
      exact absurd same (other x there)
    · exact titled.apart x there y there' same

theorem yields_titled {cfg : Setting} {operations : List (String × String × Json × Json)}
    {p q : Progress} {groups : List (List EntryPoint)}
    (run : Yields (operations.mapM fun (path, method, item, operation) =>
      located (method ++ " " ++ path) (ofMethod cfg path method item operation)) p groups q) :
    ∃ titled, groups.flatten = titled.map (·.1) ∧ Titled cfg operations titled ∧
      ∀ x ∈ titled, x.2.operation.name ∉ p.names.issued.map (·.1) := by
  induction operations generalizing p q groups with
  | nil =>
    obtain ⟨rfl, _⟩ := yields_pure.mp run
    exact ⟨[], rfl, ⟨by simp, by simp, by simp⟩, by simp⟩
  | cons first others ih =>
    obtain ⟨path, method, item, operation⟩ := first
    rw [List.mapM_cons] at run
    obtain ⟨es, m, made, run⟩ := yields_bind.mp run
    obtain ⟨rest, k, later, run⟩ := yields_bind.mp run
    obtain ⟨rfl, _⟩ := yields_pure.mp run
    obtain ⟨op, rfl, rfl, fresh, issued, made⟩ := yields_ofMethod_made (yields_located.mp made)
    obtain ⟨new, rfl, own⟩ := made.titles
    obtain ⟨old, flat, titled, unused⟩ := ih later
    -- the operations that follow find the name of this one given out
    have other : ∀ x ∈ old, x.2.operation.name ≠ op.name ∧
        x.2.operation.name ∉ p.names.issued.map (·.1) := by
      intro x inside
      simpa [issued] using unused x inside
    refine ⟨new ++ old, ?_, titled.cons own fun x inside => (other x inside).1, ?_⟩
    · rw [List.flatten_cons, flat, List.map_append]
    · intro x inside
      rcases List.mem_append.mp inside with here | there
      · rw [(own x here).1]
        exact fresh
      · exact (other x there).2

theorem synthesize_titled {cfg : Setting} {doc : Document} {entries : List EntryPoint}
    (done : ((synthesize cfg doc).run.run {}).1 = .ok entries) :
    ∃ titled, entries = titled.map (·.1) ∧ Titled cfg (operations doc) titled := by
  have run : Yields (synthesize cfg doc) {} entries _ := Prod.ext done rfl
  obtain ⟨groups, _, grouped, run⟩ := yields_bind.mp run
  obtain ⟨rfl, _⟩ := yields_pure.mp run
  obtain ⟨titled, flat, all, _⟩ := yields_titled grouped
  exact ⟨titled, flat, all⟩

/-- Two entry points have one role, the same is put behind it for their statuses, and what the names of
their operations come to with their content types is one text. -/
def Clash (x y : EntryPoint × Title) : Prop :=
  x.1.role = y.1.role ∧ statusSuffix x.1.status = statusSuffix y.1.status ∧
    x.2.operation.name ++ x.2.content = y.2.operation.name ++ y.2.content

theorem Made.name_eq_iff {cfg : Setting} {x y : EntryPoint × Title}
    (first : Made cfg x.2.operation x.2.content x.1) (second : Made cfg y.2.operation y.2.content y.1) :
    x.1.name = y.1.name ↔ Clash x y := by
  rw [first.name, second.name]
  constructor
  · intro same
    obtain ⟨stem, role, status⟩ := ending_unique first.plain second.plain same
    exact ⟨role, status, stem⟩
  · rintro ⟨role, status, stem⟩
    rw [stem, ending, ending, role, status]

end Typesmith.EntryPoint
