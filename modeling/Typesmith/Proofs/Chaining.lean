import Mathlib.Data.List.Chain
import Typesmith.EntryPoint.Basic

namespace Typesmith.EntryPoint

section

variable {m : Type → Type} [Monad m] [MonadExceptOf Fault m]

/-- References followed by lookups that may do more than answer. -/
def followBy (lookup : String → m Json) (start : String) : Nat → String → m (List (String × Json) × String)
  | 0, _ => throw (Fault.ofReference start "too many chained references" none)
  | hops + 1, current => do
    match ← lookup current with
    | .obj fields =>
      match fields.lookup "$ref" with
      | some (.str next) => followBy lookup start hops (Reference.qualify next current)
      | _ => return (fields, current)
    | _ => throw (Fault.ofReference current "expected an object" none)

end

def destination (lookup : String → Except Fault Json) (ref : String) :
    Except Fault (List (String × Json) × String) :=
  followFrom lookup ref maxHops (Reference.normalize ref)

/-- A lookup that also writes down what it was asked for. -/
def recorded (lookup : String → Except Fault Json) (ref : String) :
    ExceptT Fault (StateM (List String)) Json :=
  fun asked => (lookup ref, asked ++ [ref])

def Refers (lookup : String → Except Fault Json) (ref next : String) : Prop :=
  ∃ fields s, lookup ref = .ok (.obj fields) ∧ fields.lookup "$ref" = some (.str s) ∧
    next = Reference.qualify s ref

def Rests (lookup : String → Except Fault Json) (ref : String) (fields : List (String × Json)) : Prop :=
  lookup ref = .ok (.obj fields) ∧ ∀ s, fields.lookup "$ref" ≠ some (.str s)

def Fails (lookup : String → Except Fault Json) (ref : String) : Prop :=
  ∀ fields, lookup ref ≠ .ok (.obj fields)

/-- References that lead from the first one to an object, each of them to the next. -/
structure Chain (lookup : String → Except Fault Json) (first place : String) (fields : List (String × Json))
    (chain : List String) : Prop where
  starts : chain.head? = some first
  linked : chain.IsChain (Refers lookup)
  ends : chain.getLast? = some place
  rests : Rests lookup place fields

/-- What is looked up from `current` on. -/
def trail (lookup : String → Except Fault Json) : Nat → String → List String
  | 0, _ => []
  | hops + 1, current =>
    current ::
      match lookup current with
      | .ok (.obj fields) =>
        match fields.lookup "$ref" with
        | some (.str next) => trail lookup hops (Reference.qualify next current)
        | _ => []
      | _ => []

section

variable {lookup other : String → Except Fault Json} {start current next place : String} {hops : Nat}
  {fields : List (String × Json)} {chain : List String}

theorem stands_cases (lookup : String → Except Fault Json) (ref : String) :
    (∃ next, Refers lookup ref next) ∨ (∃ fields, Rests lookup ref fields) ∨ Fails lookup ref := by
  cases found : lookup ref with
  | error e => exact .inr (.inr fun fields same => by rw [found] at same; cases same)
  | ok value =>
    cases value with
    | obj fields =>
      by_cases refers : ∃ s, fields.lookup "$ref" = some (.str s)
      · obtain ⟨s, text⟩ := refers
        exact .inl ⟨_, fields, s, found, text, rfl⟩
      · exact .inr (.inl ⟨fields, found, not_exists.mp refers⟩)
    | _ => exact .inr (.inr fun fields same => by rw [found] at same; cases same)

theorem followFrom_refers (refers : Refers lookup current next) (start : String) (hops : Nat) :
    followFrom lookup start (hops + 1) current = followFrom lookup start hops next := by
  obtain ⟨fields, s, found, text, rfl⟩ := refers
  simp only [followFrom, found, text]

theorem followFrom_rests (rests : Rests lookup current fields) (start : String) (hops : Nat) :
    followFrom lookup start (hops + 1) current = .ok (fields, current) := by
  obtain ⟨found, plain⟩ := rests
  simp only [followFrom, found]

theorem followFrom_fails (fails : Fails lookup current) (start : String) (hops : Nat) :
    ∃ e, followFrom lookup start (hops + 1) current = .error e := by
  cases found : lookup current with
  | error e => exact ⟨e, by simp only [followFrom, found]⟩
  | ok value =>
    cases value with
    | obj fields => exact absurd found (fails fields)
    | _ => exact ⟨_, by simp only [followFrom, found]; rfl⟩

theorem trail_refers (refers : Refers lookup current next) (hops : Nat) :
    trail lookup (hops + 1) current = current :: trail lookup hops next := by
  obtain ⟨fields, s, found, text, rfl⟩ := refers
  simp only [trail, found, text]

theorem trail_stops (stops : ∀ next, ¬ Refers lookup current next) (hops : Nat) :
    trail lookup (hops + 1) current = [current] := by
  rw [trail]
  split
  · rename_i fields found
    split
    · rename_i s text
      exact absurd ⟨fields, s, found, text, rfl⟩ (stops _)
    · rfl
  · rfl

theorem followBy_eq (lookup : String → Except Fault Json) (start : String) (hops : Nat) (current : String) :
    followBy lookup start hops current = followFrom lookup start hops current := by
  induction hops generalizing current with
  | zero => rfl
  | succ hops ih =>
    rw [followBy, followFrom]
    cases lookup current with
    | error e => rfl
    | ok value =>
      cases value with
      | obj fields =>
        dsimp only [bind, Except.bind]
        cases fields.lookup "$ref" with
        | none => rfl
        | some target =>
          cases target with
          | str s => exact ih _
          | _ => rfl
      | _ => rfl

theorem followBy_recorded (lookup : String → Except Fault Json) (start : String) (hops : Nat)
    (current : String) (asked : List String) :
    followBy (recorded lookup) start hops current asked =
      (followFrom lookup start hops current, asked ++ trail lookup hops current) := by
  induction hops generalizing current asked with
  | zero =>
    rw [trail, List.append_nil]
    rfl
  | succ hops ih =>
    rw [followBy, followFrom, trail]
    simp only [bind, ExceptT.bind, ExceptT.mk, StateT.bind, recorded]
    cases lookup current with
    | error e => rfl
    | ok value =>
      cases value with
      | obj fields =>
        simp only [ExceptT.bindCont]
        cases fields.lookup "$ref" with
        | none => rfl
        | some target =>
          cases target with
          | str s => exact (ih _ _).trans (by rw [List.append_assoc, List.singleton_append])
          | _ => rfl
      | _ => rfl

theorem length_trail_le (lookup : String → Except Fault Json) (hops : Nat) (current : String) :
    (trail lookup hops current).length ≤ hops := by
  induction hops generalizing current with
  | zero => exact Nat.le_refl _
  | succ hops ih =>
    by_cases refers : ∃ next, Refers lookup current next
    · obtain ⟨next, refers⟩ := refers
      rw [trail_refers refers]
      exact Nat.succ_le_succ (ih next)
    · rw [trail_stops (not_exists.mp refers)]
      exact Nat.succ_le_succ (Nat.zero_le _)

theorem head?_trail (lookup : String → Except Fault Json) (hops : Nat) (current : String) :
    (trail lookup (hops + 1) current).head? = some current := rfl

theorem isChain_trail (lookup : String → Except Fault Json) (hops : Nat) (current : String) :
    (trail lookup hops current).IsChain (Refers lookup) := by
  induction hops generalizing current with
  | zero => exact .nil
  | succ hops ih =>
    by_cases refers : ∃ next, Refers lookup current next
    · obtain ⟨next, refers⟩ := refers
      rw [trail_refers refers]
      refine (ih next).cons fun first here => ?_
      cases hops with
      | zero => cases here
      | succ hops =>
        cases here
        exact refers
    · rw [trail_stops (not_exists.mp refers)]
      exact .singleton current

/-- What is not looked up has no part in the outcome. -/
theorem followFrom_congr (same : ∀ ref ∈ trail lookup hops current, other ref = lookup ref) :
    followFrom other start hops current = followFrom lookup start hops current := by
  induction hops generalizing current with
  | zero => rfl
  | succ hops ih =>
    have here : other current = lookup current := same current List.mem_cons_self
    by_cases refers : ∃ next, Refers lookup current next
    · obtain ⟨next, refers⟩ := refers
      have also : Refers other current next := by
        obtain ⟨fields, s, found, further⟩ := refers
        exact ⟨fields, s, here.trans found, further⟩
      rw [followFrom_refers refers, followFrom_refers also]
      rw [trail_refers refers] at same
      exact ih fun ref inside => same ref (List.mem_cons_of_mem _ inside)
    · rw [followFrom, followFrom, here]
      split
      · rfl
      · rename_i fields found
        split
        · rename_i s text
          exact absurd ⟨_, fields, s, found, text, rfl⟩ refers
        · rfl
      · rfl

theorem Chain.cons (refers : Refers lookup current next) (rest : Chain lookup next place fields chain) :
    Chain lookup current place fields (current :: chain) where
  starts := rfl
  linked := rest.linked.cons fun first here => by
    rw [rest.starts] at here
    cases here
    exact refers
  ends := by
    cases chain with
    | nil => cases rest.starts
    | cons first others => exact rest.ends
  rests := rest.rests

theorem Chain.followed (leads : Chain lookup current place fields chain) (short : chain.length ≤ hops) :
    followFrom lookup start hops current = .ok (fields, place) := by
  induction chain generalizing current hops with
  | nil => cases leads.starts
  | cons first others ih =>
    obtain ⟨starts, linked, ends, rests⟩ := leads
    cases starts
    cases hops with
    | zero => cases short
    | succ hops =>
      cases others with
      | nil =>
        cases ends
        exact followFrom_rests rests start hops
      | cons next others =>
        rw [followFrom_refers (List.rel_of_isChain_cons_cons linked)]
        have rest : Chain lookup next place fields (next :: others) := ⟨rfl, linked.tail, ends, rests⟩
        exact ih rest (Nat.le_of_succ_le_succ short)

theorem followFrom_ok_iff : followFrom lookup start hops current = .ok (fields, place) ↔
    ∃ chain, Chain lookup current place fields chain ∧ chain.length ≤ hops := by
  constructor
  · intro found
    induction hops generalizing current with
    | zero => cases found
    | succ hops ih =>
      rcases stands_cases lookup current with ⟨next, refers⟩ | ⟨others, rests⟩ | fails
      · rw [followFrom_refers refers] at found
        obtain ⟨chain, leads, short⟩ := ih found
        exact ⟨current :: chain, leads.cons refers, Nat.succ_le_succ short⟩
      · rw [followFrom_rests rests] at found
        cases found
        exact ⟨[_], ⟨rfl, .singleton _, rfl, rests⟩, Nat.succ_le_succ (Nat.zero_le _)⟩
      · obtain ⟨e, failed⟩ := followFrom_fails fails start hops
        rw [failed] at found
        cases found
  · rintro ⟨chain, leads, short⟩
    exact leads.followed short

/-- Following references from `start` makes at most 32 lookups, along a chain that starts at the canonical
form of `start`, and nothing that is not looked up has a part in the outcome. It ends with an object exactly
if a chain of at most 32 references leads to one that is no reference, and then with the place of this object,
where it is found again. So does synthesis follow references, by the lookups of its resolver. -/
theorem follow_chain (lookup : String → Except Fault Json) (start : String) :
    followBy lookup start maxHops (Reference.normalize start) = destination lookup start ∧
    (∃ asked, (followBy (recorded lookup) start maxHops (Reference.normalize start)).run.run [] =
        (destination lookup start, asked) ∧
      asked.length ≤ 32 ∧ asked.head? = some (Reference.normalize start) ∧ asked.IsChain (Refers lookup) ∧
      ∀ other : String → Except Fault Json, (∀ ref ∈ asked, other ref = lookup ref) →
        destination other start = destination lookup start) ∧
    (∀ fields place, destination lookup start = .ok (fields, place) ↔
      ∃ chain, Chain lookup (Reference.normalize start) place fields chain ∧ chain.length ≤ 32) ∧
    (∀ fields place, destination lookup start = .ok (fields, place) → lookup place = .ok (.obj fields)) ∧
    ∀ cfg progress, (follow cfg start).run.run progress = (destination cfg.resolver.lookup start, progress) := by
  refine ⟨followBy_eq lookup start maxHops _,
    ⟨trail lookup maxHops (Reference.normalize start), ?_, length_trail_le lookup maxHops _,
    head?_trail lookup 31 _, isChain_trail lookup maxHops _, fun _ same => followFrom_congr same⟩,
    fun _ _ => followFrom_ok_iff, ?_, ?_⟩
  · exact (followBy_recorded lookup start maxHops _ []).trans (by rw [List.nil_append, destination])
  · intro fields place found
    obtain ⟨_, leads, _⟩ := followFrom_ok_iff.mp found
    exact leads.rests.1
  · intro cfg progress
    unfold follow destination
    cases followFrom cfg.resolver.lookup start maxHops (Reference.normalize start) <;> rfl

def shelved (ref : String) : Except Fault Json :=
  if ref = "#/parameters/limit" then .ok (.obj [("$ref", .str "shared/pages.json#/limit")])
  else if ref = "shared/pages.json#/limit" then .ok (.obj [("$ref", .str "#/size")])
  else if ref = "shared/pages.json#/size" then .ok (.obj [("$ref", .str "../common.json#size")])
  else if ref = "common.json#/size" then .ok (.obj [("name", .str "limit"), ("in", .str "query")])
  else .error (Fault.ofReference ref "nothing here" none)

theorem follow_chain_shelved :
    destination shelved "#parameters/limit" =
        .ok ([("name", .str "limit"), ("in", .str "query")], "common.json#/size") ∧
      shelved "common.json#/size" = .ok (.obj [("name", .str "limit"), ("in", .str "query")]) := by
  have found : destination shelved "#parameters/limit" =
      .ok ([("name", .str "limit"), ("in", .str "query")], "common.json#/size") := by
    rfl
  exact ⟨found, (follow_chain shelved "#parameters/limit").2.2.2.1 _ _ found⟩

end

end Typesmith.EntryPoint
