import Mathlib.Data.List.Dedup
import Mathlib.Logic.Relation
import Typesmith.Declaration.Layout

namespace Typesmith

namespace Text

theorem sort_perm (l : List String) : (sort l).Perm l :=
  List.mergeSort_perm l _

theorem sort_sorted (l : List String) : (sort l).Pairwise (· ≤ ·) := by
  refine (List.pairwise_mergeSort ?_ ?_ l).imp of_decide_eq_true
  · intro a b c first second
    rw [decide_eq_true_eq] at first second ⊢
    exact String.le_trans first second
  · intro a b
    simpa using String.le_total a b

theorem ascending_sort {l : List String} (distinct : l.Nodup) : (sort l).Pairwise (· < ·) :=
  (sort_sorted l).imp₂ (fun _ _ le ne => Std.lt_of_le_of_ne le ne)
    ((sort_perm l).nodup_iff.mpr distinct)

theorem sort_eq_of_perm {l l' : List String} (perm : l.Perm l') : sort l = sort l' := by
  refine List.Perm.eq_of_pairwise ?_ (sort_sorted l) (sort_sorted l')
    ((sort_perm l).trans (perm.trans (sort_perm l').symm))
  intro a b _ _ first second
  exact String.le_antisymm first second

theorem eraseDups_eq_self {l : List String} (distinct : l.Nodup) : l.eraseDups = l := by
  induction l with
  | nil => rfl
  | cons a l ih =>
    obtain ⟨new, rest⟩ := List.nodup_cons.mp distinct
    have others : l.filter (fun b => !b == a) = l := by
      refine List.filter_eq_self.mpr fun b inside => ?_
      have other : b ≠ a := fun same => new (same ▸ inside)
      simpa using other
    rw [List.eraseDups_cons, others, ih rest]

theorem nodup_eraseDups : (l : List String) → l.eraseDups.Nodup
  | [] => List.nodup_nil
  | a :: l => by
    rw [List.eraseDups_cons]
    refine List.nodup_cons.mpr ⟨fun inside => ?_, nodup_eraseDups _⟩
    simpa using (List.mem_filter.mp (List.mem_eraseDups.mp inside)).2
  termination_by l => l.length
  decreasing_by exact Nat.lt_succ_of_le (List.length_filter_le _ _)

end Text

namespace Declaration

open Text Relation

def Given (l : List Declaration) (d : Declaration) : Prop :=
  ∃ front back, l = front ++ d :: back ∧ d.name ∉ back.map (·.name)

/-- What is given under the first name depends on the second, under which something is given too. -/
def Needs (l : List Declaration) (name dep : String) : Prop :=
  ∃ d, Given l d ∧ d.name = name ∧ dep ∈ d.dependencies ∧ dep ∈ l.map (·.name)

/-- Every declaration comes after all that it needs, apart from what needs it in turn, directly or
through others. -/
def DependenciesFirst (l out : List Declaration) : Prop :=
  ∀ before d after, out = before ++ d :: after → ∀ dep ∈ d.dependencies, dep ∈ l.map (·.name) →
    ¬ ReflTransGen (Needs l) dep d.name → dep ∈ before.map (·.name)

section

variable {l : List Declaration} {name : String} {d : Declaration}

theorem Given.mem (given : Given l d) : d ∈ l := by
  obtain ⟨front, back, rfl, _⟩ := given
  simp

theorem find?_eq_some_iff : find? l name = some d ↔ Given l d ∧ d.name = name := by
  rw [find?, List.find?_eq_some_iff_append, beq_iff_eq]
  constructor
  · rintro ⟨rfl, behind, ahead, split, other⟩
    refine ⟨⟨ahead.reverse, behind.reverse, ?_, ?_⟩, rfl⟩
    · rw [← List.reverse_reverse l, split]
      simp
    · simpa using other
  · rintro ⟨⟨front, back, rfl, last⟩, rfl⟩
    exact ⟨rfl, back.reverse, front.reverse, by simp, by simpa using last⟩

theorem find?_eq_none_iff : find? l name = none ↔ name ∉ l.map (·.name) := by
  simp [find?]

theorem Given.unique {e : Declaration} (given : Given l d) (other : Given l e) (same : d.name = e.name) :
    d = e := by
  have first : find? l d.name = some d := find?_eq_some_iff.mpr ⟨given, rfl⟩
  rw [find?_eq_some_iff.mpr ⟨other, same.symm⟩] at first
  exact (Option.some.inj first).symm

theorem given_iff_mem (distinct : (l.map (·.name)).Nodup) : Given l d ↔ d ∈ l := by
  refine ⟨Given.mem, fun inside => ?_⟩
  obtain ⟨front, back, rfl⟩ := List.append_of_mem inside
  refine ⟨front, back, rfl, ?_⟩
  rw [List.map_append, List.map_cons, List.nodup_middle] at distinct
  exact fun again => (List.nodup_cons.mp distinct).1 (List.mem_append_right _ again)

theorem DependenciesFirst.concat {out : List Declaration} (first : DependenciesFirst l out)
    (ready : ∀ dep ∈ d.dependencies, dep ∈ l.map (·.name) → ¬ ReflTransGen (Needs l) dep d.name →
      dep ∈ out.map (·.name)) : DependenciesFirst l (out ++ [d]) := by
  intro before e after split
  rcases List.append_eq_append_iff.mp split with ⟨late, rfl, last⟩ | ⟨late, rfl, last⟩
  · cases late with
    | nil =>
      obtain ⟨rfl, _⟩ := List.cons.inj last
      rwa [List.append_nil]
    | cons _ late => simp at last
  · cases late with
    | nil =>
      obtain ⟨rfl, _⟩ := List.cons.inj last
      rwa [List.append_nil] at ready
    | cons _ late =>
      obtain ⟨rfl, _⟩ := List.cons.inj last
      exact first before e late rfl

end

def Task.name : Task → String
  | enter name => name
  | leave d => d.name

def Task.declaration? : Task → Option Declaration
  | enter _ => none
  | leave d => some d

section

variable {l : List Declaration} {entered : List String} {rest : List Task} {out : List Declaration}
  {name : String} {d : Declaration}

/-- The declarations that were entered: those put out, and those whose turn has yet to come. -/
def shown (out : List Declaration) (tasks : List Task) : List Declaration :=
  out ++ tasks.filterMap Task.declaration?

/-- What holds between any two tasks. A declaration waits for its turn while what it needs is looked
at, so everything that stands before its turn is needed by it. -/
structure Underway (l : List Declaration) (entered : List String) (tasks : List Task)
    (out : List Declaration) : Prop where
  given : ∀ d ∈ shown out tasks, Given l d
  once : ((shown out tasks).map (·.name)).Nodup
  entered_iff : ∀ name, name ∈ entered ↔ name ∈ (shown out tasks).map (·.name)
  stacked : tasks.Pairwise fun t u => ∀ d, u = .leave d → t.name ∈ l.map (·.name) →
    ReflTransGen (Needs l) d.name t.name
  pending : ∀ front d back, tasks = front ++ .leave d :: back → ∀ dep ∈ d.dependencies,
    dep ∈ l.map (·.name) → dep ∈ entered ∨ .enter dep ∈ front
  listed : ∀ name ∈ l.map (·.name), name ∈ entered ∨ .enter name ∈ tasks
  first : DependenciesFirst l out

theorem underway_start (l : List Declaration) {names : List String}
    (all : ∀ name ∈ l.map (·.name), name ∈ names) : Underway l [] (names.map .enter) [] := by
  have nothing : shown [] (names.map Task.enter) = [] := by
    simp [shown, Task.declaration?]
  refine ⟨by simp [nothing], by simp [nothing], by simp [nothing], ?_, ?_, ?_, ?_⟩
  · refine List.pairwise_of_forall_mem_list fun t _ u inside d turn => ?_
    obtain ⟨_, _, rfl⟩ := List.mem_map.mp inside
    cases turn
  · intro front d back split
    have turn : Task.leave d ∈ names.map Task.enter := by simp [split]
    obtain ⟨_, _, same⟩ := List.mem_map.mp turn
    cases same
  · exact fun name inside => .inr (List.mem_map.mpr ⟨name, all name inside, rfl⟩)
  · intro before d after split
    simp at split

theorem settled {other : String} {front : List Task} (known : other = name → other ∈ entered)
    (before : other ∈ entered ∨ .enter other ∈ .enter name :: front) :
    other ∈ entered ∨ .enter other ∈ front := by
  rcases before with seen | waiting
  · exact .inl seen
  · rcases List.mem_cons.mp waiting with same | later
    · exact .inl (known (Task.enter.inj same))
    · exact .inr later

theorem turn_cases {names : List String} {front back : List Task} {e : Declaration}
    (split : names.map Task.enter ++ .leave d :: rest = front ++ .leave e :: back) :
    e = d ∧ front = names.map .enter ∨
      ∃ late, front = names.map .enter ++ .leave d :: late ∧ rest = late ++ .leave e :: back := by
  rcases List.append_eq_append_iff.mp split with ⟨late, rfl, last⟩ | ⟨late, entries, last⟩
  · cases late with
    | nil =>
      cases last
      exact .inl ⟨rfl, List.append_nil _⟩
    | cons t late =>
      obtain ⟨rfl, later⟩ := List.cons.inj last
      exact .inr ⟨late, rfl, later⟩
  · cases late with
    | nil =>
      cases last
      rw [List.append_nil] at entries
      exact .inl ⟨rfl, entries.symm⟩
    | cons t late =>
      obtain ⟨rfl, _⟩ := List.cons.inj last
      have turn : Task.leave e ∈ names.map Task.enter := by simp [entries]
      obtain ⟨_, _, same⟩ := List.mem_map.mp turn
      cases same

theorem Underway.skip (underway : Underway l entered (.enter name :: rest) out)
    (known : name ∈ l.map (·.name) → name ∈ entered) : Underway l entered rest out := by
  refine ⟨underway.given, underway.once, underway.entered_iff, underway.stacked.of_cons, ?_, ?_,
    underway.first⟩
  · intro front d back split dep depends inside
    refine settled (fun same => same ▸ known (same ▸ inside)) ?_
    exact underway.pending (.enter name :: front) d back (by rw [split]; rfl) dep depends inside
  · intro other inside
    exact settled (fun same => same ▸ known (same ▸ inside)) (underway.listed other inside)

theorem shown_enter : (shown out ((sort d.dependencies).map .enter ++ .leave d :: rest)).Perm
    (d :: shown out (.enter d.name :: rest)) := by
  have waits : ((sort d.dependencies).map Task.enter).filterMap Task.declaration? = [] := by
    simp [Task.declaration?]
  rw [shown, List.filterMap_append, waits, List.nil_append]
  exact List.perm_middle

theorem settled_enter {front : List Task} {other : String}
    (before : other ∈ entered ∨ .enter other ∈ .enter d.name :: front) : other ∈ d.name :: entered ∨
      .enter other ∈ (sort d.dependencies).map .enter ++ .leave d :: front := by
  have after := settled (fun same => List.mem_cons.mpr (.inl same)) (before.imp_left (List.mem_cons_of_mem _))
  exact after.imp_right fun waiting => List.mem_append_right _ (List.mem_cons_of_mem _ waiting)

theorem Underway.enter (underway : Underway l entered (.enter d.name :: rest) out) (given : Given l d)
    (new : d.name ∉ entered) : Underway l (d.name :: entered)
      ((sort d.dependencies).map .enter ++ .leave d :: rest) out := by
  have known : d.name ∈ l.map (·.name) := List.mem_map.mpr ⟨d, given.mem, rfl⟩
  obtain ⟨below, stacked⟩ := List.pairwise_cons.mp underway.stacked
  refine ⟨?given, ?once, ?entered_iff, ?stacked, ?pending,
    fun other inside => settled_enter (underway.listed other inside), underway.first⟩
  case given =>
    intro e inside
    rcases List.mem_cons.mp (shown_enter.mem_iff.mp inside) with rfl | older
    · exact given
    · exact underway.given e older
  case once =>
    rw [(shown_enter.map _).nodup_iff, List.map_cons, List.nodup_cons, ← underway.entered_iff]
    exact ⟨new, underway.once⟩
  case entered_iff =>
    intro other
    rw [(shown_enter.map _).mem_iff, List.map_cons, List.mem_cons, List.mem_cons, underway.entered_iff]
  case stacked =>
    -- whoever waits below needs the new declaration, and so what the new one needs
    rw [List.pairwise_append, List.pairwise_cons]
    refine ⟨?_, ⟨fun u inside e turn _ => below u inside e turn known, stacked⟩, ?_⟩
    · refine List.pairwise_of_forall_mem_list fun t _ u inside e turn => ?_
      obtain ⟨_, _, rfl⟩ := List.mem_map.mp inside
      cases turn
    · intro t first u second e turn inside
      obtain ⟨dep, depends, rfl⟩ := List.mem_map.mp first
      have needed : Needs l d.name dep := ⟨d, given, rfl, (sort_perm _).mem_iff.mp depends, inside⟩
      rcases List.mem_cons.mp second with rfl | later
      · cases turn
        exact .single needed
      · exact (below u later e turn known).tail needed
  case pending =>
    intro front e back split dep depends inside
    rcases turn_cases split with ⟨rfl, rfl⟩ | ⟨late, rfl, rfl⟩
    · exact .inr (List.mem_map.mpr ⟨dep, (sort_perm _).mem_iff.mpr depends, rfl⟩)
    · exact settled_enter (underway.pending (.enter d.name :: late) e back rfl dep depends inside)

theorem Underway.leave (underway : Underway l entered (.leave d :: rest) out) :
    Underway l entered rest (out ++ [d]) := by
  have same : shown (out ++ [d]) rest = shown out (.leave d :: rest) := by
    simp [shown, Task.declaration?]
  obtain ⟨below, stacked⟩ := List.pairwise_cons.mp underway.stacked
  have given : Given l d := underway.given d (by simp [shown, Task.declaration?])
  have known : d.name ∈ l.map (·.name) := List.mem_map.mpr ⟨d, given.mem, rfl⟩
  refine ⟨same ▸ underway.given, same ▸ underway.once, same ▸ underway.entered_iff, stacked, ?_, ?_, ?_⟩
  · intro front e back split dep depends inside
    have before := underway.pending (.leave d :: front) e back (by rw [split]; rfl) dep depends inside
    exact before.imp_right fun waiting => (List.mem_cons.mp waiting).resolve_left (by simp)
  · intro name inside
    have before := underway.listed name inside
    exact before.imp_right fun waiting => (List.mem_cons.mp waiting).resolve_left (by simp)
  · -- what it needs was entered before; if that waits for its own turn, it needs the declaration in turn
    refine underway.first.concat fun dep depends inside apart => ?_
    have seen := (underway.pending [] d rest rfl dep depends inside).resolve_right List.not_mem_nil
    rw [underway.entered_iff, ← same, shown, List.map_append, List.map_append] at seen
    rcases List.mem_append.mp seen with put | waiting
    · rcases List.mem_append.mp put with before | own
      · exact before
      · rw [List.map_singleton, List.mem_singleton] at own
        exact absurd (own ▸ .refl) apart
    · obtain ⟨e, turn, rfl⟩ := List.mem_map.mp waiting
      obtain ⟨t, later, leaves⟩ := List.mem_filterMap.mp turn
      cases t with
      | enter _ => cases leaves
      | leave _ =>
        cases leaves
        exact absurd (below _ later e rfl known) apart

theorem orderFrom_missing (missing : find? l name = none) :
    orderFrom l entered (.enter name :: rest) = orderFrom l entered rest := by
  rw [orderFrom]
  split
  · rfl
  · rename_i found
    rw [missing] at found
    cases found

theorem orderFrom_seen (seen : name ∈ entered) :
    orderFrom l entered (.enter name :: rest) = orderFrom l entered rest := by
  rw [orderFrom]
  split
  · rfl
  · rw [dif_pos (by simpa using seen)]

theorem orderFrom_new (found : find? l name = some d) (new : name ∉ entered) :
    orderFrom l entered (.enter name :: rest) =
      orderFrom l (name :: entered) ((sort d.dependencies).map .enter ++ .leave d :: rest) := by
  rw [orderFrom]
  split
  · rename_i missing
    rw [found] at missing
    cases missing
  · rename_i e other
    rw [found] at other
    cases other
    rw [dif_neg (by simpa using new)]

/-- Once all tasks are done, everything has been put out. -/
theorem Underway.run {tasks : List Task} (underway : Underway l entered tasks out) :
    ∃ all, Underway l all [] (out ++ orderFrom l entered tasks) := by
  induction entered, tasks using orderFrom.induct l generalizing out with
  | case1 entered =>
    rw [orderFrom, List.append_nil]
    exact ⟨entered, underway⟩
  | case2 entered d rest ih =>
    rw [orderFrom, List.append_cons]
    exact ih underway.leave
  | case3 entered name rest missing ih =>
    rw [orderFrom_missing missing]
    exact ih (underway.skip fun inside => absurd inside (find?_eq_none_iff.mp missing))
  | case4 entered name rest d found seen ih =>
    have seen : name ∈ entered := by simpa using seen
    rw [orderFrom_seen seen]
    exact ih (underway.skip fun _ => seen)
  | case5 entered name rest d found new ih =>
    have new : name ∉ entered := by simpa using new
    rw [orderFrom_new found new]
    obtain ⟨given, rfl⟩ := find?_eq_some_iff.mp found
    exact ih (underway.enter given new)

end

theorem orderFrom_congr {l l' : List Declaration} (same : ∀ name, find? l name = find? l' name)
    (entered : List String) (tasks : List Task) : orderFrom l entered tasks = orderFrom l' entered tasks := by
  induction entered, tasks using orderFrom.induct l with
  | case1 entered => rw [orderFrom, orderFrom]
  | case2 entered d rest ih => rw [orderFrom, orderFrom, ih]
  | case3 entered name rest missing ih =>
    rw [orderFrom_missing missing, orderFrom_missing ((same name).symm.trans missing), ih]
  | case4 entered name rest d found seen ih =>
    have seen : name ∈ entered := by simpa using seen
    rw [orderFrom_seen seen, orderFrom_seen seen, ih]
  | case5 entered name rest d found new ih =>
    have new : name ∉ entered := by simpa using new
    rw [orderFrom_new found new, orderFrom_new ((same name).symm.trans found) new, ih]

theorem order_eq_of_perm {l l' : List Declaration} (distinct : (l.map (·.name)).Nodup) (perm : l'.Perm l) :
    order l' = order l := by
  have names := perm.map Declaration.name
  have distinct' := names.nodup_iff.mpr distinct
  have same : ∀ name, find? l' name = find? l name := by
    intro name
    ext d
    rw [find?_eq_some_iff, find?_eq_some_iff, given_iff_mem distinct, given_iff_mem distinct', perm.mem_iff]
  rw [order, order, orderFrom_congr same, eraseDups_eq_self distinct, eraseDups_eq_self distinct',
    sort_eq_of_perm names]

/-- Every name is declared once, as it was given last. What a declaration needs stands before it,
unless that needs the declaration in turn, directly or through others. Where no name was given twice,
the order is the same however the declarations are listed. -/
theorem order_dependencies_first (l : List Declaration) :
    ((order l).map (·.name)).Perm (l.map (·.name)).dedup ∧
      (∀ d, d ∈ order l ↔ Given l d) ∧
      DependenciesFirst l (order l) ∧
      ((l.map (·.name)).Nodup → ∀ l', l'.Perm l → order l' = order l) := by
  have all : ∀ name ∈ l.map (·.name), name ∈ sort (l.map (·.name)).eraseDups := fun name inside =>
    (sort_perm _).mem_iff.mpr (List.mem_eraseDups.mpr inside)
  obtain ⟨entered, underway⟩ := (underway_start l all).run
  rw [List.nil_append, ← order] at underway
  have put : shown (order l) [] = order l := List.append_nil _
  have once := underway.once
  have given := underway.given
  rw [put] at once given
  -- nothing waits any more, so every name that was listed has been put out
  have declared : ∀ name ∈ l.map (·.name), name ∈ (order l).map (·.name) := by
    intro name inside
    have seen := (underway.listed name inside).resolve_right List.not_mem_nil
    rwa [underway.entered_iff, put] at seen
  refine ⟨?_, ?_, underway.first, fun distinct l' perm => order_eq_of_perm distinct perm⟩
  · rw [List.perm_ext_iff_of_nodup once (List.nodup_dedup _)]
    intro name
    rw [List.mem_dedup]
    refine ⟨fun inside => ?_, declared name⟩
    obtain ⟨d, out, rfl⟩ := List.mem_map.mp inside
    exact List.mem_map.mpr ⟨d, (given d out).mem, rfl⟩
  · intro d
    refine ⟨given d, fun last => ?_⟩
    obtain ⟨e, out, same⟩ := List.mem_map.mp (declared d.name (List.mem_map.mpr ⟨d, last.mem, rfl⟩))
    rwa [last.unique (given e out) same.symm]

end Declaration

end Typesmith
