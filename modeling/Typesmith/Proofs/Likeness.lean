import Typesmith.Proofs.Fields

namespace Typesmith

namespace Decimal

theorem same_self (a : Decimal) : a.same a = true := by
  simp [same]

theorem same_symm {a b : Decimal} (equal : a.same b = true) : b.same a = true := by
  simp only [same, Bool.and_eq_true, Bool.or_eq_true, beq_iff_eq] at equal ⊢
  obtain ⟨⟨digits, exponent⟩, sign⟩ := equal
  exact ⟨⟨digits.symm, exponent.symm⟩, sign.imp (digits ▸ ·) Eq.symm⟩

theorem same_trans {a b c : Decimal} (first : a.same b = true) (second : b.same c = true) :
    a.same c = true := by
  simp only [same, Bool.and_eq_true, Bool.or_eq_true, beq_iff_eq] at first second ⊢
  obtain ⟨⟨digits, exponent⟩, sign⟩ := first
  obtain ⟨⟨digits', exponent'⟩, sign'⟩ := second
  refine ⟨⟨digits.trans digits', exponent.trans exponent'⟩, ?_⟩
  rcases sign with zero | sign
  · exact .inl zero
  · exact sign'.imp digits.trans sign.trans

end Decimal

namespace Json

mutual

@[simp] theorem same_self : (j : Json) → j.same j = true
  | .null => rfl
  | .bool b => beq_self_eq_true b
  | .num n => n.same_self
  | .str s => beq_self_eq_true s
  | .arr items => sameItems_self items
  | .obj fields => sameFields_self fields

theorem sameItems_self : (items : List Json) → sameItems items items = true
  | [] => rfl
  | j :: rest => by rw [sameItems, same_self j, sameItems_self rest, Bool.and_self]

theorem sameFields_self : (fields : List (String × Json)) → sameFields fields fields = true
  | [] => rfl
  | (key, j) :: rest => by
    rw [sameFields, beq_self_eq_true, same_self j, sameFields_self rest, Bool.and_self, Bool.and_self]

end

mutual

theorem same_symm : (a b : Json) → a.same b = true → b.same a = true
  | .null, b, equal => by cases b <;> simp_all [same]
  | .bool _, b, equal => by cases b <;> simp_all [same]
  | .num n, b, equal => by
    cases b with
    | num m => exact Decimal.same_symm equal
    | _ => cases equal
  | .str _, b, equal => by cases b <;> simp_all [same]
  | .arr items, b, equal => by
    cases b with
    | arr other => exact sameItems_symm items other equal
    | _ => cases equal
  | .obj fields, b, equal => by
    cases b with
    | obj other => exact sameFields_symm fields other equal
    | _ => cases equal

theorem sameItems_symm : (a b : List Json) → sameItems a b = true → sameItems b a = true
  | [], [], _ => rfl
  | [], _ :: _, equal => by cases equal
  | _ :: _, [], equal => by cases equal
  | j :: rest, k :: others, equal => by
    simp only [sameItems, Bool.and_eq_true] at equal ⊢
    exact ⟨same_symm j k equal.1, sameItems_symm rest others equal.2⟩

theorem sameFields_symm : (a b : List (String × Json)) → sameFields a b = true → sameFields b a = true
  | [], [], _ => rfl
  | [], _ :: _, equal => by cases equal
  | _ :: _, [], equal => by cases equal
  | (_, j) :: rest, (_, k) :: others, equal => by
    simp only [sameFields, Bool.and_eq_true, beq_iff_eq] at equal ⊢
    exact ⟨⟨equal.1.1.symm, same_symm j k equal.1.2⟩, sameFields_symm rest others equal.2⟩

end

mutual

theorem same_trans : (a b c : Json) → a.same b = true → b.same c = true → a.same c = true
  | .null, b, c, first, second => by cases b <;> cases c <;> simp_all [same]
  | .bool _, b, c, first, second => by cases b <;> cases c <;> simp_all [same]
  | .num _, b, c, first, second => by
    cases b with
    | num m =>
      cases c with
      | num _ => exact Decimal.same_trans (b := m) first second
      | _ => cases second
    | _ => cases first
  | .str _, b, c, first, second => by cases b <;> cases c <;> simp_all [same]
  | .arr items, b, c, first, second => by
    cases b with
    | arr middle =>
      cases c with
      | arr last => exact sameItems_trans items middle last first second
      | _ => cases second
    | _ => cases first
  | .obj fields, b, c, first, second => by
    cases b with
    | obj middle =>
      cases c with
      | obj last => exact sameFields_trans fields middle last first second
      | _ => cases second
    | _ => cases first

theorem sameItems_trans : (a b c : List Json) → sameItems a b = true → sameItems b c = true →
    sameItems a c = true
  | [], [], c, _, second => second
  | [], _ :: _, _, first, _ => by cases first
  | _ :: _, [], _, first, _ => by cases first
  | _ :: _, _ :: _, [], _, second => by cases second
  | i :: rest, j :: middle, k :: last, first, second => by
    simp only [sameItems, Bool.and_eq_true] at first second ⊢
    exact ⟨same_trans i j k first.1 second.1, sameItems_trans rest middle last first.2 second.2⟩

theorem sameFields_trans : (a b c : List (String × Json)) → sameFields a b = true →
    sameFields b c = true → sameFields a c = true
  | [], [], c, _, second => second
  | [], _ :: _, _, first, _ => by cases first
  | _ :: _, [], _, first, _ => by cases first
  | _ :: _, _ :: _, [], _, second => by cases second
  | (_, i) :: rest, (_, j) :: middle, (_, k) :: last, first, second => by
    simp only [sameFields, Bool.and_eq_true, beq_iff_eq] at first second ⊢
    exact ⟨⟨first.1.1.trans second.1.1, same_trans i j k first.1.2 second.1.2⟩,
      sameFields_trans rest middle last first.2 second.2⟩

end

/-- A list has a value if one of its items is equal to it. -/
def Has (l : List Json) (j : Json) : Prop :=
  ∃ i ∈ l, i.same j = true

section

variable {l a b : List Json} {i j : Json}

theorem any_same_iff : (l.any (·.same j)) = true ↔ Has l j := by
  rw [List.any_eq_true]
  rfl

theorem has_of_mem (inside : j ∈ l) : Has l j :=
  ⟨j, inside, same_self j⟩

theorem Has.of_same (has : Has l i) (equal : i.same j = true) : Has l j := by
  obtain ⟨k, inside, same⟩ := has
  exact ⟨k, inside, same_trans k i j same equal⟩

@[simp] theorem not_has_nil (j : Json) : ¬ Has [] j := by
  rintro ⟨_, inside, _⟩
  cases inside

theorem has_cons : Has (i :: l) j ↔ i.same j = true ∨ Has l j := by
  simp [Has]

theorem has_append : Has (a ++ b) j ↔ Has a j ∨ Has b j := by
  simp only [Has, List.mem_append, or_and_right, exists_or]

theorem has_congr (equal : i.same j = true) : Has l i ↔ Has l j :=
  ⟨fun has => has.of_same equal, fun has => has.of_same (same_symm i j equal)⟩

theorem addNew_of_has (has : Has l j) : addNew l j = l := by
  rw [addNew, if_pos (any_same_iff.mpr has)]

theorem addNew_of_not_has (new : ¬ Has l j) : addNew l j = l ++ [j] := by
  rw [addNew, if_neg (mt any_same_iff.mp new)]

theorem union_cons (a : List Json) (j : Json) (rest : List Json) :
    union a (j :: rest) = union (addNew a j) rest := rfl

theorem union_append (a b c : List Json) : union a (b ++ c) = union (union a b) c :=
  List.foldl_append

end

/-- The new items of a list behind another one: those that are not there yet, each once and in order. -/
structure News (a b added : List Json) : Prop where
  listed : added.Sublist b
  fresh : ∀ j ∈ added, ¬ Has a j
  once : added.Pairwise fun i j => i.same j = false
  complete : ∀ j ∈ b, Has (a ++ added) j

section

variable {a b c added more : List Json} {j : Json}

theorem News.old (news : News a b added) (known : Has a j) : News a (j :: b) added where
  listed := news.listed.cons j
  fresh := news.fresh
  once := news.once
  complete := by
    intro k inside
    rcases List.mem_cons.mp inside with rfl | later
    · exact has_append.mpr (.inl known)
    · exact news.complete k later

theorem News.new (news : News (a ++ [j]) b added) (unknown : ¬ Has a j) : News a (j :: b) (j :: added) where
  listed := news.listed.cons_cons j
  fresh := by
    intro k inside has
    rcases List.mem_cons.mp inside with rfl | later
    · exact unknown has
    · exact news.fresh k later (has_append.mpr (.inl has))
  once := by
    refine List.pairwise_cons.mpr ⟨fun k inside => ?_, news.once⟩
    refine Bool.eq_false_iff.mpr fun equal => news.fresh k inside ?_
    exact has_append.mpr (.inr (has_cons.mpr (.inl equal)))
  complete := by
    intro k inside
    rw [List.append_cons]
    rcases List.mem_cons.mp inside with rfl | later
    · exact has_append.mpr (.inl (has_append.mpr (.inr (has_of_mem (List.mem_singleton_self k)))))
    · exact news.complete k later

theorem union_news (a b : List Json) : ∃ added, union a b = a ++ added ∧ News a b added := by
  induction b generalizing a with
  | nil => exact ⟨[], (List.append_nil a).symm, .slnil, by simp, .nil, by simp⟩
  | cons j rest ih =>
    rw [union_cons]
    by_cases known : Has a j
    · obtain ⟨added, joined, news⟩ := ih a
      exact ⟨added, by rw [addNew_of_has known, joined], news.old known⟩
    · obtain ⟨added, joined, news⟩ := ih (a ++ [j])
      refine ⟨j :: added, ?_, news.new known⟩
      rw [addNew_of_not_has known, joined, ← List.append_cons]

theorem has_union : Has (union a b) j ↔ Has a j ∨ Has b j := by
  obtain ⟨added, joined, news⟩ := union_news a b
  rw [joined, has_append]
  constructor
  · rintro (old | ⟨i, inside, equal⟩)
    · exact .inl old
    · exact .inr ⟨i, news.listed.subset inside, equal⟩
  · rintro (old | ⟨i, inside, equal⟩)
    · exact .inl old
    · exact has_append.mp ((news.complete i inside).of_same equal)

theorem union_of_has (all : ∀ j ∈ b, Has a j) : union a b = a := by
  induction b with
  | nil => rfl
  | cons j rest ih =>
    rw [union_cons, addNew_of_has (all j List.mem_cons_self)]
    exact ih fun k inside => all k (List.mem_cons_of_mem _ inside)

theorem union_self (a : List Json) : union a a = a :=
  union_of_has fun _ => has_of_mem

/-- What the middle list has need not be looked for in the last one. -/
theorem union_assoc (a b c : List Json) : union (union a b) c = union a (union b c) := by
  induction c generalizing b with
  | nil => rfl
  | cons j rest ih =>
    rw [union_cons, union_cons, ← ih]
    by_cases known : Has b j
    · rw [addNew_of_has known, addNew_of_has (has_union.mpr (.inr known))]
    · rw [addNew_of_not_has known, union_append]
      rfl

end

end Json

end Typesmith
