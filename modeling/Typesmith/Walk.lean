namespace Typesmith.Walk

variable {α β : Type}

theorem countP_lt_countP {p q : α → Bool} {l : List α} {x : α} (h : ∀ a ∈ l, p a = true → q a = true)
    (hx : x ∈ l) (hp : p x = false) (hq : q x = true) : l.countP p < l.countP q := by
  induction l with
  | nil => simp at hx
  | cons a l ih =>
    have hle : l.countP p ≤ l.countP q :=
      List.countP_mono_left fun a ha => h a (List.mem_cons_of_mem _ ha)
    rw [List.countP_cons, List.countP_cons]
    rcases List.mem_cons.1 hx with rfl | hx
    · simp only [hp, hq, if_true, Bool.false_eq_true, if_false]
      omega
    · have hlt := ih (fun a ha => h a (List.mem_cons_of_mem _ ha)) hx
      have ha := h a List.mem_cons_self
      have hstep : (if p a = true then 1 else 0) ≤ if q a = true then 1 else 0 := by
        split <;> simp_all
      omega

/-- How many things of a list, known by their keys, have not been entered. Entering one makes it
smaller, so a walk that enters everything once ends. -/
def remaining [BEq β] (key : α → β) (l : List α) (entered : List β) : Nat :=
  l.countP fun a => !entered.contains (key a)

theorem remaining_cons_lt [BEq β] [LawfulBEq β] {key : α → β} {l : List α} {entered : List β} {x : α}
    (hx : x ∈ l) (he : entered.contains (key x) = false) :
    remaining key l (key x :: entered) < remaining key l entered := by
  refine countP_lt_countP (fun a _ ha => ?_) hx ?_ ?_
  · simp only [List.contains_cons, Bool.not_or, Bool.and_eq_true] at ha
    exact ha.2
  · simp
  · rw [he]; rfl

end Typesmith.Walk
