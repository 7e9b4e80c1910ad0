import Typesmith.Text.Casing

namespace Typesmith.Text

/-- Rows whose images keep away from a range send nothing into it that was not there. -/
theorem mapSteps_outside (lo hi : Nat) {n : Nat} {rows : List (Nat × Nat × Nat × Nat)}
    (apart : ∀ row ∈ rows, hi < row.2.2.2 ∨ row.2.2.2 + (row.2.1 - row.1) < lo) :
    mapSteps n rows = n ∨ mapSteps n rows < lo ∨ hi < mapSteps n rows := by
  induction rows with
  | nil => exact .inl rfl
  | cons row rest ih =>
    obtain ⟨first, last, step, image⟩ := row
    have here := apart _ List.mem_cons_self
    have later := ih fun row inside => apart row (List.mem_cons_of_mem _ inside)
    dsimp only at here
    unfold mapSteps
    split
    · exact .inl rfl
    · split
      · split
        · exact .inr (by omega)
        · exact .inl rfl
      · exact later

theorem toNat_ofNat_cases (n : Nat) : (Char.ofNat n).toNat = n ∨ (Char.ofNat n).toNat = 0 := by
  by_cases valid : n.isValidChar
  · exact .inl (congrArg Char.toNat (dif_pos valid))
  · exact .inr (congrArg Char.toNat (dif_neg valid))

def caselessMarks : List Nat := [10, 13, 95, 8232, 8233]

/-- A character that no casing makes of another one. -/
def IsMark (c : Char) : Prop :=
  c.toNat ∈ caselessMarks

instance (c : Char) : Decidable (IsMark c) :=
  inferInstanceAs (Decidable (_ ∈ _))

theorem upperRows_apart : ∀ k ∈ caselessMarks, ∀ row ∈ upperRows,
    k < row.2.2.2 ∨ row.2.2.2 + (row.2.1 - row.1) < k := by
  decide +kernel

theorem lowerRows_apart : ∀ k ∈ caselessMarks, ∀ row ∈ lowerRows,
    k < row.2.2.2 ∨ row.2.2.2 + (row.2.1 - row.1) < k := by
  decide +kernel

theorem titleForms_apart : ∀ form ∈ titleForms, form.2 ≠ [] ∧ ∀ code ∈ form.2, ¬ IsMark (Char.ofNat code) := by
  decide +kernel

theorem eq_of_mapSteps {rows : List (Nat × Nat × Nat × Nat)} {c : Char}
    (apart : ∀ k ∈ caselessMarks, ∀ row ∈ rows, k < row.2.2.2 ∨ row.2.2.2 + (row.2.1 - row.1) < k)
    (mark : IsMark (Char.ofNat (mapSteps c.toNat rows))) : Char.ofNat (mapSteps c.toNat rows) = c := by
  have null : 0 ∉ caselessMarks := by decide
  unfold IsMark at mark
  rcases toNat_ofNat_cases (mapSteps c.toNat rows) with code | zero
  · rw [code] at mark
    have same : mapSteps c.toNat rows = c.toNat := by
      rcases mapSteps_outside _ _ (apart _ mark) with same | other
      · exact same
      · omega
    rw [same, Char.ofNat_toNat]
  · rw [zero] at mark
    exact absurd mark null

theorem mem_titleForms {code : Nat} {form : List Nat} (listed : titleForms.lookup code = some form) :
    (code, form) ∈ titleForms := by
  obtain ⟨before, after, rows, -⟩ := List.lookup_eq_some_iff.mp listed
  rw [rows]
  simp

theorem eq_of_mem_titleForm {c d : Char} (inside : d ∈ titleForm c) (mark : IsMark d) : d = c := by
  unfold titleForm at inside
  split at inside
  · rename_i form listed
    obtain ⟨code, own, rfl⟩ := List.mem_map.mp inside
    exact absurd mark ((titleForms_apart _ (mem_titleForms listed)).2 code own)
  · split at inside
    · exact List.mem_singleton.mp inside
    · obtain rfl := List.mem_singleton.mp inside
      exact eq_of_mapSteps upperRows_apart mark

theorem titleForm_ne_nil (c : Char) : titleForm c ≠ [] := by
  unfold titleForm
  split
  · rename_i form listed
    simpa using (titleForms_apart _ (mem_titleForms listed)).1
  · split <;> simp

theorem eq_of_mem_lowerForm {c d : Char} (inside : d ∈ lowerForm c) (mark : IsMark d) : d = c := by
  have dotted : [Char.ofNat 105, Char.ofNat 775].all (fun d => !decide (IsMark d)) = true := by decide
  unfold lowerForm at inside
  split at inside
  · have own := List.all_eq_true.mp dotted d inside
    rw [decide_eq_true mark] at own
    cases own
  · rename_i other
    obtain rfl := List.mem_singleton.mp inside
    rw [toLower, if_neg other] at mark ⊢
    exact eq_of_mapSteps lowerRows_apart mark

theorem mem_capitalizeFrom {inWord afterMid : Bool} {s : List Char} {d : Char}
    (inside : d ∈ capitalizeFrom inWord afterMid s) (mark : IsMark d) : d ∈ s := by
  induction s generalizing inWord afterMid with
  | nil => cases inside
  | cons c rest ih =>
    unfold capitalizeFrom at inside
    dsimp only at inside
    split at inside
    · rcases List.mem_append.mp inside with own | later
      · split at own
        · exact List.mem_cons.mpr (.inl (List.mem_singleton.mp own))
        · exact List.mem_cons.mpr (.inl (eq_of_mem_titleForm own mark))
      · exact List.mem_cons_of_mem _ (ih later)
    · exact List.mem_cons.mpr ((List.mem_cons.mp inside).imp_right ih)

theorem mem_capitalize {s : List Char} {d : Char} (inside : d ∈ capitalize s) (mark : IsMark d) : d ∈ s :=
  mem_capitalizeFrom inside mark

theorem capitalize_eq_nil_iff {s : List Char} : capitalize s = [] ↔ s = [] := by
  unfold capitalize
  cases s with
  | nil => exact ⟨fun _ => rfl, fun _ => rfl⟩
  | cons c rest =>
    unfold capitalizeFrom
    dsimp only
    split
    · simp [titleForm_ne_nil]
    · simp

theorem not_isMark_lowerSigma (rest : List Char) : ¬ IsMark (lowerSigma rest) := by
  unfold lowerSigma
  split
  · split <;> decide
  · decide

theorem mem_lowercaseFrom {between : Bool} {s : List Char} {d : Char}
    (inside : d ∈ lowercaseFrom between s) (mark : IsMark d) : d ∈ s := by
  induction s generalizing between with
  | nil => cases inside
  | cons c rest ih =>
    have formed {between : Bool} (inside : d ∈ lowerForm c ++ lowercaseFrom between rest) : d ∈ c :: rest := by
      rcases List.mem_append.mp inside with own | later
      · exact List.mem_cons.mpr (.inl (eq_of_mem_lowerForm own mark))
      · exact List.mem_cons_of_mem _ (ih later)
    have kept {between : Bool} (inside : d ∈ c :: lowercaseFrom between rest) : d ∈ c :: rest :=
      List.mem_cons.mpr ((List.mem_cons.mp inside).imp_right ih)
    unfold lowercaseFrom at inside
    split at inside
    · split at inside
      · exact formed inside
      · exact kept inside
    · split at inside
      · exact kept inside
      · split at inside
        · rcases List.mem_cons.mp inside with rfl | later
          · exact absurd mark (not_isMark_lowerSigma rest)
          · exact List.mem_cons_of_mem _ (ih later)
        · exact formed inside

theorem mem_lowercase {s : List Char} {d : Char} (inside : d ∈ lowercase s) (mark : IsMark d) : d ∈ s :=
  mem_lowercaseFrom inside mark

end Typesmith.Text
