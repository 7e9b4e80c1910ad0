import Typesmith.Proofs.Moving

namespace Typesmith

namespace Text

theorem splitChars_flatten (sep : Char) (s : List Char) :
    (splitChars sep s).flatten = s.filter (· ≠ sep) := by
  induction s with
  | nil => rfl
  | cons c rest ih =>
    unfold splitChars
    split
    · rename_i seam
      simpa [seam] using ih
    · rename_i other
      cases pieces : splitChars sep rest with
      | nil => exact absurd pieces (splitChars_ne_nil sep rest)
      | cons first others =>
        rw [pieces] at ih
        simpa [other] using ih

theorem mem_of_mem_split {sep c : Char} {s piece : String} (member : piece ∈ split sep s)
    (inside : c ∈ piece.toList) : c ∈ s.toList := by
  obtain ⟨letters, listed, rfl⟩ := List.mem_map.mp member
  rw [String.toList_ofList] at inside
  have kept := List.mem_flatten_of_mem listed inside
  rw [splitChars_flatten] at kept
  exact List.mem_of_mem_filter kept

theorem trimBy_eq_self {p : Char → Bool} {s : List Char} (free : ∀ c ∈ s, p c = false) : trimBy p s = s := by
  have kept : ∀ t : List Char, (∀ c ∈ t, p c = false) → t.dropWhile p = t := by
    intro t free
    cases t with
    | nil => rfl
    | cons c rest => simp [free c List.mem_cons_self]
  rw [trimBy, kept s free, kept s.reverse fun c inside => free c (List.mem_reverse.mp inside),
    List.reverse_reverse]

end Text

namespace Path

open Text

variable {walked pieces : List String} {rooted : Bool} {s t : String}

theorem mem_step (inside : t ∈ step rooted walked s) : t ∈ walked ∨ t = s := by
  unfold step at inside
  split at inside
  · exact .inl inside
  · split at inside
    · rename_i up
      split at inside
      · cases rooted with
        | true => cases inside
        | false => exact .inr ((List.mem_singleton.mp inside).trans up.symm)
      · split at inside
        · exact (List.mem_cons.mp inside).symm.imp_right fun same => same.trans up.symm
        · exact .inl (List.mem_cons_of_mem _ inside)
    · exact (List.mem_cons.mp inside).symm

theorem mem_foldl_step (inside : t ∈ pieces.foldl (step rooted) walked) : t ∈ walked ∨ t ∈ pieces := by
  induction pieces generalizing walked with
  | nil => exact .inl inside
  | cons s rest ih =>
    rcases ih inside with stepped | later
    · rcases mem_step stepped with before | rfl
      · exact .inl before
      · exact .inr List.mem_cons_self
    · exact .inr (List.mem_cons_of_mem _ later)

variable {P : Char → Prop}

theorem letters_clean (slash : P '/') (dot : P '.') {p : String} (own : ∀ c ∈ p.toList, P c) :
    ∀ c ∈ (clean p).toList, P c := by
  have body : ∀ c ∈ (join "/" ((split '/' p).foldl (step (isAbsolute p)) []).reverse).toList, P c := by
    intro c inside
    rcases mem_join inside with seam | ⟨t, walked, letter⟩
    · rwa [List.mem_singleton.mp seam]
    · rcases mem_foldl_step (List.mem_reverse.mp walked) with before | piece
      · cases before
      · exact own c (mem_of_mem_split piece letter)
  unfold clean
  dsimp only
  split
  · rw [String.toList_append]
    exact List.forall_mem_append.mpr ⟨fun c inside => List.mem_singleton.mp inside ▸ slash, body⟩
  · split
    · exact fun c inside => List.mem_singleton.mp inside ▸ dot
    · exact body

theorem letters_below (slash : P '/') (dot : P '.') {p l : String} (base : ∀ c ∈ p.toList, P c)
    (own : ∀ c ∈ l.toList, P c) : ∀ c ∈ (dir p ++ "/" ++ l).toList, P c := by
  have directory : ∀ c ∈ (dir p).toList, P c := by
    refine letters_clean slash dot fun c inside => ?_
    rw [String.toList_ofList] at inside
    exact base c (List.mem_of_mem_take inside)
  simp only [String.toList_append, List.forall_mem_append]
  exact ⟨⟨directory, fun c inside => List.mem_singleton.mp inside ▸ slash⟩, own⟩

end Path

namespace Reference

open Text

variable {r base : Reference}

def Unspaced (r : Reference) : Prop :=
  ∀ c ∈ r.locator.toList, isSpace c = false

instance (r : Reference) : Decidable r.Unspaced :=
  List.decidableBAll (isSpace · = false) r.locator.toList

theorem letters_resolveAgainst {P : Char → Prop} (slash : P '/') (dot : P '.')
    (own : ∀ c ∈ r.locator.toList, P c) (other : ∀ c ∈ base.locator.toList, P c) :
    ∀ c ∈ (r.resolveAgainst base).locator.toList, P c := by
  unfold resolveAgainst
  split
  · exact other
  · rename_i filled
    split
    · have inside : Path.dir base.locator ≠ "" := Path.clean_ne_empty _
      dsimp only
      rw [Path.joinAll_pair inside filled]
      exact Path.letters_clean slash dot (Path.letters_below slash dot other own)
    · exact own

theorem Normal.resolveAgainst (normal : r.Normal) (own : r.Unspaced) (within : base.Normal)
    (other : base.Unspaced) : (r.resolveAgainst base).Normal where
  whole := by
    have marks : ∀ c ∈ (r.resolveAgainst base).locator.toList, c ≠ '#' :=
      letters_resolveAgainst (by decide) (by decide) (fun c inside same => normal.whole (same ▸ inside))
        fun c inside same => within.whole (same ▸ inside)
    exact fun inside => marks '#' inside rfl
  trimmed := trimBy_eq_self (letters_resolveAgainst (by decide) (by decide) own other)
  rooted := by
    rw [resolveAgainst_pointer]
    exact normal.rooted

/-- The canonical text of what a text is read as is read as the same, and is its own canonical text. So it
is with a reference found in another document, if neither locator has white space in it; and such a reference
stays what it is, and its text what it is, where the document being read is the base. -/
theorem canonical_stable :
    (∀ s, normalize (normalize s) = normalize s ∧ parse (parse s).canonical = parse s) ∧
      ∀ s t, (parse s).Unspaced → (parse t).Unspaced →
        parse ((parse s).resolveAgainst (parse t)).canonical = (parse s).resolveAgainst (parse t) ∧
        (∀ base : Reference, base.isLocal = true →
          ((parse s).resolveAgainst (parse t)).resolveAgainst base = (parse s).resolveAgainst (parse t)) ∧
        ∀ u, (parse u).isLocal = true → qualify (qualify s t) u = qualify s t := by
  refine ⟨fun s => ⟨congrArg canonical (parse_normalize s), parse_normalize s⟩, fun s t own other => ?_⟩
  have read : parse ((parse s).resolveAgainst (parse t)).canonical = (parse s).resolveAgainst (parse t) :=
    parse_canonical ((parse_normal s).resolveAgainst own (parse_normal t) other)
  have rests : ∀ base : Reference, base.isLocal = true →
      ((parse s).resolveAgainst (parse t)).resolveAgainst base = (parse s).resolveAgainst (parse t) :=
    fun base here => (resolveAgainst_eq_self_iff _ base).mpr (.inl (beq_iff_eq.mp here))
  refine ⟨read, rests, fun u here => ?_⟩
  rw [qualify, qualify, read, rests (parse u) here]

theorem canonical_stable_above :
    (parse "../b.json#X\\y").Unspaced ∧ (parse " d/e/a.json#/M").Unspaced ∧
      (parse "#/x-typegen/entrypoints/Get").isLocal = true ∧
      qualify "../b.json#X\\y" " d/e/a.json#/M" = "d/b.json#/X/y" ∧
      parse "d/b.json#/X/y" = (parse "../b.json#X\\y").resolveAgainst (parse " d/e/a.json#/M") ∧
      qualify "d/b.json#/X/y" "#/x-typegen/entrypoints/Get" = "d/b.json#/X/y" := by
  have own : (parse "../b.json#X\\y").Unspaced := by decide +kernel
  have other : (parse " d/e/a.json#/M").Unspaced := by decide +kernel
  have here : (parse "#/x-typegen/entrypoints/Get").isLocal = true := by decide
  have place : qualify "../b.json#X\\y" " d/e/a.json#/M" = "d/b.json#/X/y" := by decide
  obtain ⟨read, _, kept⟩ := canonical_stable.2 _ _ own other
  have again := kept _ here
  rw [place] at again
  rw [← qualify, place] at read
  exact ⟨own, other, here, place, read, again⟩

-- white space inside a locator can come to its end when paths are put together, and is lost then
example : qualify "e /x/..#/X" "a.json" = "e #/X" ∧ normalize "e #/X" = "e#/X" := by decide

end Reference

end Typesmith
