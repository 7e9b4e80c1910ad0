import Typesmith.Proofs.Completeness
import Typesmith.Proofs.Linking
import Typesmith.Proofs.Paths

namespace Typesmith

namespace Reference

/-- The place of `base` makes no difference to the reference: it is found from the document being
read, or its locator starts at a root, or the directory of `base` goes up as often as it goes down and
the locator leaves it by as many steps up. -/
def Anchored (r base : Reference) : Prop :=
  base.locator = "" ∨ (r.locator ≠ "" ∧
    (Path.isAbsolute r.locator = true ∨ Text.contains r.locator "://" = true ∨
      (Path.clean r.locator = r.locator ∧ Path.isAbsolute (Path.dir base.locator) = false ∧
        Path.ups (Path.dir base.locator) = Path.downs (Path.dir base.locator) ∧
        Path.downs (Path.dir base.locator) ≤ Path.ups r.locator)))

instance (r base : Reference) : Decidable (r.Anchored base) :=
  inferInstanceAs (Decidable (_ ∨ _))

theorem resolveAgainst_pointer (r base : Reference) : (r.resolveAgainst base).pointer = r.pointer := by
  unfold resolveAgainst
  split
  · rfl
  · split <;> rfl

theorem resolveAgainst_eq_self_iff (r base : Reference) :
    r.resolveAgainst base = r ↔ r.Anchored base := by
  obtain ⟨locator, pointer⟩ := r
  simp only [resolveAgainst, Anchored]
  by_cases none : locator = ""
  · subst none
    simp
  by_cases root : base.locator = ""
  · simp [none, root]
  cases rooted : Path.isAbsolute locator with
  | true => simp [none, root]
  | false =>
    cases full : Text.contains locator "://" with
    | true => simp [none, root]
    | false =>
      have path := Path.joinAll_eq_self_iff base.locator none rooted
      simp [none, root, path]

theorem resolveAgainst_congr (r : Reference) {base other : Reference} (same : base.locator = other.locator) :
    r.resolveAgainst base = r.resolveAgainst other := by
  simp only [resolveAgainst, same]

theorem canonical_eq_iff {r q : Reference} (pointer : r.pointer = q.pointer) :
    r.canonical = q.canonical ↔ r = q := by
  constructor
  · intro same
    have letters := congrArg String.toList same
    simp only [canonical, String.toList_append, pointer, List.append_cancel_right_eq] at letters
    have locator := String.toList_inj.mp letters
    cases r
    cases q
    simp_all
  · exact congrArg canonical

end Reference

namespace Json

variable (change : String → String)

theorem getElem?_mapRefsItems (items : List Json) (n : Nat) :
    (mapRefsItems change items)[n]? = (items[n]?).map (mapRefs change) := by
  rw [Fragment.mapRefsItems_eq_map, List.getElem?_map]

theorem step?_mapRefs {j child : Json} {token : String} (found : j.step? token = some child)
    (value : ∀ s, child ≠ .str s) : (j.mapRefs change).step? token = some (child.mapRefs change) := by
  cases j with
  | obj fields =>
    rw [mapRefs, step?, Fragment.lookup_mapRefsValue]
    rw [step?] at found
    rw [found]
    cases child with
    | str s => exact absurd rfl (value s)
    | _ => rfl
  | arr items =>
    rw [step?, Option.bind_eq_some_iff] at found
    obtain ⟨n, index, item⟩ := found
    rw [mapRefs, step?, index, Option.bind_some, getElem?_mapRefsItems, item]
    rfl
  | _ => cases found

theorem foldlM_step?_mapRefs {raw : Json} {path : List String} {fields : List (String × Json)}
    (inside : path.foldlM step? raw = some (.obj fields)) :
    path.foldlM step? (raw.mapRefs change) = some (.obj (mapRefsFields change fields)) := by
  induction path generalizing raw with
  | nil =>
    cases inside
    rfl
  | cons token rest ih =>
    rw [List.foldlM_cons, Option.bind_eq_bind, Option.bind_eq_some_iff] at inside
    obtain ⟨child, found, later⟩ := inside
    have value : ∀ s, child ≠ .str s := by
      rintro s rfl
      cases rest <;> cases later
    rw [List.foldlM_cons, step?_mapRefs change found value]
    exact ih later

end Json

namespace Model

open Fragment

theorem start_ref {fields : List (String × Json)} {s : String} {r : Reference}
    (found : fields.lookup "$ref" = some (.str s)) (spells : Link.Spells s r) :
    (start fields).isRef = true ∧ Reference.parse (start fields).ref = r := by
  obtain ⟨n, normal, target⟩ := spells
  have ref : (start fields).keywords.ref = some n := by
    simp [start, found, Json.str?, normal]
  simp [isRef, Fragment.ref, ref, target]

theorem decode_ref {fields : List (String × Json)} {h : Fragment}
    (read : decode? (.obj fields) = some h) : h.keywords.ref = (start fields).keywords.ref := by
  rw [decode?] at read
  exact (decodeFields_frame read).1

def movedForm (source target : String) (raw : Json) : Json :=
  if (Reference.parse source).locator = (Reference.parse target).locator then raw
  else raw.mapRefs fun ref => Reference.qualify ref source

theorem qualifyRefs_movedForm {f g : Fragment} {raw : Json} {source target : String}
    (written : f.toJson? = some raw) (moved : qualifyRefs f source target = .ok g) :
    g = f ∧ movedForm source target raw = raw ∨ decode? (movedForm source target raw) = some g := by
  unfold qualifyRefs at moved
  unfold movedForm
  split at moved
  · rename_i same
    cases moved
    exact .inl ⟨rfl, if_pos same⟩
  · rename_i apart
    rw [if_neg apart]
    refine .inr ?_
    simp only [mapRefs?, written, Option.bind_eq_bind, Option.bind_some] at moved
    cases read : decode? (raw.mapRefs fun ref => Reference.qualify ref source) with
    | none =>
      rw [read] at moved
      cases moved
    | some out =>
      rw [read] at moved
      cases moved
      rfl

/-- A reference inside a fragment that moves from one place to another leads to where it led before
exactly if both places are in one document or the new one makes no difference to it. -/
theorem moved_reference_kept_iff {f g : Fragment} {raw : Json} {source target s : String}
    {path : List String} {fields : List (String × Json)} (written : f.toJson? = some raw)
    (moved : qualifyRefs f source target = .ok g)
    (inside : path.foldlM Json.step? raw = some (.obj fields))
    (found : fields.lookup "$ref" = some (.str s)) (spelled : Link.Spells s (Reference.parse s))
    (respelled : Link.Spells (Reference.qualify s source)
      ((Reference.parse s).resolveAgainst (Reference.parse source))) :
    (g = f ∧ movedForm source target raw = raw ∨ decode? (movedForm source target raw) = some g) ∧
    ∃ fields', path.foldlM Json.step? (movedForm source target raw) = some (.obj fields') ∧
      (∀ h, decode? (.obj fields') = some h → h.keywords.ref = (start fields').keywords.ref) ∧
      (start fields').isRef = true ∧
      (Reference.qualify (start fields').ref target = Reference.qualify s source ↔
        (Reference.parse source).locator = (Reference.parse target).locator ∨
          ((Reference.parse s).resolveAgainst (Reference.parse source)).Anchored
            (Reference.parse target)) := by
  refine ⟨qualifyRefs_movedForm written moved, ?_⟩
  by_cases same : (Reference.parse source).locator = (Reference.parse target).locator
  · rw [movedForm, if_pos same]
    obtain ⟨isRef, ref⟩ := start_ref found spelled
    have kept : Reference.qualify (start fields).ref target = Reference.qualify s source := by
      rw [Reference.qualify, ref, Reference.resolveAgainst_congr _ same.symm]
      rfl
    exact ⟨fields, inside, fun _ => decode_ref, isRef, fun _ => .inl same, fun _ => kept⟩
  · rw [movedForm, if_neg same]
    have rewritten : (Json.mapRefsFields (fun ref => Reference.qualify ref source) fields).lookup "$ref" =
        some (.str (Reference.qualify s source)) := by
      rw [lookup_mapRefsValue, found]
      rfl
    obtain ⟨isRef, ref⟩ := start_ref rewritten respelled
    have pointer := Reference.resolveAgainst_pointer
      ((Reference.parse s).resolveAgainst (Reference.parse source)) (Reference.parse target)
    refine ⟨_, Json.foldlM_step?_mapRefs _ inside, fun _ => decode_ref, isRef, ?_⟩
    -- the text is read as the qualified reference, which is then qualified once more
    rw [or_iff_right same, ← Reference.resolveAgainst_eq_self_iff, ← Reference.canonical_eq_iff pointer,
      Reference.qualify, ref]
    rfl

def linking (ref : String) : Fragment :=
  { properties := [("p", pointing ref)] }

theorem linking_toJson : (linking "#/X").toJson? =
    some (.obj [("properties", .obj [("p", .obj [("$ref", .str "#/X")])])]) := by
  with_unfolding_all rfl

theorem moved_reference_kept_iff_beside :
    qualifyRefs (linking "#/X") "e/a.json#/M" "b.json#/B" = .ok (linking "e/a.json#/X") ∧
      Reference.qualify (pointing "e/a.json#/X").ref "b.json#/B" = Reference.qualify "#/X" "e/a.json#/M" := by
  have moved : qualifyRefs (linking "#/X") "e/a.json#/M" "b.json#/B" = .ok (linking "e/a.json#/X") := by
    with_unfolding_all rfl
  have qualified : Reference.qualify "#/X" "e/a.json#/M" = "e/a.json#/X" := by decide
  have resolved : (Reference.parse "#/X").resolveAgainst (Reference.parse "e/a.json#/M") =
      Reference.parse "e/a.json#/X" := by decide
  have spelled : Link.Spells "#/X" (Reference.parse "#/X") :=
    Link.spells_parse (by decide) (by decide +kernel) (by decide) (by decide +kernel)
  have respelled : Link.Spells "e/a.json#/X" (Reference.parse "e/a.json#/X") :=
    Link.spells_parse (by decide) (by decide +kernel) (by decide) (by decide +kernel)
  have inside : ["properties", "p"].foldlM Json.step?
      (.obj [("properties", .obj [("p", .obj [("$ref", .str "#/X")])])]) =
        some (.obj [("$ref", .str "#/X")]) := rfl
  have anchored : (Reference.parse "e/a.json#/X").Anchored (Reference.parse "b.json#/B") := by
    decide +kernel
  obtain ⟨_, fields, place, read, _, kept⟩ := moved_reference_kept_iff linking_toJson moved inside rfl
    spelled (by rw [qualified, resolved]; exact respelled)
  have rewritten : some (Json.obj [("$ref", .str "e/a.json#/X")]) = some (.obj fields) := place
  cases rewritten
  have here : (pointing "e/a.json#/X").ref = (start [("$ref", .str "e/a.json#/X")]).ref := by
    rw [Fragment.ref, Fragment.ref, read (pointing "e/a.json#/X") rfl]
  rw [resolved] at kept
  rw [here]
  exact ⟨moved, kept.mpr (.inr anchored)⟩

/-- From a subdirectory the directory is entered twice: the reference that is followed is another
one. -/
theorem moved_reference_lost_below :
    qualifyRefs (linking "#/X") "d/e/a.json#/M" "d/b.json#/B" = .ok (linking "d/e/a.json#/X") ∧
      Reference.qualify "#/X" "d/e/a.json#/M" = "d/e/a.json#/X" ∧
      Reference.qualify (pointing "d/e/a.json#/X").ref "d/b.json#/B" = "d/d/e/a.json#/X" := by
  refine ⟨?_, by decide, by decide⟩
  with_unfolding_all rfl

end Model

end Typesmith
