import Typesmith.Proofs.Completeness
import Typesmith.Proofs.Identity
import Typesmith.Proofs.Referring

namespace Typesmith.Json

theorem exists_obj_of_same {j : Json} {fields : List (String × Json)}
    (equal : j.same (.obj fields) = true) : ∃ l, j = .obj l ∧ sameFields l fields = true := by
  cases j <;> simp_all [same]

theorem exists_arr_of_same {j : Json} {items : List Json} (equal : j.same (.arr items) = true) :
    ∃ l, j = .arr l ∧ sameItems l items = true := by
  cases j <;> simp_all [same]

theorem keys_of_sameFields {a b : List (String × Json)} (equal : sameFields a b = true) :
    keys a = keys b := by
  induction a generalizing b with
  | nil => cases b <;> simp_all [sameFields]
  | cons field rest ih =>
    cases b with
    | nil => simp [sameFields] at equal
    | cons other others =>
      simp only [sameFields, Bool.and_eq_true, beq_iff_eq] at equal
      rw [keys_cons, keys_cons, equal.1.1, ih equal.2]

theorem lookup_of_sameFields {a b : List (String × Json)} (equal : sameFields a b = true)
    {key : String} {w : Json} (found : b.lookup key = some w) :
    ∃ v, a.lookup key = some v ∧ v.same w = true := by
  induction a generalizing b with
  | nil => cases b <;> simp_all [sameFields]
  | cons field rest ih =>
    cases b with
    | nil => simp at found
    | cons other others =>
      obtain ⟨name, v⟩ := field
      obtain ⟨name', v'⟩ := other
      simp only [sameFields, Bool.and_eq_true, beq_iff_eq] at equal
      obtain ⟨⟨rfl, first⟩, tail⟩ := equal
      by_cases here : key = name
      · subst here
        simp only [List.lookup_cons, beq_self_eq_true, Option.some.injEq] at found ⊢
        subst found
        exact ⟨v, rfl, first⟩
      · rw [lookup_cons_ne here] at found ⊢
        exact ih tail found

theorem str_mem_of_sameItems {a b : List Json} (equal : sameItems a b = true) {s : String}
    (member : .str s ∈ b) : .str s ∈ a := by
  induction a generalizing b with
  | nil => cases b <;> simp_all [sameItems]
  | cons j rest ih =>
    cases b with
    | nil => cases member
    | cons other others =>
      simp only [sameItems, Bool.and_eq_true] at equal
      rcases List.mem_cons.mp member with rfl | later
      · rw [eq_str_of_same equal.1]
        exact List.mem_cons_self
      · exact List.mem_cons_of_mem _ (ih equal.2 later)

end Typesmith.Json

namespace Typesmith.Fragment

open Json (keys)

theorem Declares.of_same {a b : List (String × Json)} (equal : Json.sameFields a b = true)
    {name : String} (declares : Declares b name) : Declares a name := by
  obtain ⟨l, found, member⟩ := declares
  obtain ⟨v, stored, value⟩ := Json.lookup_of_sameFields equal found
  obtain ⟨own, rfl, fields⟩ := Json.exists_obj_of_same value
  exact ⟨own, stored, by rwa [Json.keys_of_sameFields fields]⟩

theorem Requires.of_same {a b : List (String × Json)} (equal : Json.sameFields a b = true)
    {name : String} (requires : Requires b name) : Requires a name := by
  obtain ⟨l, found, member⟩ := requires
  obtain ⟨v, stored, value⟩ := Json.lookup_of_sameFields equal found
  obtain ⟨own, rfl, items⟩ := Json.exists_arr_of_same value
  exact ⟨own, stored, Json.str_mem_of_sameItems items member⟩

/-- A fragment that subsumes another one has its properties and required names: what is added to it
leaves its generic form as it is. -/
theorem includes_of_subsumes {s extra : Fragment} (plain : Plain s) (unmistakable : Unmistakable s)
    (plain' : Plain extra) (unmistakable' : Unmistakable extra)
    (subsumes : s.subsumes? extra = some true) :
    (∀ name ∈ keys extra.properties, name ∈ keys s.properties) ∧
      ∀ name ∈ extra.keywords.required, name ∈ s.keywords.required := by
  simp only [subsumes?, Option.bind_eq_bind, Option.bind_eq_some_iff, Option.pure_def,
    Option.some.injEq] at subsumes
  obtain ⟨merged, joined, want, own, got, both, equal⟩ := subsumes
  have parts : ∀ part ∈ [extra, s], Plain part ∧ Unmistakable part := by
    simp [plain, unmistakable, plain', unmistakable']
  obtain ⟨names, required, _⟩ := merge_names (fun f member => (parts f member).1)
    (fun f member => (parts f member).2) joined
  have clean : Plain merged := by
    intro name declared
    obtain ⟨part, member, inside⟩ := (names name).mp declared
    exact (parts part member).1 name inside
  have clear := merge_unmistakable (fun f member => (parts f member).1)
    (fun f member => (parts f member).2) joined
  obtain ⟨wanted, rfl, _, declares, requires, _⟩ := toJson_orderly plain unmistakable own
  obtain ⟨gotten, rfl, _, declares', requires', _⟩ := toJson_orderly clean clear both
  have fields : Json.sameFields wanted gotten = true := by simpa [Json.same] using equal
  refine ⟨?_, ?_⟩
  · intro name declared
    have inMerged := (names name).mpr ⟨extra, by simp, declared⟩
    exact (declares name).mp (((declares' name).mpr inMerged).of_same fields)
  · intro name listed
    have inMerged := required extra (by simp) name listed
    exact (requires name).mp (((requires' name).mpr inMerged).of_same fields)

end Typesmith.Fragment

namespace Typesmith.Model

open Fragment
open Json (keys)

/-- The fragment that is converted in the end for one found at a place: itself, or what the reference
in it leads to. -/
inductive ComesTo (cfg : Setting) : Fragment → String → Fragment → Prop
  | here {f : Fragment} {base : String} (isRef : f.isRef = false) : ComesTo cfg f base f
  | follow {f g h : Fragment} {base : String} (isRef : f.isRef = true)
      (resolved : cfg.resolver.fragment (aliasTarget f base) = .ok g)
      (rest : ComesTo cfg g (aliasTarget f base) h) : ComesTo cfg f base h

inductive Stands (cfg : Setting) (base : String) (member : Fragment) : Fragment → Prop
  | itself (isRef : member.isRef = false) : Stands cfg base member member
  | named {g : Fragment} (isRef : member.isRef = true)
      (resolved : cfg.resolver.fragment (Reference.qualify member.ref base) = .ok g) :
      Stands cfg base member g

section

variable {cfg : Setting} {base : String}

theorem ComesTo.unique {f g h : Fragment} (first : ComesTo cfg f base g)
    (second : ComesTo cfg f base h) : g = h := by
  induction first with
  | here isRef =>
    cases second with
    | here => rfl
    | follow other => simp [isRef] at other
  | follow isRef resolved _ ih =>
    cases second with
    | here other => simp [isRef] at other
    | follow _ resolved' rest =>
      rw [resolved] at resolved'
      cases resolved'
      exact ih rest

theorem stands_of_resolveMember {member target : Fragment}
    (run : resolveMember cfg member base = .ok target) :
    ∃ g source, Stands cfg base member g ∧ qualifyRefs g source base = .ok target := by
  unfold resolveMember at run
  split at run
  · rename_i isRef
    obtain ⟨g, resolved, qualified⟩ := except_bind_ok.mp run
    exact ⟨g, _, .named isRef (fragment_of_resolve resolved), qualified⟩
  · rename_i isRef
    cases run
    refine ⟨member, base, .itself (Bool.not_eq_true _ ▸ isRef), ?_⟩
    simp [qualifyRefs]

theorem orFail_ok {α : Type} {e : Failure} {x : Option α} {a : α} :
    orFail e x = .ok a ↔ x = some a := by
  cases x <;> simp [orFail]

/-- The fragment of an alternative is the member whose target says it all, or a merge. -/
theorem alternative_cases {common member branch : Fragment} (structured : common.hasStructure = true)
    (run : alternative cfg common member base = .ok branch) :
    ∃ target, resolveMember cfg member base = .ok target ∧
      ((member.isRef = true ∧ target.subsumes? (constraints common) = some true ∧ branch = member) ∨
        merge? [constraints common, target] = some branch) := by
  unfold alternative at run
  rw [if_pos structured] at run
  obtain ⟨target, resolved, rest⟩ := except_bind_ok.mp run
  refine ⟨target, resolved, ?_⟩
  dsimp only at rest
  split at rest
  · rename_i isRef
    obtain ⟨covered, asked, chosen⟩ := except_bind_ok.mp rest
    cases covered with
    | false => exact .inr (orFail_ok.mp chosen)
    | true =>
      cases chosen
      exact .inl ⟨isRef, orFail_ok.mp asked, rfl⟩
  · exact .inr (orFail_ok.mp rest)

theorem constraints_unmistakable {common : Fragment} (unmistakable : Unmistakable common) :
    Unmistakable (constraints common) := by
  intro kv member
  refine unmistakable kv ?_
  rcases List.mem_append.mp member with extension | extra
  · exact List.mem_append_left _ extension
  · exact List.mem_append_right _ (List.mem_of_mem_filter extra)

theorem Stands.eq_of_plain {member g : Fragment} (stands : Stands cfg base member g)
    (isRef : member.isRef = false) : g = member := by
  cases stands with
  | itself => rfl
  | named some => simp [isRef] at some

theorem Stands.eq_of_resolve {member g h : Fragment} (stands : Stands cfg base member g)
    (isRef : member.isRef = true)
    (resolved : cfg.resolver.fragment (Reference.qualify member.ref base) = .ok h) : g = h := by
  cases stands with
  | itself none => simp [isRef] at none
  | named _ found =>
    rw [resolved] at found
    cases found
    rfl

theorem Stands.comesTo {member g : Fragment} (stands : Stands cfg base member g)
    (isRef : g.isRef = false) : ComesTo cfg member base g := by
  cases stands with
  | itself none => exact .here none
  | named some resolved => exact .follow some (Resolver.fragment_normalize.mpr resolved) (.here isRef)

/-- The branch of a member comes to a fragment that says what the common part says and what the
member stands for. -/
theorem alternative_includes {common member branch : Fragment} (isRef : common.isRef = false)
    (plain : Plain common) (unmistakable : Unmistakable common)
    (structured : common.hasStructure = true)
    (run : alternative cfg common member base = .ok branch) :
    ∃ g, Stands cfg base member g ∧ (g.isRef = false → Plain g → Unmistakable g →
      ∃ h, ComesTo cfg branch base h ∧ Includes h common ∧ Includes h g) := by
  obtain ⟨target, resolved, chosen⟩ := alternative_cases structured run
  obtain ⟨g, source, stands, qualified⟩ := stands_of_resolveMember resolved
  refine ⟨g, stands, ?_⟩
  intro none plainG clearG
  obtain ⟨plainT, clearT, names, required, isRefT⟩ := qualifyRefs_keeps plainG clearG qualified
  have clear := constraints_unmistakable unmistakable
  rcases chosen with ⟨_, subsumes, rfl⟩ | merged
  · have plain' : Plain (constraints common) := plain
    obtain ⟨declared, listed⟩ := includes_of_subsumes plainT clearT plain' clear subsumes
    refine ⟨g, stands.comesTo none, ⟨?_, ?_⟩, ⟨fun _ => id, fun _ => id⟩⟩
    · exact fun name member => (names name).mp (declared name member)
    · rw [← required]
      exact listed
  · have parts : ∀ part ∈ [constraints common, target],
        Plain part ∧ Unmistakable part ∧ part.isRef = false := by
      simp only [List.mem_cons, List.not_mem_nil, or_false, forall_eq_or_imp, forall_eq]
      exact ⟨⟨plain, clear, isRef⟩, plainT, clearT, isRefT none⟩
    obtain ⟨all, each, reference⟩ := merge_names (fun part member => (parts part member).1)
      (fun part member => (parts part member).2.1) merged
    refine ⟨branch, .here (reference fun part member => (parts part member).2.2), ⟨?_, ?_⟩, ⟨?_, ?_⟩⟩
    · exact fun name member => (all name).mpr ⟨constraints common, by simp, member⟩
    · exact each (constraints common) (by simp)
    · exact fun name member => (all name).mpr ⟨target, by simp, (names name).mpr member⟩
    · rw [← required]
      exact each target (by simp)

/-- Every branch of a `oneOf` or an `anyOf` comes to a fragment that declares and requires what the
common part does and what the member does, unless the member refers to another reference. -/
theorem alternatives_include_common {depth : Nat} {c : Combinator} {f : Fragment} {o : Options}
    {members branches : List Fragment} {s t : Store} (other : c ≠ .allOf) (isRef : f.isRef = false)
    (plain : Plain f) (unmistakable : Unmistakable f) (structured : f.commonPart.hasStructure = true)
    (run : Returns (branchFragments cfg depth c f members o) s branches t) :
    List.Forall₂ (fun member branch => ∃ g, Stands cfg o.base member g ∧
      (g.isRef = false → Plain g → Unmistakable g →
        ∃ h, ComesTo cfg branch o.base h ∧ Includes h f.commonPart ∧ Includes h g)) members branches := by
  have lifted : Returns (liftM (members.mapM fun member => alternative cfg f.commonPart member o.base))
      s branches t := by
    cases c with
    | allOf => exact absurd rfl other
    | oneOf => exact run
    | anyOf => exact run
  obtain ⟨chosen, _⟩ := returns_lift.mp lifted
  have common : f.commonPart.isRef = false ∧ Plain f.commonPart ∧ Unmistakable f.commonPart :=
    ⟨isRef, plain, unmistakable⟩
  exact (mapM_ok_iff.mp chosen).imp fun _ _ =>
    alternative_includes common.1 common.2.1 common.2.2 structured

end

def needing (name : String) : Fragment :=
  { keywords := { required := [name] } }

def choosing : Setting where
  resolver :=
    { root := .obj [
        ("A", .obj [("properties", .obj [("x", .obj [])]), ("required", .arr [.str "x"]),
          ("oneOf", .arr [.obj [("properties", .obj [("y", .obj [])])],
            .obj [("$ref", .str "#/B")], .obj [("$ref", .str "#/C")]])]),
        ("B", .obj [("properties", .obj [("x", .obj [])]), ("required", .arr [.str "x", .str "z"])]),
        ("C", .obj [("required", .arr [.str "w"])])] }

def choosingA : Fragment :=
  { keywords := { required := ["x"] }, properties := [("x", {})]
    oneOf := [single "y", pointing "#/B", pointing "#/C"] }

def choosingB : Fragment :=
  { keywords := { required := ["x", "z"] }, properties := [("x", {})] }

theorem choosing_resolve : choosing.resolver.fragment "#/A" = .ok choosingA ∧
    choosing.resolver.fragment "#/B" = .ok choosingB ∧
    choosing.resolver.fragment "#/C" = .ok (needing "w") :=
  ⟨rfl, rfl, rfl⟩

theorem alternatives_include_common_choosing :
    ∃ first second third t, Returns (branchFragments choosing firstDepth .oneOf choosingA
        choosingA.oneOf { base := "#/A" }) {} [first, second, third] t ∧
      [first, second, third].map isRef = [false, true, false] ∧
      (∃ h, ComesTo choosing first "#/A" h ∧ Includes h choosingA.commonPart ∧ Includes h (single "y")) ∧
      (∃ h, ComesTo choosing second "#/A" h ∧ Includes h choosingA.commonPart ∧ Includes h choosingB) ∧
      ∃ h, ComesTo choosing third "#/A" h ∧ Includes h choosingA.commonPart ∧
        Includes h (needing "w") := by
  have kinds : ((exec (branchFragments choosing firstDepth .oneOf choosingA
      choosingA.oneOf { base := "#/A" }) {}).1.toOption.map fun branches => branches.map isRef) =
        some [false, true, false] := by
    decide +kernel
  rcases run : exec (branchFragments choosing firstDepth .oneOf choosingA
    choosingA.oneOf { base := "#/A" }) {} with ⟨_ | branches, t⟩
  · rw [run] at kinds
    cases kinds
  have all := alternatives_include_common (by decide) rfl (by unfold Plain; decide)
    (by simp [Unmistakable, choosingA]) (by decide) run
  have known : ∀ g ∈ [single "y", choosingB, needing "w"],
      g.isRef = false ∧ Plain g ∧ Unmistakable g := by
    simp only [List.mem_cons, List.not_mem_nil, or_false, forall_eq_or_imp, forall_eq]
    refine ⟨⟨rfl, ?_, ?_⟩, ⟨rfl, ?_, ?_⟩, rfl, ?_, ?_⟩
    all_goals simp [Plain, Unmistakable, single, choosingB, needing, isPlainName]
  have toB : Reference.qualify (pointing "#/B").ref "#/A" = "#/B" := by decide
  have toC : Reference.qualify (pointing "#/C").ref "#/A" = "#/C" := by decide
  simp only [choosingA, List.forall₂_cons_left_iff, List.forall₂_nil_left_iff] at all
  obtain ⟨first, _, ⟨g, own, atFirst⟩, ⟨second, _, ⟨g', named, atSecond⟩, ⟨third, _, ⟨g'', named', atThird⟩,
    rfl, rfl⟩, rfl⟩, rfl⟩ := all
  obtain rfl := own.eq_of_plain rfl
  obtain rfl := named.eq_of_resolve rfl (by rw [toB]; exact choosing_resolve.2.1)
  obtain rfl := named'.eq_of_resolve rfl (by rw [toC]; exact choosing_resolve.2.2)
  obtain ⟨notRef, plain, clear⟩ := known (single "y") (by simp)
  obtain ⟨notRef', plain', clear'⟩ := known choosingB (by simp)
  obtain ⟨notRef'', plain'', clear''⟩ := known (needing "w") (by simp)
  exact ⟨first, second, third, t, run, by simpa [run, Except.toOption] using kinds,
    atFirst notRef plain clear, atSecond notRef' plain' clear', atThird notRef'' plain'' clear''⟩

def forwarding : Setting where
  resolver :=
    { root := .obj [
        ("A", .obj [("properties", .obj [("x", .obj [])]),
          ("oneOf", .arr [.obj [("$ref", .str "#/B")]])]),
        ("B", .obj [("$ref", .str "#/C")]),
        ("C", .obj [("properties", .obj [("y", .obj [])])])] }

def forwardingA : Fragment :=
  { properties := [("x", {})], oneOf := [pointing "#/B"] }

/-- The reference stays in the branch beside the common property, and what is converted is the
fragment at its end alone. -/
theorem common_lost_forwarding :
    forwarding.resolver.fragment "#/A" = .ok forwardingA ∧
    forwardingA.commonPart.hasStructure = true ∧ "x" ∈ keys forwardingA.commonPart.properties ∧
    ∃ branch t, Returns (branchFragments forwarding firstDepth .oneOf forwardingA forwardingA.oneOf
        { base := "#/A" }) {} [branch] t ∧
      ComesTo forwarding branch "#/A" (single "y") ∧
      ∀ h, ComesTo forwarding branch "#/A" h → "x" ∉ keys h.properties := by
  have merged : ((exec (branchFragments forwarding firstDepth .oneOf forwardingA
      forwardingA.oneOf { base := "#/A" }) {}).1.toOption.map fun bs => bs.map fun b =>
        (b.isRef, b.ref)) = some [(true, "#/C")] := by
    decide +kernel
  refine ⟨rfl, by decide, by decide, ?_⟩
  rcases run : exec (branchFragments forwarding firstDepth .oneOf forwardingA
    forwardingA.oneOf { base := "#/A" }) {} with ⟨_ | branches, t⟩
  · rw [run] at merged
    cases merged
  simp only [run, Except.toOption, Option.map_some, Option.some.injEq, List.map_eq_singleton_iff,
    Prod.mk.injEq] at merged
  obtain ⟨branch, rfl, isRef, ref⟩ := merged
  have target : aliasTarget branch "#/A" = "#/C" := by
    rw [aliasTarget, ref]
    decide
  have comes : ComesTo forwarding branch "#/A" (single "y") :=
    .follow isRef (by rw [target]; rfl) (.here rfl)
  refine ⟨branch, t, run, comes, ?_⟩
  intro h other
  rw [← comes.unique other]
  decide

end Typesmith.Model
