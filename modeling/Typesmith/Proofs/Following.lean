import Typesmith.Proofs.Chaining
import Typesmith.Proofs.Escaping
import Typesmith.Proofs.Moving
import Typesmith.Proofs.Settling

namespace Typesmith

namespace Reference

open Text

def inside (pointer : List Char) : String :=
  String.ofList ('#' :: pointer)

theorem parse_inside (pointer : List Char) :
    parse (inside pointer) = ⟨"", String.ofList (rooted (slashes pointer))⟩ := by
  rw [inside, parse, String.toList_ofList]
  have parts : cut '#' ('#' :: pointer) = some ([], pointer) := cut_append List.not_mem_nil pointer
  rw [parts]
  rfl

theorem qualify_inside (pointer : List Char) (base : String) :
    qualify (inside pointer) base =
      (parse base).locator ++ "#" ++ String.ofList (rooted (slashes pointer)) := by
  rw [qualify, parse_inside]
  rfl

theorem normalize_qualify_inside (pointer : List Char) (base : String) :
    normalize (qualify (inside pointer) base) = qualify (inside pointer) base := by
  obtain ⟨whole, trimmed, _⟩ := parse_normal base
  obtain ⟨_, _, rooted⟩ := parse_normal (inside pointer)
  have normal : ((parse (inside pointer)).resolveAgainst (parse base)).Normal := by
    rw [parse_inside] at rooted ⊢
    exact ⟨whole, trimmed, rooted⟩
  rw [qualify, normalize, parse_canonical normal]

theorem length_rooted_le (pointer : List Char) :
    pointer.length ≤ (rooted pointer).length ∧ (rooted pointer).length ≤ pointer.length + 1 := by
  unfold rooted
  split
  · simp
  · split <;> simp

theorem qualify_inside_ne {pointer shorter : List Char} (less : shorter.length + 2 ≤ pointer.length)
    (base : String) : qualify (inside shorter) base ≠ qualify (inside pointer) base := by
  intro same
  rw [qualify_inside, qualify_inside] at same
  have letters := congrArg (fun s : String => s.toList.length) same
  have short := (length_rooted_le (slashes shorter)).2
  have long := (length_rooted_le (slashes pointer)).1
  simp only [slashes, List.length_map] at short long
  simp only [String.toList_append, List.length_append, String.toList_ofList, slashes] at letters
  omega

end Reference

namespace EntryPoint

/-- Where synthesis goes on that finds a reference at `ref`. -/
def Forwards (r : Resolver) (ref next : String) : Prop :=
  ∃ fields s, r.lookup ref = .ok (.obj fields) ∧ fields.lookup "$ref" = some (.str s) ∧
    next = Reference.qualify s ref

theorem followFrom_forwards {r : Resolver} {ref next : String} (forwards : Forwards r ref next)
    (start : String) (hops : Nat) :
    followFrom r.lookup start (hops + 1) ref = followFrom r.lookup start hops next :=
  followFrom_refers forwards start hops

end EntryPoint

namespace Link

theorem normalize?_inside_none {p : List Char} (unread : unescape? .fragment (Text.toBytes p) = none) :
    normalize? (Reference.inside p) = none := by
  have front : Text.toBytes ('#' :: p) = '#' :: Text.toBytes p := rfl
  rw [Reference.inside, normalize?, String.toList_ofList, front, read?_local, unread]
  rfl

end Link

namespace Resolver

theorem fragment_eq_ok_iff {r : Resolver} {ref : String} {fields : List (String × Json)} {f : Fragment}
    (found : r.lookup ref = .ok (.obj fields)) :
    r.fragment ref = .ok f ↔ Fragment.decode? (.obj fields) = some f := by
  rw [Resolver.fragment, found]
  cases read : Fragment.decode? (.obj fields) with
  | none => simp [bind, Except.bind, read]
  | some g => simp [bind, Except.bind, pure, Except.pure, read]

end Resolver

namespace Model

open Fragment Text Resolver

theorem decode?_lone (s : String) : decode? (.obj [("$ref", .str s)]) = some (start [("$ref", .str s)]) := by
  have other : Branch.ofKey "$ref" = none := by decide +kernel
  have kept : ∀ k : Keywords, setKeyword k "$ref" (.str s) = some k := fun _ => rfl
  rw [decode?, decodeFields.eq_4 _ _ _ _ (by simp) (by simp), other]
  simp only [kept]
  rfl

section

variable {fields : List (String × Json)} {p : List Char} {f : Fragment}

theorem ref_inside (refers : fields.lookup "$ref" = some (.str (Reference.inside p)))
    (read : decode? (.obj fields) = some f) :
    (Link.unescape? .fragment (toBytes p) = none ∧ f.isRef = false) ∨
      ∃ q, Link.unescape? .fragment (toBytes p) = some q ∧ f.isRef = true ∧
        ∀ base, Reference.qualify f.ref base = Reference.qualify (Reference.inside (ofBytes q)) base := by
  have text : f.keywords.ref = Link.normalize? (Reference.inside p) := by
    rw [decode_ref read]
    simp [start, refers, Json.str?]
  cases escapes : Link.unescape? .fragment (toBytes p) with
  | none =>
    rw [Link.normalize?_inside_none escapes] at text
    exact .inl ⟨rfl, by rw [isRef, text]; rfl⟩
  | some q =>
    obtain ⟨n, normal, target⟩ := Link.parse_target_local escapes
    rw [Reference.inside, normal] at text
    refine .inr ⟨q, rfl, by rw [isRef, text]; rfl, fun base => ?_⟩
    rw [Reference.qualify, Reference.qualify, Fragment.ref, text]
    exact congrArg (fun r => (Reference.resolveAgainst r (Reference.parse base)).canonical) target

theorem aliasTarget_inside (refers : fields.lookup "$ref" = some (.str (Reference.inside p)))
    (read : decode? (.obj fields) = some f) (isRef : f.isRef = true) (base : String) :
    aliasTarget f base = Reference.qualify f.ref base := by
  rcases ref_inside refers read with ⟨_, noRef⟩ | ⟨q, _, _, target⟩
  · rw [isRef] at noRef
    cases noRef
  · rw [aliasTarget, target base, Reference.normalize_qualify_inside]

theorem qualify_unescape?_iff {q : List Char} (escapes : Link.unescape? .fragment (toBytes p) = some q)
    (base : String) :
    Reference.qualify (Reference.inside (ofBytes q)) base = Reference.qualify (Reference.inside p) base ↔
      '%' ∉ p := by
  constructor
  · intro same marked
    have marks : 0 < p.count '%' := List.count_pos_iff.mpr marked
    have shorter := Link.length_unescape? (by decide) escapes
    exact Reference.qualify_inside_ne (by omega) base same
  · intro unmarked
    have free : '%' ∉ toBytes p := fun inside => unmarked ((mem_toBytes_ascii (by decide)).mp inside)
    rw [Link.unescape?_eq (by decide) free] at escapes
    cases escapes
    rw [ofBytes_toBytes]

theorem forwards_inside_iff {r : Resolver} {base next : String} (found : r.lookup base = .ok (.obj fields))
    (refers : fields.lookup "$ref" = some (.str (Reference.inside p))) :
    EntryPoint.Forwards r base next ↔ next = Reference.qualify (Reference.inside p) base := by
  constructor
  · rintro ⟨others, s, same, text, rfl⟩
    rw [found] at same
    cases same
    rw [refers] at text
    cases text
    rfl
  · rintro rfl
    exact ⟨fields, _, found, refers, rfl⟩

theorem leads_inside_iff {cfg : Setting} {base next : String}
    (found : cfg.resolver.lookup base = .ok (.obj fields))
    (refers : fields.lookup "$ref" = some (.str (Reference.inside p))) :
    Leads cfg base next ↔
      ∃ f, decode? (.obj fields) = some f ∧ f.isRef = true ∧ next = Reference.qualify f.ref base := by
  constructor
  · rintro ⟨f, resolved, isRef, rfl⟩
    have read := (fragment_eq_ok_iff found).mp resolved
    exact ⟨f, read, isRef, aliasTarget_inside refers read isRef base⟩
  · rintro ⟨f, read, isRef, rfl⟩
    have resolved := (fragment_eq_ok_iff found).mpr read
    exact ⟨f, resolved, isRef, (aliasTarget_inside refers read isRef base).symm⟩

end

/-- A reference inside its document, found at `base`: synthesis goes on to the place that is written,
conversion to the place that the fragment names, and these are one place exactly if there is no percent
sign in the text. -/
theorem forwards_leads_iff {cfg : Setting} {base : String} {fields : List (String × Json)} {p : List Char}
    (found : cfg.resolver.lookup base = .ok (.obj fields))
    (refers : fields.lookup "$ref" = some (.str (Reference.inside p))) :
    (∀ next, EntryPoint.Forwards cfg.resolver base next ↔
      next = Reference.qualify (Reference.inside p) base) ∧
    (∀ start hops, EntryPoint.followFrom cfg.resolver.lookup start (hops + 1) base =
      EntryPoint.followFrom cfg.resolver.lookup start hops
        (Reference.qualify (Reference.inside p) base)) ∧
    (∀ next, Leads cfg base next ↔
      ∃ f, decode? (.obj fields) = some f ∧ f.isRef = true ∧ next = Reference.qualify f.ref base) ∧
    (∀ f, decode? (.obj fields) = some f →
      (f.isRef = true ∧ Reference.qualify f.ref base = Reference.qualify (Reference.inside p) base ↔
        '%' ∉ p)) ∧
    (decode? (.obj [("$ref", .str (Reference.inside p))])).isSome = true := by
  refine ⟨fun _ => forwards_inside_iff found refers,
    EntryPoint.followFrom_forwards ((forwards_inside_iff found refers).mpr rfl),
    fun _ => leads_inside_iff found refers, ?_, ?_⟩
  · intro f read
    rcases ref_inside refers read with ⟨unread, isRef⟩ | ⟨q, escapes, isRef, target⟩
    · constructor
      · rintro ⟨known, _⟩
        rw [isRef] at known
        cases known
      · intro unmarked
        have free : '%' ∉ toBytes p := fun inside => unmarked ((mem_toBytes_ascii (by decide)).mp inside)
        rw [Link.unescape?_eq (by decide) free] at unread
        cases unread
    · rw [target base, qualify_unescape?_iff escapes]
      exact and_iff_right isRef
  · rw [decode?_lone]
    rfl

def spaced : Setting where
  resolver :=
    { root := .obj [("plain", .obj [("$ref", .str "#/a b")]), ("escaped", .obj [("$ref", .str "#/a%20b")]),
        ("a b", .obj [("type", .str "object")])] }

theorem forwards_leads_iff_plain :
    spaced.resolver.lookup "#/plain" = .ok (.obj [("$ref", .str (Reference.inside "/a b".toList))]) ∧
      EntryPoint.Forwards spaced.resolver "#/plain" "#/a b" ∧ Leads spaced "#/plain" "#/a b" := by
  have found : spaced.resolver.lookup "#/plain" =
      .ok (.obj [("$ref", .str (Reference.inside "/a b".toList))]) := by rfl
  obtain ⟨forwards, _, leads, agree, _⟩ := forwards_leads_iff found rfl
  have read := decode?_lone (Reference.inside "/a b".toList)
  obtain ⟨isRef, same⟩ := (agree _ read).mpr (by decide)
  have place : Reference.qualify (Reference.inside "/a b".toList) "#/plain" = "#/a b" := by decide +kernel
  exact ⟨found, (forwards _).mpr place.symm, (leads _).mpr ⟨_, read, isRef, (same.trans place).symm⟩⟩

/-- Conversion reads the escape and finds the place, synthesis does not and stops. -/
theorem forwards_leads_escaped :
    EntryPoint.Forwards spaced.resolver "#/escaped" "#/a%20b" ∧ Leads spaced "#/escaped" "#/a b" ∧
      ¬ Leads spaced "#/escaped" "#/a%20b" ∧
      (EntryPoint.followFrom spaced.resolver.lookup "#/escaped" EntryPoint.maxHops
        "#/escaped").toOption.isNone ∧
      (spaced.resolver.fragment "#/a b").toOption.isSome = true := by
  have found : spaced.resolver.lookup "#/escaped" =
      .ok (.obj [("$ref", .str (Reference.inside "/a%20b".toList))]) := by rfl
  have read := decode?_lone (Reference.inside "/a%20b".toList)
  have place : Reference.qualify (Reference.inside "/a%20b".toList) "#/escaped" = "#/a%20b" := by
    decide +kernel
  have target : Reference.qualify (start [("$ref", .str (Reference.inside "/a%20b".toList))]).ref
      "#/escaped" = "#/a b" := by
    decide +kernel
  refine ⟨(forwards_inside_iff found rfl).mpr place.symm, ?_, ?_, ?_, ?_⟩
  · exact (leads_inside_iff found rfl).mpr ⟨_, read, by decide +kernel, target.symm⟩
  · rintro leads
    obtain ⟨f, same, _, next⟩ := (leads_inside_iff found rfl).mp leads
    rw [read] at same
    cases same
    rw [target] at next
    exact absurd next (by decide)
  · decide +kernel
  · decide +kernel

end Model

end Typesmith
