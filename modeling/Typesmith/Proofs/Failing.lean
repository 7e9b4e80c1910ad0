import Typesmith.Proofs.Finishing
import Typesmith.Proofs.Settling

namespace Typesmith.Model

open Fragment

section

variable {cfg : Setting} {f : Fragment}

/-- The fragment whose kind decides what is stored for a fragment: several types are a union. -/
def entered (f : Fragment) : Fragment :=
  if isMultiType (stripped f) then stripped (typesUnion (stripped f) (keepsNull f)) else stripped f

def Storable (cfg : Setting) (f : Fragment) : Prop :=
  ∃ raw, (entered f).toJson? = some raw ∧ (kindOf cfg raw = .someOf → (entered f).combinator? ≠ none)

/-- Why nothing is stored for a fragment under a reference. -/
inductive Refuses (cfg : Setting) (f : Fragment) (ref : String) : Failure → Prop
  | unwritten (unwritten : (entered f).toJson? = none) :
      Refuses cfg f ref (.fault (Fault.ofReference ref "encoding fragment" (some unwritableText)))
  | hollow {raw : Json} (written : (entered f).toJson? = some raw) (someOf : kindOf cfg raw = .someOf)
      (hollow : (entered f).combinator? = none) :
      Refuses cfg f ref (.fault (Fault.ofCombinator ref (entered f).compact))

theorem Refuses.not_storable {ref : String} {e : Failure} (refuses : Refuses cfg f ref e) :
    ¬ Storable cfg f := by
  rintro ⟨raw, written, chosen⟩
  cases refuses with
  | unwritten unwritten =>
    rw [unwritten] at written
    cases written
  | hollow again someOf hollow =>
    rw [written] at again
    cases again
    exact chosen someOf hollow

theorem Refuses.of_entered {g : Fragment} {ref : String} {e : Failure} (refuses : Refuses cfg f ref e)
    (same : entered f = entered g) : Refuses cfg g ref e := by
  cases refuses with
  | unwritten unwritten =>
    rw [same] at unwritten
    exact .unwritten unwritten
  | hollow written someOf hollow =>
    rw [same] at written hollow ⊢
    exact .hollow written someOf hollow

theorem storable_of_fewer {raw : Json} {n : Nat} (written : (entered f).toJson? = some raw)
    (fewer : n < partCount (kindOf cfg raw) (entered f)) : Storable cfg f := by
  refine ⟨raw, written, ?_⟩
  intro someOf hollow
  rw [someOf] at fewer
  simp only [partCount, hollow] at fewer
  exact Nat.not_lt_zero _ fewer

theorem entered_union (nullable : Bool) :
    entered (typesUnion f nullable) = stripped (typesUnion f nullable) := by
  have single : isMultiType (stripped (typesUnion f nullable)) = false :=
    isMultiType_stripped (Nat.zero_le 1)
  rw [entered, single]
  rfl

theorem entered_single (single : isMultiType (stripped f) = false) : entered f = stripped f := by
  rw [entered, single]
  rfl

end

/-- What is left of a fragment under a reference when converting it has failed: a descriptor in the index
that is not finished, or nothing. -/
def Left (cfg : Setting) (known : List (String × Container)) (e : Failure) (t : Store) (ref : String)
    (f : Fragment) : Prop :=
  (Storable cfg f ∧ ∃ c, t.lookup? ref = some c ∧ ∃ i ∈ c, ∃ d, t.get? i = some d ∧ d.Unfinished) ∨
  (Refuses cfg f ref e ∧ t.index = known)

theorem Left.of_entered {cfg : Setting} {known : List (String × Container)} {e : Failure} {t : Store}
    {ref : String} {f g : Fragment} (left : Left cfg known e t ref f) (same : entered f = entered g) :
    Left cfg known e t ref g := by
  rcases left with ⟨⟨raw, written, chosen⟩, unfinished⟩ | ⟨refuses, nothing⟩
  · rw [same] at written chosen
    exact .inl ⟨⟨raw, written, chosen⟩, unfinished⟩
  · exact .inr ⟨refuses.of_entered same, nothing⟩

/-- How a request for a reference has failed that was not in the index: it names nothing, it names a
fragment of which something is left, or a reference for which the same holds. -/
inductive Abandoned (cfg : Setting) (known : List (String × Container)) (e : Failure) (t : Store) :
    String → Prop
  | unresolved {ref : String} (absent : known.lookup ref = none) (unresolved : resolve cfg ref = .error e)
      (same : t.index = known) : Abandoned cfg known e t ref
  | converted {ref name : String} {f : Fragment} (absent : known.lookup ref = none)
      (resolved : cfg.resolver.fragment ref = .ok f) (held : t.names.lookup? ref = some name)
      (kept : cfg.overrides.lookup name = none) (isRef : f.isRef = false)
      (left : Left cfg known e t ref f) : Abandoned cfg known e t ref
  | followed {ref name : String} {f : Fragment} (absent : known.lookup ref = none)
      (resolved : cfg.resolver.fragment ref = .ok f) (held : t.names.lookup? ref = some name)
      (kept : cfg.overrides.lookup name = none) (isRef : f.isRef = true)
      (next : Abandoned cfg known e t (aliasTarget f ref)) : Abandoned cfg known e t ref

def Fails (cfg : Setting) : Halts := fun f o s e t =>
  e ≠ .tooDeep → Consistent cfg s → (o.ref ≠ "" → Fits cfg f o s) →
    Consistent cfg t ∧ Grows s t ∧ (o.ref ≠ "" →
      (f.isRef = true → Abandoned cfg s.index e t (aliasTarget f o.ref)) ∧
      (f.isRef = false → Left cfg s.index e t o.ref f))

section

variable {cfg : Setting} {s t : Store} {e : Failure}

theorem Settles.underway {base : String} {kind : Kind} {f : Fragment} {o : Options} {nullable : Bool}
    {gs : List Fragment} {cs : List Container} {start : Store}
    (each : Each (Settles cfg) base (noted kind f start.descriptors.size) gs []
      (claimed (opening kind f o) nullable start) cs t)
    (opened : Consistent cfg (claimed (opening kind f o) nullable start)) :
    Consistent cfg t ∧ Grows start t ∧ (claimed (opening kind f o) nullable start).index <:+ t.index ∧
      Underway start.descriptors.size kind f cs t := by
  refine each.collects (fun cs t => Consistent cfg t ∧ Grows start t ∧
    (claimed (opening kind f o) nullable start).index <:+ t.index ∧
      Underway start.descriptors.size kind f cs t) ?_ ?_
  · rintro g hint cs u c v inside ⟨consistent, grows, log, underway⟩
    obtain ⟨after, more, _⟩ := inside consistent (fun named => absurd rfl named)
    have touches := noted_touches kind f start.descriptors.size (cs ++ [c]) v
    refine ⟨after.touches touches, (grows.trans more).touches (Nat.le_refl _) touches, ?_,
      (underway.grows more).noted c⟩
    rw [touches.index]
    exact log.trans more.log
  · obtain ⟨fragment, shape⟩ := opening_shape kind f o
    exact ⟨opened, grows_claimed _ _ _, List.suffix_rfl, _, get?_claimed _ _ _, fragment, shape⟩

theorem left_of_underway {kind : Kind} {f : Fragment} {o : Options} {nullable : Bool} {cs : List Container}
    {start m : Store} (consistent : Consistent cfg t)
    (log : (claimed (opening kind f o) nullable start).index <:+ m.index)
    (underway : Underway start.descriptors.size kind f cs m) (fewer : cs.length < partCount kind f)
    (grows : Grows m t) (named : o.ref ≠ "") :
    ∃ c, t.lookup? o.ref = some c ∧ ∃ i ∈ c, ∃ d, t.get? i = some d ∧ d.Unfinished := by
  have present : (claimed (opening kind f o) nullable start).lookup? o.ref =
      some (claimedContainer nullable start) := by
    have held := lookup?_claimed start (d := opening kind f o) nullable
    rw [opening_ref] at held
    exact held named
  refine ⟨_, consistent.lookup?_of_suffix (log.trans grows.log) present, start.descriptors.size, ?_,
    (underway.grows grows).unfinished fewer⟩
  unfold claimedContainer
  split <;> exact List.mem_cons_self

theorem Fails.built {raw : Json} {f : Fragment} {o : Options} {nullable : Bool}
    (built : BuiltStops cfg (Settles cfg) (Fails cfg) (kindOf cfg raw) (entered f) o nullable s e t)
    (ends : e ≠ .tooDeep) (written : (entered f).toJson? = some raw) (consistent : Consistent cfg s)
    (fits : o.ref ≠ "" → s.lookup? o.ref = none ∧
      ∀ g, cfg.resolver.fragment o.ref = .ok g → g.isRef = false) :
    Consistent cfg t ∧ Grows s t ∧ (o.ref ≠ "" → Left cfg s.index e t o.ref f) := by
  cases built with
  | hollow someOf hollow =>
    exact ⟨consistent, .refl s, fun _ => .inr ⟨.hollow written someOf hollow, rfl⟩⟩
  | unprepared quiet fewer each own =>
    obtain ⟨after, grown, log, underway⟩ := Settles.underway each (consistent.opened quiet _ _ _ _ fits)
    rw [← each.length_nil] at fewer
    refine ⟨after, quiet.grows.trans grown, fun named => .inl ⟨storable_of_fewer written fewer, ?_⟩⟩
    exact left_of_underway after log underway fewer (.refl t) named
  | inside quiet fewer each nested last =>
    obtain ⟨middle, grown, log, underway⟩ := Settles.underway each (consistent.opened quiet _ _ _ _ fits)
    obtain ⟨after, more, _⟩ := last ends middle (fun named => absurd rfl named)
    rw [← each.length_nil] at fewer
    refine ⟨after, quiet.grows.trans (grown.trans more), fun named => .inl ?_⟩
    refine ⟨storable_of_fewer written fewer, ?_⟩
    exact left_of_underway after log underway fewer more named

theorem Fails.finds {ref : String} (finds : FindsStops cfg (Fails cfg) ref s e t) (ends : e ≠ .tooDeep)
    (consistent : Consistent cfg s) :
    Consistent cfg t ∧ Grows s t ∧ Abandoned cfg s.index e t (Reference.normalize ref) := by
  cases finds with
  | unresolved absent unresolved => exact ⟨consistent, .refl s, .unresolved absent unresolved rfl⟩
  | @converted f name names _ _ absent resolved given kept inside =>
    obtain ⟨quiet, held, fits⟩ := consistent.enter absent resolved given
    obtain ⟨after, grown, left⟩ := inside ends (consistent.of_quiet quiet) (fun _ => fits kept)
    have held := grown.names.kept _ _ held
    obtain ⟨followed, stored⟩ := left (normalize_ne_empty ref)
    refine ⟨after, quiet.grows.trans grown, ?_⟩
    cases isRef : f.isRef with
    | true => exact .followed absent resolved held kept isRef (followed isRef)
    | false => exact .converted absent resolved held kept isRef (stored isRef)

theorem fails_step {f : Fragment} {o : Options} (step : StepStops cfg (Settles cfg) (Fails cfg) f o s e t) :
    Fails cfg f o s e t := by
  intro ends consistent fits
  cases step with
  | ref isRef found =>
    obtain ⟨after, grown, abandoned⟩ := Fails.finds found ends consistent
    refine ⟨after, grown, fun named => ⟨fun _ => ?_, fun other => absurd isRef (by simp [other])⟩⟩
    obtain ⟨_, base, _⟩ := (fits named).followed isRef
    rw [aliasTarget, ← base]
    exact abandoned
  | union isRef multi named inside =>
    have single : (typesUnion (stripped f) (keepsNull f)).isRef = false := rfl
    obtain ⟨after, grown, left⟩ := inside ends consistent fun owned =>
      ⟨named, fun followed => absurd followed (by simp [single]), fun _ => (fits owned).absent isRef⟩
    refine ⟨after, grown, fun owned => ⟨fun other => absurd isRef (by simp [other]), fun _ => ?_⟩⟩
    exact ((left owned).2 single).of_entered (by rw [entered_union, entered, multi, if_pos rfl])
  | @types _ _ _ _ _ _ m _ _ _ isRef multi unnamed each listed last =>
    have unowned : o.ref = "" := by
      by_contra owned
      exact (fits owned).named unnamed
    have nothing : ∀ (cs : List Container) (t : Store), Touches s.descriptors.size t t :=
      fun _ _ => .nothing
    obtain ⟨middle, grown, _⟩ := Settles.each each nothing (Nat.le_refl _) consistent (.refl s)
    obtain ⟨after, more, _⟩ := last ends middle (fun named => absurd rfl named)
    exact ⟨after, grown.trans more, fun owned => absurd unowned owned⟩
  | unwritten isRef single unwritten =>
    rw [← entered_single single] at unwritten
    exact ⟨consistent, .refl s, fun _ => ⟨fun other => absurd isRef (by simp [other]),
      fun _ => .inr ⟨.unwritten unwritten, rfl⟩⟩⟩
  | node isRef single written quiet built =>
    rw [← entered_single single] at written built
    obtain ⟨after, grown, left⟩ := Fails.built built ends written (consistent.of_quiet quiet) fun owned => by
      simpa only [Store.lookup?, quiet.index] using (fits owned).absent isRef
    rw [quiet.index] at left
    exact ⟨after, quiet.grows.trans grown, fun owned => ⟨fun other => absurd isRef (by simp [other]),
      fun _ => left owned⟩⟩

theorem convertDepth_settles {depth : Nat} {f : Fragment} {o : Options} {c : Container}
    (run : Returns (convertDepth cfg depth f o) s c t) : Settles cfg f o s c t :=
  convertDepth_keeps (fun _ _ _ _ _ => settles_step) run

theorem convertDepth_fails {depth : Nat} {f : Fragment} {o : Options}
    (failed : Throws (convertDepth cfg depth f o) s e t) : Fails cfg f o s e t :=
  convertDepth_stops (fun _ _ _ _ _ _ => convertDepth_settles) (fun _ _ _ ends => absurd rfl ends)
    (fun _ _ _ _ _ => fails_step) failed

theorem findOrCreate_fails {ref : String} (failed : Throws (findOrCreate cfg ref) s e t) (ends : e ≠ .tooDeep)
    (consistent : Consistent cfg s) :
    Consistent cfg t ∧ Grows s t ∧ Abandoned cfg s.index e t (Reference.normalize ref) := by
  have stops := findOrCreate_stops (R := Settles cfg) (P := Fails cfg)
    (fun _ _ _ _ _ _ => convertDepth_settles) (fun _ _ _ ends => absurd rfl ends)
    (fun _ _ _ _ _ => fails_step) failed ends
  exact Fails.finds stops ends consistent

end

end Typesmith.Model
