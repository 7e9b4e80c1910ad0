import Typesmith.Proofs.Failing
import Typesmith.Proofs.Termination

namespace Typesmith.Model

/-- A step that is cut off below some depth and has one answer from there on. -/
structure Answers (run : Nat → ConvertM Container) (s : Store) (bound : Nat)
    (r : Except Failure Container × Store) : Prop where
  cut : ∀ depth, depth < bound → ¬ Ends (run depth) s
  same : ∀ depth, bound ≤ depth → exec (run depth) s = r

section

variable {run : Nat → ConvertM Container} {s t : Store} {bound : Nat} {r : Except Failure Container × Store}

theorem Answers.deepening (answers : Answers run s bound r) (ends : r.1 ≠ .error .tooDeep) :
    exec (deepening run) s = r := by
  have enough : ∀ depth, bound ≤ depth → (exec (run depth) s).1 ≠ .error .tooDeep := by
    intro depth deep
    rw [answers.same depth deep]
    exact ends
  have positive : 0 < firstDepth := by decide
  obtain ⟨found, ending⟩ := Option.isSome_iff_exists.mp (firstEnding_isSome enough positive)
  obtain ⟨depth, same, whole⟩ := firstEnding_some ending
  have deep : bound ≤ depth := by
    by_contra small
    refine answers.cut depth (by omega) ?_
    rw [Ends, same]
    exact whole
  change (firstEnding (fun depth => exec (run depth) s) firstDepth).getD _ = _
  rw [ending, Option.getD_some, ← same]
  exact answers.same depth deep

theorem exec_deepening_first (ends : (exec (run firstDepth) s).1 ≠ .error .tooDeep) :
    exec (deepening run) s = exec (run firstDepth) s := by
  change (firstEnding (fun depth => exec (run depth) s) firstDepth).getD _ = _
  rw [firstEnding]
  split
  · rename_i cut
    rw [cut] at ends
    exact absurd rfl ends
  · rfl

theorem answers_now (now : ∀ depth, exec (run depth) s = r) : Answers run s 0 r :=
  ⟨fun _ small => absurd small (Nat.not_lt_zero _), fun depth _ => now depth⟩

theorem Answers.shift {next : Nat → ConvertM Container} (answers : Answers next t bound r)
    (first : ¬ Ends (run 0) s) (rest : ∀ depth, exec (run (depth + 1)) s = exec (next depth) t) :
    Answers run s (bound + 1) r := by
  constructor
  · intro depth small
    cases depth with
    | zero => exact first
    | succ depth =>
      rw [Ends, rest]
      exact answers.cut depth (by omega)
  · intro depth enough
    obtain ⟨less, rfl⟩ : ∃ less, depth = less + 1 := ⟨depth - 1, by omega⟩
    rw [rest]
    exact answers.same less (by omega)

theorem Answers.congr {other : Nat → ConvertM Container} (answers : Answers run s bound r)
    (same : ∀ depth, exec (run depth) s = exec (other depth) s) : Answers other s bound r := by
  constructor
  · intro depth small
    rw [Ends, ← same]
    exact answers.cut depth small
  · intro depth enough
    rw [← same]
    exact answers.same depth enough

theorem answers_first (first : ¬ Ends (run 0) s) (rest : ∀ depth, exec (run (depth + 1)) s = r) :
    Answers run s 1 r :=
  (answers_now rest).shift first fun _ => rfl

theorem Answers.failed {e : Failure} (answers : Answers run s bound (.error e, t))
    (after : Container → ConvertM Container) :
    Answers (fun depth => run depth >>= after) s bound (.error e, t) := by
  refine ⟨fun depth small => not_ends_bind_first (answers.cut depth small), ?_⟩
  intro depth enough
  rw [exec_bind, answers.same depth enough]

theorem Answers.bind {c : Container} (answers : Answers run s bound (.ok c, t))
    (after : Container → ConvertM Container) :
    Answers (fun depth => run depth >>= after) s bound (exec (after c) t) := by
  refine ⟨fun depth small => not_ends_bind_first (answers.cut depth small), ?_⟩
  intro depth enough
  rw [exec_bind, answers.same depth enough]

end

section

variable {cfg : Setting} {s t : Store} {e : Failure}

theorem exec_findOrCreateWith_held {conv : Converter} {asked name : String} {f : Fragment}
    (absent : t.lookup? (Reference.normalize asked) = none)
    (resolved : cfg.resolver.fragment (Reference.normalize asked) = .ok f)
    (held : t.names.lookup? (Reference.normalize asked) = some name)
    (kept : cfg.overrides.lookup name = none) :
    exec (findOrCreateWith cfg conv asked) t =
      exec (conv f { name, ref := Reference.normalize asked, base := Reference.normalize asked }) t := by
  have found : resolve cfg (Reference.normalize asked) = .ok f := by
    rw [resolve, resolved]
    rfl
  simp only [findOrCreateWith, exec_bind, exec_get, absent, exec_lift, found, exec_modifyGet,
    Registry.claim_held _ held, kept]

theorem exec_convertDepth_ref {depth : Nat} {f : Fragment} {o : Options} (isRef : f.isRef = true) :
    exec (convertDepth cfg (depth + 1) f o) t =
      exec (findOrCreateWith cfg (convertDepth cfg depth) (Reference.qualify f.ref o.base) >>= fun out => do
        register o.ref out
        return out) t := by
  rw [convertDepth_succ, convertWith_eq, if_pos isRef]

theorem not_ends_convertDepth_zero (f : Fragment) (o : Options) : ¬ Ends (convertDepth cfg 0 f o) t :=
  fun ends => ends rfl

theorem Refuses.answers_single {f : Fragment} {o : Options} (refuses : Refuses cfg f o.ref e)
    (isRef : f.isRef = false) (single : isMultiType (stripped f) = false) :
    ∃ u, Answers (fun depth => convertDepth cfg depth f o) t 1 (.error e, u) ∧ u.index = t.index := by
  have opened := entered_single single
  have layer : ∀ depth, convertDepth cfg (depth + 1) f o = _ :=
    fun depth => (convertDepth_succ depth f o).trans (convertWith_eq depth f o)
  simp only [isRef, single, Bool.false_eq_true, if_false] at layer
  cases refuses with
  | unwritten unwritten =>
    rw [opened] at unwritten
    simp only [unwritten] at layer
    refine ⟨t, answers_first (not_ends_convertDepth_zero f o) ?_, rfl⟩
    intro depth
    rw [layer, exec_fail]
  | @hollow raw written someOf hollow =>
    rw [opened] at written hollow ⊢
    simp only [written] at layer
    obtain ⟨u, classified⟩ := exec_classifyRaw cfg raw o.ref t
    obtain ⟨_, quiet⟩ := returns_classifyRaw classified
    refine ⟨u, answers_first (not_ends_convertDepth_zero f o) ?_, quiet.index⟩
    intro depth
    rw [layer, exec_bind, classified]
    simp only [someOf, convertKind, convertSomeOf, hollow, exec_fail]

theorem Refuses.answers {f : Fragment} {o : Options} (refuses : Refuses cfg f o.ref e)
    (isRef : f.isRef = false) (named : o.name ≠ "") :
    ∃ bound u, Answers (fun depth => convertDepth cfg depth f o) t bound (.error e, u) ∧
      u.index = t.index := by
  by_cases multi : isMultiType (stripped f) = true
  · have union : entered f = entered (typesUnion (stripped f) (keepsNull f)) := by
      rw [entered_union, entered, multi, if_pos rfl]
    have single : isMultiType (stripped (typesUnion (stripped f) (keepsNull f))) = false :=
      isMultiType_stripped (Nat.zero_le 1)
    obtain ⟨u, answers, index⟩ := (refuses.of_entered union).answers_single (t := t) rfl single
    refine ⟨2, u, answers.shift (not_ends_convertDepth_zero f o) ?_, index⟩
    intro depth
    rw [convertDepth_succ, convertWith_eq]
    simp only [isRef, multi, Bool.false_eq_true, if_false, if_true, convertMultiType, if_pos named]
    rfl
  · obtain ⟨u, answers, index⟩ := refuses.answers_single (t := t) isRef (by simpa using multi)
    exact ⟨1, u, answers, index⟩

/-- The fragment of a reference is no reference, and it is stored when it is converted. -/
def Kept (cfg : Setting) (place : String) : Prop :=
  ∃ f, cfg.resolver.fragment place = .ok f ∧ f.isRef = false ∧ Storable cfg f

abbrev request (cfg : Setting) (asked : String) (depth : Nat) : ConvertM Container :=
  findOrCreateWith cfg (convertDepth cfg depth) asked

/-- What asking again gives when a failed request leads to a place. -/
inductive Retried (cfg : Setting) (known : List (String × Container)) (e : Failure) (t : Store)
    (asked place : String) : Prop
  | refused {bound : Nat} {u : Store} (nothing : ¬ Kept cfg place) (before : t.index = known)
      (after : u.index = known) (answers : Answers (request cfg asked) t bound (.error e, u)) :
      Retried cfg known e t asked place
  | served {c : Container} {bound : Nat} {u : Store} (kept : Kept cfg place) (held : t.lookup? place = some c)
      (unfinished : ∃ i ∈ c, ∃ d, t.get? i = some d ∧ d.Unfinished)
      (agrees : ∀ other, t.lookup? (Reference.normalize asked) = some other → other = c)
      (same : u.descriptors = t.descriptors) (answers : Answers (request cfg asked) t bound (.ok c, u)) :
      Retried cfg known e t asked place

theorem answers_known {asked : String} {c : Container}
    (held : t.lookup? (Reference.normalize asked) = some c) :
    Answers (request cfg asked) t 0 (.ok c, t) := by
  apply answers_now
  intro depth
  simp only [request, findOrCreateWith, exec_bind, exec_get, held, exec_pure]

theorem answers_unresolved {asked : String} (absent : t.lookup? (Reference.normalize asked) = none)
    (unresolved : resolve cfg (Reference.normalize asked) = .error e) :
    Answers (request cfg asked) t 0 (.error e, t) := by
  apply answers_now
  intro depth
  simp only [request, findOrCreateWith, exec_bind, exec_get, absent, exec_lift, unresolved]

theorem Answers.followed {asked name : String} {f : Fragment} {bound : Nat}
    {r : Except Failure Container × Store}
    (absent : t.lookup? (Reference.normalize asked) = none)
    (resolved : cfg.resolver.fragment (Reference.normalize asked) = .ok f) (isRef : f.isRef = true)
    (held : t.names.lookup? (Reference.normalize asked) = some name) (kept : cfg.overrides.lookup name = none)
    (next : Answers (fun depth => request cfg (Reference.qualify f.ref (Reference.normalize asked)) depth >>=
      fun out => do
        register (Reference.normalize asked) out
        return out) t bound r) :
    Answers (request cfg asked) t (bound + 1) r := by
  have entry : ∀ depth, exec (request cfg asked depth) t = exec (convertDepth cfg depth f
      { name, ref := Reference.normalize asked, base := Reference.normalize asked }) t :=
    fun depth => exec_findOrCreateWith_held absent resolved held kept
  apply next.shift
  · rw [Ends, entry]
    exact not_ends_convertDepth_zero _ _
  · intro depth
    rw [entry, exec_convertDepth_ref isRef]

theorem retried_unresolved {known : List (String × Container)} {asked : String}
    (absent : known.lookup (Reference.normalize asked) = none)
    (unresolved : resolve cfg (Reference.normalize asked) = .error e) (index : t.index = known) :
    Retried cfg known e t asked (Reference.normalize asked) := by
  refine .refused ?_ index index (answers_unresolved ?_ unresolved)
  · rintro ⟨f, resolved, _⟩
    rw [resolve, resolved] at unresolved
    cases unresolved
  · rw [Store.lookup?, index]
    exact absent

theorem retried_converted {known : List (String × Container)} {asked name : String} {f : Fragment}
    (consistent : Consistent cfg t) (absent : known.lookup (Reference.normalize asked) = none)
    (resolved : cfg.resolver.fragment (Reference.normalize asked) = .ok f)
    (held : t.names.lookup? (Reference.normalize asked) = some name)
    (kept : cfg.overrides.lookup name = none) (isRef : f.isRef = false)
    (left : Left cfg known e t (Reference.normalize asked) f) :
    Retried cfg known e t asked (Reference.normalize asked) := by
  rcases left with ⟨storable, c, present, unfinished⟩ | ⟨refuses, index⟩
  · refine .served ⟨f, resolved, isRef, storable⟩ present unfinished ?_ rfl (answers_known present)
    intro other again
    rw [present] at again
    exact (Option.some.inj again).symm
  · have missing : t.lookup? (Reference.normalize asked) = none := by
      rw [Store.lookup?, index]
      exact absent
    have named : name ≠ "" := consistent.named _ (Registry.mem_issued_of_lookup? held)
    obtain ⟨bound, u, answers, after⟩ := Refuses.answers (t := t)
      (o := { name, ref := Reference.normalize asked, base := Reference.normalize asked })
      refuses isRef named
    refine .refused ?_ index (after.trans index) (answers.congr fun depth => ?entry)
    case entry => exact (exec_findOrCreateWith_held missing resolved held kept).symm
    rintro ⟨g, again, _, storable⟩
    rw [resolved] at again
    cases again
    exact refuses.not_storable storable

theorem Retried.followed {known : List (String × Container)} {asked name place : String} {f : Fragment}
    (consistent : Consistent cfg t) (absent : known.lookup (Reference.normalize asked) = none)
    (resolved : cfg.resolver.fragment (Reference.normalize asked) = .ok f)
    (held : t.names.lookup? (Reference.normalize asked) = some name)
    (kept : cfg.overrides.lookup name = none) (isRef : f.isRef = true)
    (retried : Retried cfg known e t (Reference.qualify f.ref (Reference.normalize asked)) place) :
    Retried cfg known e t asked place := by
  cases retried with
  | refused nothing before after answers =>
    have missing : t.lookup? (Reference.normalize asked) = none := by
      rw [Store.lookup?, before]
      exact absent
    exact .refused nothing before after (.followed missing resolved isRef held kept (answers.failed _))
  | @served c bound u storable present unfinished agrees same answers =>
    cases entry : t.lookup? (Reference.normalize asked) with
    | none =>
      refine .served storable present unfinished ?_ ?_
        (.followed entry resolved isRef held kept (answers.bind _))
      · intro other again
        rw [entry] at again
        cases again
      · exact (Store.descriptors_register _ _ _).trans same
    | some other =>
      -- an entry that is there already is the one of what it refers to
      have own : other = c := by
        rcases consistent.aliased _ other f entry resolved isRef with ⟨name', again, replaced⟩ | target
        · rw [held] at again
          cases again
          rw [kept] at replaced
          cases replaced
        · exact agrees other target
      subst own
      refine .served storable present unfinished ?_ rfl (answers_known entry)
      intro other again
      rw [entry] at again
      exact (Option.some.inj again).symm

/-- A failed request is answered again as what it leads to says: with an unfinished descriptor, or with the
same failure. -/
theorem Abandoned.again {known : List (String × Container)} {ref : String}
    (abandoned : Abandoned cfg known e t ref) (consistent : Consistent cfg t) {asked : String}
    (same : Reference.normalize asked = ref) :
    ∃ place, Relation.ReflTransGen (Leads cfg) ref place ∧ (∀ next, ¬ Leads cfg place next) ∧
      known.lookup place = none ∧ Retried cfg known e t asked place := by
  induction abandoned generalizing asked with
  | unresolved absent unresolved index =>
    subst same
    refine ⟨_, .refl, ?_, absent, retried_unresolved absent unresolved index⟩
    rintro next ⟨f, resolved, _⟩
    rw [resolve, resolved] at unresolved
    cases unresolved
  | converted absent resolved held kept isRef left =>
    subst same
    refine ⟨_, .refl, ?_, absent,
      retried_converted consistent absent resolved held kept isRef left⟩
    rintro next ⟨g, again, followed, _⟩
    rw [resolved] at again
    cases again
    rw [isRef] at followed
    cases followed
  | @followed ref name f absent resolved held kept isRef next ih =>
    subst same
    obtain ⟨place, path, last, fresh, retried⟩ :=
      ih (rfl : _ = Reference.normalize (Reference.qualify f.ref (Reference.normalize asked)))
    exact ⟨place, .head ⟨f, resolved, isRef, rfl⟩ path, last, fresh,
      retried.followed consistent absent resolved held kept isRef⟩

theorem convert_cases {f : Fragment} {o : Options} {r : Except Failure Container} (owns : Owns cfg f o)
    (run : exec (convert cfg f o) s = (r, t)) (ends : r ≠ .error .tooDeep) :
    t = s ∨ (o.normal.ref ≠ "" → Fits cfg f o.normal s) ∧
      ((∃ depth c, Returns (convertDepth cfg depth f o.normal) s c t) ∨
        ∃ depth e, e ≠ .tooDeep ∧ Throws (convertDepth cfg depth f o.normal) s e t) := by
  by_cases fresh : o.ref = "" ∨ s.lookup? (Reference.normalize o.ref) = none
  · refine .inr ⟨owns.fits fresh, ?_⟩
    rw [exec_convert_fresh f fresh] at run
    cases r with
    | ok c =>
      obtain ⟨depth, inside⟩ := returns_deepening run
      exact .inl ⟨depth, c, inside⟩
    | error e =>
      have whole : e ≠ .tooDeep := fun cut => ends (by rw [cut])
      obtain ⟨depth, inside⟩ := throws_deepening run whole
      exact .inr ⟨depth, e, whole, inside⟩
  · rw [not_or] at fresh
    obtain ⟨owned, known⟩ := fresh
    obtain ⟨c, found⟩ := Option.ne_none_iff_exists'.mp known
    rw [exec_convert_known f owned found] at run
    cases run
    exact .inl rfl

theorem convert_keeps {f : Fragment} {o : Options} {r : Except Failure Container} (owns : Owns cfg f o)
    (run : exec (convert cfg f o) s = (r, t)) (ends : r ≠ .error .tooDeep) (consistent : Consistent cfg s) :
    Consistent cfg t ∧ Grows s t := by
  rcases convert_cases owns run ends with rfl | ⟨fits, ⟨_, _, inside⟩ | ⟨_, _, whole, inside⟩⟩
  · exact ⟨consistent, .refl _⟩
  · obtain ⟨after, grows, _⟩ := convertDepth_settles inside consistent fits
    exact ⟨after, grows⟩
  · obtain ⟨after, grows, _⟩ := convertDepth_fails inside whole consistent fits
    exact ⟨after, grows⟩

end

/-- The stores that a conversion comes through: it starts with nothing, asks for references and converts
fragments of its own, whether that succeeds or fails, gives out names, and may learn what references name
that it did not follow yet. -/
inductive Attained : Setting → Store → Prop
  | fresh {cfg : Setting} : Attained cfg {}
  | asked {cfg : Setting} {ref : String} {s t : Store} {r : Except Failure Container}
      (before : Attained cfg s) (run : exec (findOrCreate cfg ref) s = (r, t))
      (ends : r ≠ .error .tooDeep) : Attained cfg t
  | converted {cfg : Setting} {f : Fragment} {o : Options} {s t : Store} {r : Except Failure Container}
      (before : Attained cfg s)
      (own : o.ref ≠ "" → o.name ≠ "" ∧ f.isRef = false ∧
        ∀ g, cfg.resolver.fragment (Reference.normalize o.ref) = .ok g → g.isRef = false)
      (run : exec (convert cfg f o) s = (r, t)) (ends : r ≠ .error .tooDeep) : Attained cfg t
  | noted {cfg : Setting} {s t : Store} (before : Attained cfg s) (quiet : Quiet s t) : Attained cfg t
  | learned {cfg later : Setting} {s : Store} (before : Attained cfg s)
      (overrides : later.overrides = cfg.overrides)
      (same : ∀ ref, (s.lookup? ref).isSome = true →
        later.resolver.fragment ref = cfg.resolver.fragment ref) : Attained later s

theorem Attained.consistent {cfg : Setting} {s : Store} (attained : Attained cfg s) : Consistent cfg s := by
  induction attained with
  | fresh => exact consistent_fresh _
  | @asked cfg ref s t r before run ends ih =>
    cases r with
    | ok c => exact (findOrCreate_settles run ih).1
    | error e => exact (findOrCreate_fails run (fun cut => ends (by rw [cut])) ih).1
  | converted before own run ends ih => exact (convert_keeps own run ends ih).1
  | noted before quiet ih => exact ih.of_quiet quiet
  | @learned cfg later s before overrides same ih =>
    refine ⟨ih.settled, ih.registered, ih.unique, ?_, ih.named⟩
    intro ref c f held resolved isRef
    rw [same ref (by rw [held]; rfl)] at resolved
    refine (ih.aliased ref c f held resolved isRef).imp_left ?_
    rintro ⟨name, given, replaced⟩
    exact ⟨name, given, by rw [overrides]; exact replaced⟩

/-- A request that fails takes nothing away: what was found before is found as before. Asking for the
reference again fails in the same way, and the index is as it was before, when nothing is stored for the
fragment that it leads to. Otherwise that fragment stays in the index from then on, and asking again gives
its container, with a descriptor in it that is not finished. -/
theorem findOrCreate_failed {cfg : Setting} {ref : String} {s t : Store} {e : Failure}
    (attained : Attained cfg s) (failed : exec (findOrCreate cfg ref) s = (.error e, t))
    (ends : e ≠ .tooDeep) :
    (∀ known c, s.lookup? (Reference.normalize known) = some c →
      exec (findOrCreate cfg known) t = (.ok c, t)) ∧
    (∀ i, i < s.descriptors.size → t.get? i = s.get? i) ∧
    ∃ place, Relation.ReflTransGen (Leads cfg) (Reference.normalize ref) place ∧
      (∀ next, ¬ Leads cfg place next) ∧ s.lookup? place = none ∧
      (¬ Kept cfg place → t.index = s.index ∧
        ∃ u, exec (findOrCreate cfg ref) t = (.error e, u) ∧ u.index = s.index) ∧
      (Kept cfg place → ∃ c u, t.lookup? place = some c ∧ exec (findOrCreate cfg ref) t = (.ok c, u) ∧
        ∃ i ∈ c, ∃ d, u.get? i = some d ∧ d.Unfinished) := by
  obtain ⟨consistent, grows, abandoned⟩ := findOrCreate_fails failed ends attained.consistent
  obtain ⟨place, path, last, fresh, retried⟩ := abandoned.again consistent rfl
  refine ⟨?_, grows.kept, place, path, last, fresh, ?_⟩
  · intro known c held
    exact findOrCreate_known cfg (consistent.lookup?_of_suffix grows.log held)
  · cases retried with
    | refused nothing before after answers =>
      have again := answers.deepening (fun cut => ends (by cases cut; rfl))
      exact ⟨fun _ => ⟨before, _, again, after⟩, fun kept => absurd kept nothing⟩
    | @served c bound u kept held unfinished agrees same answers =>
      have again := answers.deepening (by rintro ⟨⟩)
      refine ⟨fun nothing => absurd kept nothing, fun _ => ⟨c, u, held, again, ?_⟩⟩
      simpa only [Store.get?, same] using unfinished

def dangling : Setting where
  resolver := { root := .obj [("A", .obj [("properties", .obj [("p", .obj [("$ref", .str "#/Missing")])]),
                  ("type", .str "object")])] }

def danglingFailure : Failure :=
  .fault (Fault.ofReference "#/Missing" "pointer does not reach a value" (some Resolver.noValue))

def dangled : Store :=
  (exec (request dangling "#/A" firstDepth) {}).2

def danglingRecord : Fragment :=
  { keywords := { types := ["object"] }, properties := [("p", pointing "#/Missing")] }

theorem dangling_resolve : dangling.resolver.fragment "#/A" = .ok danglingRecord ∧ Kept dangling "#/A" := by
  have resolved : dangling.resolver.fragment "#/A" = .ok danglingRecord := rfl
  have kind : (entered danglingRecord).toJson?.map (kindOf dangling) = some .object := by decide +kernel
  obtain ⟨raw, written, object⟩ := Option.map_eq_some_iff.mp kind
  refine ⟨resolved, danglingRecord, resolved, rfl, raw, written, ?_⟩
  intro someOf
  rw [object] at someOf
  cases someOf

theorem dangling_fails : exec (findOrCreate dangling "#/A") {} = (.error danglingFailure, dangled) := by
  have stops : (exec (request dangling "#/A" firstDepth) {}).1 = .error danglingFailure := by decide +kernel
  have whole : exec (request dangling "#/A" firstDepth) {} = (.error danglingFailure, dangled) :=
    Prod.ext stops rfl
  exact (exec_deepening_first (by rw [whole]; decide)).trans whole

theorem dangled_held : dangled.lookup? (Reference.normalize "#/A") = some [0] := by decide +kernel

theorem dangled_unfinished : ∃ d, dangled.get? 0 = some d ∧ d.Unfinished := by
  have held := dangled_held
  have stored : dangled.index ≠ [] := by
    intro empty
    rw [Store.lookup?, empty] at held
    cases held
  obtain ⟨_, _, abandoned⟩ := findOrCreate_fails dangling_fails (by decide) (consistent_fresh dangling)
  rw [show Reference.normalize "#/A" = "#/A" by decide] at held abandoned
  cases abandoned with
  | unresolved absent unresolved same => exact absurd same stored
  | converted absent resolved given kept isRef left =>
    rcases left with ⟨_, c, present, i, inside, d, found, unfinished⟩ | ⟨_, same⟩
    · rw [held] at present
      cases present
      cases List.mem_singleton.mp inside
      exact ⟨d, found, unfinished⟩
    · exact absurd same stored
  | followed absent resolved given kept isRef =>
    rw [dangling_resolve.1] at resolved
    cases resolved
    cases isRef

theorem findOrCreate_failed_dangling :
    Attained dangling {} ∧ exec (findOrCreate dangling "#/A") {} = (.error danglingFailure, dangled) ∧
    danglingFailure ≠ .tooDeep ∧ ∃ c u, exec (findOrCreate dangling "#/A") dangled = (.ok c, u) ∧
      ∃ i ∈ c, ∃ d, u.get? i = some d ∧ d.Unfinished := by
  obtain ⟨_, _, place, path, last, _, _, kept⟩ := findOrCreate_failed .fresh dangling_fails (by decide)
  have own : place = "#/A" := by
    rcases path.cases_head with same | ⟨next, ⟨f, resolved, isRef, _⟩, _⟩
    · exact same.symm
    · rw [show Reference.normalize "#/A" = "#/A" by decide, dangling_resolve.1] at resolved
      cases resolved
      cases isRef
  subst own
  obtain ⟨c, u, _, again, unfinished⟩ := kept dangling_resolve.2
  exact ⟨.fresh, dangling_fails, by decide, c, u, again, unfinished⟩

/-- The first request for the record fails; the second one is given the record without its properties. -/
theorem findOrCreate_serves_unfinished :
    ({} : Store).lookup? "#/A" = none ∧
    exec (findOrCreate dangling "#/A") {} = (.error danglingFailure, dangled) ∧
    exec (findOrCreate dangling "#/A") dangled = (.ok [0], dangled) ∧
      ∃ d, dangled.get? 0 = some d ∧ d.Unfinished :=
  ⟨rfl, dangling_fails, findOrCreate_known dangling dangled_held, dangled_unfinished⟩

end Typesmith.Model
