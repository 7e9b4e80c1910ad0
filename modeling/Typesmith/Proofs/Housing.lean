import Typesmith.Files
import Typesmith.Proofs.Fields

namespace Typesmith.Files

def fileAt (f : Files) (place : String) : Option String :=
  match f.entries.lookup place with
  | some (.file text) => some text
  | _ => none

def HasDirectory (f : Files) (place : String) : Prop :=
  ∃ names, f.entries.lookup place = some (.directory names)

def Blocked (f : Files) (place : String) : Prop :=
  f.entries.lookup place = some .refused ∨ ∃ text, f.entries.lookup place = some (.file text)

/-- A file can be put at an absolute path. -/
structure Vacant (f : Files) (place : String) : Prop where
  directory : ¬ f.HasDirectory place
  refused : f.entries.lookup place ≠ some .refused

instance (f : Files) (place : String) : Decidable (f.HasDirectory place) :=
  match found : f.entries.lookup place with
  | some (.directory names) => .isTrue ⟨names, found⟩
  | some (.file _) | some .missing | some .refused | none => .isFalse (by simp [HasDirectory, found])

instance (f : Files) (place : String) : Decidable (f.Blocked place) :=
  match found : f.entries.lookup place with
  | some .refused => .isTrue (.inl found)
  | some (.file text) => .isTrue (.inr ⟨text, found⟩)
  | some (.directory _) | some .missing | none => .isFalse (by simp [Blocked, found])

instance (f : Files) (place : String) : Decidable (f.Vacant place) :=
  decidable_of_iff (¬ f.HasDirectory place ∧ f.entries.lookup place ≠ some .refused)
    ⟨fun both => ⟨both.1, both.2⟩, fun vacant => ⟨vacant.directory, vacant.refused⟩⟩

theorem Vacant.congr {f g : Files} {x : String} (vacant : f.Vacant x)
    (same : g.entries.lookup x = f.entries.lookup x) : g.Vacant x := by
  refine ⟨?_, same ▸ vacant.refused⟩
  rw [HasDirectory, same]
  exact vacant.directory

theorem vacant_of_none {f : Files} {x : String} (gone : f.entries.lookup x = none) : f.Vacant x := by
  constructor <;> simp [HasDirectory, gone]

theorem vacant_of_file {f : Files} {x text : String} (file : f.entries.lookup x = some (.file text)) :
    f.Vacant x := by
  constructor <;> simp [HasDirectory, file]

def houses (f : Files) (path : String) : List String :=
  waypoints (f.absolute (Path.dir (f.absolute path)))

theorem absolute_congr {f g : Files} (cwd : g.cwd = f.cwd) (path : String) :
    g.absolute path = f.absolute path := by
  rw [absolute, absolute, cwd]

theorem houses_congr {f g : Files} (cwd : g.cwd = f.cwd) (path : String) : g.houses path = f.houses path := by
  rw [houses, houses, absolute_congr cwd, absolute_congr cwd]

def without (f : Files) (place : String) : Files :=
  { f with entries := f.entries.filter (·.1 ≠ place) }

theorem lookup_without (f : Files) (place x : String) :
    (f.without place).entries.lookup x = if x = place then none else f.entries.lookup x := by
  unfold without
  dsimp only
  induction f.entries with
  | nil => simp
  | cons entry rest ih =>
    obtain ⟨key, e⟩ := entry
    by_cases own : key = place
    · subst own
      rw [List.filter_cons_of_neg (by simp), ih]
      split
      · rfl
      · rename_i other
        rw [Json.lookup_cons_ne other]
    · rw [List.filter_cons_of_pos (by simpa using own)]
      by_cases here : x = key
      · subst here
        rw [List.lookup_cons_self, List.lookup_cons_self, if_neg own]
      · rw [Json.lookup_cons_ne here, Json.lookup_cons_ne here, ih]

theorem lookup_set (f : Files) (place x : String) (e : Entry) :
    (f.set place e).entries.lookup x = if x = place then some e else f.entries.lookup x := by
  change ((place, e) :: (f.without place).entries).lookup x = _
  split
  · rename_i here
    rw [here, List.lookup_cons_self]
  · rename_i other
    rw [Json.lookup_cons_ne other, lookup_without, if_neg other]

/-- At a path there is what was there, or a directory that was there before or is one of those that may
be made. -/
def Stays (made : List String) (f g : Files) (x : String) : Prop :=
  g.entries.lookup x = f.entries.lookup x ∨
    (g.HasDirectory x ∧ (f.HasDirectory x ∨ (x ∈ made ∧ ¬ f.Blocked x)))

structure Keeps (made own : List String) (f g : Files) : Prop where
  cwd : g.cwd = f.cwd
  complete : g.complete = f.complete
  stays : ∀ x ∉ own, Stays made f g x

section keeps

variable {made own : List String} {f g h : Files} {x : String}

theorem Stays.blocked (stays : Stays made f g x) (blocked : g.Blocked x) : f.Blocked x := by
  rcases stays with same | ⟨⟨names, found⟩, _⟩
  · rwa [Blocked, same] at blocked
  · simp [Blocked, found] at blocked

theorem Stays.trans (first : Stays made f g x) (second : Stays made g h x) : Stays made f h x := by
  rcases second with same | ⟨directory, had | ⟨inside, free⟩⟩
  · rcases first with same' | ⟨⟨names, found⟩, before⟩
    · exact .inl (same.trans same')
    · exact .inr ⟨⟨names, same.trans found⟩, before⟩
  · rcases first with same | ⟨_, before⟩
    · exact .inr ⟨directory, .inl (by rwa [HasDirectory, same] at had)⟩
    · exact .inr ⟨directory, before⟩
  · rcases first with same | ⟨_, before⟩
    · refine .inr ⟨directory, .inr ⟨inside, ?_⟩⟩
      rwa [Blocked, same] at free
    · exact .inr ⟨directory, before⟩

theorem Stays.lookup_eq (stays : Stays made f g x) (vacant : ¬ f.HasDirectory x) (apart : x ∉ made) :
    g.entries.lookup x = f.entries.lookup x := by
  rcases stays with same | ⟨_, had | ⟨inside, _⟩⟩
  · exact same
  · exact absurd had vacant
  · exact absurd inside apart

theorem Stays.fileAt_eq (stays : Stays made f g x) : g.fileAt x = f.fileAt x := by
  rcases stays with same | ⟨⟨names, found⟩, before⟩
  · rw [fileAt, fileAt, same]
  · have none : f.fileAt x = none := by
      rcases before with ⟨_, had⟩ | ⟨_, free⟩
      · rw [fileAt, had]
      · unfold fileAt
        split
        · rename_i text file
          exact absurd (.inr ⟨text, file⟩) free
        · rfl
    rw [none, fileAt, found]

theorem Keeps.refl (made own : List String) (f : Files) : Keeps made own f f :=
  ⟨rfl, rfl, fun _ _ => .inl rfl⟩

theorem Keeps.trans (first : Keeps made own f g) (second : Keeps made own g h) : Keeps made own f h :=
  ⟨second.cwd.trans first.cwd, second.complete.trans first.complete,
    fun x other => (first.stays x other).trans (second.stays x other)⟩

theorem Keeps.mono (keeps : Keeps made own f g) {more : List String} (within : own ⊆ more) :
    Keeps made more f g :=
  ⟨keeps.cwd, keeps.complete, fun x other => keeps.stays x fun inside => other (within inside)⟩

theorem keeps_set_file (made : List String) (f : Files) (place : String) (e : Entry) :
    Keeps made [place] f (f.set place e) := by
  refine ⟨rfl, rfl, fun x other => .inl ?_⟩
  rw [lookup_set, if_neg (by simpa using other)]

theorem keeps_set_directory {place : String} (room : f.HasDirectory place ∨ (place ∈ made ∧ ¬ f.Blocked place))
    (names : List String) : Keeps made [] f (f.set place (.directory names)) := by
  refine ⟨rfl, rfl, fun x _ => ?_⟩
  by_cases same : x = place
  · subst same
    exact .inr ⟨⟨names, by rw [lookup_set, if_pos rfl]⟩, room⟩
  · exact .inl (by rw [lookup_set, if_neg same])

theorem keeps_link (made : List String) (f : Files) (place : String) : Keeps made [] f (f.link place) := by
  unfold link
  split
  · rename_i names found
    split
    · exact .refl _ _ f
    · exact keeps_set_directory (.inl ⟨names, found⟩) _
  · exact .refl _ _ f

theorem keeps_unlink (made : List String) (f : Files) (place : String) : Keeps made [] f (f.unlink place) := by
  unfold unlink
  split
  · rename_i names found
    exact keeps_set_directory (.inl ⟨names, found⟩) _
  · exact .refl _ _ f

/-- There is room for a file at the place of a path, and for the directories above it, which are among those
that may be made. -/
structure Room (made : List String) (f : Files) (path : String) : Prop where
  within : f.houses path ⊆ made
  free : ∀ d ∈ f.houses path, ¬ f.Blocked d
  vacant : f.Vacant (f.absolute path)
  apart : f.absolute path ∉ made

/-- Room for the directories stays while no file is put in their places. -/
theorem Keeps.room {path : String} (keeps : Keeps made own f g) (room : Room made f path)
    (outside : ∀ x ∈ own, x ∉ made) (vacant : g.Vacant (f.absolute path)) : Room made g path := by
  have place := absolute_congr keeps.cwd path
  have houses := houses_congr keeps.cwd path
  refine ⟨?_, ?_, ?_, ?_⟩
  · rw [houses]
    exact room.within
  · intro d inside blocked
    rw [houses] at inside
    have untouched : d ∉ own := fun listed => outside d listed (room.within inside)
    exact room.free d inside ((keeps.stays d untouched).blocked blocked)
  · rw [place]
    exact vacant
  · rw [place]
    exact room.apart

theorem makeDirs_spec {places : List String} (within : places ⊆ made) (free : ∀ d ∈ places, ¬ f.Blocked d) :
    ∃ g, f.makeDirs places = .ok g ∧ Keeps made [] f g := by
  induction places generalizing f with
  | nil => exact ⟨f, rfl, .refl _ _ f⟩
  | cons place rest ih =>
    obtain ⟨here, later⟩ := List.cons_subset.mp within
    have open_ := free place List.mem_cons_self
    have others := fun d inside => free d (List.mem_cons_of_mem place inside)
    unfold makeDirs
    split
    · rename_i text found
      exact absurd (.inr ⟨text, found⟩) open_
    · rename_i found
      exact absurd (.inl found) open_
    · exact ih later others
    · have made' : Keeps made [] f ((f.set place (.directory [])).link place) :=
        (keeps_set_directory (.inr ⟨here, open_⟩) []).trans (keeps_link made _ place)
      obtain ⟨g, done, keeps⟩ := ih later fun d inside blocked =>
        others d inside ((made'.stays d (by simp)).blocked blocked)
      exact ⟨g, done, made'.trans keeps⟩

theorem keeps_without (made : List String) (f : Files) (place : String) :
    Keeps made [place] f (f.without place) := by
  refine ⟨rfl, rfl, fun x other => .inl ?_⟩
  rw [lookup_without, if_neg (by simpa using other)]

theorem addDirectory_spec {path : String} (room : Room made f path) :
    ∃ g, f.addDirectory (Path.dir (f.absolute path)) = .ok g ∧ Keeps made [] f g :=
  makeDirs_spec room.within room.free

theorem write_spec {path : String} (text : String) (room : Room made f path) :
    ∃ g, f.write path text = .ok g ∧ g.entries.lookup (f.absolute path) = some (.file text) ∧
      Keeps made [f.absolute path] f g := by
  obtain ⟨m, housed, keeps⟩ := addDirectory_spec room
  have here : m.entries.lookup (f.absolute path) = f.entries.lookup (f.absolute path) :=
    (keeps.stays _ (by simp)).lookup_eq room.vacant.directory room.apart
  have written := (keeps_set_file made m (f.absolute path) (.file text)).trans
    ((keeps_link made _ (f.absolute path)).mono (List.nil_subset _))
  have linked : ((m.set (f.absolute path) (.file text)).link (f.absolute path)).entries.lookup
      (f.absolute path) = some (.file text) := by
    have file : (m.set (f.absolute path) (.file text)).entries.lookup (f.absolute path) =
        some (.file text) := by rw [lookup_set, if_pos rfl]
    rw [((keeps_link made _ _).stays _ (by simp)).lookup_eq (vacant_of_file file).directory room.apart, file]
  refine ⟨_, ?_, linked, (keeps.mono (List.nil_subset _)).trans written⟩
  unfold write
  dsimp only
  rw [housed]
  simp only [bind, Except.bind, pure, Except.pure]
  rw [here]
  split
  · rename_i names found
    exact absurd ⟨names, found⟩ room.vacant.directory
  · rename_i found
    exact absurd found room.vacant.refused
  · rfl

/-- Reading a file that there is room for gives its text, or says that there is none. -/
theorem read_cases {path : String} (named : path ≠ "") (bare : Text.endsWith path "/" = false)
    (vacant : f.Vacant (f.absolute path))
    (covered : f.entries.lookup (f.absolute path) = none → f.complete = true) :
    (∃ text, f.read path = .ok text ∧ f.fileAt (f.absolute path) = some text) ∨
      (f.fileAt (f.absolute path) = none ∧ ∃ e, f.read path = .error e ∧ ∀ p, e ≠ .unread p) := by
  unfold read stat look fileAt
  rw [if_neg named, bare]
  cases found : f.entries.lookup (f.absolute path) with
  | none =>
    refine .inr ⟨rfl, ?_⟩
    dsimp only
    split
    · exact ⟨.refused, rfl, by simp⟩
    · exact ⟨.missing, by rw [if_pos (covered found)]; rfl, by simp⟩
  | some e =>
    cases e with
    | file text => exact .inl ⟨text, rfl, rfl⟩
    | directory names => exact absurd ⟨names, found⟩ vacant.directory
    | missing => exact .inr ⟨rfl, .missing, rfl, by simp⟩
    | refused => exact absurd found vacant.refused

theorem read_of_file {path text : String} (named : path ≠ "") (bare : Text.endsWith path "/" = false)
    (file : f.fileAt (f.absolute path) = some text) : f.read path = .ok text := by
  have found : f.entries.lookup (f.absolute path) = some (.file text) := by
    unfold fileAt at file
    split at file
    · rename_i found
      rwa [← Option.some.inj file]
    · cases file
  unfold read stat look
  rw [if_neg named, bare, found]
  rfl

theorem keeps_take (made : List String) (f : Files) (place : String) : Keeps made [place] f (f.take place) :=
  (keeps_without made f place).trans ((keeps_unlink made _ place).mono (List.nil_subset _))

theorem lookup_take (f : Files) (place : String) : (f.take place).entries.lookup place = none := by
  have gone : (f.without place).entries.lookup place = none := by rw [lookup_without, if_pos rfl]
  rw [← gone]
  exact ((keeps_unlink [] _ place).stays place (by simp)).lookup_eq (vacant_of_none gone).directory (by simp)

theorem move_spec {source target text : String} (read : f.read source = .ok text) (room : Room made f target)
    (other : f.absolute source ≠ f.absolute target) (apart : f.absolute source ∉ made) :
    ∃ g, f.move source target = .ok g ∧ g.entries.lookup (f.absolute target) = some (.file text) ∧
      g.entries.lookup (f.absolute source) = none ∧
      Keeps made [f.absolute source, f.absolute target] f g := by
  have taken := keeps_take made f (f.absolute source)
  have gone := lookup_take f (f.absolute source)
  have kept := (taken.stays _ (by simpa using other.symm)).lookup_eq room.vacant.directory room.apart
  have room' := taken.room room (by simpa using apart) (room.vacant.congr kept)
  obtain ⟨g, written, file, keeps⟩ := write_spec text room'
  rw [absolute_congr taken.cwd] at file keeps
  refine ⟨g, ?_, file, ?_, (taken.mono (by simp)).trans (keeps.mono (by simp))⟩
  · unfold move
    rw [read]
    exact written
  · rw [← gone]
    exact (keeps.stays _ (by simpa using other)).lookup_eq (vacant_of_none gone).directory apart

end keeps

end Typesmith.Files
