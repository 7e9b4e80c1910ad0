import Typesmith.Project.Overrides
import Typesmith.Proofs.Commenting
import Typesmith.Proofs.Execution
import Typesmith.Proofs.Fields
import Typesmith.Proofs.Referring

namespace Typesmith.Text

/-- The text is these words, with gaps before, between and behind them. -/
inductive Worded (p : Char → Bool) : List (List Char) → List Char → Prop
  | blank {gap : List Char} (space : ∀ c ∈ gap, p c = true) : Worded p [] gap
  | word {gap word rest : List Char} {words : List (List Char)} (space : ∀ c ∈ gap, p c = true)
      (filled : word ≠ []) (plain : ∀ c ∈ word, p c = false) (apart : ∀ c ∈ rest.head?, p c = true)
      (others : Worded p words rest) : Worded p (word :: words) (gap ++ word ++ rest)

variable {p : Char → Bool} {s cur : List Char} {words : List (List Char)}

theorem Worded.cons {c : Char} (space : p c = true) (worded : Worded p words s) : Worded p words (c :: s) := by
  cases worded with
  | blank gap => exact .blank (List.forall_mem_cons.mpr ⟨space, gap⟩)
  | word gap filled plain apart others =>
    exact .word (List.forall_mem_cons.mpr ⟨space, gap⟩) filled plain apart others

theorem Worded.start {word rest : List Char} (filled : word ≠ []) (plain : ∀ c ∈ word, p c = false)
    (apart : ∀ c ∈ rest.head?, p c = true) (others : Worded p words rest) :
    Worded p (word :: words) (word ++ rest) := by
  have none : ∀ c ∈ ([] : List Char), p c = true := by simp
  exact .word none filled plain apart others

theorem worded_fieldsBy (plain : ∀ c ∈ cur, p c = false) :
    Worded p (fieldsBy p s cur) (cur.reverse ++ s) := by
  -- the word that is being read stands in front of the rest, the last character first
  have none : ∀ c ∈ ([] : List Char), p c = true := by simp
  have reversed : ∀ {cur : List Char}, (∀ c ∈ cur, p c = false) → ∀ c ∈ cur.reverse, p c = false :=
    fun plain c inside => plain c (List.mem_reverse.mp inside)
  induction s generalizing cur with
  | nil =>
    rw [fieldsBy]
    split
    · rename_i empty
      rw [List.isEmpty_iff.mp empty]
      exact .blank none
    · rename_i filled
      exact .start (by simpa using filled) (reversed plain) (by simp) (.blank none)
  | cons c rest ih =>
    rw [fieldsBy]
    split
    · rename_i space
      have later : Worded p (fieldsBy p rest []) (c :: rest) := (ih (by simp)).cons space
      split
      · rename_i empty
        rw [List.isEmpty_iff.mp empty]
        exact later
      · rename_i filled
        exact .start (by simpa using filled) (reversed plain) (by simpa using space) later
    · rename_i other
      have longer : ∀ d ∈ c :: cur, p d = false := List.forall_mem_cons.mpr ⟨by simpa using other, plain⟩
      simpa using ih longer

theorem fieldsBy_gap {gap : List Char} (space : ∀ c ∈ gap, p c = true) :
    fieldsBy p (gap ++ s) [] = fieldsBy p s [] := by
  induction gap with
  | nil => rfl
  | cons c gap ih =>
    obtain ⟨first, others⟩ := List.forall_mem_cons.mp space
    rw [List.cons_append, fieldsBy, if_pos first, if_pos List.isEmpty_nil, ih others]

theorem fieldsBy_plain {word : List Char} (plain : ∀ c ∈ word, p c = false) :
    fieldsBy p (word ++ s) cur = fieldsBy p s (word.reverse ++ cur) := by
  induction word generalizing cur with
  | nil => rfl
  | cons c word ih =>
    obtain ⟨first, others⟩ := List.forall_mem_cons.mp plain
    rw [List.cons_append, fieldsBy, if_neg (by simp [first]), ih others]
    simp

theorem fieldsBy_apart (filled : cur ≠ []) (apart : ∀ c ∈ s.head?, p c = true) :
    fieldsBy p s cur = cur.reverse :: fieldsBy p s [] := by
  have filled : ¬cur.isEmpty = true := by simpa using filled
  cases s with
  | nil => simp [fieldsBy, filled]
  | cons c rest =>
    have space : p c = true := apart c (by simp)
    rw [fieldsBy, fieldsBy, if_pos space, if_pos space, if_neg filled, if_pos List.isEmpty_nil]

theorem Worded.fieldsBy_eq (worded : Worded p words s) : fieldsBy p s [] = words := by
  induction worded with
  | blank space => exact fieldsBy_eq_nil_iff.mpr ⟨rfl, space⟩
  | word space filled plain apart _ ih =>
    rw [List.append_assoc, fieldsBy_gap space, fieldsBy_plain plain, List.append_nil,
      fieldsBy_apart (by simpa using filled) apart, List.reverse_reverse, ih]

theorem fieldsBy_eq_iff : fieldsBy p s [] = words ↔ Worded p words s := by
  constructor
  · rintro rfl
    exact @worded_fieldsBy p s [] (by simp)
  · exact Worded.fieldsBy_eq

def Says (words : List String) (line : String) : Prop :=
  Worded isSpace (words.map String.toList) line.toList

theorem fields_eq_iff {line : String} {words : List String} : fields line = words ↔ Says words line := by
  rw [Says, ← fieldsBy_eq_iff, fields]
  constructor
  · rintro rfl
    simp [Function.comp_def]
  · intro found
    simp [found, Function.comp_def]

theorem Worded.dropWhile_eq {word : List Char} (worded : Worded p (word :: words) s) :
    ∃ rest, s.dropWhile p = word ++ rest := by
  cases worded with
  | word space filled plain apart others =>
    rename_i gap rest
    refine ⟨rest, ?_⟩
    rw [List.append_assoc, List.dropWhile_append_of_pos space]
    cases word with
    | nil => contradiction
    | cons c word => exact List.dropWhile_cons_of_neg (by simp [plain c])

theorem rdropWhile_append {head rest : List Char} (kept : ∀ c ∈ head.getLast?, p c = false) :
    (head ++ rest).rdropWhile p = head ++ rest.rdropWhile p := by
  induction rest using List.reverseRecOn with
  | nil =>
    rw [List.append_nil, List.rdropWhile_nil, List.append_nil]
    refine List.rdropWhile_eq_self_iff.mpr fun filled => ?_
    simp [kept _ (List.getLast?_eq_some_getLast filled)]
  | append_singleton rest c ih =>
    rw [← List.append_assoc]
    by_cases space : p c = true
    · rw [List.rdropWhile_concat_pos _ _ _ space, List.rdropWhile_concat_pos _ _ _ space, ih]
    · rw [List.rdropWhile_concat_neg _ _ _ space, List.rdropWhile_concat_neg _ _ _ space, List.append_assoc]

theorem startsWith_trim_iff {line mark : String} (kept : ∀ c ∈ mark.toList.getLast?, isSpace c = false) :
    startsWith (trim line) mark = true ↔ mark.toList <+: line.toList.dropWhile isSpace := by
  rw [startsWith, trim, String.toList_ofList, List.isPrefixOf_iff_prefix]
  change _ <+: (line.toList.dropWhile isSpace).rdropWhile isSpace ↔ _
  constructor
  · exact fun marked => marked.trans (List.rdropWhile_prefix _ _)
  · rintro ⟨rest, marked⟩
    rw [← marked, rdropWhile_append kept]
    exact List.prefix_append _ _

theorem fieldsBy_concat {c : Char} (space : p c = true) : fieldsBy p (s ++ [c]) cur = fieldsBy p s cur := by
  induction s generalizing cur with
  | nil => simp [fieldsBy, space]
  | cons d s ih => simp only [List.cons_append, fieldsBy, ih]

theorem trimBy_concat {c : Char} (space : p c = true) : trimBy p (s ++ [c]) = trimBy p s := by
  change ((s ++ [c]).dropWhile p).rdropWhile p = (s.dropWhile p).rdropWhile p
  rw [List.dropWhile_append]
  split
  · rename_i empty
    rw [List.isEmpty_iff.mp empty, List.dropWhile_cons_of_pos space, List.dropWhile_nil]
  · exact List.rdropWhile_concat_pos _ _ _ space

theorem dropEnd_cases (line tail : String) :
    dropEnd line tail = line ∨ line.toList = (dropEnd line tail).toList ++ tail.toList := by
  unfold dropEnd
  split
  · rename_i ending
    obtain ⟨front, whole⟩ := List.isSuffixOf_iff_suffix.mp ending
    exact .inr (by simp [← whole])
  · exact .inl rfl

end Typesmith.Text

namespace Typesmith.Project.Override

open Text

/-- What a line says about a model, by the forms that a line can have. -/
inductive Means (line : String) : Option (String × Override) → Prop
  | blank (reads : Says [] line) : Means line none
  | comment (marked : "//".toList <+: line.toList.dropWhile isSpace) : Means line none
  | skip {name : String} (reads : Says ["skip", name] line) : Means line (some (name, .skip))
  | replace {name type : String} (reads : Says ["replace", name, type] line) :
      Means line (some (name, .replace type))

theorem startsWith_slashes {line : String} :
    startsWith (trim line) "//" = true ↔ "//".toList <+: line.toList.dropWhile isSpace := by
  refine startsWith_trim_iff fun c last => ?_
  obtain rfl : '/' = c := by simpa using last
  rfl

theorem not_comment {line word : String} {words : List String} (reads : Says (word :: words) line)
    (other : ∀ rest, ¬"//".toList <+: word.toList ++ rest) : startsWith (trim line) "//" = false := by
  obtain ⟨rest, found⟩ := Worded.dropWhile_eq reads
  rw [← Bool.not_eq_true, startsWith_slashes, found]
  exact other rest

theorem ofLine_ok_iff {line : String} {said : Option (String × Override)} :
    ofLine line = .ok said ↔ Means line said := by
  constructor
  · intro read
    unfold ofLine at read
    split at read
    · rename_i marked
      cases read
      exact .comment (startsWith_slashes.mp marked)
    · split at read <;> rename_i found <;> cases read
      · exact .blank (fields_eq_iff.mp found)
      · exact .skip (fields_eq_iff.mp found)
      · exact .replace (fields_eq_iff.mp found)
  · intro means
    cases means with
    | blank reads =>
      rw [ofLine, fields_eq_iff.mpr reads]
      exact ite_self _
    | comment marked => rw [ofLine, if_pos (startsWith_slashes.mpr marked)]
    | skip reads =>
      have plain := not_comment reads fun rest => by simp
      rw [ofLine, plain, fields_eq_iff.mpr reads]
      rfl
    | replace reads =>
      have plain := not_comment reads fun rest => by simp
      rw [ofLine, plain, fields_eq_iff.mpr reads]
      rfl

theorem trim_dropEnd (line : String) : trim (dropEnd line "\r") = trim line := by
  rcases dropEnd_cases line "\r" with same | whole
  · rw [same]
  · rw [trim, trim, whole]
    exact congrArg String.ofList (trimBy_concat (by decide)).symm

theorem fields_dropEnd (line : String) : fields (dropEnd line "\r") = fields line := by
  rcases dropEnd_cases line "\r" with same | whole
  · rw [same]
  · rw [fields, fields, whole]
    exact congrArg (List.map String.ofList) (fieldsBy_concat (by decide)).symm

theorem ofLine_dropEnd {line : String} {said : Option (String × Override)} :
    ofLine (dropEnd line "\r") = .ok said ↔ ofLine line = .ok said := by
  -- only what is said in an error could tell the two lines apart
  unfold ofLine
  rw [trim_dropEnd, fields_dropEnd]
  split
  · rfl
  · split <;> simp

theorem readLine_ok_iff {line : String} {said : Option (String × Override)} :
    readLine line = .ok said ↔ line.utf8ByteSize < lineLimit ∧ Means line said := by
  unfold readLine
  split
  · rename_i short
    rw [ofLine_dropEnd, ofLine_ok_iff, and_iff_right short]
  · rename_i long
    simp [long]

theorem Means.unique {line : String} {said other : Option (String × Override)} (means : Means line said)
    (also : Means line other) : said = other := by
  have same := (ofLine_ok_iff.mpr means).symm.trans (ofLine_ok_iff.mpr also)
  simpa using same

/-- Of the lines that say something about the model the last one says this. -/
def LastSays (lines : List String) (name : String) (o : Override) : Prop :=
  ∃ before line after, lines = before ++ line :: after ∧ Means line (some (name, o)) ∧
    ∀ later ∈ after, ∀ other, ¬Means later (some (name, other))

variable {lines : List String} {name : String} {o : Override} {said : Option (String × Override)}
variable {found : List (Option (String × Override))} {l : List (String × Override)}

theorem lastSays_cons {line : String} :
    LastSays (line :: lines) name o ↔
      LastSays lines name o ∨
        (∀ later ∈ lines, ∀ other, ¬Means later (some (name, other))) ∧ Means line (some (name, o)) := by
  constructor
  · rintro ⟨before, own, after, whole, means, last⟩
    cases before with
    | nil =>
      cases whole
      exact .inr ⟨last, means⟩
    | cons first before =>
      cases whole
      exact .inl ⟨before, own, after, rfl, means, last⟩
  · rintro (⟨before, own, after, rfl, means, last⟩ | ⟨last, means⟩)
    · exact ⟨line :: before, own, after, rfl, means, last⟩
    · exact ⟨[], line, lines, rfl, means, last⟩

theorem means_iff {line : String} (means : Means line said) :
    Means line (some (name, o)) ↔ said = some (name, o) :=
  ⟨means.unique, fun same => same ▸ means⟩

theorem mem_keys_found (each : List.Forall₂ Means lines found) :
    name ∈ Json.keys (found.filterMap id) ↔ ∃ line ∈ lines, ∃ o, Means line (some (name, o)) := by
  induction each with
  | nil => simp
  | @cons line said lines found first _ ih =>
    have here : (∃ o, Means line (some (name, o))) ↔ name ∈ Json.keys said.toList := by
      simp only [means_iff first, ← Option.mem_def]
      simp [Json.keys]
    rw [List.exists_mem_cons_iff, here, ← ih]
    cases said <;> simp

theorem lookup_toList : said.toList.lookup name = some o ↔ said = some (name, o) := by
  cases said with
  | none => simp
  | some p =>
    obtain ⟨own, other⟩ := p
    by_cases same : name = own
    · subst same
      simp
    · simp [Json.lookup_cons_ne same, Ne.symm same]

theorem lookup_found (each : List.Forall₂ Means lines found) :
    (found.filterMap id).reverse.lookup name = some o ↔ LastSays lines name o := by
  -- a line in front counts only if the later ones say nothing about the name
  induction each with
  | nil => simp [LastSays]
  | @cons line said lines found first others ih =>
    have front : (said :: found).filterMap id = said.toList ++ found.filterMap id := by cases said <;> rfl
    have single : said.toList.reverse = said.toList := by cases said <;> rfl
    have silent : (found.filterMap id).reverse.lookup name = none ↔
        ∀ later ∈ lines, ∀ other, ¬Means later (some (name, other)) := by
      rw [← Json.lookup_sortFields, Json.lookup_eq_none_iff, Json.mem_keys_sortFields, mem_keys_found others]
      simp
    rw [front, List.reverse_append, List.lookup_append, Option.or_eq_some_iff, ih, silent, single,
      lookup_toList, lastSays_cons, means_iff first]

theorem mem_skipped : name ∈ skipped l ↔ (name, .skip) ∈ l := by
  rw [skipped, List.mem_filterMap]
  constructor
  · rintro ⟨⟨own, o⟩, inside, kept⟩
    cases o <;> cases kept
    exact inside
  · intro inside
    exact ⟨_, inside, rfl⟩

theorem mem_replacements {type : String} : (name, type) ∈ replacements l ↔ (name, .replace type) ∈ l := by
  rw [replacements, List.mem_filterMap]
  constructor
  · rintro ⟨⟨own, o⟩, inside, kept⟩
    cases o <;> cases kept
    exact inside
  · intro inside
    exact ⟨_, inside, rfl⟩

theorem keys_replacements (l : List (String × Override)) :
    (Json.keys (replacements l)).Sublist (Json.keys l) := by
  induction l with
  | nil => exact .slnil
  | cons field rest ih =>
    obtain ⟨own, _ | _⟩ := field
    · exact ih.cons_cons own
    · exact ih.cons own

theorem parse_ok_iff {text : String} : parse text = .ok l ↔
    ∃ found, (split '\n' text).mapM readLine = .ok found ∧ Json.sortFields (found.filterMap id) = l := by
  rw [parse, Model.except_bind_ok]
  exact exists_congr fun found => and_congr_right fun _ => Except.ok.injEq _ _ |>.to_iff

theorem parsed_lookup {text : String} (read : parse text = .ok l) :
    l.lookup name = some o ↔ LastSays (split '\n' text) name o := by
  obtain ⟨found, each, rfl⟩ := parse_ok_iff.mp read
  have meant : List.Forall₂ Means (split '\n' text) found :=
    (Model.mapM_ok_iff.mp each).imp fun _ _ read => (readLine_ok_iff.mp read).2
  rw [Json.lookup_sortFields, lookup_found meant]

theorem nodup_parsed {text : String} (read : parse text = .ok l) : (Json.keys l).Nodup := by
  obtain ⟨found, _, rfl⟩ := parse_ok_iff.mp read
  exact (Json.ascending_sortFields _).nodup

/-- A text is read if and only if each of its lines is short enough and is blank, a comment or a directive.
Then a name is left out if and only if the last line about it says so, and it is replaced by a type if and
only if the last line about it says that; no name is both. -/
theorem last_directive_counts (text : String) :
    ((∃ l, parse text = .ok l) ↔
      ∀ line ∈ split '\n' text, line.utf8ByteSize < lineLimit ∧ ∃ said, Means line said) ∧
    ∀ l, parse text = .ok l →
      (∀ name, name ∈ skipped l ↔ LastSays (split '\n' text) name .skip) ∧
      (∀ name type, (replacements l).lookup name = some type ↔
        LastSays (split '\n' text) name (.replace type)) ∧
      ∀ name ∈ skipped l, (replacements l).lookup name = none := by
  refine ⟨?_, fun l read => ?_⟩
  · have all : (∃ l, parse text = .ok l) ↔ ∃ found, (split '\n' text).mapM readLine = .ok found := by
      simp only [parse_ok_iff]
      exact ⟨fun ⟨_, found, each, _⟩ => ⟨found, each⟩, fun ⟨found, each⟩ => ⟨_, found, each, rfl⟩⟩
    simp only [all, Model.exists_mapM_ok_iff, readLine_ok_iff, exists_and_left]
  have distinct := nodup_parsed read
  have left : ∀ name, name ∈ skipped l ↔ l.lookup name = some .skip := fun name => by
    rw [mem_skipped, Json.mem_iff_lookup distinct]
  have replaced : ∀ name type, (replacements l).lookup name = some type ↔
      l.lookup name = some (.replace type) := fun name type => by
    rw [← Json.mem_iff_lookup ((keys_replacements l).nodup distinct), mem_replacements,
      Json.mem_iff_lookup distinct]
  refine ⟨fun name => (left name).trans (parsed_lookup read),
    fun name type => (replaced name type).trans (parsed_lookup read), fun name out => ?_⟩
  by_contra other
  obtain ⟨type, found⟩ := Option.ne_none_iff_exists'.mp other
  rw [replaced, (left name).mp out] at found
  cases found

def releaseNotes : String :=
  "// models of the old service\r\nreplace Pet  models.Pet\r\n\r\n\tskip Pet\r\n skip\u00a0Tag\n" ++
    "//skip Toy\nreplace Pet zoo.Pet \n"

theorem last_directive_counts_releaseNotes :
    ∃ l, parse releaseNotes = .ok l ∧ LastSays (split '\n' releaseNotes) "Pet" (.replace "zoo.Pet") ∧
      LastSays (split '\n' releaseNotes) "Tag" .skip ∧ ¬LastSays (split '\n' releaseNotes) "Pet" .skip := by
  have read : parse releaseNotes = .ok [("Pet", .replace "zoo.Pet"), ("Tag", .skip)] :=
    Model.eq_ok_of_toOption (by decide +kernel)
  obtain ⟨left, replaced, _⟩ := (last_directive_counts releaseNotes).2 _ read
  exact ⟨_, read, (replaced "Pet" "zoo.Pet").mp (by decide), (left "Tag").mp (by decide),
    fun out => absurd ((left "Pet").mpr out) (by decide)⟩

end Typesmith.Project.Override
