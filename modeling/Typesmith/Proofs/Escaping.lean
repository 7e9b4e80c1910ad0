import Typesmith.Proofs.Linking

namespace Typesmith

namespace Text

def Bytes (l : List Char) : Prop :=
  ∀ c ∈ l, c.toNat < 256

theorem toNat_ofNat_byte {n : Nat} (small : n < 256) : (Char.ofNat n).toNat = n := by
  have valid : n.isValidChar := .inl (by omega)
  exact congrArg Char.toNat (dif_pos valid)

theorem toNat_top (c : Char) : c.toNat < 0x110000 := by
  rcases c.valid with low | high
  · exact Nat.lt_trans low (by decide)
  · exact high.2

/-- A character is its own byte, or all its bytes are beyond ASCII. -/
theorem mem_charBytes {c d : Char} (inside : d ∈ charBytes c) :
    d = c ∧ c.toNat < 0x80 ∨ 0x80 ≤ d.toNat ∧ d.toNat < 256 := by
  have top := toNat_top c
  unfold charBytes at inside
  dsimp only at inside
  split at inside
  · rename_i ascii
    exact .inl ⟨List.mem_singleton.mp inside, ascii⟩
  · have byte : ∃ n, 0x80 ≤ n ∧ n < 256 ∧ Char.ofNat n = d := by
      repeat' split at inside
      all_goals
        obtain ⟨n, among, rfl⟩ := List.mem_map.mp inside
        refine ⟨n, ?_, ?_, rfl⟩ <;> simp at among <;> omega
    obtain ⟨n, low, high, rfl⟩ := byte
    rw [toNat_ofNat_byte high]
    exact .inr ⟨low, high⟩

theorem bytes_toBytes (s : List Char) : Bytes (toBytes s) := by
  intro d inside
  obtain ⟨c, _, among⟩ := List.mem_flatMap.mp inside
  rcases mem_charBytes among with ⟨rfl, ascii⟩ | ⟨_, high⟩ <;> omega

theorem mem_toBytes_ascii {s : List Char} {d : Char} (ascii : d.toNat < 0x80) : d ∈ toBytes s ↔ d ∈ s := by
  constructor
  · intro inside
    obtain ⟨c, member, among⟩ := List.mem_flatMap.mp inside
    rcases mem_charBytes among with ⟨rfl, _⟩ | ⟨low, _⟩
    · exact member
    · omega
  · intro member
    refine List.mem_flatMap.mpr ⟨d, member, ?_⟩
    simp [charBytes, ascii]

theorem joinBytes_digits {bits least n : Nat} (digits : List Nat) (small : ∀ k ∈ digits, k < 64)
    (value : digits.foldl (fun n k => n * 64 + k) bits = n) (shortest : least ≤ n) (valid : n.isValidChar)
    (rest : List Char) :
    joinBytes bits digits.length least (digits.map (fun k => Char.ofNat (0x80 + k)) ++ rest) =
      some (digits.length, Char.ofNat n) := by
  have byte : ∀ k ∈ digits, (Char.ofNat (0x80 + k)).toNat = 0x80 + k := by
    intro k inside
    have := small k inside
    exact toNat_ofNat_byte (by omega)
  have length : digits.length = (digits.map fun k => Char.ofNat (0x80 + k)).length :=
    (List.length_map _).symm
  have continued : (digits.map fun k => Char.ofNat (0x80 + k)).all isContinuation = true := by
    rw [List.all_map, List.all_eq_true]
    intro k inside
    have := small k inside
    simp only [Function.comp, isContinuation, byte k inside, Bool.and_eq_true, decide_eq_true_eq]
    omega
  have joined : (digits.map fun k => Char.ofNat (0x80 + k)).foldl
      (fun n c => n * 64 + c.toNat % 64) bits = n := by
    rw [List.foldl_map, ← value]
    refine List.foldl_ext _ _ _ fun m k inside => ?_
    have := small k inside
    rw [byte k inside]
    omega
  unfold joinBytes
  rw [length, List.take_left]
  simp only [joined]
  exact if_pos ⟨trivial, continued, shortest, valid⟩

theorem sequenceAt_charBytes (c : Char) (rest : List Char) : ∃ first more, charBytes c = first :: more ∧
    sequenceAt first (more ++ rest) = some (more.length, c) := by
  have top := toNat_top c
  have valid : c.toNat.isValidChar := c.valid
  have same : Char.ofNat c.toNat = c := Char.ofNat_toNat c
  -- by how many bytes there are; the leading one says so
  by_cases one : c.toNat < 0x80
  · exact ⟨c, [], by simp [charBytes, one], by simp [sequenceAt, one]⟩
  by_cases two : c.toNat < 0x800
  · have lead : (Char.ofNat (0xC0 + c.toNat / 64)).toNat = 0xC0 + c.toNat / 64 :=
      toNat_ofNat_byte (by omega)
    have joined : joinBytes (c.toNat / 64) 1 0x80 _ = some (1, _) :=
      joinBytes_digits [c.toNat % 64] (by simp; omega) (by simp; omega) (by omega) valid rest
    rw [same] at joined
    refine ⟨_, _, by simp only [charBytes, if_neg one, if_pos two, List.map_cons]; rfl, ?_⟩
    unfold sequenceAt
    dsimp only
    rw [lead, if_neg (by omega), if_neg (by omega), if_pos (by omega), Nat.add_sub_cancel_left]
    exact joined
  by_cases three : c.toNat < 0x10000
  · have lead : (Char.ofNat (0xE0 + c.toNat / 4096)).toNat = 0xE0 + c.toNat / 4096 :=
      toNat_ofNat_byte (by omega)
    have joined : joinBytes (c.toNat / 4096) 2 0x800 _ = some (2, _) :=
      joinBytes_digits [c.toNat / 64 % 64, c.toNat % 64] (by simp; omega) (by simp; omega) (by omega)
        valid rest
    rw [same] at joined
    refine ⟨_, _, by simp only [charBytes, if_neg one, if_neg two, if_pos three, List.map_cons]; rfl, ?_⟩
    unfold sequenceAt
    dsimp only
    rw [lead, if_neg (by omega), if_neg (by omega), if_neg (by omega), if_pos (by omega),
      Nat.add_sub_cancel_left]
    exact joined
  · have lead : (Char.ofNat (0xF0 + c.toNat / 262144)).toNat = 0xF0 + c.toNat / 262144 :=
      toNat_ofNat_byte (by omega)
    have joined : joinBytes (c.toNat / 262144) 3 0x10000 _ = some (3, _) :=
      joinBytes_digits [c.toNat / 4096 % 64, c.toNat / 64 % 64, c.toNat % 64] (by simp; omega)
        (by simp; omega) (by omega) valid rest
    rw [same] at joined
    refine ⟨_, _, by simp only [charBytes, if_neg one, if_neg two, if_neg three, List.map_cons]; rfl, ?_⟩
    unfold sequenceAt
    dsimp only
    rw [lead, if_neg (by omega), if_neg (by omega), if_neg (by omega), if_neg (by omega),
      if_pos (by omega), Nat.add_sub_cancel_left]
    exact joined

theorem toBytes_eq_cons {s rest : List Char} {a : Char} (ascii : a.toNat < 0x80)
    (bytes : toBytes s = a :: rest) : ∃ later, s = a :: later ∧ toBytes later = rest := by
  cases s with
  | nil => cases bytes
  | cons c later =>
    have parts : charBytes c ++ toBytes later = a :: rest := bytes
    by_cases one : c.toNat < 0x80
    · rw [charBytes, if_pos one] at parts
      cases parts
      exact ⟨later, rfl, rfl⟩
    · obtain ⟨first, more, spelled, _⟩ := sequenceAt_charBytes c []
      have inside : first ∈ charBytes c := by simp [spelled]
      rw [spelled] at parts
      cases parts
      rcases mem_charBytes inside with ⟨_, low⟩ | ⟨high, _⟩ <;> omega

theorem ofBytesFrom_length (more rest : List Char) :
    ofBytesFrom more.length (more ++ rest) = ofBytesFrom 0 rest := by
  induction more with
  | nil => rfl
  | cons c more ih => exact ih

theorem ofBytes_charBytes (c : Char) (rest : List Char) :
    ofBytes (charBytes c ++ rest) = c :: ofBytes rest := by
  obtain ⟨first, more, bytes, found⟩ := sequenceAt_charBytes c rest
  rw [bytes, List.cons_append, ofBytes, ofBytesFrom, found]
  exact congrArg (c :: ·) (ofBytesFrom_length more rest)

theorem ofBytes_toBytes (s : List Char) : ofBytes (toBytes s) = s := by
  induction s with
  | nil => rfl
  | cons c rest ih =>
    rw [toBytes, List.flatMap_cons, ofBytes_charBytes]
    exact congrArg (c :: ·) ih

theorem length_ofBytes_continued {more : List Char} (continued : ∀ c ∈ more, isContinuation c = true)
    (rest : List Char) : (ofBytes (more ++ rest)).length = more.length + (ofBytes rest).length := by
  induction more with
  | nil => simp
  | cons c more ih =>
    have first := continued c List.mem_cons_self
    have later := ih fun d inside => continued d (List.mem_cons_of_mem _ inside)
    have alone : sequenceAt c (more ++ rest) = none := by
      simp only [isContinuation, Bool.and_eq_true, decide_eq_true_eq] at first
      unfold sequenceAt
      dsimp only
      rw [if_neg (by omega), if_pos (by omega)]
    rw [List.cons_append, ofBytes, ofBytesFrom, alone]
    simp only [List.length_cons]
    rw [ofBytes] at later
    omega

theorem continued_of_joinBytes {bits count least m : Nat} {rest : List Char} {c : Char}
    (joined : joinBytes bits count least rest = some (m, c)) :
    m = count ∧ (rest.take count).length = count ∧ ∀ d ∈ rest.take count, isContinuation d = true := by
  unfold joinBytes at joined
  dsimp only at joined
  split at joined
  · rename_i all
    cases joined
    exact ⟨rfl, all.1, List.all_eq_true.mp all.2.1⟩
  · cases joined

theorem continued_of_sequenceAt {a c : Char} {rest : List Char} {m : Nat}
    (found : sequenceAt a rest = some (m, c)) :
    (rest.take m).length = m ∧ ∀ d ∈ rest.take m, isContinuation d = true := by
  unfold sequenceAt at found
  dsimp only at found
  repeat' split at found
  · cases found
    simp
  · cases found
  · obtain ⟨rfl, length, all⟩ := continued_of_joinBytes found
    exact ⟨length, all⟩
  · obtain ⟨rfl, length, all⟩ := continued_of_joinBytes found
    exact ⟨length, all⟩
  · obtain ⟨rfl, length, all⟩ := continued_of_joinBytes found
    exact ⟨length, all⟩
  · cases found

/-- One more byte makes one more character at most. -/
theorem length_ofBytes_cons (a : Char) (rest : List Char) :
    (ofBytes (a :: rest)).length ≤ (ofBytes rest).length + 1 := by
  rw [ofBytes, ofBytesFrom]
  split
  · rename_i m c found
    obtain ⟨length, continued⟩ := continued_of_sequenceAt found
    have parts : rest = rest.take m ++ rest.drop m := (List.take_append_drop m rest).symm
    have skipped : ofBytesFrom m rest = ofBytes (rest.drop m) := by
      have skip := ofBytesFrom_length (rest.take m) (rest.drop m)
      rwa [length, ← parts] at skip
    have kept := length_ofBytes_continued continued (rest.drop m)
    rw [← parts] at kept
    rw [List.length_cons, skipped]
    omega
  · exact Nat.le_refl _

end Text

namespace Link

open Text

theorem hexValue?_lt {c : Char} {n : Nat} (value : hexValue? c = some n) : n < 16 ∧ c.toNat < 0x80 := by
  have upTo : ∀ d : Char, c ≤ d → c.toNat ≤ d.toNat := fun d below => UInt32.le_iff_toNat_le.mp below
  unfold hexValue? at value
  split at value
  · rename_i digit
    have last : c.toNat ≤ 57 := upTo '9' digit.2
    cases value
    omega
  · split at value
    · rename_i small
      have last : c.toNat ≤ 102 := upTo 'f' small.2
      cases value
      omega
    · split at value
      · rename_i capital
        have last : c.toNat ≤ 70 := upTo 'F' capital.2
        cases value
        omega
      · cases value

theorem ne_percent_of_hexValue? {c : Char} {n : Nat} (value : hexValue? c = some n) : c ≠ '%' := by
  rintro rfl
  have none : hexValue? '%' = none := by decide
  rw [none] at value
  cases value

theorem hexValue?_upperHex {n : Nat} (small : n < 16) : hexValue? (upperHex n) = some n := by
  revert n
  decide +kernel

theorem needsEscape_fragment {c : Char} (byte : c.toNat < 256) :
    (c.toNat < 0x80 ∧ c ≠ '%') ∨ needsEscape .fragment c = true := by
  obtain ⟨n, small, rfl⟩ : ∃ n, n < 256 ∧ Char.ofNat n = c := ⟨c.toNat, byte, Char.ofNat_toNat c⟩
  clear byte
  revert n
  decide +kernel

theorem upperHex_ascii {n : Nat} (small : n < 16) : (upperHex n).toNat < 0x80 := by
  revert n
  decide +kernel

section

variable {part : Part}

theorem unescape?_append (other : part ≠ .host) {front : List Char} (plain : '%' ∉ front)
    (rest : List Char) : unescape? part (front ++ rest) = (unescape? part rest).map (front ++ ·) := by
  induction front with
  | nil => simp
  | cons c front ih =>
    have first : c ≠ '%' := fun same => plain (same ▸ List.mem_cons_self)
    have later := ih fun inside => plain (List.mem_cons_of_mem _ inside)
    rw [List.cons_append, unescape?_cons other first, later, Option.map_map]
    rfl

theorem unescape?_percent (other : part ≠ .host) {a b : Char} {x y : Nat} (high : hexValue? a = some x)
    (low : hexValue? b = some y) (rest : List Char) :
    unescape? part ('%' :: a :: b :: rest) = (unescape? part rest).map (Char.ofNat (x * 16 + y) :: ·) := by
  have notHost : (part == Part.host) = false := by simpa using other
  rw [unescape?]
  simp only [high, low, notHost]
  cases unescape? part rest <;> rfl

theorem unescape?_percent_some (other : part ≠ .host) {l q : List Char}
    (found : unescape? part ('%' :: l) = some q) :
    ∃ a b rest x y more, l = a :: b :: rest ∧ hexValue? a = some x ∧ hexValue? b = some y ∧
      unescape? part rest = some more ∧ q = Char.ofNat (x * 16 + y) :: more := by
  match l with
  | [] => simp [unescape?] at found
  | [a] => simp [unescape?] at found
  | a :: b :: rest =>
    cases high : hexValue? a with
    | none => simp [unescape?, high] at found
    | some x =>
      cases low : hexValue? b with
      | none => simp [unescape?, high, low] at found
      | some y =>
        rw [unescape?_percent other high low, Option.map_eq_some_iff] at found
        obtain ⟨more, later, rfl⟩ := found
        exact ⟨a, b, rest, x, y, more, rfl, high, low, later, rfl⟩

theorem bytes_unescape? {l q : List Char} (bytes : Bytes l) (found : unescape? part l = some q) :
    Bytes q := by
  fun_induction unescape? part l generalizing q with
  | case1 =>
    cases found
    exact bytes
  | case2 _ _ rest ih =>
    obtain ⟨x, high, found⟩ := Option.bind_eq_some_iff.mp found
    obtain ⟨y, low, found⟩ := Option.bind_eq_some_iff.mp found
    split at found
    · cases found
    · obtain ⟨more, later, same⟩ := Option.bind_eq_some_iff.mp found
      cases same
      have top := (hexValue?_lt high).1
      have bottom := (hexValue?_lt low).1
      have inside := ih (fun d member => bytes d (by simp [member])) later
      have first : (Char.ofNat (x * 16 + y)).toNat < 256 := by
        rw [toNat_ofNat_byte (by omega)]
        omega
      exact List.forall_mem_cons.mpr ⟨first, inside⟩
  | case3 => cases found
  | case4 => cases found
  | case5 _ _ _ _ _ ih =>
    obtain ⟨more, later, same⟩ := Option.bind_eq_some_iff.mp found
    cases same
    obtain ⟨first, rest⟩ := List.forall_mem_cons.mp bytes
    exact List.forall_mem_cons.mpr ⟨first, ih rest later⟩

/-- Each escape is read as one character at most, though it is written as three. -/
theorem length_unescape? (other : part ≠ .host) {s q : List Char}
    (found : unescape? part (toBytes s) = some q) : (ofBytes q).length + 2 * s.count '%' ≤ s.length := by
  induction h : s.length using Nat.strong_induction_on generalizing s q with
  | _ n ih =>
    subst h
    match s with
    | [] =>
      cases found
      exact Nat.le_refl _
    | c :: rest =>
      have bytes : toBytes (c :: rest) = charBytes c ++ toBytes rest := rfl
      by_cases percent : c = '%'
      · subst percent
        obtain ⟨a, b, l, x, y, more, letters, high, low, later, rfl⟩ := unescape?_percent_some other found
        obtain ⟨more', rfl, letters'⟩ := toBytes_eq_cons (s := rest) (hexValue?_lt high).2 letters
        obtain ⟨s, rfl, rfl⟩ := toBytes_eq_cons (hexValue?_lt low).2 letters'
        have shorter := ih s.length (by simp; omega) later rfl
        have one := length_ofBytes_cons (Char.ofNat (x * 16 + y)) more
        have marks : ('%' :: a :: b :: s).count '%' = s.count '%' + 1 := by
          rw [List.count_cons_self, List.count_cons_of_ne (ne_percent_of_hexValue? high),
            List.count_cons_of_ne (ne_percent_of_hexValue? low)]
        simp only [List.length_cons]
        omega
      · have plain : '%' ∉ charBytes c := by
          intro inside
          rcases mem_charBytes inside with ⟨same, _⟩ | ⟨beyond, _⟩
          · exact percent same.symm
          · exact absurd beyond (by decide)
        rw [bytes, unescape?_append other plain, Option.map_eq_some_iff] at found
        obtain ⟨more, later, rfl⟩ := found
        have shorter := ih rest.length (by simp) later rfl
        rw [ofBytes_charBytes, List.count_cons_of_ne percent, List.length_cons, List.length_cons]
        omega

theorem unescape?_escape (other : part ≠ .host) {q : List Char} (bytes : Bytes q) :
    unescape? part (escape .fragment q) = some q := by
  induction q with
  | nil => rfl
  | cons c q ih =>
    obtain ⟨byte, rest⟩ := List.forall_mem_cons.mp bytes
    have later := ih rest
    rw [escape] at later ⊢
    rw [List.flatMap_cons]
    split
    · have high := hexValue?_upperHex (n := c.toNat / 16) (by omega)
      have low := hexValue?_upperHex (n := c.toNat % 16) (by omega)
      have whole : c.toNat / 16 * 16 + c.toNat % 16 = c.toNat := by omega
      simp only [List.cons_append, List.nil_append]
      rw [unescape?_percent other high low, later, whole, Char.ofNat_toNat]
      rfl
    · rename_i plain
      have ascii : c ≠ '%' := by
        rcases needsEscape_fragment byte with ⟨_, plain⟩ | escaped
        · exact plain
        · exact absurd escaped plain
      rw [List.cons_append, List.nil_append, unescape?_cons other ascii, later]
      rfl

theorem escape_ascii {q : List Char} (bytes : Bytes q) : ∀ d ∈ escape .fragment q, d.toNat < 0x80 := by
  intro d inside
  obtain ⟨c, member, among⟩ := List.mem_flatMap.mp inside
  have byte := bytes c member
  split at among
  · simp only [List.mem_cons, List.not_mem_nil, or_false] at among
    rcases among with rfl | rfl | rfl
    · decide
    · exact upperHex_ascii (by omega)
    · exact upperHex_ascii (by omega)
  · rename_i plain
    cases List.mem_singleton.mp among
    rcases needsEscape_fragment byte with ⟨ascii, _⟩ | escaped
    · exact ascii
    · exact absurd escaped plain

end

theorem read?_local (text : List Char) : read? ('#' :: text) =
    (unescape? .fragment text).map fun q => { fragment := q, fragmentText := text } := by
  have empty : readBody? [] = some {} := by rfl
  have split : cut '#' ('#' :: text) = some ([], text) := cut_append List.not_mem_nil text
  rw [read?, split]
  simp only [empty]
  cases unescape? .fragment text <;> rfl

theorem write_normal_local (q text : List Char) :
    (normal { fragment := q, fragmentText := text }).write =
      if (escape .fragment q).isEmpty then [] else '#' :: escape .fragment q := by
  have host : dropPort [] ((toBytes (ofBytes [])).map Char.toLower) = [] := by decide
  have plain : normal { fragment := q, fragmentText := text } = { fragment := q } := by
    rw [normal, host]
    rfl
  have front : writeFront { fragment := q } = [] := rfl
  have path : writePath { fragment := q } [] = [] := rfl
  have spelled : spell .fragment [] q = escape .fragment q := rfl
  rw [plain, write, front, path]
  simp only [List.isEmpty_nil, if_true, List.append_nil, List.nil_append, spelled]

theorem parse_target_local {p q : List Char} (read : unescape? .fragment (toBytes p) = some q) :
    ∃ n, normalize? (String.ofList ('#' :: p)) = some n ∧
      Reference.parse (target n) = Reference.parse (String.ofList ('#' :: ofBytes q)) := by
  have bytes : Bytes q := bytes_unescape? (bytes_toBytes p) read
  have letters := escape_ascii bytes
  have back : unescape? .segment (escape .fragment q) = some q := unescape?_escape (by decide) bytes
  have front : toBytes ('#' :: p) = '#' :: toBytes p := rfl
  have mark : ofBytes ('#' :: q) = '#' :: ofBytes q := ofBytes_charBytes '#' q
  have normalized : normalize? (String.ofList ('#' :: p)) =
      some (String.ofList (ofBytes
        (if (escape .fragment q).isEmpty then [] else '#' :: escape .fragment q))) := by
    rw [normalize?, String.toList_ofList, front, read?_local, read, Option.map_some, Option.map_some,
      write_normal_local]
  refine ⟨_, normalized, ?_⟩
  by_cases empty : escape .fragment q = []
  · rw [empty] at back
    cases back
    rw [empty]
    decide
  · have written : (escape .fragment q).isEmpty = false := by simpa using empty
    have ascii : ∀ c ∈ '#' :: escape .fragment q, c.toNat < 0x80 := by
      intro c inside
      rcases List.mem_cons.mp inside with rfl | inside
      · decide
      · exact letters c inside
    have opened : unescape? .segment ('#' :: escape .fragment q) = some ('#' :: q) := by
      rw [unescape?_cons (by decide) (by decide), back]
      rfl
    rw [written, if_neg (by decide), ofBytes_ascii ascii, target, String.toList_ofList, toBytes_ascii ascii,
      opened]
    simp only [mark]

end Link

end Typesmith
