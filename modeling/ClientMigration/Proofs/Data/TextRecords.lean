/-
# Proofs.Data.TextRecords -- which texts are records of texts

A JSON record of texts, said without the reader: a brace, members with commas
between them, a brace; a member is a string, a colon and a string; between all of
these, and around them, there may be blanks. Every relation here tells what a text
begins with and what is left of it, as a reader does, so that the readers can be
followed one by one.

A string is one that writes characters: half of a surrogate pair is none. The
reader finds such a record exactly where one is written (`read_textRecord_iff`), so
nothing else that may be in a text, a value of another kind, a value cut short, or
more behind the last brace, is taken for one.
-/
import ClientMigration.Proofs.Data.Json

namespace ClientMigration.Json

set_option autoImplicit false

variable {t u r : Text} {c : Char} {n : Nat}

/-! ## The grammar -/

/-- A text after blanks. -/
inductive Blanks : Text → Text → Prop where
  | none (t : Text) : Blanks t t
  | more {c : Char} {t r : Text} : c ∈ [' ', '\n', '\t', '\r'] → Blanks t r → Blanks (c :: t) r

/-- A hexadecimal digit and its value. -/
def HexDigit (c : Char) (n : Nat) : Prop :=
  "0123456789abcdef".toList[n]? = some c ∨ "0123456789ABCDEF".toList[n]? = some c

/-- Four hexadecimal digits, their number, and what follows. -/
inductive HexNumber : Text → Nat → Text → Prop where
  | four {a b c d : Char} {i j k l : Nat} (r : Text) : HexDigit a i → HexDigit b j → HexDigit c k →
      HexDigit d l → HexNumber (a :: b :: c :: d :: r) (((i * 16 + j) * 16 + k) * 16 + l) r

/-- The letters behind a backslash, and what they stand for. -/
def escapes : List (Char × Char) :=
  [('"', '"'), ('\\', '\\'), ('/', '/'), ('b', '\x08'), ('f', '\x0c'), ('n', '\n'), ('r', '\r'),
    ('t', '\t')]

/-- One character of a string, and what follows. -/
inductive CharacterIn : Text → Char → Text → Prop where
  | plain {c : Char} (r : Text) : 0x20 ≤ c.toNat → c ≠ '"' → c ≠ '\\' → CharacterIn (c :: r) c r
  | escape {e c : Char} (r : Text) : (e, c) ∈ escapes → CharacterIn ('\\' :: e :: r) c r
  | unit {t r : Text} {n : Nat} : HexNumber t n r → n < 0xD800 ∨ 0xDFFF < n →
      CharacterIn ('\\' :: 'u' :: t) (Char.ofNat n) r
  | pair {t u r : Text} {high low : Nat} : HexNumber t high ('\\' :: 'u' :: u) → HexNumber u low r →
      0xD800 ≤ high → high < 0xDC00 → 0xDC00 ≤ low → low ≤ 0xDFFF →
      CharacterIn ('\\' :: 'u' :: t) (Char.ofNat (0x10000 + (high - 0xD800) * 0x400 + (low - 0xDC00))) r

/-- The characters of a string behind its opening quote, and what follows the closing one. -/
inductive StringIn : Text → Text → Text → Prop where
  | close (r : Text) : StringIn ('"' :: r) [] r
  | next {t u s r : Text} {c : Char} : CharacterIn t c u → StringIn u s r → StringIn t (c :: s) r

/-- A name and a text with a colon between them. -/
inductive MemberIn : Text → String × String → Text → Prop where
  | mk {t name colon value quote r : Text} {n v : String} : Blanks t ('"' :: name) →
      StringIn name n.toList colon → Blanks colon (':' :: value) → Blanks value ('"' :: quote) →
      StringIn quote v.toList r → MemberIn t (n, v) r

/-- Members with commas between them, through the closing brace. -/
inductive MembersIn : Text → List (String × String) → Text → Prop where
  | last {t u r : Text} {e : String × String} : MemberIn t e u → Blanks u ('\x7d' :: r) →
      MembersIn t [e] r
  | more {t u v r : Text} {e : String × String} {es : List (String × String)} : MemberIn t e u →
      Blanks u (',' :: v) → MembersIn v es r → MembersIn t (e :: es) r

/-- A whole text that is a record of texts. -/
inductive IsTextRecord : Text → List (String × String) → Prop where
  | empty {t u r : Text} : Blanks t ('\x7b' :: u) → Blanks u ('\x7d' :: r) → Blanks r [] → IsTextRecord t []
  | members {t u r : Text} {es : List (String × String)} : Blanks t ('\x7b' :: u) → MembersIn u es r →
      Blanks r [] → IsTextRecord t es

/-! ## Blanks -/

theorem skipBlanks_cons (c : Char) (t : Text) :
    skipBlanks (c :: t) = if c ∈ [' ', '\n', '\t', '\r'] then skipBlanks t else c :: t := by
  simp only [skipBlanks, List.dropWhile_cons, Bool.or_eq_true, beq_iff_eq, List.mem_cons,
    List.not_mem_nil, or_false, or_assoc]

theorem blanks_skipBlanks (t : Text) : Blanks t (skipBlanks t) := by
  induction t with
  | nil => exact .none []
  | cons c t ih =>
    rw [skipBlanks_cons]
    split
    · rename_i blank
      exact .more blank ih
    · exact .none _

theorem Blanks.skipBlanks_eq (blanks : Blanks t r) : skipBlanks t = skipBlanks r := by
  induction blanks with
  | none t => rfl
  | more blank _ ih => rw [skipBlanks_cons, if_pos blank, ih]

/-- What follows blanks is found by skipping them if it is no blank itself. -/
theorem skipBlanks_iff (dark : c ∉ [' ', '\n', '\t', '\r']) :
    skipBlanks t = c :: r ↔ Blanks t (c :: r) := by
  constructor
  · intro skipped
    exact skipped ▸ blanks_skipBlanks t
  · intro blanks
    rw [blanks.skipBlanks_eq, skipBlanks_cons, if_neg dark]

theorem skipBlanks_eq_nil_iff : skipBlanks t = [] ↔ Blanks t [] :=
  ⟨fun skipped => skipped ▸ blanks_skipBlanks t, fun blanks => blanks.skipBlanks_eq⟩

theorem Blanks.length_le (blanks : Blanks t r) : r.length ≤ t.length := by
  induction blanks with
  | none t => exact Nat.le_refl _
  | more _ _ ih => exact Nat.le_succ_of_le ih

/-! ## Characters -/

/-- The digits by their values, from nought to nine and from ten on. -/
theorem hexDigit_table : ∀ n < 16, (n < 10 → HexDigit (Char.ofNat (48 + n)) n) ∧
    (10 ≤ n → HexDigit (Char.ofNat (87 + n)) n ∧ HexDigit (Char.ofNat (55 + n)) n) := by
  unfold HexDigit
  decide

theorem hexDigit?_eq_some_iff : hexDigit? c = some n ↔ HexDigit c n := by
  have spelled (k : Nat) (number : c.toNat = k) : c = Char.ofNat k := by rw [← number, Char.ofNat_toNat]
  constructor
  · intro digit
    unfold hexDigit? at digit
    simp only [Char.le_def, UInt32.le_iff_toNat_le, Bool.and_eq_true, decide_eq_true_eq] at digit
    repeat' split at digit
    · rename_i isDigit
      obtain ⟨above, below⟩ := Char.isDigit_iff_toNat.mp isDigit
      have above : 48 ≤ c.toNat := above
      have below : c.toNat ≤ 57 := below
      obtain rfl : c.toNat - 48 = n := Option.some.inj digit
      have entry := (hexDigit_table (c.toNat - 48) (by omega)).1 (by omega)
      rwa [← spelled (48 + (c.toNat - 48)) (by omega)] at entry
    · rename_i range
      have above : 97 ≤ c.toNat := range.1
      have below : c.toNat ≤ 102 := range.2
      obtain rfl : c.toNat - 97 + 10 = n := Option.some.inj digit
      have entry := ((hexDigit_table (c.toNat - 97 + 10) (by omega)).2 (by omega)).1
      rwa [← spelled (87 + (c.toNat - 97 + 10)) (by omega)] at entry
    · rename_i range
      have above : 65 ≤ c.toNat := range.1
      have below : c.toNat ≤ 70 := range.2
      obtain rfl : c.toNat - 65 + 10 = n := Option.some.inj digit
      have entry := ((hexDigit_table (c.toNat - 65 + 10) (by omega)).2 (by omega)).2
      rwa [← spelled (55 + (c.toNat - 65 + 10)) (by omega)] at entry
    · cases digit
  · have values : ∀ k < 16, "0123456789abcdef".toList[k]?.bind hexDigit? = some k ∧
        "0123456789ABCDEF".toList[k]?.bind hexDigit? = some k := by decide
    rintro (small | capital)
    · have value := (values n (List.getElem?_eq_some_iff.mp small).1).1
      rwa [small] at value
    · have value := (values n (List.getElem?_eq_some_iff.mp capital).1).2
      rwa [capital] at value

theorem readHex_eq_some_iff : readHex t = some (n, r) ↔ HexNumber t n r := by
  constructor
  · intro read
    unfold readHex at read
    split at read
    · simp only [Option.bind_eq_bind, Option.bind_eq_some_iff, Option.some.injEq, Prod.mk.injEq,
        hexDigit?_eq_some_iff] at read
      obtain ⟨i, first, j, second, k, third, l, fourth, rfl, rfl⟩ := read
      exact .four _ first second third fourth
    · cases read
  · rintro ⟨_, first, second, third, fourth⟩
    simp only [readHex, hexDigit?_eq_some_iff.mpr first, hexDigit?_eq_some_iff.mpr second,
      hexDigit?_eq_some_iff.mpr third, hexDigit?_eq_some_iff.mpr fourth, Option.bind_eq_bind,
      Option.bind_some]

theorem unescape?_eq_some_iff {e : Char} : unescape? e = some c ↔ (e, c) ∈ escapes := by
  constructor
  · intro stands
    unfold unescape? at stands
    split at stands
    all_goals cases stands
    all_goals decide
  · intro listed
    simp only [escapes, List.mem_cons, Prod.mk.injEq, List.not_mem_nil, or_false] at listed
    rcases listed with ⟨rfl, rfl⟩ | ⟨rfl, rfl⟩ | ⟨rfl, rfl⟩ | ⟨rfl, rfl⟩ | ⟨rfl, rfl⟩ | ⟨rfl, rfl⟩ |
      ⟨rfl, rfl⟩ | ⟨rfl, rfl⟩
    all_goals rfl

theorem readCodePoint_eq_some_iff :
    readCodePoint t = some (some c, r) ↔ CharacterIn ('\\' :: 'u' :: t) c r := by
  constructor
  · intro read
    unfold readCodePoint at read
    split at read
    · cases read
    · rename_i n u number
      have number := readHex_eq_some_iff.mp number
      split at read
      · rename_i unit
        cases read
        exact .unit number (by simpa using unit)
      · rename_i half
        split at read
        · cases read
        · rename_i early
          split at read
          · split at read
            · rename_i m u' second
              split at read
              · rename_i late
                simp only [Bool.and_eq_true, Bool.or_eq_true, decide_eq_true_eq] at late half
                simp only [Option.some.injEq, Prod.mk.injEq] at read
                obtain ⟨rfl, rfl⟩ := read
                exact .pair number (readHex_eq_some_iff.mp second) (by omega) (by omega) late.1 late.2
              · cases read
            · cases read
          · cases read
  · intro spelled
    cases spelled with
    | plain _ _ _ noBackslash => exact absurd rfl noBackslash
    | escape _ listed => exact absurd (unescape?_eq_some_iff.mpr listed) (by simp [unescape?])
    | unit number unit =>
      simp only [readCodePoint, readHex_eq_some_iff.mpr number]
      rw [if_pos (by simpa using unit)]
    | pair number second above early late below =>
      simp only [readCodePoint, readHex_eq_some_iff.mpr number, readHex_eq_some_iff.mpr second]
      rw [if_neg (by simp only [Bool.or_eq_true, decide_eq_true_eq]; omega), if_neg (by omega),
        if_pos (by simpa using ⟨late, below⟩)]

/-- One character is read where no quote ends the string. -/
theorem readCharacter_eq_some_iff (open' : ∀ u, t ≠ '"' :: u) :
    readCharacter t = some (some c, r) ↔ CharacterIn t c r := by
  constructor
  · intro read
    unfold readCharacter at read
    split at read
    · exact readCodePoint_eq_some_iff.mp read
    · obtain ⟨x, stands, same⟩ := Option.map_eq_some_iff.mp read
      cases same
      exact .escape _ (unescape?_eq_some_iff.mp stands)
    · cases read
    · rename_i noLetter noEscape last
      split at read
      · cases read
      · rename_i high
        cases read
        refine .plain _ (by omega) (fun quote => open' _ (by rw [quote])) ?_
        rintro rfl
        cases r with
        | nil => exact last rfl rfl
        | cons e r => exact noEscape e r rfl rfl
    · cases read
  · intro spelled
    cases spelled with
    | plain _ high noQuote noBackslash =>
      unfold readCharacter
      split <;> simp_all
    | @escape e _ _ listed =>
      have stands := unescape?_eq_some_iff.mpr listed
      rw [readCharacter, stands]
      · rfl
      · rintro rfl
        cases stands
    | unit number unit => exact readCodePoint_eq_some_iff.mpr (.unit number unit)
    | pair number second above early late below =>
      exact readCodePoint_eq_some_iff.mpr (.pair number second above early late below)

/-! ## Strings -/

theorem CharacterIn.length_lt (spelled : CharacterIn t c r) : r.length < t.length := by
  have digits {t r : Text} {n : Nat} (number : HexNumber t n r) : r.length < t.length := by
    cases number
    simp only [List.length_cons]
    omega
  cases spelled with
  | plain | escape => simp only [List.length_cons]; omega
  | unit number _ =>
    have := digits number
    simp only [List.length_cons]
    omega
  | pair number second _ _ _ _ =>
    have := digits number
    have := digits second
    simp only [List.length_cons] at *
    omega

theorem CharacterIn.noQuote (spelled : CharacterIn t c r) (u : Text) : t ≠ '"' :: u := by
  cases spelled with
  | plain _ _ noQuote _ => exact fun same => noQuote (List.cons.inj same).1
  | _ => exact fun same => absurd (List.cons.inj same).1 (by decide)

variable {s : Text}

theorem StringIn.length_lt (string : StringIn t s r) : s.length + r.length < t.length := by
  induction string with
  | close r => simp
  | next spelled _ ih =>
    have := spelled.length_lt
    simp only [List.length_cons]
    omega

/-- A call of the reader that does not stand before a quote reads a character and goes on. -/
theorem readStringFrom_succ (open' : ∀ u, t ≠ '"' :: u) (fuel : Nat) :
    readStringFrom (fuel + 1) t =
      (readCharacter t).bind fun p => (readStringFrom fuel p.2).map fun q => (p.1 :: q.1, q.2) := by
  rw [readStringFrom]
  · cases readCharacter t with
    | none => rfl
    | some p => rfl
  · exact fun r same => open' r same

theorem stringIn_of_read {fuel : Nat} (read : readStringFrom fuel t = some (s.map some, r)) :
    StringIn t s r := by
  induction fuel generalizing t s with
  | zero => cases read
  | succ fuel ih =>
    by_cases quote : ∃ u, t = '"' :: u
    · obtain ⟨u, rfl⟩ := quote
      simp only [readStringFrom, Option.some.injEq, Prod.mk.injEq] at read
      obtain ⟨nothing, rfl⟩ := read
      rw [List.map_eq_nil_iff.mp nothing.symm]
      exact .close u
    · have open' : ∀ u, t ≠ '"' :: u := fun u same => quote ⟨u, same⟩
      rw [readStringFrom_succ open'] at read
      obtain ⟨⟨first, u⟩, here, further⟩ := Option.bind_eq_some_iff.mp read
      obtain ⟨⟨rest, v⟩, below, same⟩ := Option.map_eq_some_iff.mp further
      obtain ⟨spelled, rfl⟩ := Prod.mk.inj same
      cases s with
      | nil => cases spelled
      | cons c s =>
        obtain ⟨rfl, rfl⟩ := List.cons.inj spelled
        exact .next ((readCharacter_eq_some_iff open').mp here) (ih below)

theorem StringIn.read (string : StringIn t s r) {fuel : Nat} (enough : s.length < fuel) :
    readStringFrom fuel t = some (s.map some, r) := by
  induction string generalizing fuel with
  | close r =>
    obtain ⟨fuel, rfl⟩ := Nat.exists_eq_succ_of_ne_zero (Nat.ne_of_gt enough)
    rfl
  | next spelled _ ih =>
    obtain ⟨fuel, rfl⟩ := Nat.exists_eq_succ_of_ne_zero (Nat.ne_of_gt (Nat.zero_lt_of_lt enough))
    rw [readStringFrom_succ spelled.noQuote, (readCharacter_eq_some_iff spelled.noQuote).mpr spelled]
    show (readStringFrom fuel _).map _ = _
    rw [ih (Nat.lt_of_succ_lt_succ enough)]
    rfl

/-- A string is read exactly where one is written. -/
theorem readString_eq_some_iff {x : String} :
    readString t = some (some x, r) ↔ StringIn t x.toList r := by
  unfold readString
  constructor
  · intro read
    obtain ⟨⟨cs, u⟩, from', same⟩ := Option.map_eq_some_iff.mp read
    obtain ⟨whole, rfl⟩ := Prod.mk.inj same
    obtain ⟨s, all, spelled⟩ := Option.map_eq_some_iff.mp whole
    rw [← spelled, String.toList_ofList]
    rw [mapM_eq_some_iff, List.map_id] at all
    exact stringIn_of_read (all ▸ from')
  · intro string
    have short := string.length_lt
    have whole : (x.toList.map some).mapM id = some x.toList := mapM_map_some (f := id) (fun _ => rfl) _
    rw [string.read (show x.toList.length < t.length + 1 by omega)]
    simp only [Option.map_some, whole, String.ofList_toList]

/-! ## Members -/

/-- What is read as a number is one. -/
theorem readNumber_value {d : Datum} (read : readNumber t = some (d, r)) :
    (∃ n, d = .whole n) ∨ ∃ negative digits exponent, d = .fraction negative digits exponent := by
  unfold readNumber at read
  simp only [Option.bind_eq_bind, Option.bind_eq_some_iff, Option.some.injEq, Prod.mk.injEq] at read
  obtain ⟨_, _, _, _, _, _, rfl, _⟩ := read
  exact (ite_eq_or_eq _ _ _).imp (fun whole => ⟨_, whole⟩) fun fraction => ⟨_, _, _, fraction⟩

theorem recordDatum_ne_text (entries : List (Option String × Datum)) (x : String) :
    recordDatum entries ≠ .text x := by
  intro same
  unfold recordDatum at same
  cases whole : entries.mapM fun e => e.1.map fun n => (n, e.2) <;> simp [whole] at same

theorem recordDatum_eq_record {entries : List (Option String × Datum)} {ds : List (String × Datum)}
    (same : recordDatum entries = .record ds) : entries = ds.map fun e => (some e.1, e.2) := by
  unfold recordDatum at same
  cases whole : entries.mapM fun e => e.1.map fun n => (n, e.2) with
  | none => simp [whole] at same
  | some es =>
    simp only [whole, Option.map_some, Option.getD_some, Datum.record.injEq] at same
    subst same
    refine eq_map_of_mapM ?_ whole
    rintro ⟨name, value⟩ d one
    obtain ⟨n, rfl, rfl⟩ := Option.map_eq_some_iff.mp one
    rfl

theorem readValue_text_iff {fuel : Nat} {x : String} :
    readValue (fuel + 1) t = some (.text x, r) ↔ ∃ u, Blanks t ('"' :: u) ∧ StringIn u x.toList r := by
  constructor
  · intro read
    rw [readValue] at read
    split at read
    · cases read
    · cases read
    · cases read
    · rename_i u quote
      obtain ⟨⟨found, v⟩, string, same⟩ := Option.map_eq_some_iff.mp read
      obtain ⟨spelled, rfl⟩ := Prod.mk.inj same
      cases found with
      | none => cases spelled
      | some y =>
        obtain rfl := Datum.text.inj spelled
        exact ⟨u, quote ▸ blanks_skipBlanks t, readString_eq_some_iff.mp string⟩
    · split at read
      · cases read
      · obtain ⟨_, _, same⟩ := Option.map_eq_some_iff.mp read
        cases same
    · split at read
      · cases read
      · obtain ⟨_, _, same⟩ := Option.map_eq_some_iff.mp read
        exact absurd (Prod.mk.inj same).1 (recordDatum_ne_text _ x)
    · rcases readNumber_value read with ⟨_, same⟩ | ⟨_, _, _, same⟩
      · cases same
      · cases same
  · rintro ⟨u, blanks, string⟩
    rw [readValue, (skipBlanks_iff (by decide)).mpr blanks]
    show (readString u).map _ = _
    rw [readString_eq_some_iff.mpr string]
    rfl

/-- Names and texts as the reader finds them. -/
def textEntries (es : List (String × String)) : List (Option String × Datum) :=
  es.map fun e => (some e.1, .text e.2)

theorem MembersIn.length_lt {es : List (String × String)} (members : MembersIn t es r) :
    es.length < t.length := by
  have shorter {t r : Text} {e : String × String} (member : MemberIn t e r) : r.length < t.length := by
    obtain ⟨before, name, colon, value, text⟩ := member
    have := before.length_le
    have := name.length_lt
    have := colon.length_le
    have := value.length_le
    have := text.length_lt
    simp only [List.length_cons] at *
    omega
  induction members with
  | last member brace =>
    have := shorter member
    have := brace.length_le
    simp only [List.length_cons, List.length_nil] at *
    omega
  | more member comma _ ih =>
    have := shorter member
    have := comma.length_le
    simp only [List.length_cons] at *
    omega

/-- A value behind a colon is a text where one is written. -/
theorem readValue_text {fuel : Nat} {x : String} (read : readValue fuel t = some (.text x, r)) :
    ∃ u, Blanks t ('"' :: u) ∧ StringIn u x.toList r := by
  cases fuel with
  | zero => cases read
  | succ fuel => exact readValue_text_iff.mp read

theorem membersIn_of_read {es : List (String × String)} {fuel : Nat}
    (read : readEntries fuel t = some (textEntries es, r)) : MembersIn t es r := by
  induction fuel generalizing t es with
  | zero => cases read
  | succ fuel ih =>
    rw [readEntries] at read
    split at read
    · rename_i name quote
      split at read
      · cases read
      · rename_i n colon string
        split at read
        · rename_i value behind
          split at read
          · cases read
          · rename_i d rest valued
            have member {n v : String} (named : readString name = some (some n, colon))
                (text : readValue fuel value = some (.text v, rest)) : MemberIn t (n, v) rest := by
              obtain ⟨quoted, blanks, characters⟩ := readValue_text text
              exact .mk (quote ▸ blanks_skipBlanks t) (readString_eq_some_iff.mp named)
                (behind ▸ blanks_skipBlanks colon) blanks characters
            cases es with
            | nil =>
              split at read
              · obtain ⟨_, _, same⟩ := Option.map_eq_some_iff.mp read
                cases same
              · cases read
              · cases read
            | cons e es =>
              split at read
              · rename_i more comma
                obtain ⟨⟨others, v⟩, below, same⟩ := Option.map_eq_some_iff.mp read
                obtain ⟨entries, rfl⟩ := Prod.mk.inj same
                obtain ⟨here, rfl⟩ := List.cons.inj entries
                obtain ⟨rfl, rfl⟩ := Prod.mk.inj here
                exact .more (member string valued) (comma ▸ blanks_skipBlanks rest) (ih below)
              · rename_i more brace
                obtain ⟨entries, rfl⟩ := Prod.mk.inj (Option.some.inj read)
                obtain ⟨here, nothing⟩ := List.cons.inj entries
                obtain ⟨rfl, rfl⟩ := Prod.mk.inj here
                obtain rfl := List.map_eq_nil_iff.mp nothing.symm
                exact .last (member string valued) (brace ▸ blanks_skipBlanks rest)
              · cases read
        · cases read
    · cases read

/-- What is read behind a member: the members after a comma, or the end of the record. -/
def readMembersRest (fuel : Nat) (e : String × String) : Text → Option (List (Option String × Datum) × Text)
  | ',' :: u => (readEntries fuel u).map fun p => ((some e.1, .text e.2) :: p.1, p.2)
  | '\x7d' :: u => some ([(some e.1, .text e.2)], u)
  | _ => none

/-- A member is read with what comes behind it. -/
theorem MemberIn.read {e : String × String} (member : MemberIn t e r) (fuel : Nat) :
    readEntries (fuel + 2) t = readMembersRest (fuel + 1) e (skipBlanks r) := by
  obtain ⟨before, name, colon, value, text⟩ := member
  rw [readEntries, (skipBlanks_iff (by decide)).mpr before]
  simp only [readString_eq_some_iff.mpr name, (skipBlanks_iff (by decide)).mpr colon,
    readValue_text_iff.mpr ⟨_, value, text⟩]
  rfl

theorem MembersIn.read {es : List (String × String)} (members : MembersIn t es r) {fuel : Nat}
    (enough : es.length < fuel) : readEntries fuel t = some (textEntries es, r) := by
  induction members generalizing fuel with
  | last member brace =>
    obtain ⟨fuel, rfl⟩ := Nat.exists_eq_add_of_le' (show 2 ≤ fuel from enough)
    rw [member.read, (skipBlanks_iff (by decide)).mpr brace]
    rfl
  | more member comma _ ih =>
    simp only [List.length_cons] at enough
    obtain ⟨fuel, rfl⟩ := Nat.exists_eq_add_of_le' (show 2 ≤ fuel by omega)
    rw [member.read, (skipBlanks_iff (by decide)).mpr comma]
    show (readEntries (fuel + 1) _).map _ = _
    rw [ih (by omega)]
    rfl

/-! ## Records -/

/-- A record is read behind its brace. -/
theorem readValue_record_inv {fuel : Nat} {es : List (String × Datum)}
    (read : readValue (fuel + 1) t = some (.record es, r)) :
    ∃ u, Blanks t ('\x7b' :: u) ∧
      ((Blanks u ('\x7d' :: r) ∧ es = []) ∨
        readEntries fuel u = some (es.map fun e => (some e.1, e.2), r)) := by
  rw [readValue] at read
  split at read
  · cases read
  · cases read
  · cases read
  · obtain ⟨⟨found, _⟩, _, same⟩ := Option.map_eq_some_iff.mp read
    cases found <;> cases (Prod.mk.inj same).1
  · split at read
    · cases read
    · obtain ⟨_, _, same⟩ := Option.map_eq_some_iff.mp read
      cases same
  · rename_i u brace
    refine ⟨u, brace ▸ blanks_skipBlanks t, ?_⟩
    split at read
    · rename_i v close
      cases read
      exact .inl ⟨close ▸ blanks_skipBlanks u, rfl⟩
    · obtain ⟨⟨entries, v⟩, below, same⟩ := Option.map_eq_some_iff.mp read
      obtain ⟨record, rfl⟩ := Prod.mk.inj same
      rw [readEntries_skipBlanks, recordDatum_eq_record record] at below
      exact .inr below
  · rcases readNumber_value read with ⟨_, same⟩ | ⟨_, _, _, same⟩
    · cases same
    · cases same

theorem read_eq_some_iff {d : Datum} :
    read t = some d ↔ ∃ r, readValue (2 * t.length + 2) t = some (d, r) ∧ Blanks r [] := by
  unfold read
  cases readValue (2 * t.length + 2) t with
  | none => simp
  | some p =>
    obtain ⟨found, r⟩ := p
    simp [← skipBlanks_eq_nil_iff, and_comm]

/-- A text is read as a record of texts exactly where it is one. -/
theorem read_textRecord_iff {es : List (String × String)} :
    read t = some (.record (es.map fun e => (e.1, .text e.2))) ↔ IsTextRecord t es := by
  rw [read_eq_some_iff]
  constructor
  · rintro ⟨r, value, ends⟩
    obtain ⟨u, brace, nothing | members⟩ := readValue_record_inv value
    · obtain rfl := List.map_eq_nil_iff.mp nothing.2
      exact .empty brace nothing.1 ends
    · rw [List.map_map] at members
      exact .members brace (membersIn_of_read members) ends
  · rintro (⟨brace, close, ends⟩ | ⟨brace, members, ends⟩)
    · rename_i u r
      refine ⟨r, ?_, ends⟩
      rw [readValue, (skipBlanks_iff (by decide)).mpr brace]
      show readRecordRest _ (skipBlanks u) = _
      rw [(skipBlanks_iff (by decide)).mpr close]
      rfl
    · rename_i u r
      refine ⟨r, ?_, ends⟩
      have room : es.length < 2 * t.length + 1 := by
        have := members.length_lt
        have := brace.length_le
        simp only [List.length_cons] at this
        omega
      have below := members.read room
      rw [← readValue_skipBlanks, (skipBlanks_iff (by decide)).mpr brace, readValue_record below]
      have named := recordDatum_named (es.map fun e => (e.1, Datum.text e.2))
      rw [List.map_map] at named
      exact congrArg (fun d => some (d, r)) named

end ClientMigration.Json
