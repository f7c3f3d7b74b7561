/-
# Proofs.Data.Json -- what is written as JSON reads back

A character written between quotes reads back whatever follows it
(`readCharacter_escaped`), so a string does (`readString_quoted`); a number does if
no more of a number follows it (`readNumber_whole`, `readNumber_fraction`). The
blanks that indentation adds are skipped (`White.skipBlanks`). A value then reads
back by induction over the datum, with what follows it left over
(`readValue_indentedAt`): a call of a reader needs no more fuel than the text it
reads is long.

The theorem is `read_indented`.
-/
import Mathlib.Data.List.DropRight
import ClientMigration.Text.Blank
import ClientMigration.Data.Json
import ClientMigration.Proofs.Data.Steps

namespace ClientMigration.Json

set_option autoImplicit false

/-! ## Strings -/

/-- The number of a control character is read from the digits it is written with. -/
theorem readHex_low {n : Nat} (low : n < 32) (r : Text) :
    readHex ('0' :: '0' :: hexDigit (n / 16) :: hexDigit (n % 16) :: r) = some (n, r) := by
  have digits : ∀ n < 32, hexDigit? (hexDigit (n / 16)) = some (n / 16) ∧
      hexDigit? (hexDigit (n % 16)) = some (n % 16) := by decide
  have zero : hexDigit? '0' = some 0 := by decide
  obtain ⟨high, low⟩ := digits n low
  simp only [readHex, zero, high, low, Option.bind_eq_bind, Option.bind_some]
  congr 2
  omega

theorem readCodePoint_low {n : Nat} (low : n < 32) (r : Text) :
    readCodePoint ('0' :: '0' :: hexDigit (n / 16) :: hexDigit (n % 16) :: r) =
      some (some (Char.ofNat n), r) := by
  unfold readCodePoint
  rw [readHex_low low]
  simp [show n < 0xD800 by omega]

theorem readCharacter_escaped (c : Char) (r : Text) :
    readCharacter (escaped c ++ r) = some (some c, r) := by
  unfold escaped
  repeat' split
  all_goals simp_all [readCharacter, unescape?, readCodePoint_low]

/-- No character is written as a quote alone. -/
theorem escaped_cons (c : Char) : ∃ first rest, escaped c = first :: rest ∧ first ≠ '"' := by
  unfold escaped
  repeat' split
  all_goals exact ⟨_, _, rfl, by simp_all⟩

theorem readStringFrom_escaped (s r : Text) {fuel : Nat} (enough : s.length < fuel) :
    readStringFrom fuel (s.flatMap escaped ++ '"' :: r) = some (s.map some, r) := by
  induction s generalizing fuel with
  | nil =>
    obtain ⟨fuel, rfl⟩ := Nat.exists_eq_succ_of_ne_zero (Nat.ne_of_gt enough)
    rfl
  | cons c s ih =>
    obtain ⟨fuel, rfl⟩ := Nat.exists_eq_succ_of_ne_zero (Nat.ne_of_gt (Nat.zero_lt_of_lt enough))
    have more := ih (Nat.lt_of_succ_lt_succ enough)
    have character := readCharacter_escaped c (s.flatMap escaped ++ '"' :: r)
    obtain ⟨first, rest, written, noQuote⟩ := escaped_cons c
    rw [List.flatMap_cons, List.append_assoc]
    rw [written, List.cons_append] at character ⊢
    rw [readStringFrom, character]
    · simp [more]
    · rintro r' same
      exact noQuote (List.cons.inj same).1

theorem length_escaped_pos (c : Char) : 1 ≤ (escaped c).length := by
  obtain ⟨first, rest, written, _⟩ := escaped_cons c
  simp [written]

theorem length_le_escaped (s : Text) : s.length ≤ (s.flatMap escaped).length := by
  induction s with
  | nil => exact Nat.le_refl 0
  | cons c s ih =>
    have := length_escaped_pos c
    simp only [List.flatMap_cons, List.length_append, List.length_cons]
    omega

theorem readString_quoted (s : String) (r : Text) :
    readString (s.toList.flatMap escaped ++ '"' :: r) = some (some s, r) := by
  unfold readString
  rw [readStringFrom_escaped]
  · simp [mapM_map_some (f := id) (g := some) (fun _ => rfl) s.toList]
  · have := length_le_escaped s.toList
    simp only [List.length_append, List.length_cons]
    omega

/-! ## Numbers -/

/-- Whether no digits go on with a text. -/
def EndsDigits (t : Text) : Prop := ∀ c ∈ t.head?, c.isDigit = false

/-- Whether no number goes on with a text. -/
def Stops (t : Text) : Prop := ∀ c ∈ t.head?, c.isDigit = false ∧ c ≠ '.' ∧ c ≠ 'e' ∧ c ≠ 'E'

theorem Stops.endsDigits {t : Text} (stops : Stops t) : EndsDigits t := fun c first => (stops c first).1

/-- Digits are read up to where they end. -/
theorem readDigits_append {digits r : Text} (some' : digits ≠ [])
    (all : ∀ c ∈ digits, c.isDigit = true) (ends : EndsDigits r) :
    readDigits (digits ++ r) = some (digits, r) := by
  have taken : (digits ++ r).takeWhile Char.isDigit = digits := by
    rw [List.takeWhile_append_of_pos all]
    cases r with
    | nil => simp
    | cons c r => rw [List.takeWhile_cons_of_neg (by simp [ends c rfl]), List.append_nil]
  unfold readDigits
  rw [taken]
  cases digits with
  | nil => exact absurd rfl some'
  | cons c digits => simp

theorem isDigit_of_toDigits {n : Nat} {c : Char} (digit : c ∈ Nat.toDigits 10 n) : c.isDigit = true :=
  Nat.isDigit_of_mem_toDigits (by decide) (by decide) digit

theorem readDigits_toDigits (n : Nat) {r : Text} (ends : EndsDigits r) :
    readDigits (Nat.toDigits 10 n ++ r) = some (Nat.toDigits 10 n, r) :=
  readDigits_append Nat.toDigits_ne_nil (fun _ => isDigit_of_toDigits) ends

theorem digitsValue_toDigits (n : Nat) : digitsValue (Nat.toDigits 10 n) = n := by
  have same := Nat.ofDigitChars_toDigits (b := 10) (n := n) (by decide) (by decide)
  simpa only [digitsValue, Nat.ofDigitChars, Nat.mul_comm] using same

/-- Digits begin with a digit. -/
theorem toDigits_append_ne {c : Char} (noDigit : c.isDigit = false) (n : Nat) (r r' : Text) :
    Nat.toDigits 10 n ++ r ≠ c :: r' := by
  intro same
  cases written : Nat.toDigits 10 n with
  | nil => exact Nat.toDigits_ne_nil written
  | cons first digits =>
    have digit : first.isDigit = true := isDigit_of_toDigits (n := n) (by simp [written])
    rw [written, List.cons_append] at same
    rw [(List.cons.inj same).1, noDigit] at digit
    cases digit

/-- Only zero is written with a zero in front. -/
theorem toDigits_zero {n : Nat} {rest : Text} (written : Nat.toDigits 10 n = '0' :: rest) : n = 0 := by
  induction n using Nat.strongRecOn generalizing rest with
  | _ n ih =>
    by_cases short : n < 10
    · rw [Nat.toDigits_of_lt_base short] at written
      have digit : ∀ n < 10, n.digitChar = '0' → n = 0 := by decide
      exact digit n short (List.cons.inj written).1
    · rw [Nat.toDigits_of_base_le (by decide) (by omega)] at written
      cases front : Nat.toDigits 10 (n / 10) with
      | nil => exact absurd front Nat.toDigits_ne_nil
      | cons c digits =>
        rw [front, List.cons_append] at written
        have := ih (n / 10) (by omega) (front.trans (by rw [(List.cons.inj written).1]))
        omega

theorem readWhole_toDigits (n : Nat) {r : Text} (ends : EndsDigits r) :
    readWhole (Nat.toDigits 10 n ++ r) = some (Nat.toDigits 10 n, r) := by
  by_cases zero : n = 0
  · subst zero
    cases r with
    | nil => exact readDigits_toDigits 0 ends
    | cons c r => exact if_neg (by simp [ends c rfl])
  · unfold readWhole
    split
    · rename_i c r' same
      cases written : Nat.toDigits 10 n with
      | nil => exact absurd written Nat.toDigits_ne_nil
      | cons first rest =>
        rw [written, List.cons_append] at same
        obtain ⟨rfl, _⟩ := List.cons.inj same
        exact absurd (toDigits_zero written) zero
    · exact readDigits_toDigits n ends

/-- What is read of a number whose digits have no point behind them. -/
theorem readNumber_parts (negative : Bool) (n : Nat) {tail r : Text} {exponent? : Option Int}
    (ends : EndsDigits tail) (places : readPlaces tail = some ([], tail))
    (exponent : readExponent tail = some (exponent?, r)) :
    readNumber ((if negative then ['-'] else []) ++ (Nat.toDigits 10 n ++ tail)) =
      some (if exponent?.isNone && !(negative && n == 0) then .whole (if negative then -(n : Int) else n)
        else .fraction negative n (exponent?.getD 0), r) := by
  have digits := readWhole_toDigits n ends
  unfold readNumber
  split
  rename_i negative' r' sign
  have signed : negative' = negative ∧ r' = Nat.toDigits 10 n ++ tail := by
    cases negative with
    | true =>
      cases sign
      exact ⟨rfl, rfl⟩
    | false =>
      split at sign
      · rename_i same
        exact absurd same (toDigits_append_ne (by decide) n tail _)
      · cases sign
        exact ⟨rfl, rfl⟩
  obtain ⟨rfl, rfl⟩ := signed
  simp only [digits, places, exponent, Option.bind_eq_bind, Option.bind_some, digitsValue_toDigits,
    List.append_nil, List.isEmpty_nil, Bool.true_and, List.length_nil]
  simp

theorem Stops.readPlaces {r : Text} (stops : Stops r) : readPlaces r = some ([], r) := by
  unfold Json.readPlaces
  split
  · exact absurd rfl (stops _ rfl).2.1
  · rfl

theorem Stops.readExponent {r : Text} (stops : Stops r) : readExponent r = some (none, r) := by
  cases r with
  | nil => rfl
  | cons c r =>
    obtain ⟨_, _, small, capital⟩ := stops c rfl
    simp [Json.readExponent, small, capital]

theorem toList_toString_ofNat (n : Nat) : (toString (Int.ofNat n)).toList = Nat.toDigits 10 n := by
  simp [ToString.toString, Int.repr]

theorem toList_toString_negSucc (n : Nat) :
    (toString (Int.negSucc n)).toList = '-' :: Nat.toDigits 10 (n + 1) := by
  simp [ToString.toString, Int.repr]

theorem readNumber_whole (n : Int) {r : Text} (stops : Stops r) :
    readNumber (scalar (.whole n) ++ r) = some (.whole n, r) := by
  cases n with
  | ofNat n =>
    rw [scalar, toList_toString_ofNat]
    exact readNumber_parts false n stops.endsDigits stops.readPlaces stops.readExponent
  | negSucc n =>
    rw [scalar, toList_toString_negSucc]
    exact readNumber_parts true (n + 1) stops.endsDigits stops.readPlaces stops.readExponent

theorem readExponent_toString (e : Int) {r : Text} (ends : EndsDigits r) :
    readExponent ('e' :: ((toString e).toList ++ r)) = some (some e, r) := by
  cases e with
  | ofNat n =>
    rw [toList_toString_ofNat]
    simp only [readExponent, beq_self_eq_true, Bool.true_or, if_true]
    split
    · rename_i same
      exact absurd same (toDigits_append_ne (by decide) n r _)
    · rename_i same
      exact absurd same (toDigits_append_ne (by decide) n r _)
    · simp [readDigits_toDigits n ends, digitsValue_toDigits]
  | negSucc n =>
    rw [toList_toString_negSucc]
    simp [readExponent, readDigits_toDigits (n + 1) ends, digitsValue_toDigits]
    omega

theorem readNumber_fraction (negative : Bool) (n : Nat) (e : Int) {r : Text} (stops : Stops r) :
    readNumber (scalar (.fraction negative n e) ++ r) = some (.fraction negative n e, r) := by
  have written : scalar (.fraction negative n e) ++ r =
      (if negative then ['-'] else []) ++ (Nat.toDigits 10 n ++ 'e' :: ((toString e).toList ++ r)) := by
    cases negative <;> simp [scalar, String.toList_append]
  rw [written, readNumber_parts negative n (fun _ first => by cases first; decide) rfl
    (readExponent_toString e stops.endsDigits)]
  rfl

/-! ## Blanks -/

/-- Nothing but blanks, which a writer may put between the parts of a value. -/
def White (w : Text) : Prop := ∀ c ∈ w, c = ' ' ∨ c = '\n'

theorem white_nil : White [] := List.forall_mem_nil _

theorem white_space : White [' '] := by
  intro c listed
  exact Or.inl (List.mem_singleton.mp listed)

theorem white_newLine (depth : Nat) : White (newLine depth) := by
  intro c listed
  rcases List.mem_cons.mp listed with rfl | listed
  · exact Or.inr rfl
  · exact Or.inl (List.eq_of_mem_replicate listed)

variable {w w' : Text}

theorem White.skipBlanks (white : White w) (t : Text) : skipBlanks (w ++ t) = skipBlanks t := by
  refine List.dropWhile_append_of_pos fun c listed => ?_
  rcases white c listed with rfl | rfl <;> rfl

theorem skipBlanks_idem (t : Text) : skipBlanks (skipBlanks t) = skipBlanks t :=
  List.dropWhile_idempotent _ t

theorem readValue_skipBlanks (fuel : Nat) (t : Text) :
    readValue fuel (skipBlanks t) = readValue fuel t := by
  cases fuel with
  | zero => rfl
  | succ fuel => rw [readValue, readValue, skipBlanks_idem]

theorem White.readValue (white : White w) (fuel : Nat) (t : Text) :
    readValue fuel (w ++ t) = readValue fuel t := by
  rw [← readValue_skipBlanks, white.skipBlanks, readValue_skipBlanks]

theorem readItems_skipBlanks (fuel : Nat) (t : Text) :
    readItems fuel (skipBlanks t) = readItems fuel t := by
  cases fuel with
  | zero => rfl
  | succ fuel => rw [readItems, readItems, readValue_skipBlanks]

theorem readEntries_skipBlanks (fuel : Nat) (t : Text) :
    readEntries fuel (skipBlanks t) = readEntries fuel t := by
  cases fuel with
  | zero => rfl
  | succ fuel => rw [readEntries, readEntries, skipBlanks_idem]

/-! ## Values -/

theorem readNumber_none {c : Char} (noSign : c ≠ '-') (noDigit : c.isDigit = false) (r : Text) :
    readNumber (c :: r) = none := by
  have noZero : c ≠ '0' := by rintro rfl; cases noDigit
  have nothing : readWhole (c :: r) = none := by
    simp [readWhole, readDigits, noZero, noDigit]
  unfold readNumber
  split
  rename_i negative r' sign
  split at sign
  · rename_i same
    exact absurd (List.cons.inj same).1 noSign
  · cases sign
    simp [nothing]

theorem readValue_number {t : Text} {x : Datum × Text} (number : readNumber t = some x) (fuel : Nat) :
    readValue (fuel + 1) t = some x := by
  cases t with
  | nil => cases number
  | cons c r =>
    have front : c = '-' ∨ c.isDigit = true := by
      by_contra other
      simp only [not_or, Bool.not_eq_true] at other
      cases number.symm.trans (readNumber_none other.1 other.2 r)
    have dark : skipBlanks (c :: r) = c :: r := by
      refine List.dropWhile_cons_of_neg ?_
      intro blank
      simp only [Bool.or_eq_true, beq_iff_eq] at blank
      rcases blank with ((rfl | rfl) | rfl) | rfl <;> revert front <;> decide
    rw [readValue, dark]
    split
    all_goals first
      | exact number
      | rename_i same
        obtain ⟨rfl, _⟩ := List.cons.inj same
        exact absurd front (by decide)

/-- No value begins with a bracket that ends a list. -/
theorem readItems_end {fuel : Nat} {t : Text} {x : List Datum × Text} (items : readItems fuel t = some x)
    (r : Text) : skipBlanks t ≠ ']' :: r := by
  intro same
  cases fuel with
  | zero => cases items
  | succ fuel =>
    have nothing : readValue fuel t = none := by
      cases fuel with
      | zero => rfl
      | succ fuel =>
        rw [readValue, same]
        exact readNumber_none (by decide) (by decide) r
    rw [readItems, nothing] at items
    cases items

theorem readEntries_end {fuel : Nat} {t : Text} {x : List (Option String × Datum) × Text}
    (entries : readEntries fuel t = some x) (r : Text) : skipBlanks t ≠ '\x7d' :: r := by
  intro same
  cases fuel with
  | zero => cases entries
  | succ fuel =>
    rw [readEntries, same] at entries
    cases entries

/-- What is read behind the opening bracket of a list. -/
def readListRest (fuel : Nat) : Text → Option (Datum × Text)
  | ']' :: r => some (.list [], r)
  | r => (readItems fuel r).map fun (items, r) => (.list items, r)

/-- What is read behind the opening brace of a record. -/
def readRecordRest (fuel : Nat) : Text → Option (Datum × Text)
  | '\x7d' :: r => some (.record [], r)
  | r => (readEntries fuel r).map fun (entries, r) => (recordDatum entries, r)

theorem readValue_list {fuel : Nat} {t r : Text} {ds : List Datum}
    (items : readItems fuel t = some (ds, r)) :
    readValue (fuel + 1) ('[' :: t) = some (.list ds, r) := by
  have goesOn : readItems fuel (skipBlanks t) = some (ds, r) := (readItems_skipBlanks fuel t).trans items
  rw [readValue]
  show readListRest fuel (skipBlanks t) = _
  unfold readListRest
  split
  · rename_i same
    exact absurd same (readItems_end items _)
  · rw [goesOn]
    rfl

theorem readValue_record {fuel : Nat} {t r : Text} {es : List (Option String × Datum)}
    (entries : readEntries fuel t = some (es, r)) :
    readValue (fuel + 1) ('\x7b' :: t) = some (recordDatum es, r) := by
  have goesOn : readEntries fuel (skipBlanks t) = some (es, r) :=
    (readEntries_skipBlanks fuel t).trans entries
  rw [readValue]
  show readRecordRest fuel (skipBlanks t) = _
  unfold readRecordRest
  split
  · rename_i same
    exact absurd same (readEntries_end entries _)
  · rw [goesOn]
    rfl

theorem readItems_more {fuel : Nat} {t r r' : Text} {d : Datum} {ds : List Datum}
    (value : readValue fuel t = some (d, ',' :: r)) (items : readItems fuel r = some (ds, r')) :
    readItems (fuel + 1) t = some (d :: ds, r') := by
  rw [readItems, value]
  show (readItems fuel r).map _ = _
  rw [items]
  rfl

theorem readItems_last {fuel : Nat} {t r : Text} {d : Datum} (white : White w)
    (value : readValue fuel t = some (d, w ++ ']' :: r)) : readItems (fuel + 1) t = some ([d], r) := by
  rw [readItems, value]
  simp only
  rw [white.skipBlanks]
  rfl

theorem White.skipBlanks_quoted (white : White w) (name : String) (t : Text) :
    Json.skipBlanks (w ++ (quoted name ++ t)) = '"' :: (name.toList.flatMap escaped ++ '"' :: t) := by
  rw [white.skipBlanks]
  simp [quoted, Json.skipBlanks]

theorem readEntries_more {fuel : Nat} {t r r' : Text} {name : String} {d : Datum}
    {es : List (Option String × Datum)} (white : White w) (white' : White w')
    (value : readValue fuel t = some (d, ',' :: r)) (entries : readEntries fuel r = some (es, r')) :
    readEntries (fuel + 1) (w ++ (quoted name ++ ':' :: (w' ++ t))) = some ((some name, d) :: es, r') := by
  have colon : skipBlanks (':' :: (w' ++ t)) = ':' :: (w' ++ t) := rfl
  have comma : skipBlanks (',' :: r) = ',' :: r := rfl
  rw [readEntries, white.skipBlanks_quoted]
  simp only [readString_quoted, colon, white'.readValue, value, comma, entries, Option.map_some]

theorem readEntries_last {fuel : Nat} {t r u : Text} {name : String} {d : Datum} (white : White w)
    (white' : White w') (outer : White u) (value : readValue fuel t = some (d, u ++ '\x7d' :: r)) :
    readEntries (fuel + 1) (w ++ (quoted name ++ ':' :: (w' ++ t))) = some ([(some name, d)], r) := by
  have colon : skipBlanks (':' :: (w' ++ t)) = ':' :: (w' ++ t) := rfl
  have brace : skipBlanks ('\x7d' :: r) = '\x7d' :: r := rfl
  rw [readEntries, white.skipBlanks_quoted]
  simp only [readString_quoted, colon, white'.readValue, value, outer.skipBlanks, brace]

mutual

/-- Whether a datum and all of its parts can be written. -/
def Proper : Datum → Prop
  | .foreign => False
  | .list items => ProperItems items
  | .record entries => ProperEntries entries
  | .null => True
  | .boolean _ => True
  | .whole _ => True
  | .fraction _ _ _ => True
  | .text _ => True

def ProperItems : List Datum → Prop
  | [] => True
  | d :: ds => Proper d ∧ ProperItems ds

def ProperEntries : List (String × Datum) → Prop
  | [] => True
  | (_, d) :: es => Proper d ∧ ProperEntries es

end

theorem stops_newLine (depth : Nat) (r : Text) : Stops (newLine depth ++ r) := by
  intro c first
  cases first
  decide

theorem stops_comma (r : Text) : Stops (',' :: r) := by
  intro c first
  cases first
  decide

theorem recordDatum_named (es : List (String × Datum)) :
    recordDatum (es.map fun e => (some e.1, e.2)) = .record es := by
  have whole := mapM_map_some (f := fun e : Option String × Datum => e.1.map fun n => (n, e.2))
    (g := fun e => (some e.1, e.2)) (fun _ => rfl) es
  unfold recordDatum
  simp only [whole]
  rfl

/-- There is fuel for what has a character. -/
theorem fuel_succ {t : Text} {fuel : Nat} (enough : t.length ≤ fuel) (some' : t ≠ []) :
    ∃ f, fuel = f + 1 :=
  Nat.exists_eq_succ_of_ne_zero fun zero => some' (List.length_eq_zero_iff.mp (by omega))

theorem toString_ne_nil (n : Int) : (toString n).toList ≠ [] := by
  cases n with
  | ofNat n =>
    rw [toList_toString_ofNat]
    exact Nat.toDigits_ne_nil
  | negSucc n =>
    rw [toList_toString_negSucc]
    exact List.cons_ne_nil _ _

mutual

theorem readValue_indentedAt :
    ∀ (d : Datum) (depth : Nat) {f : Nat} {r : Text}, Stops r → Proper d →
      (indentedAt depth d).length ≤ f → readValue f (indentedAt depth d ++ r) = some (d, r)
  | .foreign, _, _, _, _, proper, _ => proper.elim
  | .null, depth, fuel, r, stops, _, enough => by
    obtain ⟨fuel, rfl⟩ := fuel_succ enough (by simp [indentedAt, scalar])
    rfl
  | .boolean b, depth, fuel, r, stops, _, enough => by
    obtain ⟨fuel, rfl⟩ := fuel_succ enough (by cases b <;> simp [indentedAt, scalar])
    cases b <;> rfl
  | .whole n, depth, fuel, r, stops, _, enough => by
    have number := readNumber_whole n stops
    obtain ⟨fuel, rfl⟩ := fuel_succ enough (toString_ne_nil n)
    exact readValue_number number fuel
  | .fraction negative n e, depth, fuel, r, stops, _, enough => by
    have number := readNumber_fraction negative n e stops
    obtain ⟨fuel, rfl⟩ := fuel_succ enough (by simp [indentedAt, scalar])
    exact readValue_number number fuel
  | .text s, depth, fuel, r, stops, _, enough => by
    obtain ⟨fuel, rfl⟩ := fuel_succ enough (by simp [indentedAt, scalar, quoted])
    have string := readString_quoted s r
    simp only [indentedAt, scalar, quoted, List.cons_append, List.append_assoc, List.nil_append]
    rw [readValue]
    show (readString _).map _ = _
    rw [string]
    rfl
  | .list [], depth, fuel, r, stops, _, enough => by
    obtain ⟨fuel, rfl⟩ := fuel_succ enough (by simp [indentedAt])
    rfl
  | .list (d :: ds), depth, fuel, r, stops, proper, enough => by
    obtain ⟨fuel, rfl⟩ := fuel_succ enough (by simp [indentedAt])
    simp only [indentedAt, List.cons_append, List.append_assoc, List.nil_append, List.length_cons,
      List.length_append, Nat.add_le_add_iff_right] at enough ⊢
    exact readValue_list (readItems_indentedItems (d :: ds) (depth + 1) depth (by simp) proper (by omega))
  | .record [], depth, fuel, r, stops, _, enough => by
    obtain ⟨fuel, rfl⟩ := fuel_succ enough (by simp [indentedAt])
    rfl
  | .record (e :: es), depth, fuel, r, stops, proper, enough => by
    obtain ⟨fuel, rfl⟩ := fuel_succ enough (by simp [indentedAt])
    simp only [indentedAt, List.cons_append, List.append_assoc, List.nil_append, List.length_cons,
      List.length_append, Nat.add_le_add_iff_right] at enough ⊢
    rw [← recordDatum_named]
    exact readValue_record (readEntries_indentedEntries (e :: es) (depth + 1) depth (by simp) proper (by omega))

theorem readItems_indentedItems :
    ∀ (ds : List Datum) (depth outer : Nat) {f : Nat} {r : Text}, ds ≠ [] → ProperItems ds →
      (indentedItems depth ds).length ≤ f →
      readItems f (indentedItems depth ds ++ (newLine outer ++ ']' :: r)) = some (ds, r)
  | [], _, _, _, _, some', _, _ => absurd rfl some'
  | [d], depth, outer, fuel, r, _, proper, enough => by
    obtain ⟨fuel, rfl⟩ := fuel_succ enough (by simp [indentedItems, newLine])
    have long : 1 ≤ (newLine depth).length := by simp [newLine]
    simp only [indentedItems, List.append_assoc, List.length_append] at enough ⊢
    have value := readValue_indentedAt d depth (f := fuel) (stops_newLine outer (']' :: r)) proper.1
      (by omega)
    exact readItems_last (white_newLine outer) (((white_newLine depth).readValue _ _).trans value)
  | d :: d' :: ds, depth, outer, fuel, r, _, proper, enough => by
    obtain ⟨fuel, rfl⟩ := fuel_succ enough (by simp [indentedItems, newLine])
    simp only [indentedItems, List.append_assoc, List.length_append, List.cons_append,
      List.length_cons] at enough ⊢
    have items := readItems_indentedItems (d' :: ds) depth outer (f := fuel) (r := r) (by simp)
      proper.2 (by omega)
    refine readItems_more (((white_newLine depth).readValue _ _).trans ?_) items
    exact readValue_indentedAt d depth (stops_comma _) proper.1 (by omega)

theorem readEntries_indentedEntries :
    ∀ (es : List (String × Datum)) (depth outer : Nat) {f : Nat} {r : Text}, es ≠ [] →
      ProperEntries es → (indentedEntries depth es).length ≤ f →
      readEntries f (indentedEntries depth es ++ (newLine outer ++ '\x7d' :: r)) =
        some (es.map fun e => (some e.1, e.2), r)
  | [], _, _, _, _, some', _, _ => absurd rfl some'
  | [(name, d)], depth, outer, fuel, r, _, proper, enough => by
    obtain ⟨fuel, rfl⟩ := fuel_succ enough (by simp [indentedEntries, newLine])
    simp only [indentedEntries, List.append_assoc, List.length_append, List.cons_append,
      List.length_cons] at enough ⊢
    have value := readValue_indentedAt d depth (f := fuel) (stops_newLine outer ('\x7d' :: r)) proper.1
      (by omega)
    exact readEntries_last (white_newLine depth) white_space (white_newLine outer) value
  | (name, d) :: e :: es, depth, outer, fuel, r, _, proper, enough => by
    obtain ⟨fuel, rfl⟩ := fuel_succ enough (by simp [indentedEntries, newLine])
    simp only [indentedEntries, List.append_assoc, List.length_append, List.cons_append,
      List.length_cons] at enough ⊢
    have entries := readEntries_indentedEntries (e :: es) depth outer (f := fuel) (r := r) (by simp)
      proper.2 (by omega)
    have value := readValue_indentedAt d depth (f := fuel)
      (stops_comma (indentedEntries depth (e :: es) ++ (newLine outer ++ '\x7d' :: r))) proper.1 (by omega)
    exact readEntries_more (white_newLine depth) white_space value entries

end

/-- What is written reads back. -/
theorem read_indented {d : Datum} (proper : Proper d) : read (indented d) = some d := by
  have value := readValue_indentedAt d 0 (f := 2 * (indented d).length + 2) (r := [])
    (fun _ first => by cases first) proper (by unfold indented; omega)
  rw [List.append_nil] at value
  unfold read
  rw [indented] at value ⊢
  rw [value]
  rfl

theorem isDigit_of_blank {c : Char} (white : Text.isBlank c = true) : c.isDigit = false := by
  by_contra digit
  have digit : 48 ≤ c.toNat ∧ c.toNat ≤ 57 := by
    simpa [Char.isDigit, UInt32.le_iff_toNat_le] using digit
  simp only [Text.isBlank, Bool.or_eq_true, Bool.and_eq_true, decide_eq_true_eq, beq_iff_eq] at white
  omega

/-- White space alone, of whatever kind, is no value. -/
theorem read_of_blank {t : Text} (blank : ∀ c ∈ t, Text.isBlank c = true) : read t = none := by
  have white : ∀ c ∈ skipBlanks t, Text.isBlank c = true := fun c listed =>
    blank c ((List.dropWhile_sublist _).subset listed)
  have nothing : readValue (2 * t.length + 2) t = none := by
    rw [readValue]
    cases rest : skipBlanks t with
    | nil => rfl
    | cons c r =>
      have here := white c (by rw [rest]; exact List.mem_cons_self)
      split
      all_goals first
        | rename_i same
          obtain ⟨rfl, _⟩ := List.cons.inj same
          exact absurd here (by decide)
        | refine readNumber_none ?_ (isDigit_of_blank here) r
          rintro rfl
          cases here
  unfold read
  rw [nothing]

end ClientMigration.Json
