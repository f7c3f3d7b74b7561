/-
# Proofs.Rollout.Environment -- what variables say, and a configuration under them

A variable writes a truth value as a word, a percentage as a numeral of 64 bits, and
a list as what stands between commas. Each way of writing is a relation between a text
and a value, and the readers find that value where there is one (`truth?_eq_some_iff`,
`integer?_eq_some_iff`, `paths_eq_iff`). Any text writes one list, and proper entries
with commas between them write the list of these entries (`writesPaths_intercalate`).

A field under a variable has the value that the variable writes, and keeps its own
where the variable is not set or writes none (`Overlays`). So it is with each field of
a configuration (`merge_merged`), and it is all that it takes for a second merge to
change nothing (`Overlays.again`).
-/
import Mathlib.Data.List.Basic
import ClientMigration.Rollout.Config
import ClientMigration.Proofs.Text.Trimmed

namespace ClientMigration

set_option autoImplicit false

open Text (Blank Trimmed trim)

namespace Environment

/-- The text is another one with white space around. -/
def Bears (raw : String) (t : Text) : Prop :=
  ∃ front back, Blank front ∧ Blank back ∧ raw.toList = front ++ t ++ back

variable {raw : String} {t : Text}

theorem bears_trim (raw : String) : Bears raw (trim raw.toList) := Text.exists_trim raw.toList

theorem Bears.trim_eq (bears : Bears raw t) (trimmed : Trimmed t) : trim raw.toList = t :=
  Text.trim_eq_iff.mpr ⟨trimmed, bears⟩

theorem trimmed_of_visible (visible : ∀ c ∈ t, Text.isBlank c = false) : Trimmed t where
  first := fun c isFirst => visible c (List.mem_of_mem_head? isFirst)
  last := fun c isLast => visible c (List.mem_of_mem_getLast? isLast)

/-! ## Truth values -/

/-- The words for a truth value. A text of white space is one for false. -/
def truthWords : Bool → List String
  | true => ["1", "true", "yes", "on"]
  | false => ["0", "false", "no", "off", ""]

/-- One of the words, in capitals or not. -/
def WritesTruth (raw : String) (value : Bool) : Prop :=
  ∃ word, Bears raw word ∧ String.ofList (Text.lowered word) ∈ truthWords value

theorem toLower_of_isBlank {c : Char} (blank : Text.isBlank c = true) : c.toLower = c := by
  unfold Char.toLower
  rw [dif_neg]
  rintro ⟨above, below⟩
  have above : 65 ≤ c.toNat := above
  have below : c.toNat ≤ 90 := below
  simp [Text.isBlank] at blank
  omega

theorem trimmed_of_word {word : Text} {value : Bool}
    (isWord : String.ofList (Text.lowered word) ∈ truthWords value) : Trimmed word := by
  have visible : ∀ w ∈ truthWords value, w.toList.any Text.isBlank = false := by
    cases value <;> decide +kernel
  refine trimmed_of_visible fun c listed => ?_
  have among : c.toLower ∈ (String.ofList (Text.lowered word)).toList := by
    rw [String.toList_ofList]
    exact List.mem_map_of_mem listed
  have lower := List.any_eq_false.mp (visible _ isWord) _ among
  rw [Bool.not_eq_true] at lower
  cases blank : Text.isBlank c with
  | false => rfl
  | true => rwa [toLower_of_isBlank blank, blank] at lower

theorem truth?_eq (raw : String) :
    truth? raw =
      let word := String.ofList (Text.lowered (trim raw.toList))
      if word ∈ truthWords true then some true
      else if word ∈ truthWords false then some false
      else none := by
  simp only [truth?, List.contains_iff_mem]
  rfl

theorem truth?_eq_some_iff {value : Bool} : truth? raw = some value ↔ WritesTruth raw value := by
  rw [truth?_eq]
  constructor
  · intro read
    refine ⟨_, bears_trim raw, ?_⟩
    simp only at read
    split at read
    · cases read
      assumption
    · split at read
      · cases read
        assumption
      · cases read
  · rintro ⟨word, bears, isWord⟩
    have apart : ∀ w ∈ truthWords false, w ∉ truthWords true := by decide
    rw [bears.trim_eq (trimmed_of_word isWord)]
    cases value with
    | true => exact if_pos isWord
    | false => exact (if_neg (apart _ isWord)).trans (if_pos isWord)

/-! ## Numbers -/

/-- Digits, one at least, that write a number. -/
structure Digits (t : Text) (n : Nat) : Prop where
  some : t ≠ []
  all : ∀ c ∈ t, c.isDigit = true
  value : Nat.ofDigitChars 10 t 0 = n

/-- Digits with or without a sign. -/
inductive Numeral : Text → Int → Prop where
  | plain {t : Text} {n : Nat} : Digits t n → Numeral t n
  | plus {t : Text} {n : Nat} : Digits t n → Numeral ('+' :: t) n
  | minus {t : Text} {n : Nat} : Digits t n → Numeral ('-' :: t) (-n)

def WritesInteger (raw : String) (n : Int) : Prop := ∃ t, Bears raw t ∧ Numeral t n

theorem not_isBlank_of_isDigit {c : Char} (digit : c.isDigit = true) : Text.isBlank c = false := by
  obtain ⟨above, below⟩ := Char.isDigit_iff_toNat.mp digit
  have above : 48 ≤ c.toNat := above
  have below : c.toNat ≤ 57 := below
  simp [Text.isBlank]
  omega

theorem Digits.visible {n : Nat} (digits : Digits t n) : ∀ c ∈ t, Text.isBlank c = false :=
  fun c listed => not_isBlank_of_isDigit (digits.all c listed)

theorem Numeral.trimmed {n : Int} (numeral : Numeral t n) : Trimmed t := by
  refine trimmed_of_visible ?_
  cases numeral with
  | plain digits => exact digits.visible
  | plus digits | minus digits => exact List.forall_mem_cons.mpr ⟨by decide, digits.visible⟩

theorem foldl_digits (all : ∀ c ∈ t, c.isDigit = true) (start : Nat) :
    t.foldl (fun (n : Int) c => n * 10 + (c.toNat - '0'.toNat)) start = Nat.ofDigitChars 10 t start := by
  induction t generalizing start with
  | nil => rfl
  | cons c t ih =>
    obtain ⟨digit, others⟩ := List.forall_mem_cons.mp all
    have above : '0'.toNat ≤ c.toNat := (Char.isDigit_iff_toNat.mp digit).1
    have step : (start : Int) * 10 + ((c.toNat : Int) - ('0'.toNat : Int)) =
        ((10 * start + (c.toNat - '0'.toNat) : Nat) : Int) := by
      omega
    rw [List.foldl_cons, step, ih others]
    rfl

/-- What digits are read as behind a sign. -/
def signed (negative : Bool) (digits : Text) : Option Int :=
  if digits.isEmpty || !digits.all Char.isDigit then none
  else
    let n : Int := digits.foldl (fun n c => n * 10 + (c.toNat - '0'.toNat)) 0
    let value := if negative then -n else n
    if Datum.fitsWord value then some value else none

theorem integer?_eq (raw : String) :
    integer? raw =
      match trim raw.toList with
      | '-' :: digits => signed true digits
      | '+' :: digits => signed false digits
      | digits => signed false digits := by
  unfold integer?
  generalize trim raw.toList = t
  match t with
  | [] => rfl
  | c :: digits =>
    by_cases minus : c = '-'
    · rw [minus]
      rfl
    · by_cases plus : c = '+'
      · rw [plus]
        rfl
      · simp [signed, minus, plus]

theorem signed_eq_some_iff {negative : Bool} {n : Int} :
    signed negative t = some n ↔
      (∃ m, Digits t m ∧ n = if negative then -(m : Int) else m) ∧ Datum.fitsWord n = true := by
  unfold signed
  constructor
  · intro read
    split at read
    · cases read
    · rename_i proper
      simp only [Bool.or_eq_true, List.isEmpty_iff, Bool.not_eq_true', not_or, Bool.not_eq_false,
        List.all_eq_true] at proper
      obtain ⟨some, all⟩ := proper
      obtain ⟨fits, value⟩ := Option.ite_none_right_eq_some.mp read
      cases value
      refine ⟨⟨_, ⟨some, all, rfl⟩, ?_⟩, fits⟩
      rw [← foldl_digits all]
      rfl
  · rintro ⟨⟨m, digits, rfl⟩, fits⟩
    have proper : (t.isEmpty || !t.all Char.isDigit) = false := by
      simpa [digits.some] using digits.all
    have value : t.foldl (fun (n : Int) c => n * 10 + (c.toNat - '0'.toNat)) 0 = m := by
      rw [← digits.value]
      exact foldl_digits digits.all 0
    rw [if_neg (by simp [proper]), value]
    exact if_pos fits

/-- A number is read where a numeral writes it and it has room in 64 bits. -/
theorem integer?_eq_some_iff {n : Int} :
    integer? raw = some n ↔ WritesInteger raw n ∧ Datum.fitsWord n = true := by
  rw [integer?_eq]
  constructor
  · intro read
    have bears := bears_trim raw
    split at read
    · rename_i digits whole
      obtain ⟨⟨m, digits, rfl⟩, fits⟩ := signed_eq_some_iff.mp read
      exact ⟨⟨_, whole ▸ bears, .minus digits⟩, fits⟩
    · rename_i digits whole
      obtain ⟨⟨m, digits, rfl⟩, fits⟩ := signed_eq_some_iff.mp read
      exact ⟨⟨_, whole ▸ bears, .plus digits⟩, fits⟩
    · obtain ⟨⟨m, digits, rfl⟩, fits⟩ := signed_eq_some_iff.mp read
      exact ⟨⟨_, bears, .plain digits⟩, fits⟩
  · rintro ⟨⟨t, bears, numeral⟩, fits⟩
    rw [bears.trim_eq numeral.trimmed]
    cases numeral with
    | minus digits => exact signed_eq_some_iff.mpr ⟨⟨_, digits, rfl⟩, fits⟩
    | plus digits => exact signed_eq_some_iff.mpr ⟨⟨_, digits, rfl⟩, fits⟩
    | plain digits =>
      split
      · exact absurd (digits.all '-' List.mem_cons_self) (by decide)
      · exact absurd (digits.all '+' List.mem_cons_self) (by decide)
      · exact signed_eq_some_iff.mpr ⟨⟨_, digits, rfl⟩, fits⟩

/-- A number of 64 bits stands for the percentage that is nearest. -/
def WritesPercentage (raw : String) (percentage : Nat) : Prop :=
  ∃ n : Int, WritesInteger raw n ∧ -0x8000000000000000 ≤ n ∧ n < 0x8000000000000000 ∧
    (percentage : Int) = min (max n 0) 100

theorem percentage_eq_some_iff {percentage : Nat} :
    (integer? raw).map clampPercentage = some percentage ↔ WritesPercentage raw percentage := by
  rw [Option.map_eq_some_iff]
  refine exists_congr fun n => ?_
  rw [integer?_eq_some_iff, and_assoc]
  refine and_congr_right fun _ => ?_
  have near : clampPercentage n = percentage ↔ (percentage : Int) = min (max n 0) 100 := by
    unfold clampPercentage
    omega
  rw [near]
  simp [Datum.fitsWord, and_assoc]

/-! ## Lists -/

/-- What stands between commas, in its order: the entries are what is left of it without white space at
the ends, where anything is left. -/
def WritesPaths (raw : String) (listed : List String) : Prop :=
  ∃ parts : List Text, parts ≠ [] ∧ (∀ part ∈ parts, ',' ∉ part) ∧
    raw.toList = [','].intercalate parts ∧
    listed.map String.toList = (parts.map trim).filter (· ≠ [])

/-- A proper entry: some text without white space at its ends, and without a comma. -/
structure Proper (entry : String) : Prop where
  some : entry ≠ ""
  comma : ',' ∉ entry.toList
  trimmed : Trimmed entry.toList

theorem pieces_eq_splitOn (t : Text) : pieces t = t.splitOn ',' := by
  induction t with
  | nil => rfl
  | cons c t ih =>
    rw [pieces, List.splitOn_cons_eq_if_modifyHead, ← ih]
    split
    · rfl
    · cases further : pieces t with
      | nil => exact absurd (ih.symm.trans further) (List.splitOn_ne_nil ',' t)
      | cons part parts => rfl

theorem comma_notMem_pieces (t : Text) : ∀ part ∈ pieces t, ',' ∉ part := by
  induction t with
  | nil => simp [pieces]
  | cons c t ih =>
    rw [pieces]
    split
    · exact List.forall_mem_cons.mpr ⟨List.not_mem_nil, ih⟩
    · rename_i other
      have other : ',' ≠ c := fun same => other (beq_iff_eq.mpr same.symm)
      split
      · simpa using other
      · rename_i part parts further
        rw [further] at ih
        obtain ⟨first, others⟩ := List.forall_mem_cons.mp ih
        exact List.forall_mem_cons.mpr ⟨List.not_mem_cons_of_ne_of_not_mem other first, others⟩

theorem map_toList_paths (raw : String) :
    (paths raw).map String.toList = ((pieces raw.toList).map trim).filter (· ≠ []) := by
  unfold paths
  rw [List.map_filterMap, ← List.filterMap_eq_filter]
  refine List.filterMap_congr fun part _ => ?_
  cases part with
  | nil => rfl
  | cons c part => simp [Option.guard]

/-- Every text writes one list. -/
theorem paths_eq_iff {listed : List String} : paths raw = listed ↔ WritesPaths raw listed := by
  constructor
  · rintro rfl
    refine ⟨pieces raw.toList, ?_, comma_notMem_pieces _, ?_, map_toList_paths raw⟩
    · rw [pieces_eq_splitOn]
      exact List.splitOn_ne_nil _ _
    · rw [pieces_eq_splitOn, List.intercalate_splitOn]
  · rintro ⟨parts, some, comma, whole, entries⟩
    have same : pieces raw.toList = parts := by
      rw [pieces_eq_splitOn, whole, List.splitOn_intercalate ',' comma some]
    refine List.map_injective_iff.mpr (fun _ _ => String.toList_injective) ?_
    rw [map_toList_paths, same, entries]

theorem WritesPaths.proper {listed : List String} (writes : WritesPaths raw listed) :
    ∀ entry ∈ listed, Proper entry := by
  obtain ⟨parts, _, comma, _, entries⟩ := writes
  intro entry isEntry
  have kept : entry.toList ∈ (parts.map trim).filter (· ≠ []) := by
    rw [← entries]
    exact List.mem_map_of_mem isEntry
  obtain ⟨trimmed, some⟩ := List.mem_filter.mp kept
  obtain ⟨part, isPart, same⟩ := List.mem_map.mp trimmed
  refine ⟨by simpa using some, ?_, same ▸ Text.trimmed_trim part⟩
  rw [← same]
  exact fun within => comma part isPart (Text.mem_of_mem_trim within)

/-- Proper entries with commas between them say the list of these entries. -/
theorem writesPaths_intercalate {listed : List String} (proper : ∀ entry ∈ listed, Proper entry) :
    WritesPaths (",".intercalate listed) listed := by
  have whole : (",".intercalate listed).toList = [','].intercalate (listed.map String.toList) :=
    String.toList_intercalate
  have comma : ∀ part ∈ listed.map String.toList, ',' ∉ part :=
    List.forall_mem_map.mpr fun entry isEntry => (proper entry isEntry).comma
  have trimmed : (listed.map String.toList).map trim = listed.map String.toList := by
    rw [List.map_map]
    exact List.map_congr_left fun entry isEntry => (proper entry isEntry).trimmed.trim_eq
  have some : ∀ part ∈ listed.map String.toList, part ≠ [] :=
    List.forall_mem_map.mpr fun entry isEntry => by simpa using (proper entry isEntry).some
  cases listed with
  | nil => exact ⟨[[]], List.cons_ne_nil _ _, by simp, by simp, rfl⟩
  | cons entry more =>
    refine ⟨(entry :: more).map String.toList, List.cons_ne_nil _ _, comma, whole, ?_⟩
    rw [trimmed, List.filter_eq_self.mpr fun part isPart => decide_eq_true (some part isPart)]

/-! ## Overlays -/

/-- What a variable writes takes the place of a value; a variable that is not set or writes nothing
leaves it. -/
structure Overlays {α : Type} (Writes : String → α → Prop) (found : Option String) (own merged : α) :
    Prop where
  written : ∀ raw ∈ found, ∀ value, Writes raw value → merged = value
  unwritten : (∀ raw ∈ found, ∀ value, ¬ Writes raw value) → merged = own

variable {α : Type} {Writes : String → α → Prop} {found : Option String} {own merged : α}

/-- A second time changes nothing. -/
theorem Overlays.again {merged' : α} (once : Overlays Writes found own merged)
    (twice : Overlays Writes found merged merged') : merged' = merged := by
  by_cases written : ∃ raw ∈ found, ∃ value, Writes raw value
  · obtain ⟨raw, isRaw, value, writes⟩ := written
    rw [twice.written raw isRaw value writes, once.written raw isRaw value writes]
  · exact twice.unwritten fun raw isRaw value writes => written ⟨raw, isRaw, value, writes⟩

theorem overlays_getD {read : String → Option α}
    (reads : ∀ {raw value}, read raw = some value ↔ Writes raw value) (found : Option String) (own : α) :
    Overlays Writes found own ((found.bind read).getD own) where
  written := by
    rintro raw rfl value writes
    rw [Option.bind_some, reads.mpr writes, Option.getD_some]
  unwritten := by
    intro unwritten
    have none : found.bind read = none :=
      Option.bind_eq_none_iff.mpr fun raw isRaw =>
        Option.eq_none_iff_forall_not_mem.mpr fun value isValue =>
          unwritten raw isRaw value (reads.mp isValue)
    rw [none, Option.getD_none]

theorem overlays_map_getD {read : String → α} (reads : ∀ {raw value}, read raw = value ↔ Writes raw value)
    (found : Option String) (own : α) : Overlays Writes found own ((found.map read).getD own) := by
  rw [Option.map_eq_bind]
  refine overlays_getD (fun {raw value} => ?_) found own
  rw [Function.comp_apply, Option.some.injEq]
  exact reads

end Environment

namespace RolloutConfig

open Environment

/-- Every field is under its own variable. -/
structure Merged (env : Variables) (c merged : RolloutConfig) : Prop where
  enabled : Overlays WritesTruth (env useNewClient) c.enabled merged.enabled
  percentage : Overlays WritesPercentage (env rolloutPercentage) c.percentage merged.percentage
  enabledPaths : Overlays WritesPaths (env Environment.enabledPaths) c.enabledPaths merged.enabledPaths
  disabledPaths :
    Overlays WritesPaths (env Environment.disabledPaths) c.disabledPaths merged.disabledPaths
  debugMode : Overlays WritesTruth (env debug) c.debugMode merged.debugMode

theorem merge_merged (c : RolloutConfig) (env : Variables) : Merged env c (c.merge env) where
  enabled := overlays_getD truth?_eq_some_iff _ _
  percentage := by
    rw [merge, Option.map_bind]
    exact overlays_getD percentage_eq_some_iff _ _
  enabledPaths := overlays_map_getD paths_eq_iff _ _
  disabledPaths := overlays_map_getD paths_eq_iff _ _
  debugMode := overlays_getD truth?_eq_some_iff _ _

theorem Merged.again {env : Variables} {c merged merged' : RolloutConfig} (once : Merged env c merged)
    (twice : Merged env merged merged') : merged' = merged := by
  have enabled := once.enabled.again twice.enabled
  have percentage := once.percentage.again twice.percentage
  have enabledPaths := once.enabledPaths.again twice.enabledPaths
  have disabledPaths := once.disabledPaths.again twice.disabledPaths
  have debugMode := once.debugMode.again twice.debugMode
  cases merged
  cases merged'
  rw [RolloutConfig.mk.injEq]
  exact ⟨enabled, percentage, enabledPaths, disabledPaths, debugMode⟩

/-- Merging an environment a second time changes nothing. Each field has the value that its variable
writes, and keeps its own where the variable is not set or writes none. Proper entries with commas
between them are the list that a variable for paths then gives; any text gives what stands between its
commas, trimmed and in its order, so far as anything is left, and nothing but proper entries. -/
theorem merge_lawful (c : RolloutConfig) (env : Variables) :
    let merged := c.merge env
    merged.merge env = merged ∧
    Merged env c merged ∧
    (∀ listed, (∀ entry ∈ listed, Proper entry) →
      (env Environment.enabledPaths = some (",".intercalate listed) → merged.enabledPaths = listed) ∧
      (env Environment.disabledPaths = some (",".intercalate listed) → merged.disabledPaths = listed)) ∧
    ∀ raw,
      (env Environment.enabledPaths = some raw →
        WritesPaths raw merged.enabledPaths ∧ ∀ entry ∈ merged.enabledPaths, Proper entry) ∧
      (env Environment.disabledPaths = some raw →
        WritesPaths raw merged.disabledPaths ∧ ∀ entry ∈ merged.disabledPaths, Proper entry) := by
  intro merged
  have law : Merged env c merged := c.merge_merged env
  refine ⟨law.again (merged.merge_merged env), law, fun listed proper => ?_, fun raw => ?_⟩
  · have writes := writesPaths_intercalate proper
    exact ⟨fun set => law.enabledPaths.written _ set listed writes,
      fun set => law.disabledPaths.written _ set listed writes⟩
  · have writes : WritesPaths raw (paths raw) := paths_eq_iff.mp rfl
    constructor
    · intro set
      rw [law.enabledPaths.written raw set _ writes]
      exact ⟨writes, writes.proper⟩
    · intro set
      rw [law.disabledPaths.written raw set _ writes]
      exact ⟨writes, writes.proper⟩

/-- A word that is none leaves the switch, and a number out of range lets everybody in. -/
theorem merge_lawful_mixed :
    let c : RolloutConfig := { enabled := true, percentage := 30, disabledPaths := ["/old"] }
    let env : Variables := fun name =>
      [(useNewClient, "maybe"), (rolloutPercentage, "\t+140 "),
        (Environment.enabledPaths, "/admin,/re ports"), (Environment.disabledPaths, " /a, ,/b,")].lookup name
    let merged := c.merge env
    merged.merge env = merged ∧ merged.enabled = true ∧ merged.percentage = 100 ∧
      merged.enabledPaths = ["/admin", "/re ports"] ∧ merged.disabledPaths = ["/a", "/b"] := by
  intro c env merged
  obtain ⟨again, law, lists, _⟩ := merge_lawful c env
  have noWord : ∀ raw ∈ env useNewClient, ∀ value, ¬ WritesTruth raw value := by
    intro raw isRaw value writes
    cases isRaw
    have read : truth? "maybe" = none := by decide +kernel
    cases read.symm.trans (truth?_eq_some_iff.mpr writes)
  have proper : ∀ entry ∈ ["/admin", "/re ports"], Proper entry := by
    intro entry isEntry
    simp only [List.mem_cons, List.not_mem_nil, or_false] at isEntry
    rcases isEntry with rfl | rfl
    · exact ⟨by decide, by decide, by decide⟩
    · exact ⟨by decide, by decide, by decide⟩
  refine ⟨again, law.enabled.unwritten noWord, ?_, (lists _ proper).1 (by decide +kernel), ?_⟩
  · exact law.percentage.written _ rfl 100 (percentage_eq_some_iff.mp (by decide +kernel))
  · exact law.disabledPaths.written _ rfl _ (paths_eq_iff.mp (by decide +kernel))

end RolloutConfig

end ClientMigration
