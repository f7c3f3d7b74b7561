/-
# Proofs.Codemod.UsageTable -- usage reports as a table that reads back

Reports are written as rows, with commas between the fields of a row and a line feed
behind it. A field with a comma, a quote or a line feed in it stands in quotes, and
each of its own quotes is written twice; every other character is written as it is,
in quotes or out of them.

`Csv.read` reads such tables one character at a time. From the start of a field it
reads what was written of a text as that text (`field_read`), so it reads a row as the
record of its fields (`row_read`) and rows as their records (`rows_read`).
-/
import Mathlib.Data.List.Induction
import ClientMigration.Toolkit.Run

namespace ClientMigration

set_option autoImplicit false

open Codemod

/-! ## A reader of tables -/

namespace Csv

/-- How far a field has been read. -/
inductive Field where
  | fresh
  | plain (t : Text)
  | quoted (t : Text)
  /-- Behind a quote in a quoted field, which ends the field or is the first of two. -/
  | closed (t : Text)

/-- The text of a field that can end here. -/
def Field.text? : Field → Option Text
  | .fresh => some []
  | .plain t => some t
  | .quoted _ => none
  | .closed t => some t

/-- The field with one more character. -/
def Field.add? : Field → Char → Option Field
  | .fresh, c => some (if c = '"' then .quoted [] else .plain [c])
  | .plain t, c => if c = '"' then none else some (.plain (t ++ [c]))
  | .quoted t, c => some (if c = '"' then .closed t else .quoted (t ++ [c]))
  | .closed t, c => if c = '"' then some (.quoted (t ++ [c])) else none

structure Reading where
  records : List (List Text) := []
  /-- The fields of the record that is being read. -/
  fields : List Text := []
  field : Field := .fresh

namespace Reading

/-- The record that is being read, if it can end here. -/
def record? (s : Reading) : Option (List Text) := s.field.text?.map fun t => s.fields ++ [t]

def next (s : Reading) (c : Char) : Option Reading :=
  match s.record?, c with
  | some fields, ',' => some { s with fields, field := .fresh }
  | some fields, '\n' => some { records := s.records ++ [fields] }
  | _, c => (s.field.add? c).map fun field => { s with field }

/-- All records. Behind the last line feed there is another one only if something of it is there. -/
def finish? (s : Reading) : Option (List (List Text)) :=
  match s.fields, s.field with
  | [], .fresh => some s.records
  | _, _ => s.record?.map fun fields => s.records ++ [fields]

end Reading

/-- The records of a table; none if a quote is left open or stands in or behind the text of a field. -/
def read (t : Text) : Option (List (List Text)) := (t.foldlM Reading.next {}).bind Reading.finish?

/-! ## What was written of a field -/

variable {s : Reading} {fields : List Text} {c : Char}

theorem next_comma (ends : s.record? = some fields) :
    s.next ',' = some { s with fields, field := .fresh } := by
  unfold Reading.next
  rw [ends]
  rfl

theorem next_lineFeed (ends : s.record? = some fields) :
    s.next '\n' = some { records := s.records ++ [fields] } := by
  unfold Reading.next
  rw [ends]
  rfl

theorem next_other (comma : c ≠ ',') (lineFeed : c ≠ '\n') :
    s.next c = (s.field.add? c).map fun field => { s with field } := by
  unfold Reading.next
  split
  · exact absurd rfl comma
  · exact absurd rfl lineFeed
  · rfl

/-- In quotes a comma and a line feed are characters as any other. -/
theorem next_quoted (s : Reading) (t : Text) (c : Char) :
    Reading.next { s with field := .quoted t } c =
      (Field.add? (.quoted t) c).map fun field => { s with field } := rfl

theorem plain_read (s : Reading) {t : Text} (plain : ∀ c ∈ t, c ≠ ',' ∧ c ≠ '"' ∧ c ≠ '\n') (u : Text) :
    t.foldlM Reading.next { s with field := .plain u } = some { s with field := .plain (u ++ t) } := by
  induction t generalizing u with
  | nil =>
    rw [List.append_nil]
    rfl
  | cons c t ih =>
    obtain ⟨comma, quote, lineFeed⟩ := plain c List.mem_cons_self
    have added : Field.add? (.plain u) c = some (.plain (u ++ [c])) := if_neg quote
    rw [List.foldlM_cons, next_other comma lineFeed, added]
    have rest := ih (fun d later => plain d (List.mem_cons_of_mem c later)) (u ++ [c])
    rw [List.append_assoc] at rest
    exact rest

/-- Two quotes in quotes are one. -/
theorem quoted_read (s : Reading) (t u : Text) :
    (t.flatMap fun c => if c == '"' then ['"', '"'] else [c]).foldlM Reading.next
        { s with field := .quoted u } =
      some { s with field := .quoted (u ++ t) } := by
  induction t generalizing u with
  | nil =>
    rw [List.append_nil]
    rfl
  | cons c t ih =>
    have rest := ih (u ++ [c])
    rw [List.append_assoc] at rest
    rw [List.flatMap_cons, List.foldlM_append]
    by_cases quote : c = '"'
    · subst quote
      exact rest
    · rw [if_neg (by simpa using quote), List.foldlM_cons, next_quoted, Field.add?, if_neg quote]
      exact rest

/-- From its start, a field is read as the text that was written. -/
theorem field_read (fresh : s.field = .fresh) (t : Text) :
    ∃ field : Field, field.text? = some t ∧
      (UsageReport.csvField t).foldlM Reading.next s = some { s with field } := by
  obtain ⟨records, fields, _⟩ := s
  subst fresh
  unfold UsageReport.csvField
  split
  · refine ⟨.closed t, rfl, ?_⟩
    have opened : Reading.next { records, fields } '"' =
      some { records, fields, field := .quoted [] } := rfl
    rw [List.cons_append, List.foldlM_cons, opened, Option.bind_eq_bind, Option.bind_some,
      List.foldlM_append, quoted_read { records, fields } t []]
    rfl
  · rename_i plain
    have plain : ∀ c ∈ t, c ≠ ',' ∧ c ≠ '"' ∧ c ≠ '\n' := by simpa [and_assoc] using plain
    cases t with
    | nil => exact ⟨.fresh, rfl, rfl⟩
    | cons c t =>
      obtain ⟨comma, quote, lineFeed⟩ := plain c List.mem_cons_self
      refine ⟨.plain (c :: t), rfl, ?_⟩
      rw [List.foldlM_cons, next_other comma lineFeed, Field.add?, if_neg quote]
      exact plain_read { records, fields } (fun d later => plain d (List.mem_cons_of_mem c later)) [c]

/-! ## Rows and tables -/

/-- A record as a row of a table. -/
def row (fields : List Text) : Text := [','].intercalate (fields.map UsageReport.csvField)

theorem row_read (fresh : s.field = .fresh) (nonempty : fields ≠ []) :
    ∃ s' : Reading, (row fields).foldlM Reading.next s = some s' ∧ s'.records = s.records ∧
      s'.record? = some (s.fields ++ fields) := by
  induction fields generalizing s with
  | nil => exact absurd rfl nonempty
  | cons t fields ih =>
    obtain ⟨field, text, read⟩ := field_read fresh t
    have ends : Reading.record? { s with field } = some (s.fields ++ [t]) := by
      rw [Reading.record?, text]
      rfl
    cases fields with
    | nil =>
      refine ⟨{ s with field }, ?_, rfl, ends⟩
      rw [row, List.map_singleton, List.intercalate_singleton, read]
    | cons u fields =>
      obtain ⟨s', further, records, last⟩ := ih (s := { s with fields := s.fields ++ [t], field := .fresh })
        rfl (List.cons_ne_nil u fields)
      refine ⟨s', ?_, records, ?_⟩
      · rw [row, List.map_cons, List.map_cons, List.intercalate_cons_cons, List.append_assoc,
          List.foldlM_append, read, Option.bind_eq_bind, Option.bind_some, List.singleton_append,
          List.foldlM_cons, next_comma ends]
        exact further
      · rw [last, List.append_assoc]
        rfl

/-- A record can be told from nothing at the end of a table, unless it is one blank field. -/
theorem finish_record (ends : s.record? = some fields) (notBlank : fields ≠ [[]]) :
    s.finish? = some (s.records ++ [fields]) := by
  unfold Reading.finish?
  split
  · rename_i empty fresh
    rw [Reading.record?, empty, fresh] at ends
    exact absurd (Option.some.inj ends).symm notBlank
  · rw [ends]
    rfl

/-- Rows with a line feed behind each are read as their records. -/
theorem rows_read (done : List (List Text)) {records : List (List Text)} (each : ∀ r ∈ records, r ≠ []) :
    (records.flatMap fun r => row r ++ ['\n']).foldlM Reading.next { records := done } =
      some { records := done ++ records } := by
  induction records generalizing done with
  | nil =>
    rw [List.append_nil]
    rfl
  | cons r records ih =>
    obtain ⟨s', read, before, ends⟩ := row_read (s := { records := done }) rfl (each r List.mem_cons_self)
    have rest := ih (done ++ [r]) fun r' later => each r' (List.mem_cons_of_mem r later)
    rw [List.append_assoc] at rest
    rw [List.flatMap_cons, List.foldlM_append, List.foldlM_append, read, Option.bind_eq_bind,
      Option.bind_some, List.foldlM_cons, next_lineFeed ends, before]
    exact rest

/-- The last line feed can be left out. -/
theorem intercalate_rows (records : List (List Text)) (r : List Text) :
    ['\n'].intercalate ((records ++ [r]).map row) = (records.flatMap fun r => row r ++ ['\n']) ++ row r := by
  induction records with
  | nil => exact List.intercalate_singleton
  | cons first records ih =>
    obtain ⟨second, later, rows⟩ : ∃ second later, records ++ [r] = second :: later :=
      List.exists_cons_of_ne_nil (by simp)
    rw [List.cons_append, rows, List.map_cons, List.map_cons, List.intercalate_cons_cons, ← List.map_cons,
      ← rows, ih, List.flatMap_cons]
    simp only [List.append_assoc]

/-- A table reads back, with a line feed behind its last row or without. -/
theorem table_readsBack {records : List (List Text)} (each : ∀ r ∈ records, r ≠ [] ∧ r ≠ [[]]) :
    read (['\n'].intercalate (records.map row)) = some records ∧
      read (records.flatMap fun r => row r ++ ['\n']) = some records := by
  constructor
  · induction records using List.reverseRecOn with
    | nil => rfl
    | append_singleton records r _ =>
      have nonempty : ∀ r' ∈ records, r' ≠ [] := fun r' listed => (each r' (by simp [listed])).1
      obtain ⟨some, notBlank⟩ := each r (by simp)
      obtain ⟨s', last, before, ends⟩ := row_read (s := { records }) rfl some
      rw [intercalate_rows, read, List.foldlM_append, rows_read [] nonempty, Option.bind_eq_bind,
        Option.bind_some, List.nil_append, last, Option.bind_some, finish_record ends notBlank, before]
      rfl
  · rw [read, rows_read [] fun r listed => (each r listed).1]
    rfl

/-- A quote and a line feed in quotes are read as what they are. -/
example : read "a,\"b,\"\"\n\"\n,c\n".toList =
    some [["a".toList, "b,\"\n".toList], ["".toList, "c".toList]] := by decide +kernel

end Csv

/-! ## Reports -/

namespace Codemod

/-- The names of the columns. -/
def usageColumns : List Text :=
  ["path", "role", "preset", "default_imports", "named_imports", "accessor_imports",
    "submodule_imports", "factory_imports", "calls", "needs_migration", "warnings"].map String.toList

theorem row_usageColumns : Csv.row usageColumns = UsageReport.csvHeader.toList := by decide +kernel

/-- The records that stand for reports, below the names of the columns. -/
def usageRecords (reports : List UsageReport) : List (List Text) :=
  usageColumns :: reports.map UsageReport.csvFields

theorem row_usageRecords (reports : List UsageReport) : (usageRecords reports).map Csv.row =
    UsageReport.csvHeader.toList :: reports.map UsageReport.csvRow := by
  rw [usageRecords, List.map_cons, row_usageColumns, List.map_map]
  rfl

theorem length_of_mem_usageRecords {reports : List UsageReport} {record : List Text}
    (listed : record ∈ usageRecords reports) : record.length = 11 := by
  rcases List.mem_cons.mp listed with rfl | listed
  · rfl
  · obtain ⟨r, _, rfl⟩ := List.mem_map.mp listed
    rfl

theorem usageRecords_readBack (reports : List UsageReport) :
    Csv.read (['\n'].intercalate (UsageReport.csvHeader.toList :: reports.map UsageReport.csvRow)) =
        some (usageRecords reports) ∧
      Csv.read (Command.ofLines (UsageReport.csvHeader.toList :: reports.map UsageReport.csvRow)) =
        some (usageRecords reports) := by
  have each : ∀ record ∈ usageRecords reports, record ≠ [] ∧ record ≠ [[]] := by
    intro record listed
    have length := length_of_mem_usageRecords listed
    constructor
    · rintro rfl
      cases length
    · rintro rfl
      cases length
  have back := Csv.table_readsBack each
  rw [← row_usageRecords, Command.ofLines, List.flatMap_map]
  exact back

theorem output_runAnalyze {w : World} {c : ToolkitConfig} {roots : List Path} {reports : List UsageReport}
    {failures : List FileFailure}
    (analyzed : analyzeBatch c.codemod w.files roots = .ok (reports, failures)) :
    (Command.runAnalyze w c roots).output =
      Command.ofLines (UsageReport.csvHeader.toList :: reports.map UsageReport.csvRow) := by
  simp only [Command.runAnalyze, analyzed, Command.report]

/-- The table of any reports reads back, whatever is in their paths and warnings: as the names of the
columns and one record for each report, which has its path, role, preset and counts, whether it needs a
migration, and its warnings in one field. What the command writes of the reports on some files reads
back as the same records. -/
theorem usageTable_readsBack (reports : List UsageReport) :
    let records := usageColumns :: reports.map fun r =>
      [r.path.text.toList, r.role.name.toList, r.preset.name.toList, (toString r.defaultImports).toList,
        (toString r.namedImports).toList, (toString r.accessorImports).toList,
        (toString r.submoduleImports).toList, (toString r.factoryImports).toList,
        (toString r.totalCalls).toList, (if r.needsMigration then "true" else "false").toList,
        ("; ".intercalate r.warnings).toList]
    Csv.read (['\n'].intercalate (UsageReport.csvHeader.toList :: reports.map UsageReport.csvRow)) =
      some records ∧
    (∀ record ∈ records, record.length = 11) ∧
    ∀ w c roots failures, analyzeBatch c.codemod w.files roots = .ok (reports, failures) →
      Csv.read (Command.runAnalyze w c roots).output = some records := by
  obtain ⟨joined, ended⟩ := usageRecords_readBack reports
  refine ⟨joined, fun record => @length_of_mem_usageRecords reports record, ?_⟩
  intro w c roots failures analyzed
  rw [output_runAnalyze analyzed]
  exact ended

end Codemod

end ClientMigration
