/-
# Proofs.Store.Damage -- a damaged file is refused and left as it is

The text of a file holds entries if it is blank, and then it holds none, or if it is
a JSON record of texts (`Holds`); any other text is damaged. A store reads the
entries that are held, and of a damaged file it says that it is one
(`decode_of_holds`, `decode_of_damaged`).

A command leaves the files as they are if it finds the file damaged, and also if it
asks, or takes away what is not there (`obey_damaged`, `obey_idle`); a run of such
commands then does (`run_still`). The main theorem is `damaged_untouched`.
-/
import ClientMigration.Proofs.Data.TextRecords
import ClientMigration.Proofs.Rollout.Installation
import ClientMigration.Proofs.Store.File

namespace ClientMigration.FileStore

set_option autoImplicit false

variable {p : Path} {files : Tree} {t : Text} {entries : Table String} {es : List (String × String)}

/-! ## What a text holds -/

/-- The entries that the text of a store's file holds, in their order. -/
inductive Holds : Text → List (String × String) → Prop where
  | blank {t : Text} : Text.Blank t → Holds t []
  | record {t : Text} {es : List (String × String)} : Json.IsTextRecord t es → Holds t es

/-- A text that is neither blank nor a record of texts. -/
def Damaged (t : Text) : Prop := ¬ Text.Blank t ∧ ¬ ∃ es, Json.IsTextRecord t es

theorem decode_of_holds (holds : Holds t es) : decode t = .ok (Table.ofList es) := by
  cases holds with
  | blank blank => exact decode_blank blank
  | record record => exact decode_record (Json.read_textRecord_iff.mpr record)

/-- A table of texts is read from a record of texts alone. -/
theorem record_of_read {d : Datum} (read : (Table.codec .text).read d = some entries) :
    ∃ es : List (String × String), d = .record (es.map fun e => (e.1, .text e.2)) := by
  cases d with
  | record ds =>
    obtain ⟨es, all, _⟩ := Option.map_eq_some_iff.mp read
    refine ⟨es, congrArg Datum.record (eq_map_of_mapM ?_ all)⟩
    rintro ⟨name, value⟩ e one
    obtain ⟨x, text, rfl⟩ := Option.map_eq_some_iff.mp one
    cases value with
    | text y =>
      cases text
      rfl
    | _ => cases text
  | _ => cases read

theorem decode_of_damaged (damaged : Damaged t) : decode t = .error .corrupt := by
  obtain ⟨dark, noRecord⟩ := damaged
  unfold decode
  rw [if_neg (by rwa [List.isEmpty_iff, Text.trim_eq_nil_iff])]
  cases found : (Json.read t).bind (Table.codec .text).read with
  | none => rfl
  | some entries =>
    obtain ⟨d, written, read⟩ := Option.bind_eq_some_iff.mp found
    obtain ⟨es, rfl⟩ := record_of_read read
    exact absurd ⟨es, Json.read_textRecord_iff.mp written⟩ noRecord

theorem damaged_of_decode (refused : decode t = .error .corrupt) : Damaged t := by
  constructor
  · intro blank
    cases (decode_blank blank).symm.trans refused
  · rintro ⟨es, record⟩
    cases (decode_of_holds (.record record)).symm.trans refused

theorem load_of_read (reads : files.read p = .ok t) : load p files = decode t := by
  unfold load
  rw [reads]

/-! ## Commands that leave the files alone -/

/-- What a command is told of a damaged file. -/
def Command.refused : Command → Except StoreFault (Option String)
  | .reopen => .ok none
  | .get _ | .set _ _ | .remove _ => .error .corrupt

theorem obey_damaged (refused : load p files = .error .corrupt) (k : Command) :
    (opened p files).obey p k = (k.refused, opened p files) := by
  cases k with
  | get key => simp only [Session.obey, opened, store, get, refused]; rfl
  | set key value => simp only [Session.obey, opened, store, set, refused]; rfl
  | remove key => simp only [Session.obey, opened, store, remove, refused]; rfl
  | reopen => rfl

/-- A command that asks for a key or takes one away that is not there. -/
inductive Command.Idle (es : List (String × String)) : Command → Prop where
  | get (key : String) : Idle es (.get key)
  | remove {key : String} : key ∉ es.map Prod.fst → Idle es (.remove key)
  | reopen : Idle es .reopen

/-- What a command is told of entries: of two under one key the later. -/
def Command.told (es : List (String × String)) : Command → Except StoreFault (Option String)
  | .get key => .ok (es.reverse.lookup key)
  | .set _ _ | .remove _ | .reopen => .ok none

theorem obey_idle (loaded : load p files = .ok (Table.ofList es)) {k : Command} (idle : k.Idle es) :
    (opened p files).obey p k = (k.told es, opened p files) := by
  cases idle with
  | get key =>
    simp only [Session.obey, opened, store, get, loaded, Except.map, Table.find?_ofList]
    rfl
  | @remove key absent =>
    have nothing : (Table.ofList es).find? key = none := by
      rw [Table.find?_ofList, List.lookup_eq_none_iff]
      rintro e listed
      rw [bne_iff_ne]
      rintro rfl
      exact absent (List.mem_map_of_mem (List.mem_reverse.mp listed))
    simp only [Session.obey, opened, store, remove, loaded, nothing]
    rfl
  | reopen => rfl

/-- A run leaves alone what each of its commands leaves alone. -/
theorem run_still {s : Session} {answer : Command → Except StoreFault (Option String)}
    {commands : List Command} (still : ∀ k ∈ commands, s.obey p k = (answer k, s)) :
    s.answers p commands = commands.map answer ∧ s.after p commands = s := by
  induction commands with
  | nil => exact ⟨rfl, rfl⟩
  | cons k ks ih =>
    obtain ⟨first, others⟩ := List.forall_mem_cons.mp still
    obtain ⟨answers, after⟩ := ih others
    rw [Session.answers, Session.after, first]
    exact ⟨congrArg _ answers, after⟩

/-! ## Damaged files -/

/-- An assigner that cannot read its store keeps its token to itself. -/
theorem assignment_damaged (refused : load p files = .error .corrupt) (hasher : Hasher) (newToken : String) :
    let a : Assigner Tree := { store := store p, state := files, hasher, newToken }
    a.assignment = (.of hasher newToken false, { a with current? := some (.of hasher newToken false) }) := by
  intro a
  have made : a.load = (.of hasher newToken false, files) := by
    simp only [Assigner.load, a, store, get, refused]
    rfl
  rw [Assigner.assignment_of_none rfl, made]

/-- On a damaged file a run of any length is refused whatever it asks, but for a reopening, and the files
are as before; an assigner gets a token that is not kept, and the files are as before. On a file that is
not damaged, a run that only asks and takes away what is not there leaves the files as before. -/
theorem damaged_untouched (reads : files.read p = .ok t) :
    (Damaged t →
      (∀ commands, (opened p files).answers p commands = commands.map Command.refused ∧
        (opened p files).after p commands = opened p files) ∧
      ∀ hasher newToken,
        let a : Assigner Tree := { store := store p, state := files, hasher, newToken }
        a.assignment =
          (.of hasher newToken false, { a with current? := some (.of hasher newToken false) })) ∧
    ∀ es, Holds t es → ∀ commands, (∀ k ∈ commands, k.Idle es) →
      (opened p files).answers p commands = commands.map (Command.told es) ∧
        (opened p files).after p commands = opened p files := by
  have loads := load_of_read reads
  refine ⟨fun damaged => ?_, fun es holds commands idle => ?_⟩
  · have refused : load p files = .error .corrupt := loads.trans (decode_of_damaged damaged)
    exact ⟨fun commands => run_still fun k _ => obey_damaged refused k, assignment_damaged refused⟩
  · have loaded : load p files = .ok (Table.ofList es) := loads.trans (decode_of_holds holds)
    exact run_still fun k listed => obey_idle loaded (idle k listed)

/-- One file in the working directory. -/
def oneFile (t : Text) : Tree := .directory [("state.json", .file (.text t))]

/-- A comma too many makes the file of a token a damaged one, which no new token replaces; and a key that
is not there is removed from an undamaged file without a write. -/
theorem trailing_comma_untouched :
    let p : Path := ⟨"state.json"⟩
    (let t := "\x7b\"apimig.rollout.user_hash\": \"token-1\",\x7d".toList
      let commands := [.get userHashKey, .set "a" "b", .reopen, .remove "a"]
      (oneFile t).read p = .ok t ∧ Damaged t ∧
        (opened p (oneFile t)).answers p commands =
          [.error .corrupt, .error .corrupt, .ok none, .error .corrupt] ∧
        (opened p (oneFile t)).after p commands = opened p (oneFile t) ∧
        (Assigner.assignment { store := store p, state := oneFile t, newToken := "token-2" }).1.persisted =
          false) ∧
    (let es := [("a", "1"), ("\"", "\n")]
      let t := encode es
      let commands := [.get "\"", .remove "b", .get "b"]
      (oneFile t).read p = .ok t ∧ Holds t es ∧ (∀ k ∈ commands, k.Idle es) ∧
        (opened p (oneFile t)).answers p commands = [.ok (some "\n"), .ok none, .ok none] ∧
        (opened p (oneFile t)).after p commands = opened p (oneFile t)) := by
  constructor
  · intro t commands
    have reads : (oneFile t).read ⟨"state.json"⟩ = .ok t := by decide +kernel
    have damaged : Damaged t := damaged_of_decode (by decide +kernel)
    obtain ⟨runs, assigner⟩ := (damaged_untouched reads).1 damaged
    obtain ⟨answers, after⟩ := runs commands
    exact ⟨reads, damaged, answers, after, by rw [assigner .fnv1a "token-2"]; rfl⟩
  · intro es t commands
    have reads : (oneFile t).read ⟨"state.json"⟩ = .ok t := by decide +kernel
    have holds : Holds t es :=
      .record (Json.read_textRecord_iff.mp (Json.read_indented (proper_texts es)))
    have idle : ∀ k ∈ commands, k.Idle es := by
      intro k listed
      simp only [commands, List.mem_cons, List.not_mem_nil, or_false] at listed
      rcases listed with rfl | rfl | rfl
      · exact .get _
      · exact .remove (by decide)
      · exact .get _
    obtain ⟨answers, after⟩ := (damaged_untouched reads).2 es holds commands idle
    exact ⟨reads, holds, idle, answers, after⟩

end ClientMigration.FileStore
