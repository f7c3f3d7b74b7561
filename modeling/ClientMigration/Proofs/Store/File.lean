/-
# Proofs.Store.File -- a store in a file is a table of texts

Every command on a store in a file reads the whole file, and one that changes
something writes the whole file anew. What was saved is loaded again
(`load_save`): the path leads to the text that was written, the text reads back as
the record that was written, and the record holds a table in the order of its
names.

The store is compared with a map from keys to texts that is only asked and
updated (`Map.obey`). `Represents` says that the file is one that can be written
and holds what the map holds; one command keeps it (`Represents.obey`), and so a run
does. The main theorem is `refines_map`.
-/
import Mathlib.Logic.Function.Basic
import ClientMigration.Store.File
import ClientMigration.Proofs.Files.Tree
import ClientMigration.Proofs.Data.Json
import ClientMigration.Proofs.Data.Table
import ClientMigration.Proofs.Text.Trimmed

namespace ClientMigration.FileStore

set_option autoImplicit false

variable {p : Path} {files files' : Tree} {entries : Table String} {key other value : String}

/-! ## Texts of tables -/

theorem decode_blank {t : Text} (blank : ∀ c ∈ t, Text.isBlank c = true) : decode t = .ok [] := by
  unfold decode
  rw [Text.trim_eq_nil_iff.mpr blank]
  rfl

/-- A record of texts holds them as a table. -/
theorem decode_record {t : Text} {es : List (String × String)}
    (written : Json.read t = some (.record (es.map fun e => (e.1, .text e.2)))) :
    decode t = .ok (Table.ofList es) := by
  have dark : Text.trim t ≠ [] := by
    intro blank
    cases written.symm.trans (Json.read_of_blank (Text.trim_eq_nil_iff.mp blank))
  unfold decode
  rw [if_neg (by simpa using dark), written, Option.bind_some, Table.codec_text_read]

theorem proper_texts (es : List (String × String)) :
    Json.ProperEntries (es.map fun e => (e.1, Datum.text e.2)) := by
  induction es with
  | nil => trivial
  | cons e es ih => exact ⟨trivial, ih⟩

/-- The text of a table holds that table. -/
theorem decode_encode (sorted : entries.Sorted) : decode (encode entries) = .ok entries := by
  have written : Json.read (encode entries) = some (.record (entries.map fun e => (e.1, .text e.2))) :=
    Json.read_indented (proper_texts entries)
  rw [decode_record written, Table.ofList_of_sorted sorted]

theorem sorted_of_decode {t : Text} (decoded : decode t = .ok entries) : entries.Sorted := by
  unfold decode at decoded
  split at decoded
  · cases decoded
    exact List.Pairwise.nil
  · cases found : (Json.read t).bind (Table.codec .text).read with
    | none => rw [found] at decoded; cases decoded
    | some es =>
      rw [found] at decoded
      cases decoded
      obtain ⟨_, _, read⟩ := Option.bind_eq_some_iff.mp found
      exact Table.sorted_of_read read

theorem sorted_of_load (loaded : load p files = .ok entries) : entries.Sorted := by
  unfold load at loaded
  split at loaded
  · exact sorted_of_decode loaded
  · cases loaded
    exact List.Pairwise.nil
  · cases loaded

/-! ## Saving -/

theorem save_eq_ok : save p entries files = (.ok (), files') ↔
    ∃ made, files.makeParents p = .ok made ∧ made.write p (encode entries) = .ok files' := by
  unfold save
  cases files.makeParents p with
  | error e => simp
  | ok made =>
    cases written : made.write p (encode entries) with
    | error e => simp [written]
    | ok u => simp [written]

/-- Whether a table can be saved does not depend on the table. -/
theorem save_another (saved : save p entries files = (.ok (), files')) (entries' : Table String) :
    ∃ u, save p entries' files = (.ok (), u) := by
  obtain ⟨made, parents, written⟩ := save_eq_ok.mp saved
  obtain ⟨u, written'⟩ := Tree.write_another written (encode entries')
  exact ⟨u, save_eq_ok.mpr ⟨made, parents, written'⟩⟩

theorem save_of_read {t : Text} (reads : files.read p = .ok t) (entries : Table String) :
    ∃ u, save p entries files = (.ok (), u) := by
  obtain ⟨_, u, _, _, written, _⟩ := Tree.write_of_read reads (encode entries)
  exact ⟨u, save_eq_ok.mpr ⟨files, Tree.makeParents_of_read reads, written⟩⟩

theorem read_save (saved : save p entries files = (.ok (), files')) :
    files'.read p = .ok (encode entries) := by
  obtain ⟨_, _, written⟩ := save_eq_ok.mp saved
  exact Tree.read_write written

/-- What was saved is loaded. -/
theorem load_save (sorted : entries.Sorted) (saved : save p entries files = (.ok (), files')) :
    load p files' = .ok entries := by
  unfold load
  rw [read_save saved]
  exact decode_encode sorted

/-! ## One command -/

/-- What is asked of a store. -/
inductive Command where
  | get (key : String)
  | set (key value : String)
  | remove (key : String)
  /-- The store is given up for a new one on the same path. -/
  | reopen

/-- A store in use and the files. -/
structure Session where
  store : Store Tree
  files : Tree

/-- A new store on a path. -/
def opened (p : Path) (files : Tree) : Session := ⟨store p, files⟩

namespace Session

/-- The answer to a command, with no text but for `get`, and what is in use after it. -/
def obey (p : Path) (s : Session) : Command → Except StoreFault (Option String) × Session
  | .get key => ((s.store.get key s.files).1, ⟨s.store, (s.store.get key s.files).2⟩)
  | .set key value =>
    ((s.store.set key value s.files).1.map fun _ => none, ⟨s.store, (s.store.set key value s.files).2⟩)
  | .remove key =>
    ((s.store.remove key s.files).1.map fun _ => none, ⟨s.store, (s.store.remove key s.files).2⟩)
  | .reopen => (.ok none, opened p s.files)

def after (p : Path) (s : Session) : List Command → Session
  | [] => s
  | k :: ks => (s.obey p k).2.after p ks

/-- The answers of a run, one for each command. -/
def answers (p : Path) (s : Session) : List Command → List (Except StoreFault (Option String))
  | [] => []
  | k :: ks => (s.obey p k).1 :: (s.obey p k).2.answers p ks

end Session

/-- A map from keys to texts. -/
abbrev Map := String → Option String

namespace Map

def obey (m : Map) : Command → Option String × Map
  | .get key => (m key, m)
  | .set key value => (none, Function.update m key (some value))
  | .remove key => (none, Function.update m key none)
  | .reopen => (none, m)

def after (m : Map) : List Command → Map
  | [] => m
  | k :: ks => after (obey m k).2 ks

def answers (m : Map) : List Command → List (Option String)
  | [] => []
  | k :: ks => (obey m k).1 :: answers (obey m k).2 ks

end Map

/-- The file can be written and holds what the map holds. -/
structure Represents (p : Path) (files : Tree) (m : Map) : Prop where
  holds : ∃ entries, load p files = .ok entries ∧ ∀ key, entries.find? key = m key
  writable : ∀ entries, ∃ files', save p entries files = (.ok (), files')

section

variable {m : Map}

theorem Represents.get (here : Represents p files m) (key : String) :
    get p key files = (.ok (m key), files) := by
  obtain ⟨entries, loaded, same⟩ := here.holds
  unfold FileStore.get
  rw [loaded, ← same key]
  rfl

/-- A table that was saved is what the file holds then, and another can be saved over it. -/
theorem represents_save (sorted : entries.Sorted) (saved : save p entries files = (.ok (), files'))
    (same : ∀ key, entries.find? key = m key) : Represents p files' m where
  holds := ⟨entries, load_save sorted saved, same⟩
  writable := save_of_read (read_save saved)

theorem Represents.set (here : Represents p files m) (key value : String) :
    ∃ files', set p key value files = (.ok (), files') ∧
      Represents p files' (Function.update m key (some value)) := by
  obtain ⟨entries, loaded, same⟩ := here.holds
  obtain ⟨files', saved⟩ := here.writable (entries.insert key value)
  refine ⟨files', ?_, represents_save (Table.sorted_insert (sorted_of_load loaded)) saved fun other => ?_⟩
  · unfold FileStore.set
    rw [loaded]
    exact saved
  · by_cases it : other = key
    · rw [it, Function.update_self, Table.find?_insert_self]
    · rw [Function.update_of_ne it, Table.find?_insert_of_ne entries value it, same]

theorem Represents.remove (here : Represents p files m) (key : String) :
    ∃ files', remove p key files = (.ok (), files') ∧
      Represents p files' (Function.update m key none) := by
  obtain ⟨entries, loaded, same⟩ := here.holds
  unfold FileStore.remove
  rw [loaded]
  by_cases held : (entries.find? key).isSome = true
  · obtain ⟨files', saved⟩ := here.writable (entries.erase key)
    refine ⟨files', (if_pos held).trans saved,
      represents_save (Table.sorted_erase (sorted_of_load loaded)) saved fun other => ?_⟩
    by_cases it : other = key
    · rw [it, Function.update_self, Table.find?_erase_self]
    · rw [Function.update_of_ne it, Table.find?_erase_of_ne entries it, same]
  · have free : m key = none := by
      rw [← same key]
      simpa using held
    refine ⟨files, if_neg held, ?_⟩
    rw [← free, Function.update_eq_self]
    exact here

/-- One command answers as the map does and leaves the file to hold what the map holds. -/
theorem Represents.obey (here : Represents p files m) (k : Command) :
    ∃ files', (opened p files).obey p k = (.ok (m.obey k).1, opened p files') ∧
      Represents p files' (m.obey k).2 := by
  cases k with
  | get key =>
    refine ⟨files, ?_, here⟩
    show ((FileStore.get p key files).1, Session.mk (store p) (FileStore.get p key files).2) = _
    rw [here.get key]
    rfl
  | set key value =>
    obtain ⟨files', done, there⟩ := here.set key value
    refine ⟨files', ?_, there⟩
    show ((FileStore.set p key value files).1.map _,
      Session.mk (store p) (FileStore.set p key value files).2) = _
    rw [done]
    rfl
  | remove key =>
    obtain ⟨files', done, there⟩ := here.remove key
    refine ⟨files', ?_, there⟩
    show ((FileStore.remove p key files).1.map _,
      Session.mk (store p) (FileStore.remove p key files).2) = _
    rw [done]
    rfl
  | reopen => exact ⟨files, rfl, here⟩

/-! ## Runs -/

/-- A run answers as the map does, whatever it asks. -/
theorem Represents.run (here : Represents p files m) (commands : List Command) :
    (opened p files).answers p commands = (m.answers commands).map .ok ∧
      ∃ files', (opened p files).after p commands = opened p files' ∧
        Represents p files' (m.after commands) := by
  induction commands generalizing files m with
  | nil => exact ⟨rfl, files, rfl, here⟩
  | cons k ks ih =>
    obtain ⟨next, obeyed, there⟩ := here.obey k
    obtain ⟨answers, last, ends, represents⟩ := ih there
    refine ⟨?_, last, ?_, represents⟩
    · rw [Session.answers, obeyed, answers]
      rfl
    · rw [Session.after, obeyed, ends]

/-- The files that a store may begin with, and the map that they stand for. -/
inductive Begins (p : Path) (files : Tree) : Map → Prop
  | missing (missing : files.read p = .error .missing) (writable : (save p [] files).1 = .ok ()) :
      Begins p files fun _ => none
  | blank {t : Text} (reads : files.read p = .ok t) (blank : ∀ c ∈ t, Text.isBlank c = true) :
      Begins p files fun _ => none
  /-- Of two entries under one key the later counts. -/
  | record {t : Text} {es : List (String × String)} (reads : files.read p = .ok t)
      (written : Json.read t = some (.record (es.map fun e => (e.1, .text e.2)))) :
      Begins p files fun key => es.reverse.lookup key

theorem Begins.represents (begins : Begins p files m) : Represents p files m := by
  have loads {t : Text} {entries : Table String} (reads : files.read p = .ok t)
      (decoded : decode t = .ok entries) : load p files = .ok entries := by
    unfold load
    rw [reads]
    exact decoded
  cases begins with
  | missing missing writable =>
    have saved : save p [] files = (.ok (), (save p [] files).2) := Prod.ext writable rfl
    refine ⟨⟨[], ?_, fun _ => rfl⟩, save_another saved⟩
    unfold load
    rw [missing]
  | blank reads blank =>
    exact ⟨⟨[], loads reads (decode_blank blank), fun _ => rfl⟩, save_of_read reads⟩
  | record reads written =>
    exact ⟨⟨_, loads reads (decode_record written), Table.find?_ofList _⟩, save_of_read reads⟩

/-- From any of these beginnings and after any run, every answer is the map's, a key that is set or
removed leaves the others as they were, and what is saved is read back. -/
theorem refines_map (begins : Begins p files m) (commands : List Command) :
    (opened p files).answers p commands = (m.answers commands).map .ok ∧
      ∃ files', (opened p files).after p commands = opened p files' ∧
        (∀ key, get p key files' = (.ok (m.after commands key), files')) ∧
        (∀ key other, other ≠ key →
          (∀ value, (get p other (set p key value files').2).1 = (get p other files').1) ∧
          (get p other (remove p key files').2).1 = (get p other files').1) ∧
        ∀ entries : Table String, entries.Sorted → ∃ saved, save p entries files' = (.ok (), saved) ∧
          saved.read p = .ok (encode entries) ∧ decode (encode entries) = .ok entries := by
  obtain ⟨answers, files', ends, there⟩ := begins.represents.run commands
  refine ⟨answers, files', ends, there.get, fun key other distinct => ⟨fun value => ?_, ?_⟩,
    fun entries sorted => ?_⟩
  · obtain ⟨next, done, represents⟩ := there.set key value
    rw [done, represents.get, there.get, Function.update_of_ne distinct]
  · obtain ⟨next, done, represents⟩ := there.remove key
    rw [done, represents.get, there.get, Function.update_of_ne distinct]
  · obtain ⟨saved, done⟩ := there.writable entries
    exact ⟨saved, done, read_save done, decode_encode sorted⟩

end

/-- Quotes, backslashes, control characters and characters beyond the first plane outlive a reopening,
and the removal of another key. -/
theorem odd_texts_kept :
    Begins ⟨"state/rollout.json"⟩ .empty (fun _ => none) ∧
      (opened ⟨"state/rollout.json"⟩ .empty).answers ⟨"state/rollout.json"⟩
          [.set "\"a\\" "\x01\n\u00e9😀", .set "b" "", .reopen, .get "\"a\\", .remove "b", .get "b",
            .get "\"a\\"] =
        [.ok none, .ok none, .ok none, .ok (some "\x01\n\u00e9😀"), .ok none, .ok none,
          .ok (some "\x01\n\u00e9😀")] := by
  have begins : Begins ⟨"state/rollout.json"⟩ .empty fun _ => none :=
    .missing (by decide +kernel) (by decide +kernel)
  refine ⟨begins, (refines_map begins _).1.trans ?_⟩
  decide

end ClientMigration.FileStore
