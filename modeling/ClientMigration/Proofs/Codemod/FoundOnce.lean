/-
# Proofs.Codemod.FoundOnce -- when a file is found once

A root finds the source files below it that no skipped directory is on the way to
(`Finds`), and these are what is discovered (`finds_of_mem_discover`,
`discover_complete`). A file that two roots find is discovered once if they spell it
with the same components, and twice if not, since only paths with the same
components count as repeated.

So each file is found once exactly if the roots agree: a root inside another one
is spelled like that one and the names in between (`Agree`). Roots that begin in
the same way and go on with names do (`agree_of_names`); a point and a name do
not.
-/
import Mathlib.Data.Set.Card
import ClientMigration.Proofs.Files.Spelling
import ClientMigration.Proofs.Codemod.BatchRun

namespace ClientMigration

set_option autoImplicit false

namespace Codemod

variable {files : Tree} {roots ps : List Path} {root inner p : Path} {here : Location}
  {between names : List String}

/-! ## What a root finds -/

/-- The directories on the way to a file are searched. -/
def Searched (names : List String) : Prop := ∀ n ∈ names.dropLast, n ∉ skippedDirectories

/-- A root at `here` finds the source file that names lead to. -/
structure Finds (files : Tree) (root : Path) (here : Location) (names : List String) : Prop where
  located : files.locate root = .ok here
  stands : ∃ c, files.sight (here ++ names) = .file c
  candidate : isCandidate (root.below names) = true
  searched : Searched names

theorem mem_candidatesAmong (path : Path) (es : List (String × Tree)) :
    p ∈ candidatesAmong path es ↔
      ∃ e ∈ es, isSkipped e.1 e.2 = false ∧ p ∈ candidatesIn (path.join e.1) e.2 := by
  induction es with
  | nil => simp [candidatesAmong]
  | cons e es ih =>
    rw [candidatesAmong, List.mem_append, ih, List.exists_mem_cons_iff]
    cases isSkipped e.1 e.2 <;> simp

/-- A directory on the way is entered exactly if it is not skipped. -/
theorem searched_cons {name : String} {t : Tree} {c : Content} (stands : t.sight names = .file c) :
    Searched (name :: names) ↔ isSkipped name t = false ∧ Searched names := by
  cases names with
  | nil =>
    cases t with
    | file _ => simp [Searched, isSkipped, Tree.isDirectory]
    | directory es => cases stands
  | cons next rest =>
    cases t with
    | file _ => cases stands
    | directory es => simp [Searched, isSkipped, Tree.isDirectory]

/-- What is found below a path. -/
theorem mem_candidatesIn (path : Path) : ∀ {t : Tree}, t.Named →
    (p ∈ candidatesIn path t ↔
      ∃ names, (∃ c, t.sight names = .file c) ∧ isCandidate (path.below names) = true ∧
        Searched names ∧ p = path.below names)
  | .file c, _ => by
    rw [candidatesIn]
    constructor
    · intro listed
      split at listed
      · rename_i candidate
        exact ⟨[], ⟨c, rfl⟩, candidate, by simp [Searched], List.mem_singleton.mp listed⟩
      · cases listed
    · rintro ⟨names, ⟨c', stands⟩, candidate, _, rfl⟩
      obtain ⟨rfl, _⟩ := (Tree.sight_file c names c').mp stands
      have candidate : isCandidate path = true := candidate
      rw [if_pos candidate]
      exact List.mem_singleton_self path
  | .directory es, named => by
    have nodup : (es.map (·.1)).Nodup := named.1
    have below := (Tree.namedAmong_iff es).mp named.2
    rw [candidatesIn, mem_candidatesAmong]
    constructor
    · rintro ⟨e, entry, entered, listed⟩
      obtain ⟨names, ⟨c, stands⟩, candidate, searched, spelled⟩ :=
        (mem_candidatesIn (path.join e.1) (below e entry).2).mp listed
      have found : (Tree.directory es).child? e.1 = some e.2 := Tree.lookup_of_mem nodup entry
      refine ⟨e.1 :: names, ⟨c, ?_⟩, candidate, (searched_cons stands).mpr ⟨entered, searched⟩, spelled⟩
      rw [Tree.sight_cons, found]
      exact stands
    · rintro ⟨names, ⟨c, stands⟩, candidate, searched, spelled⟩
      cases names with
      | nil => cases stands
      | cons name names =>
        rw [Tree.sight_cons] at stands
        cases found : (Tree.directory es).child? name with
        | none => rw [found] at stands; cases stands
        | some t =>
          rw [found] at stands
          have entry : (name, t) ∈ es := Tree.mem_of_lookup found
          obtain ⟨entered, searched⟩ := (searched_cons stands).mp searched
          exact ⟨(name, t), entry, entered,
            (mem_candidatesIn (path.join name) (below _ entry).2).mpr
              ⟨names, ⟨c, stands⟩, candidate, searched, spelled⟩⟩
termination_by t => sizeOf t
decreasing_by all_goals exact Tree.sizeOf_entry entry

/-- What leads to a file are names. -/
theorem areNames_of_file (named : files.Named) {c : Content} (stands : files.sight (here ++ names) = .file c) :
    ∀ n ∈ names, Path.IsName n := by
  cases found : files.at? (here ++ names) with
  | none => simp [Tree.sight, found] at stands
  | some t => exact fun n listed => (named.at? found).1 n (List.mem_append_right _ listed)

/-- What a root finds has names below it. -/
theorem Finds.areNames (finds : Finds files root here names) (named : files.Named) :
    ∀ n ∈ names, Path.IsName n := by
  obtain ⟨c, stands⟩ := finds.stands
  exact areNames_of_file named stands

theorem Finds.locate_below (finds : Finds files root here names) (named : files.Named) :
    files.locate (root.below names) = .ok (here ++ names) := by
  obtain ⟨c, stands⟩ := finds.stands
  exact Tree.locate_below finds.located stands (finds.areNames named)

theorem Finds.components_below (finds : Finds files root here names) (named : files.Named) :
    (root.below names).components = root.components ++ names.map .name :=
  Path.components_below (Tree.locate_eq_ok.mp finds.located).1 (finds.areNames named)

theorem mem_candidatesOf (named : files.Named) {all : List Path} (found : candidatesOf files roots = .ok all) :
    p ∈ all ↔ ∃ root ∈ roots, ∃ here names, Finds files root here names ∧ p = root.below names := by
  induction roots generalizing all with
  | nil =>
    cases found
    simp
  | cons root roots ih =>
    rw [candidatesOf] at found
    cases there : files.find root with
    | error e => rw [there] at found; cases found
    | ok t =>
      rw [there] at found
      obtain ⟨here, located, stands⟩ := Tree.find_eq_ok.mp there
      have below (names : List String) : files.sight (here ++ names) = t.sight names := by
        simp only [Tree.sight, Tree.at?_append, stands, Option.bind_some]
      cases rest : candidatesOf files roots with
      | error e => rw [rest] at found; cases found
      | ok others =>
        rw [rest] at found
        cases found
        rw [List.mem_append, List.exists_mem_cons_iff, ← ih rest,
          mem_candidatesIn root (named.at? stands).2]
        refine or_congr_left ⟨?_, ?_⟩
        · rintro ⟨names, file, candidate, searched, spelled⟩
          exact ⟨here, names, ⟨located, by simpa only [below] using file, candidate, searched⟩, spelled⟩
        · rintro ⟨here', names, finds, spelled⟩
          cases located.symm.trans finds.located
          exact ⟨names, by simpa only [below] using finds.stands, finds.candidate, finds.searched, spelled⟩

/-! ## What is discovered -/

/-- What is discovered was found by a root. -/
theorem finds_of_mem_discover (named : files.Named) (found : discover files roots = .ok ps)
    (listed : p ∈ ps) : ∃ root ∈ roots, ∃ here names, Finds files root here names ∧ p = root.below names := by
  obtain ⟨all, candidates, rfl⟩ := discover_eq_ok found
  exact (mem_candidatesOf named candidates).mp (List.mem_mergeSort.mp (mem_withoutRepeats _ listed))

/-- What a root finds is discovered in its spelling. -/
theorem discover_complete (named : files.Named) (found : discover files roots = .ok ps)
    (among : root ∈ roots) (finds : Finds files root here names) :
    ∃ p ∈ ps, p.components = (root.below names).components ∧ files.locate p = .ok (here ++ names) := by
  obtain ⟨all, candidates, rfl⟩ := discover_eq_ok found
  have listed := (mem_candidatesOf named candidates).mpr ⟨root, among, here, names, finds, rfl⟩
  obtain ⟨p, kept, same⟩ := withoutRepeats_complete _ (List.mem_mergeSort.mpr listed)
  refine ⟨p, kept, same, ?_⟩
  obtain ⟨root', _, here', names', finds', rfl⟩ := finds_of_mem_discover named found kept
  have leads := (Tree.locate_eq_ok.mp (finds.locate_below named)).2.1
  have leads' := (Tree.locate_eq_ok.mp (finds'.locate_below named)).2.1
  rw [same, leads] at leads'
  rw [finds'.locate_below named, ← Except.ok.inj leads']

/-! ## Roots that agree -/

/-- A source file that some root finds. -/
def SourceAt (files : Tree) (roots : List Path) (loc : Location) : Prop :=
  ∃ root ∈ roots, ∃ here names, Finds files root here names ∧ here ++ names = loc

/-- Whether a root inside another one, where that finds a source file, is spelled like it with the
names in between. -/
def Agree (files : Tree) (roots : List Path) : Prop :=
  ∀ root ∈ roots, ∀ inner ∈ roots, ∀ here between names, Finds files root here (between ++ names) →
    files.locate inner = .ok (here ++ between) →
      inner.components = root.components ++ between.map .name

/-- Whether a file is a source file is told by its name, and paths to it end in that. -/
theorem isCandidate_congr {q : Path} {loc : Location} {c : Content} (located : files.locate p = .ok loc)
    (located' : files.locate q = .ok loc) (stands : files.sight loc = .file c) :
    isCandidate p = isCandidate q := by
  unfold isCandidate Path.ending?
  rw [Tree.fileName?_of_file located stands, Tree.fileName?_of_file located' stands]

theorem Searched.of_append (searched : Searched (between ++ names)) : Searched names := by
  cases names with
  | nil => simp [Searched]
  | cons n names =>
    intro skipped listed
    refine searched skipped ?_
    rw [List.dropLast_append_of_ne_nil (List.cons_ne_nil n names)]
    exact List.mem_append_right _ listed

/-- What a root finds inside another root, that one finds too. -/
theorem Finds.inside (finds : Finds files root here (between ++ names)) (named : files.Named)
    (located : files.locate inner = .ok (here ++ between)) :
    Finds files inner (here ++ between) names := by
  obtain ⟨c, stands⟩ := finds.stands
  rw [← List.append_assoc] at stands
  have areNames : ∀ n ∈ names, Path.IsName n := fun n listed =>
    finds.areNames named n (List.mem_append_right _ listed)
  have outer := finds.locate_below named
  rw [← List.append_assoc] at outer
  refine ⟨located, ⟨c, stands⟩, ?_, finds.searched.of_append⟩
  rw [← isCandidate_congr outer (Tree.locate_below located stands areNames) stands]
  exact finds.candidate

/-- Two roots that find a file spell it alike, if one is inside the other one and they agree. -/
theorem Agree.components_eq (agree : Agree files roots) (named : files.Named) (among : root ∈ roots)
    (among' : inner ∈ roots) (finds : Finds files root here (between ++ names))
    (finds' : Finds files inner (here ++ between) names) :
    (root.below (between ++ names)).components = (inner.below names).components := by
  rw [finds.components_below named, finds'.components_below named,
    agree root among inner among' here between names finds finds'.located, List.map_append,
    List.append_assoc]

/-- No file is found under two paths exactly if the roots agree. -/
theorem apart_iff_agree (named : files.Named) (found : discover files roots = .ok ps) :
    Apart files ps ↔ Agree files roots := by
  constructor
  · intro apart root among inner among' here between names finds located
    have finds' := finds.inside named located
    obtain ⟨p, listed, spelled, leads⟩ := discover_complete named found among finds
    obtain ⟨q, listed', spelled', leads'⟩ := discover_complete named found among' finds'
    rw [List.append_assoc] at leads'
    rw [apart p listed q listed' _ leads leads'] at spelled
    have same := spelled'.symm.trans spelled
    rw [finds.components_below named, finds'.components_below named, List.map_append,
      ← List.append_assoc] at same
    exact List.append_cancel_right same
  · intro agree p listed q listed' loc located located'
    obtain ⟨root, among, here, names, finds, rfl⟩ := finds_of_mem_discover named found listed
    obtain ⟨root', among', here', names', finds', rfl⟩ := finds_of_mem_discover named found listed'
    refine eq_of_components found listed listed' ?_
    rw [finds.locate_below named] at located
    rw [finds'.locate_below named] at located'
    -- both roots are on the way to the file, so one of them is inside the other
    have meet : here ++ names = here' ++ names' := Except.ok.inj (located.trans located'.symm)
    rcases List.append_eq_append_iff.mp meet with ⟨between, rfl, rfl⟩ | ⟨between, rfl, rfl⟩
    · exact agree.components_eq named among among' finds finds'
    · exact (agree.components_eq named among' among finds' finds).symm

/-- The files that are found stand where source files are. -/
theorem sourceAt_iff (named : files.Named) (found : discover files roots = .ok ps) (loc : Location) :
    SourceAt files roots loc ↔ ∃ p ∈ ps, files.locate p = .ok loc := by
  constructor
  · rintro ⟨root, among, here, names, finds, rfl⟩
    obtain ⟨p, listed, _, leads⟩ := discover_complete named found among finds
    exact ⟨p, listed, leads⟩
  · rintro ⟨p, listed, leads⟩
    obtain ⟨root, among, here, names, finds, rfl⟩ := finds_of_mem_discover named found listed
    rw [finds.locate_below named] at leads
    exact ⟨root, among, here, names, finds, Except.ok.inj leads⟩

/-- Roots agree that begin in the same way and go on with names. -/
theorem agree_of_names {start : List Path.Component}
    (plain : ∀ root ∈ roots, ∃ names : List String, root.components = start ++ names.map .name) :
    Agree files roots := by
  intro root among inner among' here between names finds located
  obtain ⟨outer, spelled⟩ := plain root among
  obtain ⟨further, spelled'⟩ := plain inner among'
  have leads := (Tree.locate_eq_ok.mp finds.located).2.1
  have leads' := (Tree.locate_eq_ok.mp located).2.1
  rw [spelled, Tree.follow_append] at leads
  rw [spelled', Tree.follow_append] at leads'
  cases begins : files.follow [] start with
  | error e => rw [begins] at leads; cases leads
  | ok base =>
    rw [begins] at leads leads'
    obtain rfl := Tree.follow_names_eq leads
    have same := Tree.follow_names_eq leads'
    rw [List.append_assoc, List.append_cancel_left_eq] at same
    rw [spelled, spelled', ← same, List.map_append, List.append_assoc]

/-! ## What a batch scans -/

theorem summary_scanned (mode : BatchMode) (ps : List Path) (w : Work) :
    (w.summary mode ps).scanned = ps.length := by
  have tell_scanned (s : BatchSummary) (p : Path) : (w.tell s p).scanned = s.scanned := by
    unfold Work.tell
    split
    · rename_i outcome _
      cases outcome <;> rfl
    · rfl
  exact List.foldlRecOn ps w.tell (motive := fun s : BatchSummary => s.scanned = ps.length) rfl
    fun s before p _ => (tell_scanned s p).trans before

/-- As many paths are found as there are source files exactly if no file is found twice. -/
theorem length_eq_ncard_iff (named : files.Named) (found : discover files roots = .ok ps) :
    ps.length = {loc | SourceAt files roots loc}.ncard ↔ Apart files ps := by
  let place (p : Path) : Location := (files.locate p).toOption.getD []
  have leads : ∀ p ∈ ps, files.locate p = .ok (place p) := by
    intro p listed
    obtain ⟨root, _, here, names, finds, rfl⟩ := finds_of_mem_discover named found listed
    simp only [place, finds.locate_below named]
    rfl
  have image : {loc | SourceAt files roots loc} = (ps.toFinset.image place : Finset Location) := by
    ext loc
    rw [Set.mem_ofPred_eq, sourceAt_iff named found, Finset.mem_coe, Finset.mem_image]
    constructor
    · rintro ⟨p, listed, located⟩
      exact ⟨p, List.mem_toFinset.mpr listed, Except.ok.inj ((leads p listed).symm.trans located)⟩
    · rintro ⟨p, listed, rfl⟩
      exact ⟨p, List.mem_toFinset.mp listed, leads p (List.mem_toFinset.mp listed)⟩
  rw [image, Set.ncard_coe_finset, ← List.toFinset_card_of_nodup (discover_nodup found), eq_comm,
    Finset.card_image_iff]
  constructor
  · intro injective p listed q listed' loc located located'
    refine injective (List.mem_toFinset.mpr listed) (List.mem_toFinset.mpr listed') ?_
    rw [leads p listed] at located
    rw [leads q listed'] at located'
    exact Except.ok.inj (located.trans located'.symm)
  · intro apart p listed q listed' same
    have listed := List.mem_toFinset.mp listed
    have listed' := List.mem_toFinset.mp listed'
    exact apart p listed q listed' (place p) (leads p listed) (same ▸ leads q listed')

/-- Whatever the files are, and wherever the roots lead: all source files that a root finds are
discovered, each under one path exactly if the roots agree; and exactly then a batch scans as many as
there are. It then counts and migrates each of them once. -/
theorem found_once_iff (named : files.Named) (exist : ∀ root ∈ roots, ∃ t, files.find root = .ok t) :
    ∃ ps, discover files roots = .ok ps ∧
      (∀ loc, SourceAt files roots loc ↔ ∃ p ∈ ps, files.locate p = .ok loc) ∧
      (Apart files ps ↔ Agree files roots) ∧
      ∀ config mode, ∃ s u, migrateBatch config mode files roots = .ok (s, u) ∧
        (s.scanned = {loc | SourceAt files roots loc}.ncard ↔ Agree files roots) ∧
        (Agree files roots → ∃ outcome, s = tallied mode (ps.map outcome) ∧
          ∀ loc, SourceAt files roots loc →
            ∃ p ∈ ps, files.locate p = .ok loc ∧ (∀ q ∈ ps, files.locate q = .ok loc → q = p) ∧
              Becomes config files p (outcome p) ∧
              (mode = .write → ∀ t o, Migrates config files p t o →
                u.sight loc = .file (.text o.source))) := by
  obtain ⟨ps, found⟩ := discover_ok exist
  have once := apart_iff_agree named found
  refine ⟨ps, found, sourceAt_iff named found, once, fun config mode => ?_⟩
  refine ⟨_, _, migrateBatch_eq found config mode, ?_, fun agree => ?_⟩
  · rw [summary_scanned, length_eq_ncard_iff named found, once]
  · have apart := once.mpr agree
    choose outcome becomes using becomes_unique config files
    have leaves := (oneByOne_schedules ps).leaves apart (fun p _ => becomes p) mode
    refine ⟨outcome, leaves.summary, fun loc source => ?_⟩
    obtain ⟨p, listed, located⟩ := (sourceAt_iff named found loc).mp source
    refine ⟨p, listed, located, ?_, (becomes p _).mpr rfl, ?_⟩
    · exact fun q listed' located' => apart q listed' p listed loc located' located
    · intro writes t o migrates
      obtain ⟨loc', located', _, written⟩ := leaves.changed writes p listed t o migrates
      cases located.symm.trans located'
      exact written

/-- A source file in a directory. -/
def oneSource : Tree :=
  .directory [("src", .directory [("a.ts", .file (.text "export const a = 1;".toList))])]

theorem oneSource_named : oneSource.Named := by
  have src : Path.IsName "src" := by decide
  have file : Path.IsName "a.ts" := by decide
  simp [oneSource, Tree.Named, Tree.NamedAmong, src, file]

theorem oneSource_exist {root : Path} (listed : root ∈ [Path.mk ".", ⟨"src"⟩, ⟨"./src"⟩]) :
    ∃ t, oneSource.find root = .ok t := by
  have there : ∀ root ∈ [Path.mk ".", ⟨"src"⟩, ⟨"./src"⟩], (oneSource.find root).isOk = true := by
    decide +kernel
  exact Tree.find_of_isOk (there root listed)

/-- Two roots that both begin with a point find the file once. -/
theorem oneSource_pointed_once : ∃ ps, discover oneSource [⟨"."⟩, ⟨"./src"⟩] = .ok ps ∧
    Apart oneSource ps := by
  have exist : ∀ root ∈ [Path.mk ".", ⟨"./src"⟩], ∃ t, oneSource.find root = .ok t := by
    intro root listed
    refine oneSource_exist ?_
    simp only [List.mem_cons, List.not_mem_nil, or_false] at listed ⊢
    tauto
  have plain : ∀ root ∈ [Path.mk ".", ⟨"./src"⟩],
      ∃ names : List String, root.components = [.here] ++ names.map .name := by
    intro root listed
    simp only [List.mem_cons, List.not_mem_nil, or_false] at listed
    rcases listed with rfl | rfl
    · exact ⟨[], by decide⟩
    · exact ⟨["src"], by decide⟩
  obtain ⟨ps, found, _, once, _⟩ := found_once_iff oneSource_named exist
  exact ⟨ps, found, once.mpr (agree_of_names plain)⟩

/-- A point and a name find it twice, and a batch counts it twice. -/
theorem oneSource_respelled_twice :
    discover oneSource [⟨"."⟩, ⟨"src"⟩] = .ok [⟨"./src/a.ts"⟩, ⟨"src/a.ts"⟩] ∧
      oneSource.locate ⟨"./src/a.ts"⟩ = .ok ["src", "a.ts"] ∧
      oneSource.locate ⟨"src/a.ts"⟩ = .ok ["src", "a.ts"] ∧
      ∃ u, migrateBatch {} .dryRun oneSource [⟨"."⟩, ⟨"src"⟩] =
        .ok ({ mode := .dryRun, scanned := 2, unchanged := 2 }, u) := by
  have candidates : candidatesOf oneSource [⟨"."⟩, ⟨"src"⟩] =
      .ok [⟨"./src/a.ts"⟩, ⟨"src/a.ts"⟩] := by decide +kernel
  have less : Path.compare ⟨"./src/a.ts"⟩ ⟨"src/a.ts"⟩ = .lt := by decide +kernel
  have found : discover oneSource [⟨"."⟩, ⟨"src"⟩] = .ok [⟨"./src/a.ts"⟩, ⟨"src/a.ts"⟩] := by
    unfold discover
    rw [candidates]
    show Except.ok (withoutRepeats (List.mergeSort _ _)) = _
    rw [List.mergeSort_of_pairwise (by decide +kernel)]
    simp [withoutRepeats, less]
  refine ⟨found, by decide +kernel, by decide +kernel, ?_⟩
  have ran : (migrateFiles {} .dryRun [⟨"./src/a.ts"⟩, ⟨"src/a.ts"⟩]
      { mode := .dryRun, scanned := 2 } oneSource).1 =
        { mode := .dryRun, scanned := 2, unchanged := 2 } := by decide +kernel
  unfold migrateBatch
  rw [found]
  exact ⟨_, congrArg (fun s => Except.ok (s, _)) ran⟩

end Codemod

end ClientMigration
