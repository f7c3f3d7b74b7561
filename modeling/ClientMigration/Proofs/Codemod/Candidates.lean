/-
# Proofs.Codemod.Candidates -- what is discovered, and nothing else

Whether a file is a source file is told by its name: one of eight endings behind a
point, and something in front of that (`isCandidate_iff`, from what splits a name,
`ending_splitName_iff`). So what a root finds is told by the tree and the root
alone (`spelledFrom_iff`), and the search stops at the first root that is missing
(`candidatesOf_missing`).

The theorem is `discover_exactly`. Paths with the same components are the same to
the search, which keeps one spelling of them.
-/
import ClientMigration.Proofs.Codemod.FoundOnce

namespace ClientMigration

set_option autoImplicit false

namespace Path

variable {s ending : String}

/-! ## Endings -/

theorem drop_takeWhile (q : Char → Bool) (t : Text) : t.drop (t.takeWhile q).length = t.dropWhile q := by
  induction t with
  | nil => rfl
  | cons c t ih => cases taken : q c <;> simp [taken, ih]

/-- The ending is what stands behind the last point, if something stands in front of it. -/
theorem ending_splitName_iff :
    (splitName s).2 = some ending ↔ ∃ stem, stem ≠ "" ∧ s = stem ++ "." ++ ending ∧ '.' ∉ ending.toList := by
  constructor
  · intro ends
    have whole := List.takeWhile_append_dropWhile (p := (· != '.')) (l := s.toList.reverse)
    have behind : '.' ∉ s.toList.reverse.takeWhile (· != '.') := fun listed =>
      absurd (List.all_eq_true.mp List.all_takeWhile _ listed) (by decide)
    have isPoint := List.head?_dropWhile_not (· != '.') s.toList.reverse
    unfold splitName at ends
    simp only [drop_takeWhile] at ends
    split at ends
    · cases ends
    · cases ends
    · rename_i point stem more tail
      rw [tail] at whole isPoint
      obtain rfl : point = '.' := by simpa using isPoint
      obtain rfl := Option.some.inj ends
      refine ⟨String.ofList stem.reverse, fun blank => ?_, ?_, ?_⟩
      · exact more (by simpa using congrArg String.toList blank)
      · apply String.toList_injective
        simpa using (congrArg List.reverse whole).symm
      · simpa using behind
  · rintro ⟨stem, some', rfl, noPoint⟩
    have reversed : (stem ++ "." ++ ending).toList.reverse =
        ending.toList.reverse ++ '.' :: stem.toList.reverse := by simp
    have before : ∀ c ∈ ending.toList.reverse, (c != '.') = true := fun c listed =>
      bne_iff_ne.mpr fun same => noPoint (same ▸ List.mem_reverse.mp listed)
    unfold splitName
    simp only [reversed, List.takeWhile_append_of_pos before]
    cases front : stem.toList.reverse with
    | nil => exact absurd (by simpa using front) some'
    | cons c r => simp

end Path

namespace Codemod

variable {files : Tree} {roots before after ps : List Path} {root p : Path}

/-- A name with one of the endings of source files, and something in front of the point. -/
def IsSourceName (name : String) : Prop :=
  ∃ stem ending, stem ≠ "" ∧ ending ∈ ["ts", "tsx", "js", "jsx", "mts", "cts", "mjs", "cjs"] ∧
    name = stem ++ "." ++ ending

theorem isCandidate_iff : isCandidate p = true ↔ ∃ name, p.fileName? = some name ∧ IsSourceName name := by
  have noPoint : ∀ ending ∈ ["ts", "tsx", "js", "jsx", "mts", "cts", "mjs", "cjs"], '.' ∉ ending.toList := by
    decide
  unfold isCandidate Path.ending? IsSourceName
  cases p.fileName? with
  | none => simp
  | some name =>
    simp only [Option.bind_some, Option.any_eq_true, List.contains_iff_mem, Path.ending_splitName_iff]
    constructor
    · rintro ⟨ending, ⟨stem, some', rfl, _⟩, listed⟩
      exact ⟨_, rfl, stem, ending, some', listed, rfl⟩
    · rintro ⟨_, same, stem, ending, some', listed, rfl⟩
      exact ⟨ending, ⟨stem, some', Option.some.inj same, noPoint ending listed⟩, listed⟩

/-! ## What is found from a root -/

/-- Whether a path is a root's or goes on from one with names, leads to a source file, and leads there
through no skipped directory below the root. -/
def SpelledFrom (files : Tree) (root p : Path) : Prop :=
  ∃ here names, files.locate root = .ok here ∧ p = root.below names ∧
    (∃ c, files.sight (here ++ names) = .file c) ∧
    (∃ name, (here ++ names).getLast? = some name ∧ IsSourceName name) ∧
    ∀ directory ∈ names.dropLast, directory ∉ skippedDirectories

theorem spelledFrom_iff (named : files.Named) :
    SpelledFrom files root p ↔ ∃ here names, Finds files root here names ∧ p = root.below names := by
  have told {here : Location} {names : List String} {c : Content} (located : files.locate root = .ok here)
      (stands : files.sight (here ++ names) = .file c) :
      isCandidate (root.below names) = true ↔
        ∃ name, (here ++ names).getLast? = some name ∧ IsSourceName name := by
    have leads := Tree.locate_below located stands (areNames_of_file named stands)
    rw [isCandidate_iff, Tree.fileName?_of_file leads stands]
  constructor
  · rintro ⟨here, names, located, spelled, ⟨c, stands⟩, source, searched⟩
    exact ⟨here, names, ⟨located, ⟨c, stands⟩, (told located stands).mpr source, searched⟩, spelled⟩
  · rintro ⟨here, names, ⟨located, ⟨c, stands⟩, candidate, searched⟩, spelled⟩
    exact ⟨here, names, located, spelled, ⟨c, stands⟩, (told located stands).mp candidate, searched⟩

/-! ## What is discovered -/

/-- The first root that is missing stops the search. -/
theorem candidatesOf_missing (exist : ∀ r ∈ before, ∃ t, files.find r = .ok t)
    (missing : ¬∃ t, files.find root = .ok t) :
    candidatesOf files (before ++ root :: after) = .error ⟨root⟩ := by
  induction before with
  | nil =>
    rw [List.nil_append, candidatesOf]
    cases found : files.find root with
    | ok t => exact absurd ⟨t, found⟩ missing
    | error e => rfl
  | cons r before ih =>
    obtain ⟨t, found⟩ := exist r List.mem_cons_self
    rw [List.cons_append, candidatesOf, found]
    simp only [ih fun q listed => exist q (List.mem_cons_of_mem _ listed)]
    rfl

/-- If every root exists, the paths that are discovered increase strictly, each is spelled from some
root, and whatever is spelled from a root is one of them. Otherwise the first root that is missing is
told. -/
theorem discover_exactly (named : files.Named) :
    (∀ roots, (∀ root ∈ roots, ∃ t, files.find root = .ok t) →
      ∃ ps, discover files roots = .ok ps ∧ ps.Pairwise (fun p q => p.compare q = .lt) ∧
        (∀ p ∈ ps, ∃ root ∈ roots, SpelledFrom files root p) ∧
        ∀ root ∈ roots, ∀ p, SpelledFrom files root p → ∃ q ∈ ps, q.components = p.components) ∧
    ∀ before root after, (∀ r ∈ before, ∃ t, files.find r = .ok t) → (¬∃ t, files.find root = .ok t) →
      discover files (before ++ root :: after) = .error ⟨root⟩ := by
  refine ⟨fun roots exist => ?_, fun before root after exist missing => ?_⟩
  · obtain ⟨ps, found⟩ := discover_ok exist
    refine ⟨ps, found, discover_sorted found, fun p listed => ?_, fun root among p spelled => ?_⟩
    · obtain ⟨root, among, finds⟩ := finds_of_mem_discover named found listed
      exact ⟨root, among, (spelledFrom_iff named).mpr finds⟩
    · obtain ⟨here, names, finds, rfl⟩ := (spelledFrom_iff named).mp spelled
      obtain ⟨q, listed, same, _⟩ := discover_complete named found among finds
      exact ⟨q, listed, same⟩
  · unfold discover
    rw [candidatesOf_missing exist missing]
    rfl

/-- A directory that is skipped below a root, and is a root itself. -/
def vendored : Tree :=
  .directory [("dist", .directory
    [("a.ts", .file (.text [])), (".git", .directory [("b.js", .file (.text []))])])]

/-- As a root it is entered, and what is skipped below it is not. -/
theorem vendored_discovered :
    (∃ ps, discover vendored [⟨"dist"⟩] = .ok ps ∧ (∀ p ∈ ps, SpelledFrom vendored ⟨"dist"⟩ p) ∧
      ∃ q ∈ ps, q.components = [.name "dist", .name "a.ts"]) ∧
    discover vendored [⟨"dist"⟩, ⟨"src"⟩, ⟨"lib"⟩] = .error ⟨⟨"src"⟩⟩ := by
  have named : vendored.Named := by
    have names : ∀ n ∈ ["dist", "a.ts", ".git", "b.js"], Path.IsName n := by decide
    simp only [List.forall_mem_cons] at names
    simp [vendored, Tree.Named, Tree.NamedAmong, names]
  have exist : ∀ root ∈ [Path.mk "dist"], ∃ t, vendored.find root = .ok t := by
    intro root listed
    rw [List.mem_singleton.mp listed]
    exact Tree.find_of_isOk (by decide +kernel)
  have missing : ¬∃ t, vendored.find ⟨"src"⟩ = .ok t := by
    rintro ⟨t, found⟩
    have gone : (vendored.find ⟨"src"⟩).isOk = false := by decide +kernel
    rw [found] at gone
    cases gone
  have spelled : SpelledFrom vendored ⟨"dist"⟩ ⟨"dist/a.ts"⟩ :=
    ⟨["dist"], ["a.ts"], by decide +kernel, by decide +kernel, ⟨.text [], by decide +kernel⟩,
      ⟨"a.ts", rfl, "a", "ts", by decide, by decide, by decide⟩, by decide⟩
  obtain ⟨exactly, stops⟩ := discover_exactly named
  obtain ⟨ps, found, _, sound, complete⟩ := exactly _ exist
  refine ⟨⟨ps, found, fun p listed => ?_, ?_⟩, stops [⟨"dist"⟩] ⟨"src"⟩ [⟨"lib"⟩] exist missing⟩
  · obtain ⟨root, among, spelled⟩ := sound p listed
    exact List.mem_singleton.mp among ▸ spelled
  · obtain ⟨q, listed, same⟩ := complete _ List.mem_cons_self _ spelled
    exact ⟨q, listed, same.trans (by decide +kernel)⟩

end Codemod

end ClientMigration
