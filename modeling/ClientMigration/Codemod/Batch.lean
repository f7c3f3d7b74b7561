/-
# Codemod.Batch -- many files at once

Source files are found below roots and handled one after the other in the order of
their paths. What goes wrong with one file is noted and does not touch the others.
-/
import ClientMigration.Files.Tree
import ClientMigration.Codemod.Usage
import ClientMigration.Codemod.Verification

namespace ClientMigration.Codemod

set_option autoImplicit false

/-! ## Finding files -/

/-- Directories that are not searched. -/
def skippedDirectories : List String := ["node_modules", "dist", "build", ".next", ".git"]

/-- Whether something below a root is left out with all that is in it. -/
def isSkipped (name : String) (t : Tree) : Bool := t.isDirectory && skippedDirectories.contains name

mutual

/-- The source files at a path. -/
def candidatesIn (path : Path) : Tree → List Path
  | .file _ => if isCandidate path then [path] else []
  | .directory es => candidatesAmong path es

def candidatesAmong (path : Path) : List (String × Tree) → List Path
  | [] => []
  | (name, t) :: es =>
    (if isSkipped name t then [] else candidatesIn (path.join name) t) ++ candidatesAmong path es

end

/-- A root that does not exist. -/
structure RootNotFound where
  root : Path
  deriving DecidableEq, Repr

def RootNotFound.message (e : RootNotFound) : String := "path not found: " ++ e.root.text

/-- The source files below each root, in the order of the roots. -/
def candidatesOf (files : Tree) : List Path → Except RootNotFound (List Path)
  | [] => .ok []
  | root :: roots =>
    match files.find root with
    | .error _ => .error ⟨root⟩
    | .ok t => (candidatesOf files roots).map (candidatesIn root t ++ ·)

/-- A list without the paths that equal the one in front of them. -/
def withoutRepeats : List Path → List Path
  | [] => []
  | [p] => [p]
  | p :: q :: ps => if p.compare q == .eq then withoutRepeats (p :: ps) else p :: withoutRepeats (q :: ps)

/-- The source files below the roots in the order of their paths, each spelling once. -/
def discover (files : Tree) (roots : List Path) : Except RootNotFound (List Path) :=
  (candidatesOf files roots).map fun ps =>
    withoutRepeats (ps.mergeSort fun p q => (p.compare q).isLE)

/-! ## Files that fail -/

structure FileFailure where
  path : Path
  message : String
  /-- Whether the file's own syntax is at fault. -/
  parseFailure : Bool
  deriving DecidableEq, Repr

namespace FileFailure

/-- What is said of a file that cannot be read or written. -/
def faultText : FileFault → String
  | .missing => "No such file or directory (os error 2)"
  | .notDirectory => "Not a directory (os error 20)"
  | .isDirectory => "Is a directory (os error 21)"
  | .notText => "stream did not contain valid UTF-8"

def ofFault (path : Path) (e : FileFault) : FileFailure := ⟨path, faultText e, false⟩

def ofFailure (path : Path) (e : Failure) : FileFailure := ⟨path, e.message, e.isUnreadable⟩

def datum (e : FileFailure) : Datum :=
  .record [("path", .text e.path.text), ("message", .text e.message),
    ("parse_failure", .boolean e.parseFailure)]

end FileFailure

/-- What `look` says of the text of a file. -/
def inspect {α : Type} (look : Path → Text → Except Failure α) (files : Tree) (path : Path) :
    Except FileFailure α :=
  match files.read path with
  | .error e => .error (.ofFault path e)
  | .ok t =>
    match look path t with
    | .error e => .error (.ofFailure path e)
    | .ok a => .ok a

/-- The values and the failures of a list of outcomes, each in its order. -/
def partitioned {α : Type} (outcomes : List (Except FileFailure α)) : List α × List FileFailure :=
  (outcomes.filterMap fun | .ok a => some a | .error _ => none,
   outcomes.filterMap fun | .ok _ => none | .error e => some e)

/-! ## Migrating -/

inductive BatchMode where
  | dryRun
  | write
  deriving DecidableEq, Repr

def BatchMode.name : BatchMode → String
  | .dryRun => "dry_run"
  | .write => "write"

/-- A file that a migration changes. -/
structure ChangedFile where
  path : Path
  applied : List Rule
  preset : Preset
  role : FileRole
  deriving DecidableEq, Repr

def ChangedFile.datum (f : ChangedFile) : Datum :=
  .record [("path", .text f.path.text), ("applied_rules", .texts (f.applied.map Rule.name)),
    ("preset", .text f.preset.name), ("role", .text f.role.name)]

structure BatchSummary where
  mode : BatchMode
  scanned : Nat
  changed : List ChangedFile := []
  unchanged : Nat := 0
  skippedTests : Nat := 0
  failures : List FileFailure := []
  deriving DecidableEq, Repr

def BatchSummary.isClean (s : BatchSummary) : Bool := s.failures.isEmpty

def BatchSummary.datum (s : BatchSummary) : Datum :=
  .record
    [("mode", .text s.mode.name), ("scanned", .whole s.scanned),
     ("changed", .list (s.changed.map ChangedFile.datum)), ("unchanged", .whole s.unchanged),
     ("skipped_tests", .whole s.skippedTests), ("failures", .list (s.failures.map FileFailure.datum))]

/-- What becomes of one file. -/
inductive FileOutcome where
  | changed (file : ChangedFile)
  | unchanged
  | skippedTest
  | failed (failure : FileFailure)
  deriving DecidableEq, Repr

def BatchSummary.add (s : BatchSummary) : FileOutcome → BatchSummary
  | .changed f => { s with changed := s.changed ++ [f] }
  | .unchanged => { s with unchanged := s.unchanged + 1 }
  | .skippedTest => { s with skippedTests := s.skippedTests + 1 }
  | .failed e => { s with failures := s.failures ++ [e] }

/-- Migrates one file; in write mode a changed text takes the place of the old one. -/
def migrateFile (config : Config) (mode : BatchMode) (files : Tree) (path : Path) :
    FileOutcome × Tree :=
  if isTestPath path then (.skippedTest, files)
  else
    match inspect (migrate config) files path with
    | .error e => (.failed e, files)
    | .ok o =>
      let changed : FileOutcome := .changed ⟨path, o.applied, o.preset, o.role⟩
      if !o.changed then (.unchanged, files)
      else
        match mode with
        | .dryRun => (changed, files)
        | .write =>
          match files.write path o.source with
          | .ok files => (changed, files)
          | .error e => (.failed (.ofFault path e), files)

/-- Migrates files one after the other. -/
def migrateFiles (config : Config) (mode : BatchMode) :
    List Path → BatchSummary → Tree → BatchSummary × Tree
  | [], s, files => (s, files)
  | p :: ps, s, files =>
    let (outcome, files) := migrateFile config mode files p
    migrateFiles config mode ps (s.add outcome) files

def migrateBatch (config : Config) (mode : BatchMode) (files : Tree) (roots : List Path) :
    Except RootNotFound (BatchSummary × Tree) :=
  (discover files roots).map fun ps =>
    migrateFiles config mode ps { mode, scanned := ps.length } files

/-! ## Looking -/

/-- The usage of every source file. -/
def analyzeBatch (config : Config) (files : Tree) (roots : List Path) :
    Except RootNotFound (List UsageReport × List FileFailure) :=
  (discover files roots).map fun ps => partitioned (ps.map (inspect (analyze config) files))

/-- How far every source file that is no test has come. -/
def verifyBatch (config : Config) (files : Tree) (roots : List Path) :
    Except RootNotFound (List VerificationReport × List FileFailure) :=
  (discover files roots).map fun ps =>
    partitioned ((ps.filter (!isTestPath ·)).map (inspect (verify config) files))

end ClientMigration.Codemod
