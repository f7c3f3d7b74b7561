/-
# Toolkit.Run -- carrying out a command

A command reads the files, the configuration and the environment, and leaves a
text and changed files. It tells whether all is well, or why it gave up.
-/
import ClientMigration.Codemod.Batch
import ClientMigration.Pipeline.Optimizer
import ClientMigration.Rollout.Console
import ClientMigration.Store.File
import ClientMigration.Toolkit.Command
import ClientMigration.Toolkit.Config

namespace ClientMigration

set_option autoImplicit false

/-- Why a command gave up. -/
inductive CommandFailure where
  | configuration (cause : ToolkitConfig.Fault)
  | rootNotFound (cause : Codemod.RootNotFound)
  | needsDebugMode
  | probeFailed (url : String)
  deriving DecidableEq, Repr

def CommandFailure.message : CommandFailure → String
  | .configuration _ => "failed to load configuration"
  | .rootNotFound e => e.message
  | .needsDebugMode => "performance comparison requires debug mode (set APIMIG_DEBUG=true)"
  | .probeFailed _ => "performance probe failed"

/-- What a command leaves. -/
structure CommandOutcome where
  /-- Whether nothing needs attention. -/
  result : Except CommandFailure Bool
  output : Text := []
  files : Tree

/-- What a command finds. -/
structure World where
  files : Tree
  env : Environment.Variables
  /-- The token for an installation that has none. -/
  newToken : String
  probe : Console.Probe

namespace Command

open Codemod

def ofLines (lines : List Text) : Text := lines.flatMap (· ++ ['\n'])

/-- An outcome that leaves the files as they are. -/
def report (w : World) (clean : Bool) (lines : List Text) : CommandOutcome :=
  { result := .ok clean, output := ofLines lines, files := w.files }

def giveUp (w : World) (e : CommandFailure) : CommandOutcome := { result := .error e, files := w.files }

/-! ## Source files -/

def changedLine (write : Bool) (f : ChangedFile) : Text :=
  ((if write then "migrated " else "would migrate ") ++ f.path.text ++ " [" ++
    ", ".intercalate (f.applied.map Rule.name) ++ "] preset=" ++ f.preset.name).toList

def failureLine (e : FileFailure) : Text :=
  ((if e.parseFailure then "parse error" else "error") ++ ": " ++ e.path.text ++ ": " ++
    e.message).toList

def summaryLine (write : Bool) (s : BatchSummary) : Text :=
  (toString s.scanned ++ " scanned, " ++ toString s.changed.length ++ " changed, " ++
    toString s.unchanged ++ " unchanged, " ++ toString s.skippedTests ++ " tests skipped, " ++
    toString s.failures.length ++ " failed" ++ (if write then "" else " (dry run)")).toList

def runMigrate (w : World) (c : ToolkitConfig) (roots : List Path) (write json : Bool) :
    CommandOutcome :=
  match migrateBatch c.codemod (if write then .write else .dryRun) w.files roots with
  | .error e => giveUp w (.rootNotFound e)
  | .ok (s, files) =>
    let lines :=
      if json then [Json.indented s.datum]
      else s.changed.map (changedLine write) ++ s.failures.map failureLine ++ [summaryLine write s]
    { result := .ok s.isClean, output := ofLines lines, files }

def runAnalyze (w : World) (c : ToolkitConfig) (roots : List Path) : CommandOutcome :=
  match analyzeBatch c.codemod w.files roots with
  | .error e => giveUp w (.rootNotFound e)
  | .ok (reports, failures) =>
    report w failures.isEmpty (UsageReport.csvHeader.toList :: reports.map UsageReport.csvRow)

/-- Whether a file has something legacy left. -/
def needsAttention (r : VerificationReport) : Bool := r.status == .failed || r.status == .mixed

def verificationLines (r : VerificationReport) : List Text :=
  (r.status.name ++ " " ++ r.path.text).toList ::
    r.issues.map fun issue => ("         - " ++ issue).toList

def runVerify (w : World) (c : ToolkitConfig) (roots : List Path) (json : Bool) : CommandOutcome :=
  match verifyBatch c.codemod w.files roots with
  | .error e => giveUp w (.rootNotFound e)
  | .ok (reports, failures) =>
    let broken := (reports.filter needsAttention).length
    let lines : List Text :=
      if json then
        [Json.indented (Datum.sorted (.record
          [("reports", .list (reports.map VerificationReport.datum)),
           ("failures", .list (failures.map FileFailure.datum))]))]
      else
        reports.flatMap verificationLines ++
        failures.map (fun e => ("error    " ++ e.path.text ++ ": " ++ e.message).toList) ++
        [(toString reports.length ++ " verified, " ++ toString (broken + failures.length) ++
          " need attention").toList]
    report w (broken == 0 && failures.isEmpty) lines

/-! ## Rollout -/

/-- The store of the configuration over the files: the file it names, or memory, which is empty. -/
def storeOf (c : ToolkitConfig) : Store (Tree × Memory) :=
  match c.store.path with
  | some p =>
    let s := FileStore.store ⟨p⟩
    { get := fun k x => let (r, files) := s.get k x.1; (r, (files, x.2))
      set := fun k v x => let (r, files) := s.set k v x.1; (r, (files, x.2))
      remove := fun k x => let (r, files) := s.remove k x.1; (r, (files, x.2)) }
  | none =>
    let s := Memory.store
    { get := fun k x => let (r, m) := s.get k x.2; (r, (x.1, m))
      set := fun k v x => let (r, m) := s.set k v x.2; (r, (x.1, m))
      remove := fun k x => let (r, m) := s.remove k x.2; (r, (x.1, m)) }

def controllerOf (w : World) (c : ToolkitConfig) : Controller (Tree × Memory) :=
  .new c.rollout { store := storeOf c, state := (w.files, {}), newToken := w.newToken }

/-- The files as a controller leaves them. -/
def filesOf (c : Controller (Tree × Memory)) : Tree := c.assigner.state.1

def runStatus (w : World) (c : ToolkitConfig) (json : Bool) : CommandOutcome :=
  let (status, controller) := (controllerOf w c).status
  { result := .ok true
    output := if json then Json.indented status.datum ++ ['\n'] else status.text.toList
    files := filesOf controller }

def decisionLine (label : String) (d : Decision) : Text :=
  (label ++ " -> " ++ d.word ++ " (" ++ d.reason.text ++ ")").toList

/-- The decisions for paths, one after the other. -/
def decideEach (c : Controller (Tree × Memory)) :
    List String → List Text × Controller (Tree × Memory)
  | [] => ([], c)
  | p :: ps =>
    let (d, c) := c.decide (some p)
    let (lines, c) := decideEach c ps
    (decisionLine p d :: lines, c)

def runDecide (w : World) (c : ToolkitConfig) (paths : List String) : CommandOutcome :=
  let controller := controllerOf w c
  let (lines, controller) : List Text × Controller (Tree × Memory) :=
    if paths.isEmpty then
      let (d, controller) := controller.decide none
      ([decisionLine "(no path)" d], controller)
    else decideEach controller paths
  { result := .ok true, output := ofLines lines, files := filesOf controller }

def runCompare (w : World) (c : ToolkitConfig) (preset : Preset) (path : String) : CommandOutcome :=
  let factory : Factory (Tree × Memory) := { controller := controllerOf w c, endpoint := c.client }
  if factory.allowsConsole then
    let (outcome, _) := Console.compare factory w.probe preset path
    match outcome.result with
    | .ok comparison => report w true [comparison.text]
    | .error url => giveUp w (.probeFailed url)
  else giveUp w .needsDebugMode

/-! ## Stages -/

def runOrder (w : World) (c : ToolkitConfig) (stages : List Stage) : CommandOutcome :=
  let o : Optimizer := { config := c.optimizer }
  let order := o.order (if stages.isEmpty then Stage.all else stages)
  report w true [(" -> ".intercalate (order.map Stage.name)).toList]

def runCheck (w : World) (c : ToolkitConfig) (r : Request) : CommandOutcome :=
  let o : Optimizer := { config := c.optimizer }
  report w true ((o.order Stage.all).map fun s =>
    Decimal.padRight 8 s.name.toList ++ (if o.shouldExecute s r then " run" else " skip").toList)

/-- Carries out a command under a configuration. -/
def run (w : World) (c : ToolkitConfig) : Command → CommandOutcome
  | .migrate roots write json => runMigrate w c roots write json
  | .analyze roots => runAnalyze w c roots
  | .verify roots json => runVerify w c roots json
  | .rolloutStatus json => runStatus w c json
  | .rolloutDecide paths => runDecide w c paths
  | .rolloutCompare preset path => runCompare w c preset path
  | .stageOrder stages => runOrder w c stages
  | .stageCheck request => runCheck w c request

end Command

/-- Loads the configuration and carries out the command. -/
def Invocation.run (w : World) (i : Invocation) : CommandOutcome :=
  match ToolkitConfig.load w.files i.config w.env with
  | .error e => Command.giveUp w (.configuration e)
  | .ok c => i.command.run w c

end ClientMigration
