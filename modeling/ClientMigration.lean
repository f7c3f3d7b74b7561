import ClientMigration.Client.Address
import ClientMigration.Client.Settings
import ClientMigration.Codemod.Batch
import ClientMigration.Codemod.Binding
import ClientMigration.Codemod.CallEdits
import ClientMigration.Codemod.Config
import ClientMigration.Codemod.Import
import ClientMigration.Codemod.ImportEdits
import ClientMigration.Codemod.Migration
import ClientMigration.Codemod.PathEdits
import ClientMigration.Codemod.Setting
import ClientMigration.Codemod.Subject
import ClientMigration.Codemod.Usage
import ClientMigration.Codemod.Verification
import ClientMigration.Codemod.VersionPrefix
import ClientMigration.Data.Codec
import ClientMigration.Data.Datum
import ClientMigration.Data.Decimal
import ClientMigration.Data.Json
import ClientMigration.Data.Table
import ClientMigration.Data.Toml
import ClientMigration.Files.Tree
import ClientMigration.Path
import ClientMigration.Pipeline.Optimizer
import ClientMigration.Pipeline.PerStage
import ClientMigration.Pipeline.Registry
import ClientMigration.Pipeline.Report
import ClientMigration.Pipeline.Request
import ClientMigration.Pipeline.Run
import ClientMigration.Pipeline.Stats
import ClientMigration.Proofs.Client.Address
import ClientMigration.Proofs.Codemod.Bodies
import ClientMigration.Proofs.Codemod.BodyClients
import ClientMigration.Proofs.Codemod.Carried
import ClientMigration.Proofs.Codemod.Fitting
import ClientMigration.Proofs.Codemod.FittingEdits
import ClientMigration.Proofs.Codemod.FreshNames
import ClientMigration.Proofs.Codemod.IdleRules
import ClientMigration.Proofs.Codemod.Imports
import ClientMigration.Proofs.Codemod.KeptCalls
import ClientMigration.Proofs.Codemod.LeftPaths
import ClientMigration.Proofs.Codemod.Leftovers
import ClientMigration.Proofs.Codemod.LegacyPaths
import ClientMigration.Proofs.Codemod.Redirect
import ClientMigration.Proofs.Codemod.References
import ClientMigration.Proofs.Codemod.Rereading
import ClientMigration.Proofs.Codemod.ReusedClients
import ClientMigration.Proofs.Codemod.ErrorImports
import ClientMigration.Proofs.Codemod.Run
import ClientMigration.Proofs.Codemod.SecondRun
import ClientMigration.Proofs.Codemod.ShortenedPaths
import ClientMigration.Proofs.Codemod.Settled
import ClientMigration.Proofs.Codemod.ValidOutput
import ClientMigration.Proofs.Codemod.Verified
import ClientMigration.Proofs.Codemod.Versions
import ClientMigration.Proofs.Rollout.Assignments
import ClientMigration.Proofs.Rollout.Commands
import ClientMigration.Proofs.Rollout.Decisions
import ClientMigration.Proofs.Rollout.Environment
import ClientMigration.Proofs.Rollout.Installation
import ClientMigration.Proofs.Rollout.Percentages
import ClientMigration.Proofs.Rollout.Raising
import ClientMigration.Proofs.Rollout.Unasked
import ClientMigration.Proofs.Script.Places
import ClientMigration.Proofs.Script.NameList
import ClientMigration.Proofs.Script.Scope
import ClientMigration.Proofs.Store.Laws
import ClientMigration.Rollout.Assignment
import ClientMigration.Rollout.Comparison
import ClientMigration.Rollout.Config
import ClientMigration.Rollout.Console
import ClientMigration.Rollout.Controller
import ClientMigration.Rollout.Factory
import ClientMigration.Rollout.Metric
import ClientMigration.Rollout.Status
import ClientMigration.Script.Fault
import ClientMigration.Script.Grammar.Callable
import ClientMigration.Script.Grammar.Expression
import ClientMigration.Script.Grammar.Literal
import ClientMigration.Script.Grammar.Markup
import ClientMigration.Script.Grammar.Module
import ClientMigration.Script.Grammar.Pattern
import ClientMigration.Script.Grammar.Reader
import ClientMigration.Script.Grammar.Rules
import ClientMigration.Script.Grammar.Statement
import ClientMigration.Script.Grammar.Typing
import ClientMigration.Script.Kind
import ClientMigration.Script.Node
import ClientMigration.Script.Scope
import ClientMigration.Store.Basic
import ClientMigration.Store.File
import ClientMigration.Text.Basic
import ClientMigration.Text.Blank
import ClientMigration.Text.Edit
import ClientMigration.Text.Quoted
import ClientMigration.Text.Unprintable
import ClientMigration.Text.Uppercase
import ClientMigration.Toolkit.Arguments
import ClientMigration.Toolkit.Command
import ClientMigration.Toolkit.Config
import ClientMigration.Toolkit.Run
import ClientMigration.Vocabulary
import ClientMigration.Main
import ClientMigration.Proofs.Codemod.NeedsMigration
import ClientMigration.Proofs.Data.Json
import ClientMigration.Proofs.Data.Table
import ClientMigration.Proofs.Files.Tree
import ClientMigration.Proofs.Store.File
import ClientMigration.Proofs.Codemod.BatchRun
import ClientMigration.Proofs.Files.Spelling
import ClientMigration.Proofs.Codemod.FoundOnce
import ClientMigration.Proofs.Pipeline.Times
import ClientMigration.Proofs.Pipeline.Order
import ClientMigration.Proofs.Pipeline.Registry
import ClientMigration.Proofs.Rollout.Forcing
import ClientMigration.Proofs.Rollout.Clients
import ClientMigration.Proofs.Text.Edit
import ClientMigration.Proofs.Codemod.Applied
import ClientMigration.Proofs.Codemod.ImportRules
import ClientMigration.Proofs.Codemod.ClearEdits
import ClientMigration.Proofs.Codemod.KeptImports
import ClientMigration.Proofs.Codemod.CountedCalls
import ClientMigration.Proofs.Pipeline.Repeated
import ClientMigration.Proofs.Pipeline.Probes
import ClientMigration.Proofs.Pipeline.Measurements
import ClientMigration.Proofs.Pipeline.Run
import ClientMigration.Proofs.Text.Occurrences
import ClientMigration.Proofs.Text.Trimmed
import ClientMigration.Proofs.Rollout.Numerals
import ClientMigration.Proofs.Data.Codec
import ClientMigration.Proofs.Data.TextRecords
import ClientMigration.Proofs.Data.JsonLine
import ClientMigration.Proofs.Store.Damage
import ClientMigration.Proofs.Toolkit.Config
import ClientMigration.Proofs.Codemod.Candidates
import ClientMigration.Proofs.Data.Steps
import ClientMigration.Proofs.Pipeline.Pairs
import ClientMigration.Proofs.Data.Number
import ClientMigration.Proofs.Pipeline.Summaries
import ClientMigration.Proofs.Codemod.UsageTable
import ClientMigration.Proofs.Codemod.DetectedPreset
import ClientMigration.Proofs.Codemod.NameSearch
