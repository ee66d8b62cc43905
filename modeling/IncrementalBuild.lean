import IncrementalBuild.Artifact
import IncrementalBuild.Blake3
import IncrementalBuild.Build
import IncrementalBuild.BuildLog
import IncrementalBuild.BuildState
import IncrementalBuild.BuildState.Dirty
import IncrementalBuild.BuildState.Store
import IncrementalBuild.Command
import IncrementalBuild.CommandLine
import IncrementalBuild.Core
import IncrementalBuild.Declaration
import IncrementalBuild.DependencyGraph
import IncrementalBuild.Diagnostic
import IncrementalBuild.Digraph
import IncrementalBuild.Digraph.Toposort
import IncrementalBuild.DirtySet
import IncrementalBuild.DiskTools
import IncrementalBuild.Execution
import IncrementalBuild.FileSystem
import IncrementalBuild.FileSystem.Disk
import IncrementalBuild.FileSystem.Memory
import IncrementalBuild.Fingerprint
import IncrementalBuild.Glob
import IncrementalBuild.Glob.Reader
import IncrementalBuild.Inputs
import IncrementalBuild.Job
import IncrementalBuild.JobGraph
import IncrementalBuild.Json
import IncrementalBuild.Json.Reader
import IncrementalBuild.Json.Shape
import IncrementalBuild.Listing
import IncrementalBuild.Logging
import IncrementalBuild.Main
import IncrementalBuild.ModuleGraph
import IncrementalBuild.Numbering
import IncrementalBuild.Options
import IncrementalBuild.OrderedMap
import IncrementalBuild.OutputLayout
import IncrementalBuild.Path
import IncrementalBuild.Plan
import IncrementalBuild.Plan.Batch
import IncrementalBuild.Plan.Jobs
import IncrementalBuild.Plan.Prune
import IncrementalBuild.PlanningError
import IncrementalBuild.Process
import IncrementalBuild.Program
import IncrementalBuild.Proofs.Accounting
import IncrementalBuild.Proofs.Batching
import IncrementalBuild.Proofs.Bookkeeping
import IncrementalBuild.Proofs.Command
import IncrementalBuild.Proofs.Course
import IncrementalBuild.Proofs.DeclarationStore.Files
import IncrementalBuild.Proofs.DeclarationStore.Queries
import IncrementalBuild.Proofs.DeclarationStore.Slots
import IncrementalBuild.Proofs.DeclarationTable
import IncrementalBuild.Proofs.Delivery
import IncrementalBuild.Proofs.DependencyGraph
import IncrementalBuild.Proofs.Diagnostic
import IncrementalBuild.Proofs.Digraph
import IncrementalBuild.Proofs.Digraph.Circles
import IncrementalBuild.Proofs.DirtyReasons
import IncrementalBuild.Proofs.Dispatch
import IncrementalBuild.Proofs.Ending
import IncrementalBuild.Proofs.Faultless
import IncrementalBuild.Proofs.Fingerprint
import IncrementalBuild.Proofs.Forecast
import IncrementalBuild.Proofs.FullRebuild
import IncrementalBuild.Proofs.Halting
import IncrementalBuild.Proofs.History
import IncrementalBuild.Proofs.InputSearch
import IncrementalBuild.Proofs.InterfaceCircles
import IncrementalBuild.Proofs.Interleaving
import IncrementalBuild.Proofs.JobGraph
import IncrementalBuild.Proofs.JobGraph.Acceptance
import IncrementalBuild.Proofs.JobGraph.Dependents
import IncrementalBuild.Proofs.JobGraph.LeastOrder
import IncrementalBuild.Proofs.Json
import IncrementalBuild.Proofs.Json.Cut
import IncrementalBuild.Proofs.Lossless
import IncrementalBuild.Proofs.MemoryTree
import IncrementalBuild.Proofs.ModuleGraph
import IncrementalBuild.Proofs.ModuleGraph.BuildOrder
import IncrementalBuild.Proofs.Numbering
import IncrementalBuild.Proofs.Order
import IncrementalBuild.Proofs.OrderedMap
import IncrementalBuild.Proofs.OutdatedCircles
import IncrementalBuild.Proofs.OutputLayout
import IncrementalBuild.Proofs.Path
import IncrementalBuild.Proofs.Path.Spelling
import IncrementalBuild.Proofs.Plan
import IncrementalBuild.Proofs.Plan.Batch
import IncrementalBuild.Proofs.Plan.BatchKeys
import IncrementalBuild.Proofs.Plan.EvenBatches
import IncrementalBuild.Proofs.Plan.Jobs
import IncrementalBuild.Proofs.Plan.Modules
import IncrementalBuild.Proofs.Plan.Outcome
import IncrementalBuild.Proofs.Plan.Prune
import IncrementalBuild.Proofs.Plan.Regroup
import IncrementalBuild.Proofs.Plan.Requested
import IncrementalBuild.Proofs.Plan.Seeds
import IncrementalBuild.Proofs.Plan.Siblings
import IncrementalBuild.Proofs.Plan.Spelled
import IncrementalBuild.Proofs.Plan.Stages
import IncrementalBuild.Proofs.Plan.Supplied
import IncrementalBuild.Proofs.Prepare
import IncrementalBuild.Proofs.Records
import IncrementalBuild.Proofs.Reload
import IncrementalBuild.Proofs.Revival
import IncrementalBuild.Proofs.Run
import IncrementalBuild.Proofs.Scheduler
import IncrementalBuild.Proofs.SecondWave
import IncrementalBuild.Proofs.Settled
import IncrementalBuild.Proofs.SimulatedTools
import IncrementalBuild.Proofs.Soundness
import IncrementalBuild.Proofs.Stability
import IncrementalBuild.Proofs.Start
import IncrementalBuild.Proofs.StateFile
import IncrementalBuild.Proofs.Statuses
import IncrementalBuild.Proofs.StoredText
import IncrementalBuild.Proofs.Successive
import IncrementalBuild.Proofs.Tracker
import IncrementalBuild.Proofs.Tracking
import IncrementalBuild.Proofs.Truncation
import IncrementalBuild.Proofs.Unawaited
import IncrementalBuild.Proofs.Unfinished
import IncrementalBuild.Proofs.Within
import IncrementalBuild.Report
import IncrementalBuild.Request
import IncrementalBuild.RequestFile
import IncrementalBuild.RequestFile.Resolve
import IncrementalBuild.Scheduler
import IncrementalBuild.Shell
import IncrementalBuild.Shell.Arithmetic
import IncrementalBuild.Shell.Builtin
import IncrementalBuild.Shell.Condition
import IncrementalBuild.Shell.Expansion
import IncrementalBuild.Shell.Format
import IncrementalBuild.Shell.Pattern
import IncrementalBuild.Shell.Reader
import IncrementalBuild.Shell.Run
import IncrementalBuild.Shell.Session
import IncrementalBuild.Shell.Token
import IncrementalBuild.Shell.Utility
import IncrementalBuild.SimulatedTools
import IncrementalBuild.Text.Blank
import IncrementalBuild.Text.CharSet
import IncrementalBuild.Text.Digit
import IncrementalBuild.Text.Lowercase
import IncrementalBuild.Text.Numeral
import IncrementalBuild.Text.Printable
import IncrementalBuild.Text.Quoted
import IncrementalBuild.Text.Utf8
import IncrementalBuild.Toml
import IncrementalBuild.Toml.Reader
import IncrementalBuild.Toml.Scalar
import IncrementalBuild.Toml.Shape
import IncrementalBuild.Tracker
