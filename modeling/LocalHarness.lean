import LocalHarness.Library.Runs
import LocalHarness.Library.Table
import LocalHarness.Library.Text
import LocalHarness.Library.Decimal
import LocalHarness.MemoryStore.Schema
import LocalHarness.MemoryStore.Transitions
import LocalHarness.MemoryStore.Writes
import LocalHarness.MemoryStore.Ladder
import LocalHarness.MemoryStore.Ledger
import LocalHarness.MemoryStore.Writers
import LocalHarness.MemoryStore.WritersLedger
import LocalHarness.MemoryStore.WritersErase
import LocalHarness.MemoryStore.Retests
import LocalHarness.MemoryStore.RetestLoops
import LocalHarness.MemoryStore.Revisit
import LocalHarness.Tiers.Machine
import LocalHarness.Tiers.Inspect
import LocalHarness.Tiers.Fetching
import LocalHarness.Tiers.Screen
import LocalHarness.Tiers.Refusals
import LocalHarness.WorkQueue.Jobs
import LocalHarness.WorkQueue.Workers
import LocalHarness.WorkQueue.Steps
import LocalHarness.WorkQueue.Sound
import LocalHarness.WorkQueue.Waiting
import LocalHarness.WorkQueue.Cancels
import LocalHarness.WorkQueue.Machines
import LocalHarness.Adopt.Paired
import LocalHarness.Adopt.Ranking
import LocalHarness.Adopt.Gates
import LocalHarness.Adopt.Candidates
import LocalHarness.Adopt.Record
import LocalHarness.Adopt.Served
import LocalHarness.Adopt.Resolve
import LocalHarness.Evals.Receipt
import LocalHarness.Evals.CompareRuns
import LocalHarness.Serving.Ds4
import LocalHarness.Serving.Methods
import LocalHarness.Serving.Route
import LocalHarness.Serving.Named
import LocalHarness.Engines.Options
import LocalHarness.Evals.Sampling
import LocalHarness.Engines.Builders
import LocalHarness.Engines.Commands
import LocalHarness.Engines.Names
import LocalHarness.Library.Suffixed
import LocalHarness.Engines.Identity
import LocalHarness.Tiers.FetchRun
import LocalHarness.Tiers.FetchBudget
import LocalHarness.Exclusive.Held
import LocalHarness.Exclusive.OneHolder
import LocalHarness.Adopt.Cells
import LocalHarness.Library.Checked
import LocalHarness.Library.FileTree
import LocalHarness.Adopt.Human
import LocalHarness.Tiers.Gguf
import LocalHarness.Tiers.Admitted
import LocalHarness.Gateway.FirstStart
import LocalHarness.Publish.Hub
import LocalHarness.Publish.OwnFiles
import LocalHarness.Library.Groups
import LocalHarness.Publish.Exams
import LocalHarness.Publish.ExamTables
import LocalHarness.Volume.Recovery
import LocalHarness.Migrations.Rebuild
import LocalHarness.Migrations.Interrupted
import LocalHarness.Library.Program
import LocalHarness.Migrations.Connect
import LocalHarness.Migrations.Together
import LocalHarness.Migrations.Opened
import LocalHarness.Dialect.Translate
import LocalHarness.Dialect.Conflicts
import LocalHarness.Dialect.SameQuery
import LocalHarness.Checks.Claims
import LocalHarness.Adopt.Weakened
import LocalHarness.Power.Critical
import LocalHarness.Adopt.Repeated
import LocalHarness.Adopt.RepeatedDecision
import LocalHarness.Power.Planned
import LocalHarness.Power.Returns
import LocalHarness.Power.Smallest
import LocalHarness.Holdout.Assign
import LocalHarness.Holdout.Only
import LocalHarness.Checks.Decide
import LocalHarness.Checks.DecideAgain
import LocalHarness.Library.CodePoints
import LocalHarness.Library.JsonText
import LocalHarness.Evals.Sandbox
import LocalHarness.Evals.SandboxCalls
import LocalHarness.Checks.DecideApart
import LocalHarness.Library.Mediant
import LocalHarness.Checks.Rates
import LocalHarness.Evals.Pooled
import LocalHarness.Evals.PooledBetween
import LocalHarness.Evals.Outcomes
import LocalHarness.Library.Top
import LocalHarness.Checks.Retrieval
import LocalHarness.Context.Header
import LocalHarness.Context.RoundTrip
import LocalHarness.Context.Choose
import LocalHarness.Context.Isolated
import LocalHarness.Evals.Ladder
import LocalHarness.Serving.Streamed
import LocalHarness.Serving.Assembled
import LocalHarness.Gateway.Switch
import LocalHarness.Gateway.PutBack
import LocalHarness.Evals.SandboxConfined
import LocalHarness.Gateway.Wait
import LocalHarness.Library.Newest
import LocalHarness.Adopt.Lanes
import LocalHarness.Neighbors.Cohort
import LocalHarness.Checks.Speech
import LocalHarness.Neighbors.Support
import LocalHarness.Sweeps.Decide
import LocalHarness.Usage.Writer
import LocalHarness.Checks.SpokenForm
import LocalHarness.Checks.Extract
import LocalHarness.Checks.Code
import LocalHarness.Checks.Fenced
import LocalHarness.Library.Lowered
import LocalHarness.Checks.Document
import LocalHarness.Checks.Scored
import LocalHarness.Evals.Compare
import LocalHarness.Evals.Mirrored
import LocalHarness.Library.Cutting
import LocalHarness.Publish.Scrub
import LocalHarness.Library.Regex
import LocalHarness.Tiers.Scan
import LocalHarness.Discovery.Mentions
import LocalHarness.Gateway.Served
import LocalHarness.Discovery.Candidates
import LocalHarness.Serving.Needle
import LocalHarness.Discovery.Requests
import LocalHarness.Library.IsoDates
import LocalHarness.Benchmarks.Contamination
import LocalHarness.Library.JsonWritten
import LocalHarness.Evals.Jsonl
import LocalHarness.Checks.Transcript
import LocalHarness.Checks.PatternPii
import LocalHarness.Checks.Svg
import LocalHarness.Discovery.FromFeeds
import LocalHarness.Sweeps.Sensitivity
import LocalHarness.Discovery.Papers
import LocalHarness.Migrations.Machines
import LocalHarness.Tiers.Bigger
import LocalHarness.WorkQueue.Status
import LocalHarness.Migrations.Joined
import LocalHarness.Migrations.Merged
import LocalHarness.Evals.Private
import LocalHarness.Benchmarks.Rows
import LocalHarness.Tiers.Split
import LocalHarness.Library.Binary64
import LocalHarness.Power.Stratified
import LocalHarness.Evals.Repair
import LocalHarness.Evals.Steps
import LocalHarness.Vector.ViewBox
import LocalHarness.Evals.ClaimsImport
import LocalHarness.Library.Stamps
import LocalHarness.Library.Versions
import LocalHarness.MemoryStore.Until
import LocalHarness.Disk.Inventory
import LocalHarness.Disk.Shared
import LocalHarness.Library.Asked
import LocalHarness.Reverify.Check
import LocalHarness.Sweeps.Pass
import LocalHarness.Disk.Downloads
import LocalHarness.MemoryStore.Proposals
import LocalHarness.Discovery.Heartbeat
import LocalHarness.Evals.Cases
