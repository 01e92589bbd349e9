import CallArchive.Address.Basic
import CallArchive.Address.DotSegments
import CallArchive.Address.Escape
import CallArchive.Arithmetic
import CallArchive.Assoc
import CallArchive.CommandLine.Arguments
import CallArchive.CommandLine.Failure
import CallArchive.CommandLine.Option
import CallArchive.CommandLine.Report
import CallArchive.CommandLine.Run
import CallArchive.CommandLine.Usage
import CallArchive.Config.Basic
import CallArchive.Config.Text
import CallArchive.Decimal.Binary64
import CallArchive.Decimal.Shortest
import CallArchive.Failure
import CallArchive.Files.DatabaseName
import CallArchive.Files.Disk
import CallArchive.Files.Glob
import CallArchive.Files.Host
import CallArchive.Files.Path
import CallArchive.Files.Search
import CallArchive.Files.Tree
import CallArchive.Ingest.Batch
import CallArchive.Ingest.IdMap
import CallArchive.Ingest.Ingestion
import CallArchive.Ingest.Notifier
import CallArchive.Ingest.Pool
import CallArchive.Ingest.Progress
import CallArchive.Ingest.Retry
import CallArchive.Ingest.Workshop
import CallArchive.Json.Merge
import CallArchive.Json.Number
import CallArchive.Json.Parser
import CallArchive.Json.Printer
import CallArchive.Json.Value
import CallArchive.Main
import CallArchive.Proofs.Address.Assembled
import CallArchive.Proofs.Address.Buffers
import CallArchive.Proofs.Address.Canonical
import CallArchive.Proofs.Address.CanonicalText
import CallArchive.Proofs.Address.DotSegments
import CallArchive.Proofs.Address.Escape
import CallArchive.Proofs.Address.FixedPoint
import CallArchive.Proofs.Address.Grammar
import CallArchive.Proofs.Address.Octets
import CallArchive.Proofs.Address.Parse
import CallArchive.Proofs.Address.Respelled
import CallArchive.Proofs.Address.Spelling
import CallArchive.Proofs.Agreement
import CallArchive.Proofs.CommandLine.ExitCode
import CallArchive.Proofs.CommandLine.Init
import CallArchive.Proofs.CommandLine.Words
import CallArchive.Proofs.Config.Limits
import CallArchive.Proofs.Config.Written
import CallArchive.Proofs.Decimal.Rounding
import CallArchive.Proofs.Decimal.Shortest
import CallArchive.Proofs.Except
import CallArchive.Proofs.Files.Kept
import CallArchive.Proofs.Files.Tree
import CallArchive.Proofs.Ingest.Accounted
import CallArchive.Proofs.Ingest.Accumulated
import CallArchive.Proofs.Ingest.Adding
import CallArchive.Proofs.Ingest.Again
import CallArchive.Proofs.Ingest.AllOrNothing
import CallArchive.Proofs.Ingest.Announced
import CallArchive.Proofs.Ingest.Attempts
import CallArchive.Proofs.Ingest.BatchSize
import CallArchive.Proofs.Ingest.Changes
import CallArchive.Proofs.Ingest.Crew
import CallArchive.Proofs.Ingest.Dated
import CallArchive.Proofs.Ingest.DryRun
import CallArchive.Proofs.Ingest.Effect
import CallArchive.Proofs.Ingest.IdMap
import CallArchive.Proofs.Ingest.Isolation
import CallArchive.Proofs.Ingest.Journal
import CallArchive.Proofs.Ingest.Lawful
import CallArchive.Proofs.Ingest.Mapped
import CallArchive.Proofs.Ingest.Permanent
import CallArchive.Proofs.Ingest.Pooled
import CallArchive.Proofs.Ingest.Released
import CallArchive.Proofs.Ingest.Remapped
import CallArchive.Proofs.Ingest.Reordered
import CallArchive.Proofs.Ingest.Retried
import CallArchive.Proofs.Ingest.Shared
import CallArchive.Proofs.Ingest.Stages
import CallArchive.Proofs.Ingest.Stored
import CallArchive.Proofs.Ingest.Summaries
import CallArchive.Proofs.Ingest.Transaction
import CallArchive.Proofs.Json.Drift
import CallArchive.Proofs.Json.Literal
import CallArchive.Proofs.Json.Members
import CallArchive.Proofs.Json.Merged
import CallArchive.Proofs.Json.Numeral
import CallArchive.Proofs.Json.Ordered
import CallArchive.Proofs.Json.ReadsBack
import CallArchive.Proofs.Json.Reread
import CallArchive.Proofs.Json.Scale
import CallArchive.Proofs.Json.Storable
import CallArchive.Proofs.Record.Ascending
import CallArchive.Proofs.Record.Built
import CallArchive.Proofs.Record.Drafts
import CallArchive.Proofs.Record.Identified
import CallArchive.Proofs.Record.LocalId
import CallArchive.Proofs.Record.Respelled
import CallArchive.Proofs.Record.VersionRange
import CallArchive.Proofs.Store.Accumulated
import CallArchive.Proofs.Store.Actions
import CallArchive.Proofs.Store.Advances
import CallArchive.Proofs.Store.Answers
import CallArchive.Proofs.Store.Batches
import CallArchive.Proofs.Store.Columns
import CallArchive.Proofs.Store.Consistent
import CallArchive.Proofs.Store.Contents
import CallArchive.Proofs.Store.Course
import CallArchive.Proofs.Store.Dependencies
import CallArchive.Proofs.Store.Edges
import CallArchive.Proofs.Store.Granted
import CallArchive.Proofs.Store.Grown
import CallArchive.Proofs.Store.Linked
import CallArchive.Proofs.Store.Naming
import CallArchive.Proofs.Store.Parameters
import CallArchive.Proofs.Store.Perform
import CallArchive.Proofs.Store.Programs
import CallArchive.Proofs.Store.Renaming
import CallArchive.Proofs.Store.Requests
import CallArchive.Proofs.Store.Runs
import CallArchive.Proofs.Store.Statements
import CallArchive.Proofs.Store.Table
import CallArchive.Proofs.Store.Writing
import CallArchive.Proofs.Text.Blank
import CallArchive.Proofs.Text.Cut
import CallArchive.Proofs.Text.Digits
import CallArchive.Proofs.Time.Calendar
import CallArchive.Proofs.Time.Instant
import CallArchive.Proofs.Toml.Lines
import CallArchive.Proofs.Toml.Quoted
import CallArchive.Proofs.Validation.Checked
import CallArchive.Proofs.Validation.Flaws
import CallArchive.Proofs.Validation.NodeRule
import CallArchive.Proofs.Validation.Reports
import CallArchive.Proofs.Validation.Respelled
import CallArchive.Proofs.Validation.Sifted
import CallArchive.Proofs.Validation.Validated
import CallArchive.Record.Basic
import CallArchive.Record.Builder
import CallArchive.Record.Decode
import CallArchive.Record.Error
import CallArchive.Record.LocalId
import CallArchive.Record.VersionRange
import CallArchive.Store.Basic
import CallArchive.Store.Cell
import CallArchive.Store.Connections
import CallArchive.Store.Database
import CallArchive.Store.File
import CallArchive.Store.Overwrite
import CallArchive.Store.Rows
import CallArchive.Store.Schema
import CallArchive.Store.Sheet
import CallArchive.Store.Snapshot
import CallArchive.Store.Table
import CallArchive.Tally
import CallArchive.Text.Blank
import CallArchive.Text.Cut
import CallArchive.Text.Digits
import CallArchive.Text.Printable
import CallArchive.Time.Calendar
import CallArchive.Time.Instant
import CallArchive.Toml.Item
import CallArchive.Toml.Parser
import CallArchive.Toml.Quoted
import CallArchive.Toml.Scalar
import CallArchive.Validation.ArcReport
import CallArchive.Validation.NodeRule
import CallArchive.Validation.Validated
