import Workflow.Admission
import Workflow.Ascending
import Workflow.Audit
import Workflow.CommandLine.Command
import Workflow.CommandLine.Grammar
import Workflow.CommandLine.Perform
import Workflow.CommandLine.Report
import Workflow.Disk
import Workflow.Entries
import Workflow.Error
import Workflow.Graph.Basic
import Workflow.Graph.Document
import Workflow.Handler.Basic
import Workflow.Handler.Condition
import Workflow.Handler.Failure
import Workflow.Handler.Registry
import Workflow.Handler.World
import Workflow.Identifier
import Workflow.Json.Decode
import Workflow.Json.Document
import Workflow.Json.Printer
import Workflow.Json.Value
import Workflow.Kind.Basic
import Workflow.Kind.Capability
import Workflow.Main
import Workflow.Number.Binary64
import Workflow.Number.Literal
import Workflow.Number.Shortest
import Workflow.Path
import Workflow.Plan
import Workflow.Proofs.Accounting
import Workflow.Proofs.Agreement
import Workflow.Proofs.Archiving
import Workflow.Proofs.Arrangement
import Workflow.Proofs.Auditing
import Workflow.Proofs.Awakening
import Workflow.Proofs.Cancelling
import Workflow.Proofs.Chronicle
import Workflow.Proofs.Conduct
import Workflow.Proofs.Containment
import Workflow.Proofs.Countdown
import Workflow.Proofs.Cycle
import Workflow.Proofs.Density
import Workflow.Proofs.Dependency
import Workflow.Proofs.Doubling
import Workflow.Proofs.Editing
import Workflow.Proofs.Endings
import Workflow.Proofs.Escaping
import Workflow.Proofs.Execution
import Workflow.Proofs.Interchange
import Workflow.Proofs.Layers
import Workflow.Proofs.Lifetime
import Workflow.Proofs.Loading
import Workflow.Proofs.Logging
import Workflow.Proofs.Moments
import Workflow.Proofs.Nesting
import Workflow.Proofs.Persistence
import Workflow.Proofs.Phrasing
import Workflow.Proofs.Progress
import Workflow.Proofs.Provenance
import Workflow.Proofs.Publishing
import Workflow.Proofs.Quietness
import Workflow.Proofs.Reaching
import Workflow.Proofs.ReadBack
import Workflow.Proofs.Recording
import Workflow.Proofs.Recovery
import Workflow.Proofs.Releasing
import Workflow.Proofs.Replacing
import Workflow.Proofs.Reporting
import Workflow.Proofs.Requesting
import Workflow.Proofs.Rereading
import Workflow.Proofs.Retrieval
import Workflow.Proofs.Retrying
import Workflow.Proofs.Sameness
import Workflow.Proofs.Searching
import Workflow.Proofs.Shadowing
import Workflow.Proofs.Sharing
import Workflow.Proofs.Spelling
import Workflow.Proofs.Standing
import Workflow.Proofs.Stepping
import Workflow.Proofs.Storing
import Workflow.Proofs.Stripping
import Workflow.Proofs.Substitution
import Workflow.Proofs.Supply
import Workflow.Proofs.Termination
import Workflow.Proofs.Timestamps
import Workflow.Proofs.Undoing
import Workflow.Proofs.Vouching
import Workflow.Proofs.Walking
import Workflow.Proofs.WellFormed
import Workflow.Run.Bus
import Workflow.Run.Clock
import Workflow.Run.Event
import Workflow.Run.Log
import Workflow.Run.Machine
import Workflow.Run.Result
import Workflow.Run.Retry
import Workflow.Run.Status
import Workflow.Run.Task
import Workflow.Service
import Workflow.Session
import Workflow.Settings
import Workflow.Settings.File
import Workflow.Store.File
import Workflow.Store.Record
import Workflow.Store.Table
import Workflow.Text.Blank
import Workflow.Text.Search
import Workflow.Text.Utf8
import Workflow.Time.Calendar
import Workflow.Time.Instant
import Workflow.Toml.Reader
import Workflow.Toml.Table
import Workflow.Web.Fetch
import Workflow.Web.PageText
import Workflow.Web.Status
import Workflow.Web.Url
