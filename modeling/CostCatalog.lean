import CostCatalog.Audit
import CostCatalog.Cache.Basic
import CostCatalog.Cache.Glob
import CostCatalog.Cache.Uses
import CostCatalog.Calendar.Date
import CostCatalog.Category
import CostCatalog.Code
import CostCatalog.Command.Parameter
import CostCatalog.Command.Uom
import CostCatalog.Deadline
import CostCatalog.Duration
import CostCatalog.Entry
import CostCatalog.Enumeration
import CostCatalog.Fault.Basic
import CostCatalog.Fault.Outcome
import CostCatalog.Fault.Rule
import CostCatalog.Filter
import CostCatalog.Http.App
import CostCatalog.Http.Entries
import CostCatalog.Http.Health
import CostCatalog.Http.Input
import CostCatalog.Http.Message
import CostCatalog.Http.Percent
import CostCatalog.Http.Query
import CostCatalog.Http.Route
import CostCatalog.Json.Basic
import CostCatalog.Json.Display
import CostCatalog.Json.Printer
import CostCatalog.Json.Reader
import CostCatalog.Kind
import CostCatalog.Limiter.Basic
import CostCatalog.Limiter.Bucket
import CostCatalog.Limiter.Uses
import CostCatalog.Log.Basic
import CostCatalog.Log.Line
import CostCatalog.Log.Setup
import CostCatalog.Log.Template
import CostCatalog.Migration.Revision
import CostCatalog.Migration.Statement
import CostCatalog.Migration.Table
import CostCatalog.Number.Binary64
import CostCatalog.Number.Decimal
import CostCatalog.Number.Places
import CostCatalog.Number.Quotient
import CostCatalog.Number.Shortest
import CostCatalog.Page
import CostCatalog.Parameter
import CostCatalog.Program.Basic
import CostCatalog.Program.Breakdown
import CostCatalog.Program.Mishap
import CostCatalog.Program.Pool
import CostCatalog.Program.World
import CostCatalog.Proofs.AuditTrail
import CostCatalog.Proofs.Bounds
import CostCatalog.Proofs.Cache.Deadlines
import CostCatalog.Proofs.Cache.KeySpace
import CostCatalog.Proofs.Cache.Leftovers
import CostCatalog.Proofs.Cache.Memory
import CostCatalog.Proofs.Cache.Outages
import CostCatalog.Proofs.Cache.Races
import CostCatalog.Proofs.Cache.Recollection
import CostCatalog.Proofs.Cache.Stems
import CostCatalog.Proofs.Cache.Transparency
import CostCatalog.Proofs.Command.Conflicts
import CostCatalog.Proofs.Command.Creations
import CostCatalog.Proofs.Command.Linearization
import CostCatalog.Proofs.Command.Runs
import CostCatalog.Proofs.Command.Successes
import CostCatalog.Proofs.Command.Trail
import CostCatalog.Proofs.Http.Failures
import CostCatalog.Proofs.Limiter.Isolation
import CostCatalog.Proofs.Limiter.Rate
import CostCatalog.Proofs.Limiter.Refusals
import CostCatalog.Proofs.Limiter.Sweeps
import CostCatalog.Proofs.Log.Lines
import CostCatalog.Proofs.Pages
import CostCatalog.Proofs.Program.Mishaps
import CostCatalog.Proofs.Refusals
import CostCatalog.Proofs.Repository.Failing
import CostCatalog.Proofs.Repository.Refinement
import CostCatalog.Proofs.Repository.Requests
import CostCatalog.Proofs.Rfc3339
import CostCatalog.Proofs.RoundTrips
import CostCatalog.Proofs.Service.Echoes
import CostCatalog.Proofs.Service.Envelopes
import CostCatalog.Proofs.Service.PageCounts
import CostCatalog.Proofs.Service.PageRequests
import CostCatalog.Proofs.Service.Pipeline
import CostCatalog.Proofs.Service.ReadYourWrites
import CostCatalog.Proofs.Service.Results
import CostCatalog.Proofs.Work
import CostCatalog.Record
import CostCatalog.Repository.Basic
import CostCatalog.Repository.Cached
import CostCatalog.Repository.Call
import CostCatalog.Service.Basic
import CostCatalog.Service.Data
import CostCatalog.Service.Response
import CostCatalog.Settings
import CostCatalog.Store.Basic
import CostCatalog.Store.Failure
import CostCatalog.Store.Row
import CostCatalog.Store.Table
import CostCatalog.Text.Blank
import CostCatalog.Text.Digit
import CostCatalog.Text.Printable
import CostCatalog.Text.Quoted
import CostCatalog.Text.Utf8
import CostCatalog.Timestamp.Basic
import CostCatalog.Timestamp.Iso
import CostCatalog.Timestamp.Rfc3339
import CostCatalog.Uom
import CostCatalog.Wire.Checked
import CostCatalog.Wire.Envelope
import CostCatalog.Wire.Mapping
import CostCatalog.Wire.Name
import CostCatalog.Wire.ParameterMessages
import CostCatalog.Wire.Scalar
import CostCatalog.Wire.UomMessages
