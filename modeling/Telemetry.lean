import Telemetry.Attribute
import Telemetry.Command
import Telemetry.Compression.Checksum
import Telemetry.Compression.Gzip
import Telemetry.Compression.Inflate
import Telemetry.Config.Address
import Telemetry.Config.Basic
import Telemetry.Config.Layer
import Telemetry.Config.Load
import Telemetry.Decimal.Layout
import Telemetry.Decimal.Shortest
import Telemetry.Dictionary
import Telemetry.Error
import Telemetry.Http.Api
import Telemetry.Http.Form
import Telemetry.Http.Intake
import Telemetry.Http.MediaType
import Telemetry.Http.Message
import Telemetry.Identifier
import Telemetry.Ingest.Export
import Telemetry.Ingest.Pipeline
import Telemetry.Json.Basic
import Telemetry.Json.Decoder
import Telemetry.Json.Fault
import Telemetry.Json.Number
import Telemetry.Json.Reader
import Telemetry.Json.Scan
import Telemetry.Labels
import Telemetry.Main
import Telemetry.Otlp.Decode
import Telemetry.Otlp.FromJson
import Telemetry.Otlp.FromWire
import Telemetry.Otlp.Message
import Telemetry.Otlp.Request
import Telemetry.Otlp.Wire
import Telemetry.Page
import Telemetry.Proofs.Config.Precedence
import Telemetry.Proofs.Config.Settings
import Telemetry.Proofs.Dictionary
import Telemetry.Proofs.Double
import Telemetry.Proofs.Fallible
import Telemetry.Proofs.Ingest.Accounting
import Telemetry.Proofs.Ingest.Batch
import Telemetry.Proofs.Ingest.Concurrency
import Telemetry.Proofs.Ingest.Reasons
import Telemetry.Proofs.Json.Document
import Telemetry.Proofs.Json.Passage
import Telemetry.Proofs.Json.Place
import Telemetry.Proofs.Json.Settling
import Telemetry.Proofs.Json.Shape
import Telemetry.Proofs.Labels
import Telemetry.Proofs.Otlp.AttributeLoss
import Telemetry.Proofs.Otlp.Envelope
import Telemetry.Proofs.Otlp.Identifiers
import Telemetry.Proofs.Otlp.JsonMetrics
import Telemetry.Proofs.Otlp.JsonReading
import Telemetry.Proofs.Otlp.Losses
import Telemetry.Proofs.Otlp.MetricAccounting
import Telemetry.Proofs.Otlp.Parts
import Telemetry.Proofs.Otlp.RecordFaults
import Telemetry.Proofs.Otlp.RecordIsolation
import Telemetry.Proofs.Otlp.Rendering
import Telemetry.Proofs.Otlp.Services
import Telemetry.Proofs.Otlp.Storable
import Telemetry.Proofs.Otlp.Units
import Telemetry.Proofs.Otlp.WireEquivalence
import Telemetry.Proofs.Query.Anatomy
import Telemetry.Proofs.Query.Cancellation
import Telemetry.Proofs.Query.ClientFaults
import Telemetry.Proofs.Query.Composition
import Telemetry.Proofs.Query.Durations
import Telemetry.Proofs.Query.Execution
import Telemetry.Proofs.Query.Faults
import Telemetry.Proofs.Query.Fragments
import Telemetry.Proofs.Query.Grammar
import Telemetry.Proofs.Query.Lengths
import Telemetry.Proofs.Query.Offsets
import Telemetry.Proofs.Query.Outcome
import Telemetry.Proofs.Query.Overreach
import Telemetry.Proofs.Query.Reading
import Telemetry.Proofs.Query.RelativeBounds
import Telemetry.Proofs.Query.Rendering
import Telemetry.Proofs.Query.Rescanning
import Telemetry.Proofs.Query.Response
import Telemetry.Proofs.Query.Scanning
import Telemetry.Proofs.Query.Selector
import Telemetry.Proofs.Query.Slices
import Telemetry.Proofs.Query.Tokens
import Telemetry.Proofs.Query.Validation
import Telemetry.Proofs.Series.Application
import Telemetry.Proofs.Series.Change
import Telemetry.Proofs.Series.Collection
import Telemetry.Proofs.Series.Extremes
import Telemetry.Proofs.Series.Identity
import Telemetry.Proofs.Series.Listing
import Telemetry.Proofs.Series.Partition
import Telemetry.Proofs.Series.Sums
import Telemetry.Proofs.Series.Widening
import Telemetry.Proofs.Sorting
import Telemetry.Proofs.Store.Columns
import Telemetry.Proofs.Store.Expiry
import Telemetry.Proofs.Store.History
import Telemetry.Proofs.Store.Insertion
import Telemetry.Proofs.Store.Paging
import Telemetry.Proofs.Store.RangeSelectors
import Telemetry.Proofs.Store.Retention
import Telemetry.Proofs.Store.Retrieval
import Telemetry.Proofs.Store.Selection
import Telemetry.Proofs.Store.Transaction
import Telemetry.Proofs.Store.Windows
import Telemetry.Proofs.Text.Base64
import Telemetry.Proofs.Text.Hex
import Telemetry.Proofs.Text.Integer
import Telemetry.Proofs.Text.Spacing
import Telemetry.Proofs.Text.Utf8
import Telemetry.Proofs.Time.Duration
import Telemetry.Proofs.Time.Instant
import Telemetry.Proofs.Time.Padding
import Telemetry.Query.Basic
import Telemetry.Query.Catalog
import Telemetry.Query.Evaluation
import Telemetry.Query.Parser
import Telemetry.Query.Quoted
import Telemetry.Query.Request
import Telemetry.Query.Response
import Telemetry.Query.Window
import Telemetry.Record
import Telemetry.Record.Json
import Telemetry.Series.Aggregate
import Telemetry.Series.Basic
import Telemetry.Series.Change
import Telemetry.Series.Function
import Telemetry.Severity
import Telemetry.Store.Basic
import Telemetry.Store.Columns
import Telemetry.Store.Read
import Telemetry.Store.Retention
import Telemetry.Store.Table
import Telemetry.Text.Base64
import Telemetry.Text.Blank
import Telemetry.Text.Hex
import Telemetry.Text.Integer
import Telemetry.Text.Utf8
import Telemetry.Time.Bound
import Telemetry.Time.Calendar
import Telemetry.Time.Duration
import Telemetry.Time.Instant
import Telemetry.Time.Rfc3339
import Telemetry.Toml
