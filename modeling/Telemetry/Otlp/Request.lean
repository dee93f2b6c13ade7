import Telemetry.Otlp.Decode
import Telemetry.Otlp.FromJson
import Telemetry.Otlp.FromWire

/-!
Requests to export records: an export of one of the three signals, read from either of its two forms
and decoded into units of records.
-/

set_option autoImplicit false

namespace Telemetry.Otlp

open Time (Instant)

/-- A request to export records of one kind. -/
inductive Request where
  | metrics (e : Export Metric)
  | traces (e : Export Span)
  | logs (e : Export LogRecord)

namespace Request

/-- Reads the binary form of a request. -/
def ofWire? (kind : RecordKind) (body : List UInt8) : Option Request :=
  match kind with
  | .metrics => (FromWire.metrics? body).map .metrics
  | .traces => (FromWire.traces? body).map .traces
  | .logs => (FromWire.logs? body).map .logs

/-- Reads the JSON form of a request, with what was left out of it. -/
def ofJson (kind : RecordKind) (body : List UInt8) : Except Error (Request × FromJson.Losses) :=
  match kind with
  | .metrics => (FromJson.metrics body).map fun p => (.metrics p.request, p.losses)
  | .traces => (FromJson.traces body).map fun p => (.traces p.request, p.losses)
  | .logs => (FromJson.logs body).map fun p => (.logs p.request, p.losses)

/-- Decodes a request that was received at an instant. -/
def decode (received : Instant) : Request → Decoded
  | .metrics e => decodeMetrics e received
  | .traces e => decodeTraces e
  | .logs e => decodeLogs e received

end Request

end Telemetry.Otlp
