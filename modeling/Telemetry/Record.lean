import Telemetry.Labels
import Telemetry.Time.Bound

/-!
The records that are ingested, stored and listed: values of metrics, spans of traces, and log
records.
-/

set_option autoImplicit false

namespace Telemetry

open Time (Instant)

/-! ## Metrics -/

/-- A value of a metric at an instant. -/
structure Metric where
  time : Instant
  name : String
  value : Float
  labels : Labels
  service : String
  deriving Repr

/-- The labels of the series to which a value belongs: its own, and the service unless one of its
own is named so. -/
def Metric.seriesLabels (m : Metric) : Labels := m.labels.insertNew "service" m.service

/-! ## Spans -/

/-- How the work of a span ended. -/
inductive SpanStatus where
  | unset
  | ok
  | error
  | unknown
  deriving DecidableEq, Repr, Inhabited

namespace SpanStatus

/-- The status of a number on the wire. -/
def ofWire (code : Int32) : SpanStatus :=
  if code = 0 then .unset else if code = 1 then .ok else if code = 2 then .error else .unknown

/-- The name of a status. -/
def name : SpanStatus → String
  | .unset => "UNSET"
  | .ok => "OK"
  | .error => "ERROR"
  | .unknown => "UNKNOWN"

/-- The statuses by their names. -/
def names : List (String × SpanStatus) :=
  [SpanStatus.unset, .ok, .error, .unknown].map fun s => (s.name, s)

/-- The status of a name. -/
def ofName (text : String) : Except Error SpanStatus :=
  match names.lookup text with
  | some s => .ok s
  | none => .error (.invalidArgument (.unknownStatus text))

end SpanStatus

/-- A span of a trace, with its duration in nanoseconds. -/
structure Span where
  traceId : String
  spanId : String
  parentSpanId : Option String
  service : String
  operation : String
  start : Instant
  duration : Int
  status : SpanStatus
  attributes : Labels
  deriving Repr

/-- The instant at which a span ends. -/
def Span.finish (s : Span) : Except Error Instant := s.start.minus (-s.duration)

/-! ## Log records -/

/-- A log record. -/
structure LogRecord where
  time : Instant
  service : String
  level : String
  message : String
  attributes : Labels
  traceId : Option String
  spanId : Option String
  deriving Repr

/-! ## Records -/

/-- The kinds of records. -/
inductive RecordKind where
  | metrics
  | traces
  | logs
  deriving DecidableEq, Repr

/-- The name of a kind. -/
def RecordKind.name : RecordKind → String
  | .metrics => "metrics"
  | .traces => "traces"
  | .logs => "logs"

/-- A record of any kind. -/
inductive Record where
  | metric (m : Metric)
  | span (s : Span)
  | log (l : LogRecord)
  deriving Repr

namespace Record

/-- The kind of a record. -/
def kind : Record → RecordKind
  | .metric _ => .metrics
  | .span _ => .traces
  | .log _ => .logs

/-- The instant by which a record is ordered and expires. -/
def time : Record → Instant
  | .metric m => m.time
  | .span s => s.start
  | .log l => l.time

/-- The service a record belongs to. -/
def service : Record → String
  | .metric m => m.service
  | .span s => s.service
  | .log l => l.service

/-- A record in a few words. -/
def describe : Record → String
  | .metric m => "metric " ++ m.name ++ " at " ++ m.time.display
  | .span s => "span trace_id=" ++ s.traceId ++ " span_id=" ++ s.spanId
  | .log l =>
    match l.traceId with
    | some id => "log at " ++ l.time.display ++ " trace_id=" ++ id
    | none => "log at " ++ l.time.display

end Record

end Telemetry
