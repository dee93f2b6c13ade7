import Telemetry.Record.Json

/-!
The columns of the tables: what is written of a record, and how it is read again.

An instant is a number of nanoseconds since the epoch, the status of a span is its name, and labels
and attributes are the text of a JSON object. All else is written as it is. The table of spans has
constraints: the duration must not be negative, and the identifier of a parent may be absent but not
empty.
-/

set_option autoImplicit false

namespace Telemetry

open Time (Instant)

/-! ## Columns of text -/

/-- Labels as the text of a column. -/
def Labels.document (labels : Labels) : String := labels.toJson.render

/-- The labels in the text of a column. -/
def Labels.ofDocument (text : String) : Except Error Labels :=
  match Json.readText text >>= Json.Decoder.labelSet Json.maxLevels with
  | .ok labels => .ok labels
  | .error fault => .error (.storage (.attributesUnreadable fault))

/-- The status in the text of a column. -/
def SpanStatus.ofColumn (text : String) : Except Error SpanStatus :=
  match SpanStatus.ofName text with
  | .ok status => .ok status
  | .error _ => .error (.storage (.badStatus text))

/-! ## Metrics -/

/-- The columns of a metric. -/
structure MetricColumns where
  time : Int
  name : String
  value : Float
  labels : String
  service : String

/-- What is written of a metric. -/
def Metric.columns (m : Metric) : Except Error MetricColumns := do
  return {
    time := ← m.time.toWord
    name := m.name
    value := m.value
    labels := m.labels.document
    service := m.service }

/-- The metric that is read from columns. -/
def MetricColumns.read (c : MetricColumns) : Except Error Metric := do
  return {
    time := .ofNanos c.time
    name := c.name
    value := c.value
    labels := ← Labels.ofDocument c.labels
    service := c.service }

/-! ## Spans -/

/-- The columns of a span. -/
structure SpanColumns where
  traceId : String
  spanId : String
  parentSpanId : Option String
  service : String
  operation : String
  start : Int
  duration : Int
  status : String
  attributes : String

/-- What is written of a span. -/
def Span.columns (s : Span) : Except Error SpanColumns := do
  return {
    traceId := s.traceId
    spanId := s.spanId
    parentSpanId := s.parentSpanId
    service := s.service
    operation := s.operation
    start := ← s.start.toWord
    duration := s.duration
    status := s.status.name
    attributes := s.attributes.document }

/-- The constraints of the table of spans. -/
def SpanColumns.check (c : SpanColumns) : Except Error Unit := do
  if c.duration < 0 then throw (.storage (.spanRefused "the duration is negative"))
  if c.parentSpanId = some "" then
    throw (.storage (.spanRefused "the identifier of the parent is empty"))

/-- The span that is read from columns. -/
def SpanColumns.read (c : SpanColumns) : Except Error Span := do
  return {
    traceId := c.traceId
    spanId := c.spanId
    parentSpanId := c.parentSpanId
    service := c.service
    operation := c.operation
    start := .ofNanos c.start
    duration := c.duration
    status := ← SpanStatus.ofColumn c.status
    attributes := ← Labels.ofDocument c.attributes }

/-! ## Log records -/

/-- The columns of a log record. -/
structure LogColumns where
  time : Int
  service : String
  level : String
  message : String
  attributes : String
  traceId : Option String
  spanId : Option String

/-- What is written of a log record. -/
def LogRecord.columns (l : LogRecord) : Except Error LogColumns := do
  return {
    time := ← l.time.toWord
    service := l.service
    level := l.level
    message := l.message
    attributes := l.attributes.document
    traceId := l.traceId
    spanId := l.spanId }

/-- The log record that is read from columns. -/
def LogColumns.read (c : LogColumns) : Except Error LogRecord := do
  return {
    time := .ofNanos c.time
    service := c.service
    level := c.level
    message := c.message
    attributes := ← Labels.ofDocument c.attributes
    traceId := c.traceId
    spanId := c.spanId }

/-! ## Admission -/

/-- A metric as it is stored: as it is read from the columns that are written of it. -/
def Metric.admit (m : Metric) : Except Error Metric := do (← m.columns).read

/-- A span as it is stored. -/
def Span.admit (s : Span) : Except Error Span := do
  let c ← s.columns
  c.check
  c.read

/-- A log record as it is stored. -/
def LogRecord.admit (l : LogRecord) : Except Error LogRecord := do (← l.columns).read

/-- A record as it is stored; an error where it cannot be. -/
def Record.admit : Record → Except Error Record
  | .metric m => m.admit.map .metric
  | .span s => s.admit.map .span
  | .log l => l.admit.map .log

end Telemetry
