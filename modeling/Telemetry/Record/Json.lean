import Telemetry.Json.Decoder
import Telemetry.Json.Reader
import Telemetry.Record

/-!
Records as JSON.

A record is written with its members in a fixed order. When one is read, its kind is not named: it
is the first of metric, span and log record whose members it has. Members that are unknown are
skipped, those that may be absent are identifiers, and an array of all members in their order will
do as well.
-/

set_option autoImplicit false

namespace Telemetry

open Time (Instant)

/-! ## Writing -/

/-- Labels as an object. -/
def Labels.toJson (labels : Labels) : Json :=
  .object (labels.entries.map fun e => (e.1, .string e.2))

/-- The members of a metric, in order. -/
def Metric.members (m : Metric) : List (String × Json) :=
  [("timestamp", .string m.time.document), ("metric_name", .string m.name),
    ("value", .ofFloat m.value), ("labels", m.labels.toJson), ("service_name", .string m.service)]

/-- The members of a span, in order. -/
def Span.members (s : Span) : List (String × Json) :=
  [("trace_id", .string s.traceId), ("span_id", .string s.spanId),
    ("parent_span_id", .ofText? s.parentSpanId), ("service_name", .string s.service),
    ("operation_name", .string s.operation), ("start_time", .string s.start.document),
    ("duration_nanos", .ofInt s.duration), ("status_code", .string s.status.name),
    ("attributes", s.attributes.toJson)]

/-- The members of a log record, in order. -/
def LogRecord.members (l : LogRecord) : List (String × Json) :=
  [("timestamp", .string l.time.document), ("service_name", .string l.service),
    ("level", .string l.level), ("message", .string l.message),
    ("attributes", l.attributes.toJson), ("trace_id", .ofText? l.traceId),
    ("span_id", .ofText? l.spanId)]

/-- The members of a record, in order. -/
def Record.members : Record → List (String × Json)
  | .metric m => m.members
  | .span s => s.members
  | .log l => l.members

/-- A record as an object. -/
def Record.toJson (r : Record) : Json := .object r.members

/-! ## Reading -/

namespace Json.Decoder

/-- A value that has to be there. -/
def required {α : Type} (name : String) : Option α → Except Fault α
  | some a => .ok a
  | none => .error (.missing name)

/-- Labels. -/
def labelSet : Decoder Labels := fun levels v => do
  return Dictionary.ofList (← dictionary text levels v)

/-- An instant, leniently read. -/
def instant : Decoder Instant := fun levels v => do
  match Time.lenient? (← text levels v).toList with
  | some t => return t
  | none => throw (.unexpected "a date and time")

/-- The members of any record, as far as they have been read. -/
structure Parts where
  timestamp : Option Instant := none
  metricName : Option String := none
  value : Option Float := none
  labels : Option Labels := none
  serviceName : Option String := none
  traceId : Option String := none
  spanId : Option String := none
  parentSpanId : Option String := none
  operationName : Option String := none
  startTime : Option Instant := none
  durationNanos : Option Int := none
  statusCode : Option SpanStatus := none
  attributes : Option Labels := none
  level : Option String := none
  message : Option String := none

/-- Reads a member that metrics, spans or log records have. An identifier that is null is as good as
absent. -/
def Parts.set (levels : Nat) (p : Parts) (name : String) (v : Json) : Except Fault Parts := do
  match name with
  | "timestamp" => return { p with timestamp := ← instant levels v }
  | "metric_name" => return { p with metricName := ← text levels v }
  | "value" => return { p with value := ← double levels v }
  | "labels" => return { p with labels := ← labelSet levels v }
  | "service_name" => return { p with serviceName := ← text levels v }
  | "trace_id" => return { p with traceId := ← optional text levels v }
  | "span_id" => return { p with spanId := ← optional text levels v }
  | "parent_span_id" => return { p with parentSpanId := ← optional text levels v }
  | "operation_name" => return { p with operationName := ← text levels v }
  | "start_time" => return { p with startTime := ← instant levels v }
  | "duration_nanos" =>
    return { p with durationNanos := (← signed64 levels v).toInt }
  | "status_code" => return { p with statusCode := ← variant SpanStatus.names levels v }
  | "attributes" => return { p with attributes := ← labelSet levels v }
  | "level" => return { p with level := ← text levels v }
  | "message" => return { p with message := ← text levels v }
  | _ => return p

/-- A metric. -/
def metric : Decoder Metric := fun levels v => do
  let names := ["timestamp", "metric_name", "value", "labels", "service_name"]
  let p ← record names names.length {} Parts.set levels v
  return {
    time := ← required "timestamp" p.timestamp
    name := ← required "metric_name" p.metricName
    value := ← required "value" p.value
    labels := ← required "labels" p.labels
    service := ← required "service_name" p.serviceName }

/-- A span. -/
def span : Decoder Span := fun levels v => do
  let names := ["trace_id", "span_id", "parent_span_id", "service_name", "operation_name",
    "start_time", "duration_nanos", "status_code", "attributes"]
  let p ← record names names.length {} Parts.set levels v
  return {
    traceId := ← required "trace_id" p.traceId
    spanId := ← required "span_id" p.spanId
    parentSpanId := p.parentSpanId
    service := ← required "service_name" p.serviceName
    operation := ← required "operation_name" p.operationName
    start := ← required "start_time" p.startTime
    duration := ← required "duration_nanos" p.durationNanos
    status := ← required "status_code" p.statusCode
    attributes := ← required "attributes" p.attributes }

/-- A log record. -/
def logRecord : Decoder LogRecord := fun levels v => do
  let names := ["timestamp", "service_name", "level", "message", "attributes", "trace_id",
    "span_id"]
  let p ← record names names.length {} Parts.set levels v
  return {
    time := ← required "timestamp" p.timestamp
    service := ← required "service_name" p.serviceName
    level := ← required "level" p.level
    message := ← required "message" p.message
    attributes := ← required "attributes" p.attributes
    traceId := p.traceId
    spanId := p.spanId }

end Json.Decoder

/-- The record that a text describes. -/
def Record.ofText (text : String) : Except Json.Fault Record := do
  let v ← Json.readText text
  let _ ← v.settle Json.maxLevels
  match Json.Decoder.metric Json.maxLevels v with
  | .ok m => return .metric m
  | .error _ =>
    match Json.Decoder.span Json.maxLevels v with
    | .ok s => return .span s
    | .error _ =>
      match Json.Decoder.logRecord Json.maxLevels v with
      | .ok l => return .log l
      | .error _ => throw (.unexpected "a metric, a span or a log record")

end Telemetry
