import Telemetry.Attribute
import Telemetry.Identifier
import Telemetry.Otlp.Message
import Telemetry.Record
import Telemetry.Series.Change
import Telemetry.Severity

/-!
From messages of the protocol to records.

Each span, each log record and each point of a metric is decoded on its own, with the service of its
resource. What one of them becomes is a unit: its records are stored together or not at all. A span
and a log record become one record each, and a point becomes one or more rows. What cannot be
decoded is counted, and the first reason is kept.
-/

set_option autoImplicit false

namespace Telemetry.Otlp

open Time (Instant)

/-! ## Outcomes -/

/-- Records that are stored together or not at all. -/
abbrev WriteUnit := List Record

/-- The units of a request, the number of what was refused, and why the first of it was. -/
structure Decoded where
  units : List WriteUnit := []
  rejected : Nat := 0
  firstError : Option Error := none
  deriving Repr

/-- Collects outcomes in order. -/
def Decoded.ofResults : List (Except Error WriteUnit) → Decoded
  | [] => {}
  | .ok unit :: rest =>
    let d := ofResults rest
    { d with units := unit :: d.units }
  | .error e :: rest =>
    let d := ofResults rest
    { d with rejected := d.rejected + 1, firstError := some e }

/-- The number of records in the units. -/
def Decoded.recordCount (d : Decoded) : Nat := d.units.flatten.length

/-! ## Attributes -/

mutual

/-- A value as an attribute value. An absent one has none, and neither have bytes. -/
def AnyValue.attribute? : AnyValue → Option AttributeValue
  | .empty | .bytes _ => none
  | .string s => some (.string s)
  | .bool b => some (.bool b)
  | .int n => some (.int n)
  | .double x => some (.float x)
  | .array values => some (.array (attributeItems values))
  | .kvlist entries => some (.map (attributeEntries entries))

/-- The values of an array; nothing stands for one that has no attribute value. -/
def attributeItems : List AnyValue → List AttributeValue
  | [] => []
  | v :: vs => (v.attribute?).getD .null :: attributeItems vs

/-- The entries of a map that have attribute values. -/
def attributeEntries : List (String × AnyValue) → List (String × AttributeValue)
  | [] => []
  | (k, v) :: vs =>
    match v.attribute? with
    | some a => (k, a) :: attributeEntries vs
    | none => attributeEntries vs

end

/-- The labels of attributes. -/
def labelsOf (kvs : List KeyValue) : Labels := Labels.ofAttributes (attributeEntries kvs)

/-- The text of a value, if it has one. -/
def AnyValue.label? (v : AnyValue) : Option String := v.attribute?.bind AttributeValue.toLabel?

/-- The service of a resource: the text of its first attribute `service.name`, or `unknown` when
there is none or it is empty. -/
def serviceName (resource : Option Resource) : String :=
  let named := (resource.map (·.attributes)).getD [] |>.find? fun kv => kv.1 == "service.name"
  match named.bind fun kv => kv.2.label? with
  | none => "unknown"
  | some name => if name.isEmpty then "unknown" else name

/-- The items of an export, each with the service of its resource. -/
def Export.items {α : Type} (e : Export α) : List (String × α) :=
  e.resources.flatMap fun r =>
    r.scopes.flatMap fun s => s.items.map fun i => (serviceName r.resource, i)

/-! ## Spans -/

/-- The nanoseconds from the start to the end of a span: none if it ends before it starts, and no
more than fit a 64-bit signed word. -/
def spanDuration (start stop : UInt64) : Int :=
  min (max 0 (Int.ofNat stop.toNat - Int.ofNat start.toNat)) Text.Integer.maxSigned64

/-- The record of a span. -/
def decodeSpan (service : String) (s : Span) : Except Error Telemetry.Span := do
  let some traceId := Identifier.encode? s.traceId | throw (.decode .emptyTraceId)
  let some spanId := Identifier.encode? s.spanId | throw (.decode .emptySpanId)
  let start ← Instant.ofWire s.startTime
  return {
    traceId, spanId
    parentSpanId := Identifier.encode? s.parentSpanId
    service
    operation := s.name
    start
    duration := spanDuration s.startTime s.endTime
    status := SpanStatus.ofWire ((s.status.map (·.code)).getD 0)
    attributes := labelsOf s.attributes }

/-! ## Log records -/

/-- The time of a log record: its own, else that of its observation, else that of its receipt. -/
def logTime (r : LogRecord) (received : Instant) : Except Error Instant :=
  if r.time ≠ 0 then Instant.ofWire r.time
  else if r.observedTime ≠ 0 then Instant.ofWire r.observedTime
  else .ok received

/-- The record of a log record. -/
def decodeLog (service : String) (received : Instant) (r : LogRecord) :
    Except Error Telemetry.LogRecord := do
  let time ← logTime r received
  return {
    time, service
    level := Severity.level r.severityText r.severityNumber
    message := r.body.label?.getD ""
    attributes := labelsOf r.attributes
    traceId := Identifier.encode? r.traceId
    spanId := Identifier.encode? r.spanId }

/-! ## Points -/

/-- The time of a point: its own, else that of its receipt. -/
def pointTime (time : UInt64) (received : Instant) : Except Error Instant :=
  if time = 0 then .ok received else Instant.ofWire time

/-- What the rows of a point have in common. -/
structure RowBase where
  metric : String
  service : String
  time : Instant
  labels : Labels

/-- A row of a point: the name of the metric with a suffix, and perhaps a further label. -/
def RowBase.row (b : RowBase) (suffix : String) (value : Float)
    (label : Option (String × String)) : Telemetry.Metric :=
  { time := b.time
    name := b.metric ++ suffix
    value
    labels := match label with
      | none => b.labels
      | some (k, v) => b.labels.insert k v
    service := b.service }

/-- A count as a double. -/
def ofCount (n : UInt64) : Float := n.toFloat

/-- The row of a sum, unless it is zero or absent. -/
def RowBase.sumRow (b : RowBase) : Option Float → List Telemetry.Metric
  | none => []
  | some total => if total != 0.0 then [b.row "_sum" total none] else []

/-- The row of a point of a gauge or a sum. -/
def numberRows (b : RowBase) (value : Float) : List Telemetry.Metric := [b.row "" value none]

/-- The rows of a point of a histogram: its count, its sum, and its buckets by their upper bounds.
-/
def histogramRows (b : RowBase) (p : HistogramPoint) : List Telemetry.Metric :=
  b.row "_count" (ofCount p.count) none :: b.sumRow p.sum ++
    (p.explicitBounds.zip p.bucketCounts).map fun (bound, count) =>
      b.row "_bucket" (ofCount count) (some ("le", Decimal.label bound))

/-- The rows of a point of an exponential histogram: its count and its sum. -/
def exponentialRows (b : RowBase) (p : ExponentialPoint) : List Telemetry.Metric :=
  b.row "_count" (ofCount p.count) none :: b.sumRow p.sum

/-- The rows of a point of a summary: its count, its sum, and its quantiles. -/
def summaryRows (b : RowBase) (p : SummaryPoint) : List Telemetry.Metric :=
  b.row "_count" (ofCount p.count) none :: b.sumRow (some p.sum) ++
    p.quantiles.map fun q => b.row "_quantile" q.value (some ("quantile", Decimal.label q.quantile))

/-- Decodes a point from its time and attributes, and the rows that it has. -/
def decodePoint (metric service : String) (received : Instant) (time : UInt64)
    (attributes : List KeyValue) (rows : RowBase → List Telemetry.Metric) :
    Except Error WriteUnit := do
  let time ← pointTime time received
  return (rows ⟨metric, service, time, labelsOf attributes⟩).map .metric

/-- The value of a number point. -/
def NumberValue.toFloat : NumberValue → Float
  | .double x => x
  | .int n => n.toFloat

/-- Decodes a point of a gauge or a sum, which needs a value. -/
def decodeNumber (metric service : String) (received : Instant) (p : NumberPoint) :
    Except Error WriteUnit :=
  match p.value with
  | none => .error (.decode (.pointWithoutValue metric))
  | some value =>
    decodePoint metric service received p.time p.attributes fun b => numberRows b value.toFloat

/-- Decodes the points of a metric. One without a name counts as often as it has points, but at
least once; one without data counts once. -/
def decodeMetric (service : String) (received : Instant) (m : Metric) :
    List (Except Error WriteUnit) :=
  if m.name.isEmpty then
    List.replicate (max ((m.data.map MetricData.size).getD 0) 1) (.error (.decode .emptyMetricName))
  else
    match m.data with
    | none => [.error (.decode (.metricWithoutData m.name))]
    | some (.gauge points) => points.map (decodeNumber m.name service received)
    | some (.sum points _ _) => points.map (decodeNumber m.name service received)
    | some (.histogram points _) => points.map fun p =>
        decodePoint m.name service received p.time p.attributes fun b => histogramRows b p
    | some (.exponential points _) => points.map fun p =>
        decodePoint m.name service received p.time p.attributes fun b => exponentialRows b p
    | some (.summary points) => points.map fun p =>
        decodePoint m.name service received p.time p.attributes fun b => summaryRows b p

/-! ## Exports -/

/-- Decodes an export of spans. -/
def decodeTraces (e : Export Span) : Decoded :=
  .ofResults (e.items.map fun (service, s) => (decodeSpan service s).map fun s => [.span s])

/-- Decodes an export of metrics. -/
def decodeMetrics (e : Export Metric) (received : Instant) : Decoded :=
  .ofResults (e.items.flatMap fun (service, m) => decodeMetric service received m)

/-- Decodes an export of log records. -/
def decodeLogs (e : Export LogRecord) (received : Instant) : Decoded :=
  .ofResults (e.items.map fun (service, r) => (decodeLog service received r).map fun l => [.log l])

end Telemetry.Otlp
