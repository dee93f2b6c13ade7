import Telemetry.Otlp.Request
import Telemetry.Proofs.Json.Shape
import Telemetry.Proofs.Text.Hex

/-!
What the messages of the protocol look like in JSON.

Members have the names of the fields in camel case. A number of 64 bits may be a decimal text, a
number of an enumeration may be its name, identifiers are in hexadecimal digits of either case, and
bytes are in base 64. A field that has its default may be left out, except for the key of an
attribute and for the members of which only one is there or that may be absent: these stand there
if and only if they are set. A message inside another one that is absent looks like an empty one.
-/

set_option autoImplicit false

namespace Telemetry.Otlp

open Json (Shape Field)
open FromJson (Naming)

/-! ## Scalars -/

/-- The number of an enumeration, or its name if it has one. -/
def enumShape (names : List (String × Int32)) (n : Int32) : Shape :=
  .scalar fun v => v = .number (.whole n.toInt) ∨ ∃ s, v = .string s ∧ names.lookup s = some n

/-- Bytes in hexadecimal digits. -/
def hexShape (bytes : List UInt8) : Shape := .textOf fun s => Text.Hex.IsHex s.toList bytes

/-- Bytes in base 64. -/
def base64Shape (bytes : List UInt8) : Shape :=
  .textOf fun s => Text.Utf8.encode s.toList = Text.Base64.encode bytes

/-! ## Attributes -/

mutual

/-- An attribute value: a record with the one member of its kind. -/
def AnyValue.shape (v : AnyValue) : Shape :=
  .object FromJson.anyValueNames <|
    match v with
    | .empty => []
    | .string s => [("stringValue", False, .text s)]
    | .bool b => [("boolValue", False, .bool b)]
    | .int n => [("intValue", False, .signed64 n)]
    | .double x => [("doubleValue", False, .double x)]
    | .array values =>
      [("arrayValue", False,
        .object ["values"] [("values", values = [], .array (itemShapes values))])]
    | .kvlist entries =>
      [("kvlistValue", False,
        .object ["values"] [("values", entries = [], .array (entryShapes entries))])]
    | .bytes bytes => [("bytesValue", False, base64Shape bytes)]

/-- The items of an array. -/
def itemShapes : List AnyValue → List Shape
  | [] => []
  | v :: vs => v.shape :: itemShapes vs

/-- The entries of a map. -/
def entryShapes : List (String × AnyValue) → List Shape
  | [] => []
  | (key, v) :: entries =>
    .object ["key", "value"] [("key", False, .text key), ("value", v = .empty, v.shape)] ::
      entryShapes entries

end

/-- An attribute. -/
def keyValueShape (kv : KeyValue) : Shape :=
  .object ["key", "value"] [("key", False, .text kv.1), ("value", kv.2 = .empty, kv.2.shape)]

theorem itemShapes_eq_map (values : List AnyValue) :
    itemShapes values = values.map AnyValue.shape := by
  induction values with
  | nil => rfl
  | cons v vs ih => rw [itemShapes, ih, List.map_cons]

theorem entryShapes_eq_map (entries : List KeyValue) :
    entryShapes entries = entries.map keyValueShape := by
  induction entries with
  | nil => rfl
  | cons kv entries ih => rw [entryShapes, ih, List.map_cons, keyValueShape]

/-! ## Fields -/

/-- A text, which may be left out if it is empty. -/
def textField (name s : String) : Field := (name, s = "", .text s)

/-- An unsigned number of 64 bits, which may be left out if it is zero. -/
def unsigned64Field (name : String) (n : UInt64) : Field := (name, n = 0, .unsigned64 n)

/-- An unsigned number of 32 bits, which may be left out if it is zero. -/
def unsigned32Field (name : String) (n : UInt32) : Field := (name, n = 0, .whole n.toNat)

/-- An identifier, which may be left out if it is empty. -/
def hexField (name : String) (bytes : List UInt8) : Field := (name, bytes = [], hexShape bytes)

/-- A number of an enumeration, which may be left out if it is zero. -/
def enumField (name : String) (names : List (String × Int32)) (n : Int32) : Field :=
  (name, n = 0, enumShape names n)

/-- A double, which may be left out if it is zero. -/
def doubleField (name : String) (x : Float) : Field := (name, x = 0.0, .double x)

/-- Something that is there if and only if it is set. -/
def optionField {α : Type} (name : String) (shape : α → Shape) (a : Option α) : Field :=
  (name, a = none, .ofOption shape a)

/-- A list, which may be left out if it is empty. -/
def listField {α : Type} (name : String) (shape : α → Shape) (as : List α) : Field :=
  (name, as = [], .array (as.map shape))

/-- A message, which may be left out if it is absent or empty. -/
def messageField {α : Type} [Inhabited α] (name : String) (shape : α → Shape) (a : Option α) :
    Field :=
  (name, a.getD default = default, shape (a.getD default))

/-! ## Spans -/

/-- A status. -/
def Status.shape (s : Status) : Shape :=
  .object ["code", "message"]
    [enumField "code" FromJson.statusCodes s.code, textField "message" s.message]

/-- The fields of a span. -/
def Span.fields (s : Span) : List Field :=
  [hexField "traceId" s.traceId,
    hexField "spanId" s.spanId,
    hexField "parentSpanId" s.parentSpanId,
    textField "traceState" s.traceState,
    textField "name" s.name,
    enumField "kind" FromJson.spanKinds s.kind,
    unsigned64Field "startTimeUnixNano" s.startTime,
    unsigned64Field "endTimeUnixNano" s.endTime,
    listField "attributes" keyValueShape s.attributes,
    messageField "status" Status.shape s.status,
    unsigned32Field "flags" s.flags]

/-- A span. -/
def Span.shape (s : Span) : Shape := .object FromJson.spanNames s.fields

/-! ## Log records -/

/-- The fields of a log record. -/
def LogRecord.fields (r : LogRecord) : List Field :=
  [unsigned64Field "timeUnixNano" r.time,
    unsigned64Field "observedTimeUnixNano" r.observedTime,
    enumField "severityNumber" FromJson.severities r.severityNumber,
    textField "severityText" r.severityText,
    ("body", r.body = .empty, r.body.shape),
    listField "attributes" keyValueShape r.attributes,
    unsigned32Field "flags" r.flags,
    hexField "traceId" r.traceId,
    hexField "spanId" r.spanId]

/-- A log record. -/
def LogRecord.shape (r : LogRecord) : Shape := .object FromJson.logRecordNames r.fields

/-! ## Points -/

/-- The value of a number point, if it is a double. -/
def NumberPoint.double? (p : NumberPoint) : Option Float :=
  match p.value with
  | some (.double x) => some x
  | _ => none

/-- The value of a number point, if it is a whole number. -/
def NumberPoint.int? (p : NumberPoint) : Option Int64 :=
  match p.value with
  | some (.int n) => some n
  | _ => none

/-- A point of a gauge or a sum. -/
def NumberPoint.shape (p : NumberPoint) : Shape :=
  .object ["attributes", "startTimeUnixNano", "timeUnixNano", "asDouble", "asInt", "flags"]
    [listField "attributes" keyValueShape p.attributes,
      unsigned64Field "startTimeUnixNano" p.startTime,
      unsigned64Field "timeUnixNano" p.time,
      optionField "asDouble" .double p.double?,
      optionField "asInt" .signed64 p.int?,
      unsigned32Field "flags" p.flags]

/-- A point of a histogram. -/
def HistogramPoint.shape (p : HistogramPoint) : Shape :=
  .object FromJson.histogramNames
    [listField "attributes" keyValueShape p.attributes,
      unsigned64Field "startTimeUnixNano" p.startTime,
      unsigned64Field "timeUnixNano" p.time,
      unsigned64Field "count" p.count,
      optionField "sum" .double p.sum,
      listField "bucketCounts" .unsigned64 p.bucketCounts,
      listField "explicitBounds" .double p.explicitBounds,
      optionField "min" .double p.min,
      optionField "max" .double p.max]

/-- A point of an exponential histogram. -/
def ExponentialPoint.shape (p : ExponentialPoint) : Shape :=
  .object FromJson.exponentialNames
    [listField "attributes" keyValueShape p.attributes,
      unsigned64Field "startTimeUnixNano" p.startTime,
      unsigned64Field "timeUnixNano" p.time,
      unsigned64Field "count" p.count,
      optionField "sum" .double p.sum,
      ("scale", p.scale = 0, .whole p.scale.toInt),
      unsigned64Field "zeroCount" p.zeroCount]

/-- A quantile of a summary. -/
def Quantile.shape (q : Quantile) : Shape :=
  .object ["quantile", "value"] [doubleField "quantile" q.quantile, doubleField "value" q.value]

/-- A point of a summary. -/
def SummaryPoint.shape (p : SummaryPoint) : Shape :=
  .object FromJson.summaryNames
    [listField "attributes" keyValueShape p.attributes,
      unsigned64Field "startTimeUnixNano" p.startTime,
      unsigned64Field "timeUnixNano" p.time,
      unsigned64Field "count" p.count,
      doubleField "sum" p.sum,
      listField "quantileValues" Quantile.shape p.quantiles]

/-! ## Metrics -/

/-- The names of the members of the data of a metric. -/
def pointsNames : List String := ["dataPoints", "aggregationTemporality", "isMonotonic"]

/-- The data of a metric without the members that its kind does not have. -/
def pointsShape {α : Type} (shape : α → Shape) (points : List α) (others : List Field) : Shape :=
  .object pointsNames (listField "dataPoints" shape points :: others)

/-- The temporality of data. -/
def temporalityField (temporality : Int32) : Field :=
  enumField "aggregationTemporality" FromJson.temporalities temporality

/-- Whether values only go up. -/
def monotonicField (monotonic : Bool) : Field :=
  ("isMonotonic", monotonic = false, .bool monotonic)

/-- The data of a metric, if it is a gauge. -/
def Metric.gauge? (m : Metric) : Option (List NumberPoint) :=
  match m.data with
  | some (.gauge points) => some points
  | _ => none

/-- The data of a metric, if it is a sum. -/
def Metric.sum? (m : Metric) : Option (List NumberPoint × Int32 × Bool) :=
  match m.data with
  | some (.sum points temporality monotonic) => some (points, temporality, monotonic)
  | _ => none

/-- The data of a metric, if it is a histogram. -/
def Metric.histogram? (m : Metric) : Option (List HistogramPoint × Int32) :=
  match m.data with
  | some (.histogram points temporality) => some (points, temporality)
  | _ => none

/-- The data of a metric, if it is an exponential histogram. -/
def Metric.exponential? (m : Metric) : Option (List ExponentialPoint × Int32) :=
  match m.data with
  | some (.exponential points temporality) => some (points, temporality)
  | _ => none

/-- The data of a metric, if it is a summary. -/
def Metric.summary? (m : Metric) : Option (List SummaryPoint) :=
  match m.data with
  | some (.summary points) => some points
  | _ => none

/-- A gauge. -/
def gaugeShape (points : List NumberPoint) : Shape := pointsShape NumberPoint.shape points []

/-- A sum. -/
def sumShape (d : List NumberPoint × Int32 × Bool) : Shape :=
  pointsShape NumberPoint.shape d.1 [temporalityField d.2.1, monotonicField d.2.2]

/-- A histogram. -/
def histogramShape (d : List HistogramPoint × Int32) : Shape :=
  pointsShape HistogramPoint.shape d.1 [temporalityField d.2]

/-- An exponential histogram. -/
def exponentialShape (d : List ExponentialPoint × Int32) : Shape :=
  pointsShape ExponentialPoint.shape d.1 [temporalityField d.2]

/-- A summary. -/
def summaryShape (points : List SummaryPoint) : Shape := pointsShape SummaryPoint.shape points []

/-- The fields of a metric. -/
def Metric.fields (m : Metric) : List Field :=
  [textField "name" m.name,
    textField "description" m.description,
    textField "unit" m.unit,
    optionField "gauge" gaugeShape m.gauge?,
    optionField "sum" sumShape m.sum?,
    optionField "histogram" histogramShape m.histogram?,
    optionField "exponentialHistogram" exponentialShape m.exponential?,
    optionField "summary" summaryShape m.summary?]

/-- A metric. -/
def Metric.shape (m : Metric) : Shape := .object FromJson.metricNames m.fields

/-! ## The envelope -/

/-- A resource. -/
def Resource.shape (r : Resource) : Shape :=
  .object ["attributes", "droppedAttributesCount"]
    [listField "attributes" keyValueShape r.attributes,
      unsigned32Field "droppedAttributesCount" r.droppedAttributes]

/-- A scope. -/
def Scope.shape (s : Scope) : Shape :=
  .object ["name", "version", "attributes"]
    [textField "name" s.name, textField "version" s.version,
      listField "attributes" keyValueShape s.attributes]

section Envelope

variable {α : Type} (n : Naming) (item : α → Shape)

/-- A group by scope. -/
def ScopeGroup.shape (g : ScopeGroup α) : Shape :=
  .object ["scope", n.items, "schemaUrl"]
    [messageField "scope" Scope.shape g.scope, listField n.items item g.items,
      textField "schemaUrl" g.schemaUrl]

/-- A group by resource. -/
def ResourceGroup.shape (g : ResourceGroup α) : Shape :=
  .object ["resource", n.scopes, "schemaUrl"]
    [messageField "resource" Resource.shape g.resource,
      listField n.scopes (ScopeGroup.shape n item) g.scopes, textField "schemaUrl" g.schemaUrl]

/-- An export. -/
def Export.shape (e : Export α) : Shape :=
  .object [n.resources] [listField n.resources (ResourceGroup.shape n item) e.resources]

end Envelope

/-- The kind of records that a request exports. -/
def Request.kind : Request → RecordKind
  | .metrics _ => .metrics
  | .traces _ => .traces
  | .logs _ => .logs

/-- What a request looks like in JSON. -/
def Request.shape : Request → Shape
  | .metrics e => e.shape FromJson.metricNaming Metric.shape
  | .traces e => e.shape FromJson.traceNaming Span.shape
  | .logs e => e.shape FromJson.logNaming LogRecord.shape

end Telemetry.Otlp
