import Telemetry.Identifier
import Telemetry.Json.Decoder
import Telemetry.Json.Reader
import Telemetry.Otlp.Message
import Telemetry.Text.Base64

/-!
The messages of the protocol, read from JSON.

There are two stages. First the envelope is read: groups by resource and by scope, with their
attributes, while the items stay plain values. A fault there refuses the request. Then each item is
read and converted on its own, and one that fails is left out and counted. An attribute of a
resource or a scope that reads but does not convert is left out as well, and only counted.

Reading checks the types of members; converting decodes what stands in texts: identifiers, bytes,
and the names of enumerations. A value that has been read carries the outcome of its conversion.
-/

set_option autoImplicit false

namespace Telemetry.Otlp.FromJson

open Json (Decoder Fault)
open Json.Decoder (text bool double unsigned32 signed32 flexibleUnsigned64 flexibleSigned64
  optional list plain record)

/-! ## Enumerations -/

/-- A number of an enumeration, or its name. -/
inductive EnumForm where
  | number (n : Int32)
  | name (s : String)
  deriving Repr, Inhabited

/-- A number of 32 bits, or a string. -/
def enumForm : Decoder EnumForm := fun levels v =>
  match v with
  | .string s => .ok (.name s)
  | _ => (signed32 levels v).map .number

/-- The number that is meant; `field` says what it is when the name is none of those given. -/
def EnumForm.resolve (field : String) (names : List (String × Int32)) :
    EnumForm → Except DecodeFault Int32
  | .number n => .ok n
  | .name s =>
    match names.lookup s with
    | some n => .ok n
    | none => .error (.unknownValue field s)

/-- Names numbered from zero. -/
def numbered (names : List String) : List (String × Int32) :=
  names.zipIdx.map fun p => (p.1, Int32.ofNat p.2)

/-- The names of the status codes. -/
def statusCodes : List (String × Int32) :=
  numbered ["STATUS_CODE_UNSET", "STATUS_CODE_OK", "STATUS_CODE_ERROR"]

/-- The names of the kinds of spans. -/
def spanKinds : List (String × Int32) :=
  numbered ["SPAN_KIND_UNSPECIFIED", "SPAN_KIND_INTERNAL", "SPAN_KIND_SERVER", "SPAN_KIND_CLIENT",
    "SPAN_KIND_PRODUCER", "SPAN_KIND_CONSUMER"]

/-- The names of the temporalities. -/
def temporalities : List (String × Int32) :=
  numbered ["AGGREGATION_TEMPORALITY_UNSPECIFIED", "AGGREGATION_TEMPORALITY_DELTA",
    "AGGREGATION_TEMPORALITY_CUMULATIVE"]

/-- The names of the severities: six bands, each with its plain name and three numbered ones. -/
def severities : List (String × Int32) :=
  let bands := ["TRACE", "DEBUG", "INFO", "WARN", "ERROR", "FATAL"]
  numbered ("SEVERITY_NUMBER_UNSPECIFIED" ::
    bands.flatMap fun b => ["", "2", "3", "4"].map fun n => "SEVERITY_NUMBER_" ++ b ++ n)

/-! ## Attribute values -/

/-- The members of an attribute value, each as far as it is there. Nested values carry the outcome
of their conversion. -/
structure AnyValueForm where
  string : Option String := none
  bool : Option Bool := none
  int : Option Int64 := none
  double : Option Float := none
  array : Option (Except DecodeFault (List AnyValue)) := none
  kvlist : Option (Except DecodeFault (List KeyValue)) := none
  bytes : Option String := none

/-- Converts an attribute value. Of several members the first in this order counts. -/
def AnyValueForm.convert (f : AnyValueForm) : Except DecodeFault AnyValue :=
  match f.string, f.bool, f.int, f.double, f.array, f.kvlist, f.bytes with
  | some s, _, _, _, _, _, _ => .ok (.string s)
  | _, some b, _, _, _, _, _ => .ok (.bool b)
  | _, _, some n, _, _, _, _ => .ok (.int n)
  | _, _, _, some x, _, _, _ => .ok (.double x)
  | _, _, _, _, some values, _, _ => values.map .array
  | _, _, _, _, _, some entries, _ => entries.map .kvlist
  | _, _, _, _, _, _, some s =>
    match Text.Base64.decode (Text.Utf8.encode s.toList) with
    | .ok bs => .ok (.bytes bs)
    | .error e => .error (.invalidBytes e)
  | _, _, _, _, _, _, _ => .ok .empty

/-- An attribute that has been read, with the outcome of its conversion. -/
structure KeyValueForm where
  key : String
  value : Except DecodeFault AnyValue

/-- The attribute, if its value converts. -/
def KeyValueForm.convert (f : KeyValueForm) : Except DecodeFault KeyValue :=
  f.value.map fun v => (f.key, v)

/-- The attributes, if all of their values convert; else the first fault. -/
def convertAll (fs : List KeyValueForm) : Except DecodeFault (List KeyValue) :=
  fs.mapM KeyValueForm.convert

/-- The only member `values` of a record, which holds a list and may be absent. -/
def valuesOf {α : Type} (item : Decoder α) : Decoder (List α) :=
  record ["values"] 0 [] fun levels _ _ v => list item levels v

/-- Reads an attribute from its members, given a reading of its value. -/
def keyValueWith (value : Decoder (Except DecodeFault AnyValue)) : Decoder KeyValueForm :=
  fun levels v => do
    let set (levels : Nat) (p : Option String × Except DecodeFault AnyValue) (name : String)
        (v : Json) : Except Fault (Option String × Except DecodeFault AnyValue) := do
      match name with
      | "key" => return (some (← text levels v), p.2)
      | _ => return (p.1, (← optional value levels v).getD (.ok .empty))
    let (key, value) ← record ["key", "value"] 1 (none, .ok .empty) set levels v
    match key with
    | some key => return ⟨key, value⟩
    | none => throw (.missing "key")

/-- The names of the members of an attribute value. -/
def anyValueNames : List String :=
  ["stringValue", "boolValue", "intValue", "doubleValue", "arrayValue", "kvlistValue",
    "bytesValue"]

/-- An attribute value, where each further value inside takes from the fuel. -/
def anyValueWith : Nat → Decoder (Except DecodeFault AnyValue)
  | 0 => fun _ _ => .error .tooDeep
  | fuel + 1 => fun levels v => do
    let set (levels : Nat) (f : AnyValueForm) (name : String) (v : Json) :
        Except Fault AnyValueForm := do
      match name with
      | "stringValue" => return { f with string := ← optional text levels v }
      | "boolValue" => return { f with bool := ← optional bool levels v }
      | "intValue" => return { f with int := ← optional flexibleSigned64 levels v }
      | "doubleValue" => return { f with double := ← optional double levels v }
      | "arrayValue" => do
        let values ← optional (valuesOf (anyValueWith fuel)) levels v
        return { f with array := values.map fun vs => vs.mapM id }
      | "kvlistValue" => do
        let entries ← optional (valuesOf (keyValueWith (anyValueWith fuel))) levels v
        return { f with kvlist := entries.map convertAll }
      | _ => return { f with bytes := ← optional text levels v }
    let f ← record anyValueNames anyValueNames.length {} set levels v
    return f.convert

/-- An attribute value with the outcome of its conversion. A value inside another one is at least
two levels deeper, so the levels left are fuel enough. -/
def anyValue : Decoder (Except DecodeFault AnyValue) := fun levels v =>
  anyValueWith (levels + 1) levels v

/-- An attribute with the outcome of its conversion. -/
def keyValue : Decoder KeyValueForm := keyValueWith anyValue

/-- The attributes among the given ones whose values convert, and the number of the others. -/
def keepConvertible (fs : List KeyValueForm) : List KeyValue × Nat :=
  let kept := fs.filterMap fun f => f.convert.toOption
  (kept, fs.length - kept.length)

/-- Decodes the digits of an identifier in a field. -/
def identifier (field digits : String) : Except DecodeFault (List UInt8) :=
  (Identifier.decode digits).mapError (.inField field)

/-! ## Spans -/

/-- The members of a span. -/
structure SpanForm where
  traceId : String := ""
  spanId : String := ""
  parentSpanId : String := ""
  traceState : String := ""
  name : String := ""
  kind : EnumForm := .number 0
  startTime : UInt64 := 0
  endTime : UInt64 := 0
  attributes : List KeyValueForm := []
  status : Option (EnumForm × String) := none
  flags : UInt32 := 0

/-- A status. -/
def status : Decoder (EnumForm × String) :=
  record ["code", "message"] 0 (.number 0, "") fun levels s name v => do
    match name with
    | "code" => return (← enumForm levels v, s.2)
    | _ => return (s.1, ← text levels v)

/-- The names of the members of a span. -/
def spanNames : List String :=
  ["traceId", "spanId", "parentSpanId", "traceState", "name", "kind", "startTimeUnixNano",
    "endTimeUnixNano", "attributes", "status", "flags"]

/-- A span, read but not converted. -/
def spanForm : Decoder SpanForm :=
  record spanNames 0 {} fun levels s name v => do
    match name with
    | "traceId" => return { s with traceId := ← text levels v }
    | "spanId" => return { s with spanId := ← text levels v }
    | "parentSpanId" => return { s with parentSpanId := ← text levels v }
    | "traceState" => return { s with traceState := ← text levels v }
    | "name" => return { s with name := ← text levels v }
    | "kind" => return { s with kind := ← enumForm levels v }
    | "startTimeUnixNano" => return { s with startTime := ← flexibleUnsigned64 levels v }
    | "endTimeUnixNano" => return { s with endTime := ← flexibleUnsigned64 levels v }
    | "attributes" => return { s with attributes := ← list keyValue levels v }
    | "status" => return { s with status := ← optional status levels v }
    | _ => return { s with flags := ← unsigned32 levels v }

/-- Converts a span. -/
def SpanForm.convert (s : SpanForm) : Except DecodeFault Span := do
  let status ← s.status.mapM fun p => do
    return { message := p.2, code := ← p.1.resolve "status code" statusCodes : Status }
  return {
    traceId := ← identifier "traceId" s.traceId
    spanId := ← identifier "spanId" s.spanId
    parentSpanId := ← identifier "parentSpanId" s.parentSpanId
    traceState := s.traceState
    name := s.name
    kind := ← s.kind.resolve "span kind" spanKinds
    startTime := s.startTime
    endTime := s.endTime
    attributes := ← convertAll s.attributes
    status
    flags := s.flags }

/-! ## Log records -/

/-- The members of a log record. -/
structure LogRecordForm where
  time : UInt64 := 0
  observedTime : UInt64 := 0
  severityNumber : EnumForm := .number 0
  severityText : String := ""
  body : Except DecodeFault AnyValue := .ok .empty
  attributes : List KeyValueForm := []
  flags : UInt32 := 0
  traceId : String := ""
  spanId : String := ""

/-- The names of the members of a log record. -/
def logRecordNames : List String :=
  ["timeUnixNano", "observedTimeUnixNano", "severityNumber", "severityText", "body", "attributes",
    "flags", "traceId", "spanId"]

/-- A log record, read but not converted. -/
def logRecordForm : Decoder LogRecordForm :=
  record logRecordNames 0 {} fun levels r name v => do
    match name with
    | "timeUnixNano" => return { r with time := ← flexibleUnsigned64 levels v }
    | "observedTimeUnixNano" => return { r with observedTime := ← flexibleUnsigned64 levels v }
    | "severityNumber" => return { r with severityNumber := ← enumForm levels v }
    | "severityText" => return { r with severityText := ← text levels v }
    | "body" => return { r with body := (← optional anyValue levels v).getD (.ok .empty) }
    | "attributes" => return { r with attributes := ← list keyValue levels v }
    | "flags" => return { r with flags := ← unsigned32 levels v }
    | "traceId" => return { r with traceId := ← text levels v }
    | _ => return { r with spanId := ← text levels v }

/-- Converts a log record. -/
def LogRecordForm.convert (r : LogRecordForm) : Except DecodeFault LogRecord := do
  return {
    time := r.time
    observedTime := r.observedTime
    severityNumber := ← r.severityNumber.resolve "severity number" severities
    severityText := r.severityText
    body := ← r.body
    attributes := ← convertAll r.attributes
    flags := r.flags
    traceId := ← identifier "traceId" r.traceId
    spanId := ← identifier "spanId" r.spanId }

/-! ## Points -/

/-- The members of a point of a gauge or a sum. -/
structure NumberPointForm where
  attributes : List KeyValueForm := []
  startTime : UInt64 := 0
  time : UInt64 := 0
  double : Option Float := none
  int : Option Int64 := none
  flags : UInt32 := 0

/-- A point of a gauge or a sum, read but not converted. -/
def numberPointForm : Decoder NumberPointForm :=
  record ["attributes", "startTimeUnixNano", "timeUnixNano", "asDouble", "asInt", "flags"] 0 {}
    fun levels p name v => do
      match name with
      | "attributes" => return { p with attributes := ← list keyValue levels v }
      | "startTimeUnixNano" => return { p with startTime := ← flexibleUnsigned64 levels v }
      | "timeUnixNano" => return { p with time := ← flexibleUnsigned64 levels v }
      | "asDouble" => return { p with double := ← optional double levels v }
      | "asInt" => return { p with int := ← optional flexibleSigned64 levels v }
      | _ => return { p with flags := ← unsigned32 levels v }

/-- Converts a point of a gauge or a sum. A double goes before a whole number. -/
def NumberPointForm.convert (p : NumberPointForm) : Except DecodeFault NumberPoint := do
  return {
    attributes := ← convertAll p.attributes
    startTime := p.startTime
    time := p.time
    value := p.double.map .double <|> p.int.map .int
    flags := p.flags }

/-- A point whose attributes have been read but not converted, while the rest of it is ready. -/
structure PointForm (α : Type) where
  attributes : List KeyValueForm := []
  point : α

/-- The names of the members of a point of a histogram. -/
def histogramNames : List String :=
  ["attributes", "startTimeUnixNano", "timeUnixNano", "count", "sum", "bucketCounts",
    "explicitBounds", "min", "max"]

/-- A point of a histogram, read but not converted. -/
def histogramPointForm : Decoder (PointForm HistogramPoint) :=
  record histogramNames 0 { point := {} } fun levels ⟨attributes, p⟩ name v => do
    match name with
    | "attributes" => return ⟨← list keyValue levels v, p⟩
    | "startTimeUnixNano" =>
      return ⟨attributes, { p with startTime := ← flexibleUnsigned64 levels v }⟩
    | "timeUnixNano" => return ⟨attributes, { p with time := ← flexibleUnsigned64 levels v }⟩
    | "count" => return ⟨attributes, { p with count := ← flexibleUnsigned64 levels v }⟩
    | "sum" => return ⟨attributes, { p with sum := ← optional double levels v }⟩
    | "bucketCounts" =>
      return ⟨attributes, { p with bucketCounts := ← list flexibleUnsigned64 levels v }⟩
    | "explicitBounds" =>
      return ⟨attributes, { p with explicitBounds := ← list double levels v }⟩
    | "min" => return ⟨attributes, { p with min := ← optional double levels v }⟩
    | _ => return ⟨attributes, { p with max := ← optional double levels v }⟩

/-- Converts a point of a histogram. -/
def convertHistogramPoint (f : PointForm HistogramPoint) : Except DecodeFault HistogramPoint := do
  return { f.point with attributes := ← convertAll f.attributes }

/-- The names of the members of a point of an exponential histogram. -/
def exponentialNames : List String :=
  ["attributes", "startTimeUnixNano", "timeUnixNano", "count", "sum", "scale", "zeroCount"]

/-- A point of an exponential histogram, read but not converted. -/
def exponentialPointForm : Decoder (PointForm ExponentialPoint) :=
  record exponentialNames 0 { point := {} } fun levels ⟨attributes, p⟩ name v => do
    match name with
    | "attributes" => return ⟨← list keyValue levels v, p⟩
    | "startTimeUnixNano" =>
      return ⟨attributes, { p with startTime := ← flexibleUnsigned64 levels v }⟩
    | "timeUnixNano" => return ⟨attributes, { p with time := ← flexibleUnsigned64 levels v }⟩
    | "count" => return ⟨attributes, { p with count := ← flexibleUnsigned64 levels v }⟩
    | "sum" => return ⟨attributes, { p with sum := ← optional double levels v }⟩
    | "scale" => return ⟨attributes, { p with scale := ← signed32 levels v }⟩
    | _ => return ⟨attributes, { p with zeroCount := ← flexibleUnsigned64 levels v }⟩

/-- Converts a point of an exponential histogram. -/
def convertExponentialPoint (f : PointForm ExponentialPoint) :
    Except DecodeFault ExponentialPoint := do
  return { f.point with attributes := ← convertAll f.attributes }

/-- A quantile of a summary. -/
def quantile : Decoder Quantile :=
  record ["quantile", "value"] 0 {} fun levels q name v => do
    match name with
    | "quantile" => return { q with quantile := ← double levels v }
    | _ => return { q with value := ← double levels v }

/-- The names of the members of a point of a summary. -/
def summaryNames : List String :=
  ["attributes", "startTimeUnixNano", "timeUnixNano", "count", "sum", "quantileValues"]

/-- A point of a summary, read but not converted. -/
def summaryPointForm : Decoder (PointForm SummaryPoint) :=
  record summaryNames 0 { point := {} } fun levels ⟨attributes, p⟩ name v => do
    match name with
    | "attributes" => return ⟨← list keyValue levels v, p⟩
    | "startTimeUnixNano" =>
      return ⟨attributes, { p with startTime := ← flexibleUnsigned64 levels v }⟩
    | "timeUnixNano" => return ⟨attributes, { p with time := ← flexibleUnsigned64 levels v }⟩
    | "count" => return ⟨attributes, { p with count := ← flexibleUnsigned64 levels v }⟩
    | "sum" => return ⟨attributes, { p with sum := ← double levels v }⟩
    | _ => return ⟨attributes, { p with quantiles := ← list quantile levels v }⟩

/-- Converts a point of a summary. -/
def convertSummaryPoint (f : PointForm SummaryPoint) : Except DecodeFault SummaryPoint := do
  return { f.point with attributes := ← convertAll f.attributes }

/-! ## Items on their own -/

/-- Reads and converts a plain value. -/
def item {α β : Type} (form : Decoder α) (convert : α → Except DecodeFault β) (v : Json) :
    Except DecodeFault β :=
  match form Json.maxLevels v with
  | .ok a => convert a
  | .error f => .error (.malformedRecord f)

/-- A span on its own. -/
def span : Json → Except DecodeFault Span := item spanForm SpanForm.convert

/-- A log record on its own. -/
def logRecord : Json → Except DecodeFault LogRecord := item logRecordForm LogRecordForm.convert

/-- A point of a gauge or a sum on its own. -/
def numberPoint : Json → Except DecodeFault NumberPoint :=
  item numberPointForm NumberPointForm.convert

/-- A point of a histogram on its own. -/
def histogramPoint : Json → Except DecodeFault HistogramPoint :=
  item histogramPointForm convertHistogramPoint

/-- A point of an exponential histogram on its own. -/
def exponentialPoint : Json → Except DecodeFault ExponentialPoint :=
  item exponentialPointForm convertExponentialPoint

/-- A point of a summary on its own. -/
def summaryPoint : Json → Except DecodeFault SummaryPoint :=
  item summaryPointForm convertSummaryPoint

/-! ## Counting what is left out -/

/-- How many items were left out, why the first of them was, and how many attributes were. -/
structure Losses where
  rejected : Nat := 0
  firstError : Option Error := none
  droppedAttributes : Nat := 0
  deriving Repr, DecidableEq

namespace Losses

/-- Counts items that are left out for one reason. -/
def reject (l : Losses) (count : Nat) (fault : DecodeFault) : Losses :=
  { l with
    rejected := l.rejected + count
    firstError := l.firstError <|> some (.decode fault) }

/-- Counts attributes that are left out. -/
def drop (l : Losses) (count : Nat) : Losses :=
  { l with droppedAttributes := l.droppedAttributes + count }

/-- Keeps the items that convert, and counts the others. -/
def take {α : Type} (l : Losses) (convert : Json → Except DecodeFault α) :
    List Json → List α × Losses
  | [] => ([], l)
  | v :: vs =>
    match convert v with
    | .ok a =>
      let (as, l) := l.take convert vs
      (a :: as, l)
    | .error e => (l.reject 1 e).take convert vs

end Losses

/-! ## Metrics -/

/-- The data of a metric: points as plain values, and what belongs to all of them. -/
structure PointsForm where
  points : List Json := []
  temporality : EnumForm := .number 0
  monotonic : Bool := false

/-- The data of a metric. -/
def pointsForm : Decoder PointsForm :=
  record ["dataPoints", "aggregationTemporality", "isMonotonic"] 0 {} fun levels p name v => do
    match name with
    | "dataPoints" => return { p with points := ← list plain levels v }
    | "aggregationTemporality" => return { p with temporality := ← enumForm levels v }
    | _ => return { p with monotonic := ← bool levels v }

/-- The members of a metric. -/
structure MetricForm where
  name : String := ""
  description : String := ""
  unit : String := ""
  gauge : Option PointsForm := none
  sum : Option PointsForm := none
  histogram : Option PointsForm := none
  exponential : Option PointsForm := none
  summary : Option PointsForm := none

/-- The names of the members of a metric. -/
def metricNames : List String :=
  ["name", "description", "unit", "gauge", "sum", "histogram", "exponentialHistogram", "summary"]

/-- A metric, read while its points stay plain values. -/
def metricForm : Decoder MetricForm :=
  record metricNames 0 {} fun levels m name v => do
    match name with
    | "name" => return { m with name := ← text levels v }
    | "description" => return { m with description := ← text levels v }
    | "unit" => return { m with unit := ← text levels v }
    | "gauge" => return { m with gauge := ← optional pointsForm levels v }
    | "sum" => return { m with sum := ← optional pointsForm levels v }
    | "histogram" => return { m with histogram := ← optional pointsForm levels v }
    | "exponentialHistogram" => return { m with exponential := ← optional pointsForm levels v }
    | _ => return { m with summary := ← optional pointsForm levels v }

/-- The data whose temporality counts: none for a gauge, else the first that has one. -/
def MetricForm.temporal (m : MetricForm) : Option PointsForm :=
  match m.gauge with
  | some _ => none
  | none => m.sum <|> m.histogram <|> m.exponential

/-- The data of a metric with the points that convert. Of several kinds the first in this order
counts. -/
def MetricForm.takeData (m : MetricForm) (temporality : Int32) (l : Losses) :
    Option MetricData × Losses :=
  match m.gauge, m.sum, m.histogram, m.exponential, m.summary with
  | some d, _, _, _, _ =>
    let (points, l) := l.take numberPoint d.points
    (some (.gauge points), l)
  | _, some d, _, _, _ =>
    let (points, l) := l.take numberPoint d.points
    (some (.sum points temporality d.monotonic), l)
  | _, _, some d, _, _ =>
    let (points, l) := l.take histogramPoint d.points
    (some (.histogram points temporality), l)
  | _, _, _, some d, _ =>
    let (points, l) := l.take exponentialPoint d.points
    (some (.exponential points temporality), l)
  | _, _, _, _, some d =>
    let (points, l) := l.take summaryPoint d.points
    (some (.summary points), l)
  | _, _, _, _, _ => (none, l)

/-- Converts a metric. One whose temporality is unknown is left out with all of its points, and
counts at least once. -/
def MetricForm.take (m : MetricForm) (l : Losses) : Option Metric × Losses :=
  let resolved :=
    match m.temporal with
    | none => Except.ok 0
    | some d => d.temporality.resolve "aggregation temporality" temporalities
  match resolved with
  | .error e => (none, l.reject (max ((m.temporal.map fun d => d.points.length).getD 0) 1) e)
  | .ok temporality =>
    let (data, l) := m.takeData temporality l
    (some { name := m.name, description := m.description, unit := m.unit, data }, l)

/-- Reads and converts metrics; those that are none are left out. -/
def takeMetrics (l : Losses) : List Json → List Metric × Losses
  | [] => ([], l)
  | v :: vs =>
    match metricForm Json.maxLevels v with
    | .error f => takeMetrics (l.reject 1 (.malformedMetric f)) vs
    | .ok m =>
      let (metric, l) := m.take l
      let (metrics, l) := takeMetrics l vs
      (metric.toList ++ metrics, l)

/-! ## The envelope -/

/-- The members of a resource. -/
structure ResourceForm where
  attributes : List KeyValueForm := []
  droppedAttributes : UInt32 := 0

/-- A resource. -/
def resourceForm : Decoder ResourceForm :=
  record ["attributes", "droppedAttributesCount"] 0 {} fun levels r name v => do
    match name with
    | "attributes" => return { r with attributes := ← list keyValue levels v }
    | _ => return { r with droppedAttributes := ← unsigned32 levels v }

/-- The members of a scope. -/
structure ScopeForm where
  name : String := ""
  version : String := ""
  attributes : List KeyValueForm := []

/-- A scope. -/
def scopeForm : Decoder ScopeForm :=
  record ["name", "version", "attributes"] 0 {} fun levels s name v => do
    match name with
    | "name" => return { s with name := ← text levels v }
    | "version" => return { s with version := ← text levels v }
    | _ => return { s with attributes := ← list keyValue levels v }

/-- A group by scope, its items as plain values. -/
structure ScopeGroupForm where
  scope : Option ScopeForm := none
  items : List Json := []
  schemaUrl : String := ""

/-- A group by resource. -/
structure ResourceGroupForm where
  resource : Option ResourceForm := none
  scopes : List ScopeGroupForm := []
  schemaUrl : String := ""

/-- The names of the members by which the signals differ. -/
structure Naming where
  resources : String
  scopes : String
  items : String

/-- A group by scope. -/
def scopeGroupForm (n : Naming) : Decoder ScopeGroupForm :=
  record ["scope", n.items, "schemaUrl"] 0 {} fun levels g name v => do
    if name = "scope" then return { g with scope := ← optional scopeForm levels v }
    else if name = "schemaUrl" then return { g with schemaUrl := ← text levels v }
    else return { g with items := ← list plain levels v }

/-- A group by resource. -/
def resourceGroupForm (n : Naming) : Decoder ResourceGroupForm :=
  record ["resource", n.scopes, "schemaUrl"] 0 {} fun levels g name v => do
    if name = "resource" then return { g with resource := ← optional resourceForm levels v }
    else if name = "schemaUrl" then return { g with schemaUrl := ← text levels v }
    else return { g with scopes := ← list (scopeGroupForm n) levels v }

/-- An envelope. -/
def envelopeForm (n : Naming) : Decoder (List ResourceGroupForm) :=
  record [n.resources] 0 [] fun levels _ _ v => list (resourceGroupForm n) levels v

/-- The naming of spans. -/
def traceNaming : Naming := ⟨"resourceSpans", "scopeSpans", "spans"⟩

/-- The naming of metrics. -/
def metricNaming : Naming := ⟨"resourceMetrics", "scopeMetrics", "metrics"⟩

/-- The naming of log records. -/
def logNaming : Naming := ⟨"resourceLogs", "scopeLogs", "logRecords"⟩

/-! ## Requests -/

/-- A request with what was left out of it. -/
structure Partial (α : Type) where
  request : Export α
  losses : Losses

/-- Converts a group by scope: its items first, then the scope. -/
def takeScope {α : Type} (takeItems : Losses → List Json → List α × Losses) (g : ScopeGroupForm)
    (l : Losses) : ScopeGroup α × Losses :=
  let (items, l) := takeItems l g.items
  match g.scope with
  | none => ({ items, schemaUrl := g.schemaUrl }, l)
  | some s =>
    let (attributes, dropped) := keepConvertible s.attributes
    ({ scope := some { name := s.name, version := s.version, attributes }, items,
       schemaUrl := g.schemaUrl }, l.drop dropped)

/-- Converts groups by scope in order. -/
def takeScopes {α : Type} (takeItems : Losses → List Json → List α × Losses) :
    List ScopeGroupForm → Losses → List (ScopeGroup α) × Losses
  | [], l => ([], l)
  | g :: gs, l =>
    let (group, l) := takeScope takeItems g l
    let (groups, l) := takeScopes takeItems gs l
    (group :: groups, l)

/-- Converts a group by resource: its scopes first, then the resource. -/
def takeResource {α : Type} (takeItems : Losses → List Json → List α × Losses)
    (g : ResourceGroupForm) (l : Losses) : ResourceGroup α × Losses :=
  let (scopes, l) := takeScopes takeItems g.scopes l
  match g.resource with
  | none => ({ scopes, schemaUrl := g.schemaUrl }, l)
  | some r =>
    let (attributes, dropped) := keepConvertible r.attributes
    ({ resource := some { attributes, droppedAttributes := r.droppedAttributes }, scopes,
       schemaUrl := g.schemaUrl }, l.drop dropped)

/-- Converts groups by resource in order. -/
def takeResources {α : Type} (takeItems : Losses → List Json → List α × Losses) :
    List ResourceGroupForm → Losses → List (ResourceGroup α) × Losses
  | [], l => ([], l)
  | g :: gs, l =>
    let (group, l) := takeResource takeItems g l
    let (groups, l) := takeResources takeItems gs l
    (group :: groups, l)

/-- Reads an envelope and converts what is in it. -/
def request {α : Type} (n : Naming) (takeItems : Losses → List Json → List α × Losses)
    (body : List UInt8) : Except Error (Partial α) :=
  match (do envelopeForm n Json.maxLevels (← Json.read body)) with
  | .error f => .error (.decode (.malformedBody f))
  | .ok groups =>
    let (resources, losses) := takeResources takeItems groups {}
    .ok ⟨⟨resources⟩, losses⟩

/-- An export of spans. -/
def traces : List UInt8 → Except Error (Partial Span) :=
  request traceNaming fun l vs => l.take span vs

/-- An export of metrics. -/
def metrics : List UInt8 → Except Error (Partial Metric) := request metricNaming takeMetrics

/-- An export of log records. -/
def logs : List UInt8 → Except Error (Partial LogRecord) :=
  request logNaming fun l vs => l.take logRecord vs

end Telemetry.Otlp.FromJson
