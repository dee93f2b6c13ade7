/-!
The messages of the OpenTelemetry protocol, as far as they are looked at here.

All three signals share one envelope: an export holds groups by resource, these hold groups by
instrumentation scope, and these hold the items of the signal. Numbers have the widths that they
have on the wire.
-/

set_option autoImplicit false

namespace Telemetry.Otlp

/-! ## Attribute values -/

/-- A value of an attribute. One that is absent is `empty`. -/
inductive AnyValue where
  | empty
  | string (s : String)
  | bool (b : Bool)
  | int (n : Int64)
  | double (x : Float)
  | array (values : List AnyValue)
  | kvlist (entries : List (String × AnyValue))
  | bytes (bs : List UInt8)
  deriving Repr, Inhabited

/-- An attribute. -/
abbrev KeyValue := String × AnyValue

/-! ## The envelope -/

/-- What produced the items. -/
structure Resource where
  attributes : List KeyValue := []
  droppedAttributes : UInt32 := 0
  deriving Repr, Inhabited

/-- The library that recorded the items. -/
structure Scope where
  name : String := ""
  version : String := ""
  attributes : List KeyValue := []
  deriving Repr, Inhabited

/-- The items of one scope. -/
structure ScopeGroup (α : Type) where
  scope : Option Scope := none
  items : List α := []
  schemaUrl : String := ""
  deriving Repr, Inhabited

/-- The scopes of one resource. -/
structure ResourceGroup (α : Type) where
  resource : Option Resource := none
  scopes : List (ScopeGroup α) := []
  schemaUrl : String := ""
  deriving Repr, Inhabited

/-- A request to export items. -/
structure Export (α : Type) where
  resources : List (ResourceGroup α) := []
  deriving Repr, Inhabited

/-! ## Spans -/

/-- How the work of a span ended. -/
structure Status where
  message : String := ""
  code : Int32 := 0
  deriving Repr, Inhabited

/-- A span. -/
structure Span where
  traceId : List UInt8 := []
  spanId : List UInt8 := []
  traceState : String := ""
  parentSpanId : List UInt8 := []
  flags : UInt32 := 0
  name : String := ""
  kind : Int32 := 0
  startTime : UInt64 := 0
  endTime : UInt64 := 0
  attributes : List KeyValue := []
  status : Option Status := none
  deriving Repr, Inhabited

/-! ## Log records -/

/-- A log record. -/
structure LogRecord where
  time : UInt64 := 0
  observedTime : UInt64 := 0
  severityNumber : Int32 := 0
  severityText : String := ""
  body : AnyValue := .empty
  attributes : List KeyValue := []
  flags : UInt32 := 0
  traceId : List UInt8 := []
  spanId : List UInt8 := []
  deriving Repr, Inhabited

/-! ## Metrics -/

/-- The value of a number point. -/
inductive NumberValue where
  | double (x : Float)
  | int (n : Int64)
  deriving Repr, Inhabited

/-- A point of a gauge or a sum. -/
structure NumberPoint where
  attributes : List KeyValue := []
  startTime : UInt64 := 0
  time : UInt64 := 0
  value : Option NumberValue := none
  flags : UInt32 := 0
  deriving Repr, Inhabited

/-- A point of a histogram with explicit bounds. -/
structure HistogramPoint where
  attributes : List KeyValue := []
  startTime : UInt64 := 0
  time : UInt64 := 0
  count : UInt64 := 0
  sum : Option Float := none
  bucketCounts : List UInt64 := []
  explicitBounds : List Float := []
  min : Option Float := none
  max : Option Float := none
  deriving Repr, Inhabited

/-- A point of a histogram with exponential buckets. -/
structure ExponentialPoint where
  attributes : List KeyValue := []
  startTime : UInt64 := 0
  time : UInt64 := 0
  count : UInt64 := 0
  sum : Option Float := none
  scale : Int32 := 0
  zeroCount : UInt64 := 0
  deriving Repr, Inhabited

/-- A quantile of a summary, with its value. -/
structure Quantile where
  quantile : Float := 0.0
  value : Float := 0.0
  deriving Repr, Inhabited

/-- A point of a summary. -/
structure SummaryPoint where
  attributes : List KeyValue := []
  startTime : UInt64 := 0
  time : UInt64 := 0
  count : UInt64 := 0
  sum : Float := 0.0
  quantiles : List Quantile := []
  deriving Repr, Inhabited

/-- The data of a metric. -/
inductive MetricData where
  | gauge (points : List NumberPoint)
  | sum (points : List NumberPoint) (temporality : Int32) (monotonic : Bool)
  | histogram (points : List HistogramPoint) (temporality : Int32)
  | exponential (points : List ExponentialPoint) (temporality : Int32)
  | summary (points : List SummaryPoint)
  deriving Repr, Inhabited

/-- The number of points of a metric. -/
def MetricData.size : MetricData → Nat
  | .gauge points => points.length
  | .sum points _ _ => points.length
  | .histogram points _ => points.length
  | .exponential points _ => points.length
  | .summary points => points.length

/-- A metric. -/
structure Metric where
  name : String := ""
  description : String := ""
  unit : String := ""
  data : Option MetricData := none
  deriving Repr, Inhabited

end Telemetry.Otlp
