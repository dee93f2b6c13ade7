import Telemetry.Otlp.Message
import Telemetry.Otlp.Wire

/-!
The messages of the protocol, read from the wire.

Each message has a step that says what a field of a given number does to it. Fields may come in any
order. A scalar is replaced by a later one, a repeated field is extended, a single message is merged
with a later one, and of several alternatives the last one stands, unless it is a message of the
same alternative, which is merged as well. Fields of unknown numbers are skipped. What is not kept
is still checked.
-/

set_option autoImplicit false

namespace Telemetry.Otlp.FromWire

open Wire (Payload Field Step nested skip checking merge)

/-! ## Attribute values -/

/-- The values of an array so far. -/
def AnyValue.items : AnyValue → List AnyValue
  | .array values => values
  | _ => []

/-- The entries of a map so far. -/
def AnyValue.entries : AnyValue → List KeyValue
  | .kvlist entries => entries
  | _ => []

/-- The field of an attribute value, where each further value inside takes from the fuel. -/
def anyValueStep : Nat → Step AnyValue
  | 0, _, _, _ => none
  | fuel + 1, levels, v, f =>
    match f.number with
    | 1 => f.payload.string?.map .string
    | 2 => f.payload.bool?.map .bool
    | 3 => f.payload.int64?.map .int
    | 4 => f.payload.double?.map .double
    | 5 => (nested (valuesStep fuel) levels (AnyValue.items v) f.payload).map .array
    | 6 => (nested (entriesStep fuel) levels (AnyValue.entries v) f.payload).map .kvlist
    | 7 => f.payload.bytes?.map .bytes
    | _ => skip levels v f
where
  /-- The field of an array. -/
  valuesStep (fuel : Nat) : Step (List AnyValue) := fun levels vs f =>
    match f.number with
    | 1 => (nested (anyValueStep fuel) levels .empty f.payload).map fun v => vs ++ [v]
    | _ => skip levels vs f
  /-- The field of a map. -/
  entriesStep (fuel : Nat) : Step (List KeyValue) := fun levels kvs f =>
    match f.number with
    | 1 => (nested (entryStep fuel) levels ("", .empty) f.payload).map fun kv => kvs ++ [kv]
    | _ => skip levels kvs f
  /-- The field of an entry. -/
  entryStep (fuel : Nat) : Step KeyValue := fun levels kv f =>
    match f.number with
    | 1 => f.payload.string?.map fun k => (k, kv.2)
    | 2 => (nested (anyValueStep fuel) levels kv.2 f.payload).map fun v => (kv.1, v)
    | _ => skip levels kv f

/-- The field of an attribute. -/
def keyValueStep : Step KeyValue := anyValueStep.entryStep Wire.maxLevels

/-- An attribute, added to those before. -/
def keyValue (levels : Nat) (kvs : List KeyValue) (p : Payload) : Option (List KeyValue) :=
  (nested keyValueStep levels ("", .empty) p).map fun kv => kvs ++ [kv]

/-- Whether a payload is an attribute. -/
def isKeyValue (levels : Nat) (p : Payload) : Bool := (keyValue levels [] p).isSome

/-! ## The envelope -/

/-- A reference to an entity: two texts, and two lists of texts. -/
def entityStep : Step Unit := checking fun _ n =>
  if 1 ≤ n ∧ n ≤ 4 then some fun p => p.string?.isSome else none

/-- The field of a resource. -/
def resourceStep : Step Resource := fun levels r f =>
  match f.number with
  | 1 => (keyValue levels r.attributes f.payload).map fun kvs => { r with attributes := kvs }
  | 2 => f.payload.uint32?.map fun n => { r with droppedAttributes := n }
  | 3 => (nested entityStep levels () f.payload).map fun _ => r
  | _ => skip levels r f

/-- The field of a scope. -/
def scopeStep : Step Scope := fun levels s f =>
  match f.number with
  | 1 => f.payload.string?.map fun t => { s with name := t }
  | 2 => f.payload.string?.map fun t => { s with version := t }
  | 3 => (keyValue levels s.attributes f.payload).map fun kvs => { s with attributes := kvs }
  | 4 => f.payload.uint32?.map fun _ => s
  | _ => skip levels s f

/-- The field of a group by scope, whose items have the given step. -/
def scopeGroupStep {α : Type} [Inhabited α] (item : Step α) : Step (ScopeGroup α) :=
  fun levels g f =>
    match f.number with
    | 1 => (nested scopeStep levels (g.scope.getD {}) f.payload).map fun s =>
        { g with scope := some s }
    | 2 => (nested item levels default f.payload).map fun a => { g with items := g.items ++ [a] }
    | 3 => f.payload.string?.map fun t => { g with schemaUrl := t }
    | _ => skip levels g f

/-- The field of a group by resource. -/
def resourceGroupStep {α : Type} [Inhabited α] (item : Step α) : Step (ResourceGroup α) :=
  fun levels g f =>
    match f.number with
    | 1 => (nested resourceStep levels (g.resource.getD {}) f.payload).map fun r =>
        { g with resource := some r }
    | 2 => (nested (scopeGroupStep item) levels {} f.payload).map fun s =>
        { g with scopes := g.scopes ++ [s] }
    | 3 => f.payload.string?.map fun t => { g with schemaUrl := t }
    | _ => skip levels g f

/-- The field of an export. -/
def exportStep {α : Type} [Inhabited α] (item : Step α) : Step (Export α) := fun levels e f =>
  match f.number with
  | 1 => (nested (resourceGroupStep item) levels {} f.payload).map fun g =>
      { e with resources := e.resources ++ [g] }
  | _ => skip levels e f

/-- An export, read from the bytes of a request. -/
def export? {α : Type} [Inhabited α] (item : Step α) (bs : List UInt8) : Option (Export α) :=
  merge (exportStep item) Wire.maxLevels {} bs

/-! ## Spans -/

/-- The field of an event of a span. -/
def eventStep : Step Unit := checking fun levels n =>
  match n with
  | 1 => some fun p => p.fixed64?.isSome
  | 2 => some fun p => p.string?.isSome
  | 3 => some (isKeyValue levels)
  | 4 => some fun p => p.uint32?.isSome
  | _ => none

/-- The field of a link of a span. -/
def linkStep : Step Unit := checking fun levels n =>
  match n with
  | 1 | 2 => some fun p => p.bytes?.isSome
  | 3 => some fun p => p.string?.isSome
  | 4 => some (isKeyValue levels)
  | 5 => some fun p => p.uint32?.isSome
  | 6 => some fun p => p.fixed32?.isSome
  | _ => none

/-- The field of a status. -/
def statusStep : Step Status := fun levels s f =>
  match f.number with
  | 2 => f.payload.string?.map fun t => { s with message := t }
  | 3 => f.payload.int32?.map fun n => { s with code := n }
  | _ => skip levels s f

/-- The field of a span. -/
def spanStep : Step Span := fun levels s f =>
  match f.number with
  | 1 => f.payload.bytes?.map fun bs => { s with traceId := bs }
  | 2 => f.payload.bytes?.map fun bs => { s with spanId := bs }
  | 3 => f.payload.string?.map fun t => { s with traceState := t }
  | 4 => f.payload.bytes?.map fun bs => { s with parentSpanId := bs }
  | 5 => f.payload.string?.map fun t => { s with name := t }
  | 6 => f.payload.int32?.map fun n => { s with kind := n }
  | 7 => f.payload.fixed64?.map fun n => { s with startTime := n }
  | 8 => f.payload.fixed64?.map fun n => { s with endTime := n }
  | 9 => (keyValue levels s.attributes f.payload).map fun kvs => { s with attributes := kvs }
  | 10 | 12 | 14 => f.payload.uint32?.map fun _ => s
  | 11 => (nested eventStep levels () f.payload).map fun _ => s
  | 13 => (nested linkStep levels () f.payload).map fun _ => s
  | 15 => (nested statusStep levels (s.status.getD {}) f.payload).map fun st =>
      { s with status := some st }
  | 16 => f.payload.fixed32?.map fun n => { s with flags := n }
  | _ => skip levels s f

/-! ## Log records -/

/-- The field of a log record. -/
def logRecordStep : Step LogRecord := fun levels r f =>
  match f.number with
  | 1 => f.payload.fixed64?.map fun n => { r with time := n }
  | 2 => f.payload.int32?.map fun n => { r with severityNumber := n }
  | 3 => f.payload.string?.map fun t => { r with severityText := t }
  | 5 => (nested (anyValueStep Wire.maxLevels) levels r.body f.payload).map fun v =>
      { r with body := v }
  | 6 => (keyValue levels r.attributes f.payload).map fun kvs => { r with attributes := kvs }
  | 7 => f.payload.uint32?.map fun _ => r
  | 8 => f.payload.fixed32?.map fun n => { r with flags := n }
  | 9 => f.payload.bytes?.map fun bs => { r with traceId := bs }
  | 10 => f.payload.bytes?.map fun bs => { r with spanId := bs }
  | 11 => f.payload.fixed64?.map fun n => { r with observedTime := n }
  | 12 => f.payload.string?.map fun _ => r
  | _ => skip levels r f

/-! ## Points -/

/-- The field of an exemplar of a point. -/
def exemplarStep : Step Unit := checking fun levels n =>
  match n with
  | 2 | 3 | 6 => some fun p => p.fixed64?.isSome
  | 4 | 5 => some fun p => p.bytes?.isSome
  | 7 => some (isKeyValue levels)
  | _ => none

/-- The field of a point of a gauge or a sum. -/
def numberPointStep : Step NumberPoint := fun levels p f =>
  match f.number with
  | 2 => f.payload.fixed64?.map fun n => { p with startTime := n }
  | 3 => f.payload.fixed64?.map fun n => { p with time := n }
  | 4 => f.payload.double?.map fun x => { p with value := some (.double x) }
  | 5 => (nested exemplarStep levels () f.payload).map fun _ => p
  | 6 => f.payload.fixed64?.map fun n => { p with value := some (.int n.toInt64) }
  | 7 => (keyValue levels p.attributes f.payload).map fun kvs => { p with attributes := kvs }
  | 8 => f.payload.uint32?.map fun n => { p with flags := n }
  | _ => skip levels p f

/-- The field of a point of a histogram. -/
def histogramPointStep : Step HistogramPoint := fun levels p f =>
  match f.number with
  | 2 => f.payload.fixed64?.map fun n => { p with startTime := n }
  | 3 => f.payload.fixed64?.map fun n => { p with time := n }
  | 4 => f.payload.fixed64?.map fun n => { p with count := n }
  | 5 => f.payload.double?.map fun x => { p with sum := some x }
  | 6 => f.payload.repeated64?.map fun ns => { p with bucketCounts := p.bucketCounts ++ ns }
  | 7 => f.payload.repeated64?.map fun ns =>
      { p with explicitBounds := p.explicitBounds ++ ns.map Float.ofBits }
  | 8 => (nested exemplarStep levels () f.payload).map fun _ => p
  | 9 => (keyValue levels p.attributes f.payload).map fun kvs => { p with attributes := kvs }
  | 10 => f.payload.uint32?.map fun _ => p
  | 11 => f.payload.double?.map fun x => { p with min := some x }
  | 12 => f.payload.double?.map fun x => { p with max := some x }
  | _ => skip levels p f

/-- The field of the buckets of an exponential histogram. -/
def bucketsStep : Step Unit := checking fun _ n =>
  match n with
  | 1 => some fun p => p.sint32?.isSome
  | 2 => some fun p => p.repeatedVarint?.isSome
  | _ => none

/-- The field of a point of an exponential histogram. -/
def exponentialPointStep : Step ExponentialPoint := fun levels p f =>
  match f.number with
  | 1 => (keyValue levels p.attributes f.payload).map fun kvs => { p with attributes := kvs }
  | 2 => f.payload.fixed64?.map fun n => { p with startTime := n }
  | 3 => f.payload.fixed64?.map fun n => { p with time := n }
  | 4 => f.payload.fixed64?.map fun n => { p with count := n }
  | 5 => f.payload.double?.map fun x => { p with sum := some x }
  | 6 => f.payload.sint32?.map fun n => { p with scale := n }
  | 7 => f.payload.fixed64?.map fun n => { p with zeroCount := n }
  | 8 | 9 => (nested bucketsStep levels () f.payload).map fun _ => p
  | 10 => f.payload.uint32?.map fun _ => p
  | 11 => (nested exemplarStep levels () f.payload).map fun _ => p
  | 12 | 13 | 14 => f.payload.double?.map fun _ => p
  | _ => skip levels p f

/-- The field of a quantile of a summary. -/
def quantileStep : Step Quantile := fun levels q f =>
  match f.number with
  | 1 => f.payload.double?.map fun x => { q with quantile := x }
  | 2 => f.payload.double?.map fun x => { q with value := x }
  | _ => skip levels q f

/-- The field of a point of a summary. -/
def summaryPointStep : Step SummaryPoint := fun levels p f =>
  match f.number with
  | 2 => f.payload.fixed64?.map fun n => { p with startTime := n }
  | 3 => f.payload.fixed64?.map fun n => { p with time := n }
  | 4 => f.payload.fixed64?.map fun n => { p with count := n }
  | 5 => f.payload.double?.map fun x => { p with sum := x }
  | 6 => (nested quantileStep levels {} f.payload).map fun q =>
      { p with quantiles := p.quantiles ++ [q] }
  | 7 => (keyValue levels p.attributes f.payload).map fun kvs => { p with attributes := kvs }
  | 8 => f.payload.uint32?.map fun _ => p
  | _ => skip levels p f

/-! ## Metrics -/

/-- The points, the temporality and the monotonicity that the kinds of data have. -/
structure Points (α : Type) where
  points : List α := []
  temporality : Int32 := 0
  monotonic : Bool := false

/-- The field of data of a metric. Not every kind has a temporality or a monotonicity. -/
def pointsStep {α : Type} [Inhabited α] (temporal sum : Bool) (point : Step α) : Step (Points α) :=
  fun levels d f =>
    if f.number = 1 then
      (nested point levels default f.payload).map fun p => { d with points := d.points ++ [p] }
    else if temporal ∧ f.number = 2 then
      f.payload.int32?.map fun n => { d with temporality := n }
    else if sum ∧ f.number = 3 then f.payload.bool?.map fun b => { d with monotonic := b }
    else skip levels d f

/-- Data of a gauge so far. -/
def gaugeSoFar : Option MetricData → Points NumberPoint
  | some (.gauge points) => { points }
  | _ => {}

/-- Data of a sum so far. -/
def sumSoFar : Option MetricData → Points NumberPoint
  | some (.sum points temporality monotonic) => { points, temporality, monotonic }
  | _ => {}

/-- Data of a histogram so far. -/
def histogramSoFar : Option MetricData → Points HistogramPoint
  | some (.histogram points temporality) => { points, temporality }
  | _ => {}

/-- Data of an exponential histogram so far. -/
def exponentialSoFar : Option MetricData → Points ExponentialPoint
  | some (.exponential points temporality) => { points, temporality }
  | _ => {}

/-- Data of a summary so far. -/
def summarySoFar : Option MetricData → Points SummaryPoint
  | some (.summary points) => { points }
  | _ => {}

/-- The field of a metric. -/
def metricStep : Step Metric := fun levels m f =>
  match f.number with
  | 1 => f.payload.string?.map fun t => { m with name := t }
  | 2 => f.payload.string?.map fun t => { m with description := t }
  | 3 => f.payload.string?.map fun t => { m with unit := t }
  | 5 =>
    (nested (pointsStep false false numberPointStep) levels (gaugeSoFar m.data) f.payload).map
      fun d => { m with data := some (.gauge d.points) }
  | 7 =>
    (nested (pointsStep true true numberPointStep) levels (sumSoFar m.data) f.payload).map
      fun d => { m with data := some (.sum d.points d.temporality d.monotonic) }
  | 9 =>
    (nested (pointsStep true false histogramPointStep) levels (histogramSoFar m.data)
      f.payload).map fun d => { m with data := some (.histogram d.points d.temporality) }
  | 10 =>
    (nested (pointsStep true false exponentialPointStep) levels (exponentialSoFar m.data)
      f.payload).map fun d => { m with data := some (.exponential d.points d.temporality) }
  | 11 =>
    (nested (pointsStep false false summaryPointStep) levels (summarySoFar m.data)
      f.payload).map fun d => { m with data := some (.summary d.points) }
  | 12 => if isKeyValue levels f.payload then some m else none
  | _ => skip levels m f

/-! ## Exports -/

/-- An export of spans. -/
def traces? : List UInt8 → Option (Export Span) := export? spanStep

/-- An export of metrics. -/
def metrics? : List UInt8 → Option (Export Metric) := export? metricStep

/-- An export of log records. -/
def logs? : List UInt8 → Option (Export LogRecord) := export? logRecordStep

end Telemetry.Otlp.FromWire
