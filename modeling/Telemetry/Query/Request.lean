import Telemetry.Json.Scan
import Telemetry.Page
import Telemetry.Query.Window

/-!
Requests of clients, as JSON.

There are two forms. One names what it is about, which may be a listing or a query in some language;
the other always holds a query. Both say where the window lies, under names of their own.
-/

set_option autoImplicit false

namespace Telemetry.Query

/-! ## Subjects -/

/-- What a request is about. -/
inductive Subject where
  | promql
  | metrics
  | traces
  | logs
  | logql
  | traceql
  deriving DecidableEq, Repr

namespace Subject

/-- The name of a subject. -/
def name : Subject → String
  | .promql => "promql"
  | .metrics => "metrics"
  | .traces => "traces"
  | .logs => "logs"
  | .logql => "logql"
  | .traceql => "traceql"

/-- The subjects by their names. -/
def names : List (String × Subject) :=
  [Subject.promql, .metrics, .traces, .logs, .logql, .traceql].map fun s => (s.name, s)

end Subject

/-! ## Requests with a subject -/

/-- A request with a subject. -/
structure Request where
  subject : Subject
  query : Option String := none
  limit : Option Int := none
  offset : Option Int := none
  bounds : Bounds := {}
  deriving Repr

/-- The page of a listing that is asked for. -/
def Request.page (r : Request) : Page := Page.ofRequest r.limit r.offset

/-- A request as an object. -/
def Request.toJson (r : Request) : Json :=
  .object [("type", .string r.subject.name), ("query", .ofText? r.query),
    ("limit", (r.limit.map Json.ofInt).getD .null),
    ("offset", (r.offset.map Json.ofInt).getD .null),
    ("timeRange", .ofText? r.bounds.timeRange), ("step", .ofText? r.bounds.step),
    ("start", .ofText? r.bounds.start), ("end", .ofText? r.bounds.stop)]

open Json.Scan (Member)

/-- A member of a record that may be null or absent. -/
def optionalMember {σ α : Type} (name : String) (aliases : List String) (scan : Json.Scan α)
    (set : σ → Option α → σ) : Member σ :=
  { name, aliases
    scan := fun a bs => do
      let (v, rest) ← scan.optional bs
      return (set a v, rest) }

/-- The members of a request with a subject, in their order. -/
def Request.members : List (Member Request) :=
  [{ name := "type", needed := true
     scan := fun r bs => do
       let (s, rest) ← Json.Scan.variant Subject.names bs
       return ({ r with subject := s }, rest) },
   optionalMember "query" [] .text fun r v => { r with query := v },
   optionalMember "limit" [] .signed64 fun r v => { r with limit := v },
   optionalMember "offset" [] .signed64 fun r v => { r with offset := v },
   optionalMember "timeRange" ["time_range"] .text fun r v =>
     { r with bounds := { r.bounds with timeRange := v } },
   optionalMember "step" [] .text fun r v => { r with bounds := { r.bounds with step := v } },
   optionalMember "start" [] .text fun r v => { r with bounds := { r.bounds with start := v } },
   optionalMember "end" [] .text fun r v => { r with bounds := { r.bounds with stop := v } }]

/-- The request that a text describes. -/
def Request.ofBytes (body : List UInt8) : Except Json.Fault Request :=
  (Json.Scan.record Request.members { subject := .promql }).whole body

/-! ## Requests with a query alone -/

/-- A request with a query alone. -/
structure MetricsRequest where
  query : String
  bounds : Bounds := {}
  deriving Repr

/-- A request as an object. -/
def MetricsRequest.toJson (r : MetricsRequest) : Json :=
  .object [("query", .string r.query), ("start_time", .ofText? r.bounds.start),
    ("end_time", .ofText? r.bounds.stop), ("time_range", .ofText? r.bounds.timeRange),
    ("step", .ofText? r.bounds.step)]

/-- The members of a request with a query alone, in their order. -/
def MetricsRequest.members : List (Member MetricsRequest) :=
  [{ name := "query", needed := true
     scan := fun r bs => do
       let (q, rest) ← Json.Scan.text bs
       return ({ r with query := q }, rest) },
   optionalMember "start_time" ["start"] .text fun r v =>
     { r with bounds := { r.bounds with start := v } },
   optionalMember "end_time" ["end"] .text fun r v =>
     { r with bounds := { r.bounds with stop := v } },
   optionalMember "time_range" ["timeRange"] .text fun r v =>
     { r with bounds := { r.bounds with timeRange := v } },
   optionalMember "step" [] .text fun r v => { r with bounds := { r.bounds with step := v } }]

/-- The request that a text describes. -/
def MetricsRequest.ofBytes (body : List UInt8) : Except Json.Fault MetricsRequest :=
  (Json.Scan.record MetricsRequest.members { query := "" }).whole body

end Telemetry.Query
